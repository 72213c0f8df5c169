namespace LiveReload

structure Table (α : Type) where
  entries : List (String × α)
  nodup : (entries.map Prod.fst).Nodup

namespace Table

variable {α β : Type}

def keys (table : Table α) : List String := table.entries.map Prod.fst

def values (table : Table α) : List α := table.entries.map Prod.snd

def size (table : Table α) : Nat := table.entries.length

theorem ext {a b : Table α} (h : a.entries = b.entries) : a = b := by
  cases a; cases b; cases h; rfl

def empty : Table α := ⟨[], List.nodup_nil⟩

instance : EmptyCollection (Table α) := ⟨empty⟩

instance : Inhabited (Table α) := ⟨empty⟩

def get? (table : Table α) (key : String) : Option α :=
  (table.entries.find? (·.1 = key)).map Prod.snd

def contains (table : Table α) (key : String) : Bool := (table.get? key).isSome

theorem contains_iff_mem_keys {table : Table α} {key : String} :
    table.contains key = true ↔ key ∈ table.keys := by
  simp [contains, get?, keys, Option.isSome_map]

theorem mem_values_of_get? {table : Table α} {key : String} {value : α}
    (h : table.get? key = some value) : value ∈ table.values := by
  obtain ⟨entry, he, rfl⟩ := Option.map_eq_some_iff.1 h
  exact List.mem_map.2 ⟨entry, List.mem_of_find?_eq_some he, rfl⟩

-- Rewrites every value in place; the key is at hand.
def mapWithKey (table : Table α) (f : String → α → β) : Table β :=
  ⟨table.entries.map fun entry => (entry.1, f entry.1 entry.2), by
    simpa [List.map_map, Function.comp_def] using table.nodup⟩

@[simp] theorem keys_mapWithKey (table : Table α) (f : String → α → β) :
    (table.mapWithKey f).keys = table.keys := by
  simp [keys, mapWithKey, List.map_map, Function.comp_def]

@[simp] theorem get?_mapWithKey (table : Table α) (f : String → α → β) (key : String) :
    (table.mapWithKey f).get? key = (table.get? key).map (f key) := by
  simp only [get?, mapWithKey, List.find?_map, Function.comp_def, Option.map_map]
  cases h : table.entries.find? (·.1 = key) with
  | none => simp
  | some entry =>
      have hk : entry.1 = key := by simpa using List.find?_some h
      simp [hk]

def modify (table : Table α) (key : String) (f : α → α) : Table α :=
  table.mapWithKey fun other value => if other = key then f value else value

@[simp] theorem keys_modify (table : Table α) (key : String) (f : α → α) :
    (table.modify key f).keys = table.keys := keys_mapWithKey _ _

theorem get?_modify (table : Table α) (key : String) (f : α → α) (other : String) :
    (table.modify key f).get? other =
      if other = key then (table.get? other).map f else table.get? other := by
  rw [modify, get?_mapWithKey]
  split <;> simp

-- An unknown key goes to the end.
def insert (table : Table α) (key : String) (value : α) : Table α :=
  if h : key ∈ table.keys then table.modify key fun _ => value
  else ⟨table.entries ++ [(key, value)], by
    rw [List.map_append, List.nodup_append]
    exact ⟨table.nodup, by simp, by rintro a ha b hb rfl; simp at hb; exact h (hb ▸ ha)⟩⟩

theorem keys_insert (table : Table α) (key : String) (value : α) :
    (table.insert key value).keys =
      if key ∈ table.keys then table.keys else table.keys ++ [key] := by
  unfold insert
  split
  · simp
  · simp [keys]

theorem get?_eq_none_iff {table : Table α} {key : String} :
    table.get? key = none ↔ key ∉ table.keys := by
  rw [← contains_iff_mem_keys, contains]
  cases table.get? key <;> simp

theorem get?_insert (table : Table α) (key : String) (value : α) (other : String) :
    (table.insert key value).get? other =
      if other = key then some value else table.get? other := by
  unfold insert
  split
  · rename_i h
    rw [get?_modify]
    split
    · subst other
      cases hg : table.get? key with
      | none => exact absurd h (get?_eq_none_iff.1 hg)
      | some _ => rfl
    · rfl
  · rename_i h
    simp only [get?, List.find?_append]
    have hn := get?_eq_none_iff.2 h
    simp only [get?, Option.map_eq_none_iff] at hn
    by_cases ho : other = key
    · subst other
      simp [hn]
    · simp only [if_neg ho]
      cases table.entries.find? (·.1 = other) with
      | some _ => simp
      | none => simp [Ne.symm ho]

def erase (table : Table α) (key : String) : Table α :=
  ⟨table.entries.filter (·.1 ≠ key), (table.nodup.sublist
    (List.Sublist.map Prod.fst List.filter_sublist))⟩

@[simp] theorem keys_erase (table : Table α) (key : String) :
    (table.erase key).keys = table.keys.filter (· ≠ key) := by
  simp [keys, erase, List.filter_map, Function.comp_def]

theorem get?_erase (table : Table α) (key other : String) :
    (table.erase key).get? other = if other = key then none else table.get? other := by
  split
  · subst other
    exact get?_eq_none_iff.2 (by simp)
  · rename_i h
    simp only [get?, erase, List.find?_filter]
    congr 2
    funext entry
    by_cases he : entry.1 = other <;> simp [he, h]

end Table

end LiveReload
