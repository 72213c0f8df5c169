import LiveReload.Table
import Mathlib.Data.List.Nodup

namespace LiveReload.Table

variable {α β γ : Type}

@[simp] theorem get?_empty (key : String) : (∅ : Table α).get? key = none := rfl

theorem mem_entries_iff {table : Table α} {key : String} {value : α} :
    (key, value) ∈ table.entries ↔ table.get? key = some value := by
  constructor
  · intro hm
    obtain ⟨found, hf⟩ : ∃ found, table.get? key = some found := by
      refine Option.isSome_iff_exists.mp (contains_iff_mem_keys.mpr ?_)
      exact List.mem_map.mpr ⟨_, hm, rfl⟩
    obtain ⟨entry, he, rfl⟩ := Option.map_eq_some_iff.mp hf
    have hk : entry.1 = key := by simpa using List.find?_some he
    have := List.inj_on_of_nodup_map table.nodup (List.mem_of_find?_eq_some he) hm hk
    rw [hf, this]
  · intro hg
    obtain ⟨entry, he, rfl⟩ := Option.map_eq_some_iff.mp hg
    have hk : entry.1 = key := by simpa using List.find?_some he
    exact hk ▸ List.mem_of_find?_eq_some he

theorem mem_keys_insert {table : Table α} {key other : String} {value : α} :
    other ∈ (table.insert key value).keys ↔ other = key ∨ other ∈ table.keys := by
  rw [keys_insert]
  split
  · rename_i h
    refine ⟨Or.inr, ?_⟩
    rintro (rfl | ho)
    · exact h
    · exact ho
  · rw [List.mem_append, List.mem_singleton, or_comm]

section MapWithKey

theorem mapWithKey_mapWithKey (table : Table α) (f : String → α → β) (g : String → β → γ) :
    (table.mapWithKey f).mapWithKey g = table.mapWithKey fun key value => g key (f key value) := by
  apply Table.ext
  simp [mapWithKey]

theorem mapWithKey_congr {table : Table α} {f g : String → α → β}
    (h : ∀ key value, table.get? key = some value → f key value = g key value) :
    table.mapWithKey f = table.mapWithKey g := by
  apply Table.ext
  apply List.map_congr_left
  rintro ⟨key, value⟩ he
  rw [h key value (mem_entries_iff.mp he)]

theorem mapWithKey_eq_self {table : Table α} {f : String → α → α}
    (h : ∀ key value, table.get? key = some value → f key value = value) :
    table.mapWithKey f = table :=
  (mapWithKey_congr h).trans (Table.ext (List.map_id _))

theorem erase_mapWithKey (table : Table α) (f : String → α → β) (key : String) :
    (table.mapWithKey f).erase key = (table.erase key).mapWithKey f := by
  apply Table.ext
  simp [erase, mapWithKey, List.filter_map, Function.comp_def]

end MapWithKey

-- Writing what is there already changes nothing.
theorem insert_of_get? {table : Table α} {key : String} {value : α}
    (h : table.get? key = some value) : table.insert key value = table := by
  have hk : key ∈ table.keys := by
    rw [← contains_iff_mem_keys, contains, h]
    rfl
  rw [insert, dif_pos hk]
  apply mapWithKey_eq_self
  intro other found hf
  split
  · subst other
    exact Option.some.inj (h.symm.trans hf)
  · rfl

-- Where the key can be read off the value, the values are as distinct as the keys.
theorem values_eq_of_keyed {table : Table α} {f : α → String}
    (h : ∀ key value, table.get? key = some value → f value = key) :
    table.values.map f = table.keys := by
  rw [values, keys, List.map_map]
  apply List.map_congr_left
  rintro ⟨key, value⟩ he
  exact h key value (mem_entries_iff.mp he)

section Erase

variable {table : Table α} {key : String}

theorem erase_of_get?_eq_none (h : table.get? key = none) : table.erase key = table := by
  have hk := get?_eq_none_iff.mp h
  apply Table.ext
  refine List.filter_eq_self.mpr fun entry he => ?_
  have hne : entry.1 ≠ key := by
    rintro rfl
    exact hk (List.mem_map_of_mem he)
  simpa using hne

theorem entries_erase (table : Table α) (key : String) :
    (table.erase key).entries = table.entries.filter (·.1 ≠ key) := rfl

theorem entries_insert_of_not_mem {value : α} (h : key ∉ table.keys) :
    (table.insert key value).entries = table.entries ++ [(key, value)] := by
  rw [insert, dif_neg h]

theorem erase_insert_of_not_mem {value : α} (h : key ∉ table.keys) :
    (table.insert key value).erase key = table := by
  have herase := congrArg entries (erase_of_get?_eq_none (get?_eq_none_iff.mpr h))
  apply Table.ext
  rw [entries_erase, entries_insert_of_not_mem h, List.filter_append, ← entries_erase, herase]
  simp

theorem erase_insert_of_ne {other : String} {value : α} (hne : other ≠ key) :
    (table.insert other value).erase key = (table.erase key).insert other value := by
  have hmem : other ∈ (table.erase key).keys ↔ other ∈ table.keys := by simp [hne]
  by_cases h : other ∈ table.keys
  · rw [insert, dif_pos h, insert, dif_pos (hmem.mpr h)]
    exact erase_mapWithKey ..
  · apply Table.ext
    rw [entries_insert_of_not_mem (mt hmem.mp h), entries_erase, entries_insert_of_not_mem h,
      List.filter_append, ← entries_erase]
    simp [hne]

end Erase

section Perm

variable {table : Table α} {key : String}

-- A known key has one entry, which stands somewhere between those of other keys.
theorem entries_eq_of_mem_keys (h : key ∈ table.keys) :
    ∃ before value after, table.entries = before ++ (key, value) :: after ∧
      ∀ entry ∈ before ++ after, entry.1 ≠ key := by
  obtain ⟨entry, he, rfl⟩ := List.mem_map.mp h
  obtain ⟨before, after, hsplit⟩ := List.append_of_mem he
  refine ⟨before, entry.2, after, hsplit, fun other ho heq => ?_⟩
  have hnodup := table.nodup
  rw [hsplit, List.map_append, List.map_cons] at hnodup
  have hnot := (List.nodup_cons.mp (List.nodup_middle.mp hnodup)).1
  rw [← List.map_append] at hnot
  exact hnot (heq ▸ List.mem_map_of_mem ho)

-- Written under a key, a value stands beside the values of the other keys.
theorem values_insert_perm (table : Table α) (key : String) (value : α) :
    (table.insert key value).values.Perm (value :: (table.erase key).values) := by
  by_cases hk : key ∈ table.keys
  · obtain ⟨before, old, after, hsplit, hother⟩ := entries_eq_of_mem_keys hk
    have herase : (table.erase key).entries = before ++ after := by
      have hkept : (before ++ after).filter (·.1 ≠ key) = before ++ after :=
        List.filter_eq_self.mpr fun entry he => by simpa using hother entry he
      rw [List.filter_append] at hkept
      simp only [erase, hsplit, List.filter_append, List.filter_cons, ne_eq, not_true_eq_false,
        decide_false, Bool.false_eq_true, if_false]
      exact hkept
    have hsame : ∀ entry ∈ before ++ after, (if entry.1 = key then value else entry.2) = entry.2 :=
      fun entry he => if_neg (hother entry he)
    have hvalues : (table.insert key value).values =
        before.map Prod.snd ++ value :: after.map Prod.snd := by
      simp only [insert, dif_pos hk, modify, mapWithKey, values, hsplit, List.map_append,
        List.map_map, List.map_cons, Function.comp_def, if_true]
      congr 1
      · exact List.map_congr_left fun entry he => hsame entry (List.mem_append_left _ he)
      · congr 1
        exact List.map_congr_left fun entry he => hsame entry (List.mem_append_right _ he)
    rw [hvalues, values, herase, List.map_append]
    exact List.perm_middle
  · rw [erase_of_get?_eq_none (get?_eq_none_iff.mpr hk), insert, dif_neg hk, values, values,
      List.map_append]
    exact List.perm_append_singleton _ _

theorem values_perm_of_get? {value : α} (h : table.get? key = some value) :
    table.values.Perm (value :: (table.erase key).values) := by
  have := values_insert_perm table key value
  rwa [insert_of_get? h] at this

end Perm

end LiveReload.Table
