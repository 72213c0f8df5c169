namespace LiveReload

/-- A resource is known by its address, which is compared as text and never taken apart. -/
abbrev Url := String

-- Members stand in the order in which they came in; one that comes again keeps its place.
structure UrlSet where
  toList : List Url
  nodup : toList.Nodup
deriving DecidableEq

namespace UrlSet

instance : Membership Url UrlSet := ⟨fun set url => url ∈ set.toList⟩

theorem mem_def {url : Url} {set : UrlSet} : url ∈ set ↔ url ∈ set.toList := Iff.rfl

instance (url : Url) (set : UrlSet) : Decidable (url ∈ set) :=
  inferInstanceAs (Decidable (url ∈ set.toList))

theorem ext {a b : UrlSet} (h : a.toList = b.toList) : a = b := by
  cases a; cases b; cases h; rfl

def empty : UrlSet := ⟨[], List.nodup_nil⟩

instance : EmptyCollection UrlSet := ⟨empty⟩

instance : Inhabited UrlSet := ⟨empty⟩

@[simp] theorem toList_empty : (∅ : UrlSet).toList = [] := rfl

def isEmpty (set : UrlSet) : Bool := set.toList.isEmpty

@[simp] theorem isEmpty_iff {set : UrlSet} : set.isEmpty = true ↔ set.toList = [] := by
  simp [isEmpty]

-- A new member goes to the end.
def insert (set : UrlSet) (url : Url) : UrlSet :=
  if h : url ∈ set then set
  else ⟨set.toList ++ [url], by
    rw [List.nodup_append]
    exact ⟨set.nodup, by simp, by rintro a ha b hb rfl; simp at hb; exact h (hb ▸ ha)⟩⟩

theorem toList_insert (set : UrlSet) (url : Url) :
    (set.insert url).toList = if url ∈ set then set.toList else set.toList ++ [url] := by
  unfold insert
  split <;> rfl

@[simp] theorem mem_insert {set : UrlSet} {url other : Url} :
    other ∈ set.insert url ↔ other ∈ set ∨ other = url := by
  rw [mem_def, toList_insert]
  split
  · exact ⟨Or.inl, fun h => h.elim id (· ▸ ‹_›)⟩
  · simp [mem_def]

def erase (set : UrlSet) (url : Url) : UrlSet :=
  ⟨set.toList.filter (· ≠ url), set.nodup.filter _⟩

@[simp] theorem toList_erase (set : UrlSet) (url : Url) :
    (set.erase url).toList = set.toList.filter (· ≠ url) := rfl

@[simp] theorem mem_erase {set : UrlSet} {url other : Url} :
    other ∈ set.erase url ↔ other ∈ set ∧ other ≠ url := by
  simp [mem_def]

-- Of a repeated URL the first occurrence counts.
def ofList (urls : List Url) : UrlSet := urls.foldl insert ∅

theorem mem_foldl_insert {url : Url} (urls : List Url) (set : UrlSet) :
    url ∈ urls.foldl insert set ↔ url ∈ set ∨ url ∈ urls := by
  induction urls generalizing set with
  | nil => simp
  | cons head tail ih => simp [ih, or_assoc]

@[simp] theorem mem_ofList {url : Url} {urls : List Url} : url ∈ ofList urls ↔ url ∈ urls := by
  rw [ofList, mem_foldl_insert]
  simp [mem_def]

-- The members that the other set lacks, in this set's order.
def without (set other : UrlSet) : List Url := set.toList.filter (· ∉ other)

@[simp] theorem mem_without {set other : UrlSet} {url : Url} :
    url ∈ set.without other ↔ url ∈ set ∧ url ∉ other := by
  simp [without, mem_def]

end UrlSet

end LiveReload
