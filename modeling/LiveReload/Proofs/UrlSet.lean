import LiveReload.UrlSet
import Mathlib.Data.List.Basic
import Mathlib.Data.List.Induction

namespace LiveReload.UrlSet

variable {set : UrlSet} {url : Url} {urls : List Url}

theorem insert_of_mem (h : url ∈ set) : set.insert url = set := dif_pos h

theorem erase_of_not_mem (h : url ∉ set) : set.erase url = set := by
  apply ext
  rw [toList_erase, List.filter_eq_self]
  intro other ho
  simp only [ne_eq, decide_eq_true_eq]
  rintro rfl
  exact h ho

theorem erase_insert_of_not_mem (h : url ∉ set) : (set.insert url).erase url = set := by
  have herase := congrArg toList (erase_of_not_mem h)
  apply ext
  rw [toList_erase, toList_insert, if_neg h, List.filter_append, ← toList_erase, herase]
  simp

theorem ofList_append_singleton (urls : List Url) (url : Url) :
    ofList (urls ++ [url]) = (ofList urls).insert url := List.foldl_append

theorem toList_ofList (urls : List Url) : (ofList urls).toList = urls.eraseDups := by
  induction urls using List.reverseRecOn with
  | nil => rfl
  | append_singleton urls url ih =>
      rw [ofList_append_singleton, toList_insert, List.eraseDups_append, ih]
      by_cases h : url ∈ urls
      · rw [if_pos (mem_ofList.mpr h)]
        simp [List.removeAll, h]
      · rw [if_neg (mt mem_ofList.mp h)]
        simp [List.removeAll, h, List.eraseDups_cons]

-- A repetition in what is added makes no difference.
theorem foldl_insert_ofList (urls : List Url) (set : UrlSet) :
    (ofList urls).toList.foldl insert set = urls.foldl insert set := by
  induction urls using List.reverseRecOn with
  | nil => rfl
  | append_singleton urls url ih =>
      rw [ofList_append_singleton, toList_insert, List.foldl_append, ← ih]
      split
      · rename_i h
        exact (insert_of_mem ((mem_foldl_insert _ _).mpr (Or.inr h))).symm
      · rw [List.foldl_append]

-- Neither does what is in the set already.
theorem foldl_insert_filter {p : Url → Bool} (h : ∀ url ∈ urls, p url = false → url ∈ set) :
    (urls.filter p).foldl insert set = urls.foldl insert set := by
  induction urls generalizing set with
  | nil => rfl
  | cons head tail ih =>
      have htail : ∀ url ∈ tail, p url = false → url ∈ set.insert head := fun url hm hp =>
        mem_insert.mpr (Or.inl (h url (List.mem_cons_of_mem head hm) hp))
      rw [List.foldl_cons, ← ih htail]
      cases hp : p head with
      | true => rw [List.filter_cons_of_pos hp, List.foldl_cons]
      | false =>
          rw [List.filter_cons_of_neg (by simp [hp]),
            insert_of_mem (h head List.mem_cons_self hp)]

-- The members that the set had rank below `base`, and those that it gets where the list has them.
theorem pairwise_foldl_insert {rank : Url → Nat} (base : Nat)
    (hset : set.toList.Pairwise fun one other => rank one < rank other)
    (hbelow : ∀ url ∈ set, rank url < base)
    (hurls : ∀ url ∈ urls, url ∉ set → rank url = base + urls.idxOf url) :
    (urls.foldl insert set).toList.Pairwise fun one other => rank one < rank other := by
  induction urls generalizing set base with
  | nil => exact hset
  | cons head tail ih =>
      rw [List.foldl_cons]
      have hhead : head ∉ set → rank head = base := fun hm => by
        simpa using hurls head List.mem_cons_self hm
      refine ih (base + 1) ?_ ?_ ?_
      · rw [toList_insert]
        split
        · exact hset
        · rename_i hm
          refine List.pairwise_append.mpr ⟨hset, List.pairwise_singleton _ _, ?_⟩
          rintro url hu other ho
          rw [List.mem_singleton.mp ho, hhead hm]
          exact hbelow url hu
      · intro url hu
        rcases mem_insert.mp hu with hold | rfl
        · exact Nat.lt_succ_of_lt (hbelow url hold)
        · by_cases hm : url ∈ set
          · exact Nat.lt_succ_of_lt (hbelow url hm)
          · exact (hhead hm) ▸ Nat.lt_succ_self _
      · intro url hu hm
        obtain ⟨hold, hne⟩ := not_or.mp (mt mem_insert.mpr hm)
        rw [hurls url (List.mem_cons_of_mem head hu) hold, List.idxOf_cons_ne _ (Ne.symm hne)]
        omega

end LiveReload.UrlSet
