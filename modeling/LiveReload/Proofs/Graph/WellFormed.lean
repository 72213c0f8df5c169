import LiveReload.Proofs.Graph.Edit

namespace LiveReload.Graph

inductive Edit where
  | register (url : Url)
  | declare (url : Url) (declaration : Declaration)
  | remove (url : Url)

def edit (graph : Graph) : Edit → Graph
  | .register url => graph.register url
  | .declare url declaration => (graph.declare url declaration).result.graph
  | .remove url => (graph.remove url).result.graph

-- The graph that edits make out of nothing.
def ofEdits (edits : List Edit) : Graph := edits.foldl edit ∅

theorem ofEdits_concat (edits : List Edit) (next : Edit) :
    ofEdits (edits ++ [next]) = (ofEdits edits).edit next := List.foldl_append

-- Each resource is registered under its own URL.
def Keyed (graph : Graph) : Prop :=
  ∀ url resource, graph.get? url = some resource → resource.url = url

-- An edge has both of its ends or neither, and no end at a URL without a resource.
structure WellFormed (graph : Graph) : Prop where
  keyed : graph.Keyed
  mirrored : ∀ source target, target ∈ graph.dependenciesOf source ↔
    source ∈ graph.dependentsOf target

section Keyed

variable {graph : Graph}

theorem Keyed.mem_nodes (h : graph.Keyed) {resource : Resource} :
    resource ∈ graph.nodes ↔ graph.get? resource.url = some resource := by
  constructor
  · intro hm
    obtain ⟨⟨key, value⟩, he, rfl⟩ := List.mem_map.mp hm
    have hg : graph.get? key = some value := Table.mem_entries_iff.mp he
    rwa [h key value hg]
  · exact Table.mem_values_of_get?

theorem Keyed.register (h : graph.Keyed) (added : Url) : (graph.register added).Keyed := by
  intro url resource hg
  rw [get?_register] at hg
  split at hg
  · subst url
    cases ha : graph.get? added with
    | none =>
        rw [ha] at hg
        cases hg
        rfl
    | some other =>
        rw [ha] at hg
        cases hg
        exact h added other ha
  · exact h url resource hg

theorem Keyed.foldl_register (h : graph.Keyed) (urls : List Url) :
    (urls.foldl Graph.register graph).Keyed := by
  induction urls generalizing graph with
  | nil => exact h
  | cons added urls ih => exact ih (h.register added)

theorem Keyed.mapResources (h : graph.Keyed) {f : Url → Resource → Resource}
    (hf : ∀ key resource, (f key resource).url = resource.url) : (graph.mapResources f).Keyed := by
  intro url resource hg
  rw [get?_mapResources] at hg
  obtain ⟨before, hb, rfl⟩ := Option.map_eq_some_iff.mp hg
  rw [hf]
  exact h url before hb

theorem Keyed.modify (h : graph.Keyed) (edited : Url) {f : Resource → Resource}
    (hf : ∀ resource, (f resource).url = resource.url) : (graph.modify edited f).Keyed :=
  h.mapResources fun key resource => by split_ifs; exacts [hf resource, rfl]

theorem Keyed.declare (h : graph.Keyed) (url : Url) (declaration : Declaration) :
    (graph.declare url declaration).result.graph.Keyed := by
  have hdeclared := (h.register url).modify url (f := (·.declare declaration)) fun _ => rfl
  cases hd : declaration.dependencies with
  | none =>
      rw [graph_declare_of_none hd]
      exact hdeclared
  | some urls =>
      rw [result_declare_of_some hd, graph_redirect]
      apply Keyed.mapResources
      · apply Keyed.foldl_register
        exact hdeclared.modify url fun _ => rfl
      · intro key resource
        split_ifs <;> rfl

theorem Keyed.remove (h : graph.Keyed) (url : Url) : (graph.remove url).result.graph.Keyed := by
  intro other resource hg
  cases hu : graph.get? url with
  | none =>
      rw [remove_of_none hu] at hg
      exact h other resource hg
  | some gone =>
      rw [get?_remove hu] at hg
      split at hg
      · cases hg
      · obtain ⟨before, hb, rfl⟩ := Option.map_eq_some_iff.mp hg
        have hs : (sever gone url other before).url = before.url := by
          unfold sever
          split_ifs <;> rfl
        exact hs.trans (h other before hb)

end Keyed

namespace WellFormed

variable {graph : Graph}

theorem empty : (∅ : Graph).WellFormed where
  keyed := by
    intro url resource hg
    cases hg
  mirrored := fun _ _ => by simp [mem_dependenciesOf, mem_dependentsOf]

theorem register (h : graph.WellFormed) (url : Url) : (graph.register url).WellFormed where
  keyed := h.keyed.register url
  mirrored := fun source target => by
    rw [dependenciesOf_register, dependentsOf_register]
    exact h.mirrored source target

theorem declare (h : graph.WellFormed) (url : Url) (declaration : Declaration) :
    (graph.declare url declaration).result.graph.WellFormed where
  keyed := h.keyed.declare url declaration
  mirrored := fun source target => by
    have hm := h.mirrored source target
    rw [dependenciesOf_declare]
    cases hd : declaration.dependencies with
    | none =>
        rw [dependentsOf_declare_of_none hd, ← hm]
        split
        · subst source
          rfl
        · rfl
    | some urls =>
        rw [dependentsOf_declare_of_some hd]
        by_cases hs : source = url
        · subst source
          -- of the source itself every target has just been put right
          rw [if_pos rfl, Option.map_some, Option.getD_some]
          by_cases hold : target ∈ graph.dependenciesOf url <;>
            by_cases hnew : target ∈ UrlSet.ofList urls <;>
            simp [hold, hnew, ← hm]
        · rw [if_neg hs]
          split_ifs <;> simp [hs, hm]

theorem remove (h : graph.WellFormed) (url : Url) : (graph.remove url).result.graph.WellFormed where
  keyed := h.keyed.remove url
  mirrored := fun source target => by
    have hm := h.mirrored source target
    have hsource := h.mirrored source url
    have htarget := h.mirrored url target
    rw [dependenciesOf_remove, dependentsOf_remove]
    by_cases hs : source = url
    · subst source
      rw [if_pos rfl]
      by_cases ht : target = url
      · simp [ht, UrlSet.mem_def]
      · rw [if_neg ht]
        split_ifs with hold
        · simp [UrlSet.mem_def]
        · simp [← htarget, hold, UrlSet.mem_def]
    · rw [if_neg hs]
      by_cases ht : target = url
      · subst target
        rw [if_pos rfl]
        split_ifs with hold
        · simp [UrlSet.mem_def]
        · simp [hsource, hold, UrlSet.mem_def]
      · rw [if_neg ht]
        split_ifs <;> simp [hs, ht, hm]

theorem contains_of_mem_dependenciesOf (h : graph.WellFormed) {url other : Url}
    (hm : other ∈ graph.dependenciesOf url) : graph.contains other = true := by
  rw [h.mirrored] at hm
  obtain ⟨resource, hr, -⟩ := mem_dependentsOf.mp hm
  rw [contains_eq_isSome, hr]
  rfl

-- What was listed before is registered already, so all that is listed is registered afterwards.
theorem contains_declare (h : graph.WellFormed) {url : Url} {declaration : Declaration}
    {other : Url} : (graph.declare url declaration).result.graph.contains other = true ↔
      graph.contains other = true ∨ other = url ∨ other ∈ declaration.dependencies.getD [] := by
  cases hd : declaration.dependencies with
  | none => simp [graph_declare_of_none hd]
  | some urls =>
      have hmem : other ∈ graph.dependenciesOf url → graph.contains other = true :=
        h.contains_of_mem_dependenciesOf
      rw [result_declare_of_some hd, graph_redirect, contains_mapResources, contains_relisted,
        contains_modify, contains_register, dependenciesOf_declared, UrlSet.mem_without,
        UrlSet.mem_ofList, Option.getD_some]
      tauto

theorem edit (h : graph.WellFormed) (next : Edit) : (graph.edit next).WellFormed := by
  cases next with
  | register url => exact h.register url
  | declare url declaration => exact h.declare url declaration
  | remove url => exact h.remove url

theorem foldl_edit (h : graph.WellFormed) (edits : List Edit) :
    (edits.foldl Graph.edit graph).WellFormed := by
  induction edits generalizing graph with
  | nil => exact h
  | cons next edits ih => exact ih (h.edit next)

end WellFormed

theorem wellFormed_ofEdits (edits : List Edit) : (ofEdits edits).WellFormed :=
  WellFormed.empty.foldl_edit edits

end LiveReload.Graph
