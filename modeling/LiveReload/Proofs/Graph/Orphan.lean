import LiveReload.Proofs.Graph.WellFormed

namespace LiveReload.Graph

-- What only `url` referenced `before` and nothing does `after`, in the order of its references.
def orphans (before after : Graph) (url : Url) : List Url :=
  (before.dependenciesOf url).toList.filter fun other =>
    !(before.dependentsOf other).isEmpty && (after.dependentsOf other).isEmpty

variable {graph : Graph} {url other : Url} {declaration : Declaration}

theorem isUnused_iff : graph.isUnused url = true ↔
    graph.contains url = true ∧ (graph.dependentsOf url).isEmpty = true := by
  cases h : graph.get? url <;> simp [isUnused, contains_eq_isSome, dependentsOf, h, Resource.isUnused]

theorem isEmpty_dependentsOf_iff : (graph.dependentsOf url).isEmpty = true ↔
    ∀ source, source ∉ graph.dependentsOf url := by
  rw [UrlSet.isEmpty_iff, List.eq_nil_iff_forall_not_mem]
  rfl

-- Only `url` changes what it references, so nobody else can have taken a last dependent away.
theorem WellFormed.mem_orphans_declare (h : graph.WellFormed) :
    other ∈ graph.orphans (graph.declare url declaration).result.graph url ↔
      (∃ source, source ∈ graph.dependentsOf other) ∧
        ∀ source, source ∉ (graph.declare url declaration).result.graph.dependentsOf other := by
  rw [orphans, List.mem_filter, ← UrlSet.mem_def, Bool.and_eq_true, Bool.not_eq_true',
    ← Bool.not_eq_true, isEmpty_dependentsOf_iff, isEmpty_dependentsOf_iff, not_forall_not]
  constructor
  · exact And.right
  · rintro ⟨⟨source, hs⟩, hnone⟩
    refine ⟨?_, ⟨source, hs⟩, hnone⟩
    have hgone := hnone source
    rw [← h.mirrored] at hs
    rw [← (h.declare url declaration).mirrored, dependenciesOf_declare] at hgone
    by_cases hu : source = url
    · exact hu ▸ hs
    · rw [if_neg hu] at hgone
      exact absurd hs hgone

theorem orphaned_declare_of_none (h : declaration.dependencies = none) :
    (graph.declare url declaration).result.orphaned = [] := by
  simp [declare, h]

theorem orphaned_declare_of_some {urls : List Url} (h : declaration.dependencies = some urls) :
    (graph.declare url declaration).result.orphaned =
      ((graph.dependenciesOf url).without (.ofList urls)).filter
        (graph.declare url declaration).result.graph.isUnused := by
  rw [result_declare_of_some h, redirect, dependenciesOf_declared]

theorem WellFormed.orphaned_declare (h : graph.WellFormed) (url : Url) (declaration : Declaration) :
    (graph.declare url declaration).result.orphaned =
      graph.orphans (graph.declare url declaration).result.graph url := by
  have hused : ∀ other, other ∈ (graph.dependenciesOf url).toList →
      (graph.dependentsOf other).isEmpty = false := by
    intro other ho
    rw [← Bool.not_eq_true, isEmpty_dependentsOf_iff]
    exact fun hn => hn url ((h.mirrored url other).mp ho)
  cases hd : declaration.dependencies with
  | none =>
      rw [orphaned_declare_of_none hd, eq_comm, orphans, List.filter_eq_nil_iff]
      intro other ho
      simp [dependentsOf_declare_of_none hd, hused other ho]
  | some urls =>
      rw [orphaned_declare_of_some hd, UrlSet.without, List.filter_filter, orphans]
      apply List.filter_congr
      intro other ho
      have hafter := (h.declare url declaration).mirrored url other
      rw [dependenciesOf_declare, if_pos rfl, hd, Option.map_some, Option.getD_some] at hafter
      rw [Bool.eq_iff_iff, Bool.and_eq_true, Bool.and_eq_true, isUnused_iff, h.contains_declare,
        hused other ho, isEmpty_dependentsOf_iff, decide_eq_true_iff, hafter]
      have hcontains := h.contains_of_mem_dependenciesOf ho
      constructor
      · exact fun hu => ⟨rfl, hu.1.2⟩
      · exact fun hu => ⟨⟨.inl hcontains, hu.2⟩, hu.2 url⟩

end LiveReload.Graph
