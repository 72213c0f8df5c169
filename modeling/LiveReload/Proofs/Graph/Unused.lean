import LiveReload.Proofs.Graph.Orphan
import LiveReload.Proofs.Graph.Registration

namespace LiveReload.Graph

-- What `change` reports of an edit of `url` in the graph `before`.
structure Reports (before : Graph) (url : Url) (change : Change) : Prop where
  mem_iff : ∀ other, other ∈ change.orphaned ↔
    before.contains other = true ∧ change.graph.contains other = true ∧
      (∃ source, source ∈ before.dependentsOf other) ∧
        ∀ source, source ∉ change.graph.dependentsOf other
  ordered : change.orphaned.Sublist (before.dependenciesOf url).toList
  nodup : change.orphaned.Nodup

-- Whether something references `url` afterwards that did not before.
def Gains (before after : Graph) (url : Url) : Prop :=
  ∃ source, source ∈ after.dependentsOf url ∧ source ∉ before.dependentsOf url

variable {graph : Graph} {url other : Url} {declaration : Declaration}

theorem Keyed.mem_unused (h : graph.Keyed) : other ∈ graph.unused ↔
    graph.contains other = true ∧ ∀ source, source ∉ graph.dependentsOf other := by
  rw [← isEmpty_dependentsOf_iff, ← isUnused_iff, unused, List.mem_map]
  constructor
  · rintro ⟨resource, hr, rfl⟩
    obtain ⟨hnode, hunused⟩ := List.mem_filter.mp hr
    rw [isUnused, h.mem_nodes.mp hnode]
    exact hunused
  · intro hu
    cases hr : graph.get? other with
    | none => simp [isUnused, hr] at hu
    | some resource =>
        have hurl := h other resource hr
        subst hurl
        refine ⟨resource, List.mem_filter.mpr ⟨h.mem_nodes.mpr hr, ?_⟩, rfl⟩
        simpa [isUnused, hr] using hu

theorem WellFormed.nodup_unused (h : graph.WellFormed) : graph.unused.Nodup := by
  have hnodup : (graph.nodes.map Resource.url).Nodup := h.nodes_map_url ▸ graph.urls.nodup
  exact hnodup.sublist (List.filter_sublist.map _)

theorem WellFormed.contains_of_mem_dependentsOf (h : graph.WellFormed) {target source : Url}
    (hm : source ∈ graph.dependentsOf target) : graph.contains target = true :=
  h.contains_of_mem_dependenciesOf ((h.mirrored source target).mpr hm)

theorem contains_remove : (graph.remove url).result.graph.contains other = true ↔
    graph.contains other = true ∧ other ≠ url := by
  rw [← mem_urls, urls_remove, UrlSet.mem_erase, mem_urls]

theorem orphaned_remove (graph : Graph) (url : Url) : (graph.remove url).result.orphaned =
    (graph.dependenciesOf url).toList.filter (graph.remove url).result.graph.isUnused := by
  cases h : graph.get? url with
  | none =>
      rw [remove_of_none h, dependenciesOf, h]
      rfl
  | some resource =>
      rw [dependenciesOf_of_get? h, remove, h]

theorem WellFormed.reports_declare (h : graph.WellFormed) (url : Url)
    (declaration : Declaration) :
    graph.Reports url (graph.declare url declaration).result := by
  have hsublist : (graph.declare url declaration).result.orphaned.Sublist
      (graph.dependenciesOf url).toList := by
    rw [h.orphaned_declare]
    exact List.filter_sublist
  refine ⟨fun other => ?_, hsublist, (graph.dependenciesOf url).nodup.sublist hsublist⟩
  rw [h.orphaned_declare, h.mem_orphans_declare]
  constructor
  · rintro ⟨⟨source, hs⟩, hnone⟩
    have hc := h.contains_of_mem_dependentsOf hs
    exact ⟨hc, h.contains_declare.mpr (.inl hc), ⟨source, hs⟩, hnone⟩
  · rintro ⟨-, -, hlost⟩
    exact hlost

theorem WellFormed.reports_remove (h : graph.WellFormed) (url : Url) :
    graph.Reports url (graph.remove url).result := by
  have hsublist : (graph.remove url).result.orphaned.Sublist
      (graph.dependenciesOf url).toList := by
    rw [orphaned_remove]
    exact List.filter_sublist
  refine ⟨fun other => ?_, hsublist, (graph.dependenciesOf url).nodup.sublist hsublist⟩
  rw [orphaned_remove, List.mem_filter, ← UrlSet.mem_def, isUnused_iff, isEmpty_dependentsOf_iff]
  constructor
  · rintro ⟨hd, hc, hnone⟩
    exact ⟨(contains_remove.mp hc).1, hc, ⟨url, (h.mirrored url other).mp hd⟩, hnone⟩
  · rintro ⟨-, hc, ⟨source, hs⟩, hnone⟩
    refine ⟨?_, hc, hnone⟩
    -- only the targets of `url` are referenced by less than before
    by_contra hd
    have hkept := hnone source
    rw [dependentsOf_remove, if_neg (contains_remove.mp hc).2, if_neg hd] at hkept
    exact hkept hs

-- Whatever the edit is, the report accounts for everything that was there before.
theorem Reports.mem_unused {change : Change} (h : graph.Reports url change)
    (hbefore : graph.WellFormed) (hafter : change.graph.WellFormed) :
    other ∈ change.graph.unused ↔
      (other ∈ graph.unused ∨ other ∈ change.orphaned ∨ graph.contains other = false) ∧
        change.graph.contains other = true ∧ ¬graph.Gains change.graph other := by
  rw [hafter.keyed.mem_unused, hbefore.keyed.mem_unused]
  constructor
  · rintro ⟨hc, hnone⟩
    refine ⟨?_, hc, fun ⟨source, hs, _⟩ => hnone source hs⟩
    by_cases hold : graph.contains other = true
    · by_cases hused : ∃ source, source ∈ graph.dependentsOf other
      · exact .inr (.inl ((h.mem_iff other).mpr ⟨hold, hc, hused, hnone⟩))
      · exact .inl ⟨hold, not_exists.mp hused⟩
    · exact .inr (.inr (Bool.eq_false_iff.mpr hold))
  · rintro ⟨hcases, hc, hgains⟩
    refine ⟨hc, fun source hs => ?_⟩
    have hold : source ∈ graph.dependentsOf other := by
      by_contra hnew
      exact hgains ⟨source, hs, hnew⟩
    rcases hcases with ⟨-, hnone⟩ | hreported | hmissing
    · exact hnone source hold
    · exact ((h.mem_iff other).mp hreported).2.2.2 source hs
    · rw [hbefore.contains_of_mem_dependentsOf hold] at hmissing
      cases hmissing

-- Of what a declaration registers, all but the resource itself is registered as a target of it.
theorem WellFormed.registered_unreferenced_iff (h : graph.WellFormed) :
    (graph.contains other = false ∧
        (graph.declare url declaration).result.graph.contains other = true ∧
        ¬graph.Gains (graph.declare url declaration).result.graph other) ↔
      other = url ∧ graph.contains url = false ∧ url ∉ declaration.dependencies.getD [] := by
  have hafter := h.declare url declaration
  have hnone : graph.contains other = false → ∀ source, source ∉ graph.dependentsOf other := by
    intro hc source hs
    rw [h.contains_of_mem_dependentsOf hs] at hc
    cases hc
  -- nothing referenced `other` before, so it is referenced by `url` or by nothing
  have hreferenced : graph.contains other = false →
      (graph.Gains (graph.declare url declaration).result.graph other ↔
        other ∈ declaration.dependencies.getD []) := by
    intro hc
    have hmem : ∀ source,
        source ∈ (graph.declare url declaration).result.graph.dependentsOf other ↔
          source = url ∧ other ∈ declaration.dependencies.getD [] := by
      intro source
      have hold := hnone hc source
      rw [← h.mirrored] at hold
      rw [← hafter.mirrored, dependenciesOf_declare]
      by_cases hs : source = url
      · subst hs
        cases hd : declaration.dependencies with
        | none => simp [hold]
        | some urls => simp
      · simp [hs, hold]
    constructor
    · rintro ⟨source, hs, -⟩
      exact ((hmem source).mp hs).2
    · intro hd
      exact ⟨url, (hmem url).mpr ⟨rfl, hd⟩, hnone hc url⟩
  constructor
  · rintro ⟨hc, hregistered, hgains⟩
    rw [hreferenced hc] at hgains
    rcases h.contains_declare.mp hregistered with hold | rfl | hd
    · rw [hc] at hold
      cases hold
    · exact ⟨rfl, hc, hgains⟩
    · exact absurd hd hgains
  · rintro ⟨rfl, hc, hself⟩
    exact ⟨hc, h.contains_declare.mpr (.inr (.inl rfl)), (hreferenced hc).not.mpr hself⟩

theorem WellFormed.mem_unused_declare (h : graph.WellFormed) :
    other ∈ (graph.declare url declaration).result.graph.unused ↔
      (other ∈ graph.unused ∨ other ∈ (graph.declare url declaration).result.orphaned ∨
          (other = url ∧ graph.contains url = false ∧
            url ∉ declaration.dependencies.getD [])) ∧
        ¬graph.Gains (graph.declare url declaration).result.graph other := by
  have hreports := h.reports_declare url declaration
  rw [hreports.mem_unused h (h.declare url declaration), ← h.registered_unreferenced_iff]
  constructor
  · rintro ⟨hold | horphaned | hmissing, hc, hgains⟩
    · exact ⟨.inl hold, hgains⟩
    · exact ⟨.inr (.inl horphaned), hgains⟩
    · exact ⟨.inr (.inr ⟨hmissing, hc, hgains⟩), hgains⟩
  · rintro ⟨hold | horphaned | ⟨hmissing, hc, -⟩, hgains⟩
    · have hc := (h.keyed.mem_unused.mp hold).1
      exact ⟨.inl hold, h.contains_declare.mpr (.inl hc), hgains⟩
    · exact ⟨.inr (.inl horphaned), ((hreports.mem_iff other).mp horphaned).2.1, hgains⟩
    · exact ⟨.inr (.inr hmissing), hc, hgains⟩

theorem WellFormed.mem_unused_remove (h : graph.WellFormed) :
    other ∈ (graph.remove url).result.graph.unused ↔
      (other ∈ graph.unused ∨ other ∈ (graph.remove url).result.orphaned) ∧
        ¬graph.Gains (graph.remove url).result.graph other ∧ other ≠ url := by
  have hreports := h.reports_remove url
  rw [hreports.mem_unused h (h.remove url), contains_remove]
  constructor
  · rintro ⟨hold | horphaned | hmissing, ⟨hc, hne⟩, hgains⟩
    · exact ⟨.inl hold, hgains, hne⟩
    · exact ⟨.inr horphaned, hgains, hne⟩
    · rw [hmissing] at hc
      cases hc
  · rintro ⟨hold | horphaned, hgains, hne⟩
    · exact ⟨.inl hold, ⟨(h.keyed.mem_unused.mp hold).1, hne⟩, hgains⟩
    · exact ⟨.inr (.inl horphaned), ⟨((hreports.mem_iff other).mp horphaned).1, hne⟩, hgains⟩

-- A resource that is there afterwards and was used before is unused only if it is reported.
theorem reports_of_edit (edits : List Edit) (url : Url) :
    let graph := ofEdits edits
    (∀ declaration, let change := (graph.declare url declaration).result
      graph.Reports url change ∧ change.graph.unused.Nodup ∧
        ∀ other, other ∈ change.graph.unused ↔
          (other ∈ graph.unused ∨ other ∈ change.orphaned ∨
              (other = url ∧ graph.contains url = false ∧
                url ∉ declaration.dependencies.getD [])) ∧
            ¬graph.Gains change.graph other) ∧
      let change := (graph.remove url).result
      graph.Reports url change ∧ change.graph.unused.Nodup ∧
        ∀ other, other ∈ change.graph.unused ↔
          (other ∈ graph.unused ∨ other ∈ change.orphaned) ∧
            ¬graph.Gains change.graph other ∧ other ≠ url := by
  intro graph
  have h : graph.WellFormed := wellFormed_ofEdits edits
  refine ⟨fun declaration => ?_, ?_⟩
  · exact ⟨h.reports_declare url declaration, (h.declare url declaration).nodup_unused,
      fun _ => h.mem_unused_declare⟩
  · exact ⟨h.reports_remove url, (h.remove url).nodup_unused, fun _ => h.mem_unused_remove⟩

-- A resource that references itself is not among what its own removal leaves behind.
example : ((ofEdits [.declare "a.js" { dependencies := some ["a.js", "b.js"] }]).remove
    "a.js").result.orphaned = ["b.js"] := by decide +kernel

end LiveReload.Graph
