import LiveReload.Proofs.Graph.Comparison
import LiveReload.Proofs.Graph.Decline

namespace LiveReload

-- A search can tell them apart only by the order of their dependents.
structure Resource.SameButForOrder (resource other : Resource) : Prop where
  declines : resource.declines = other.declines
  selfAccepts : resource.selfAccepts = other.selfAccepts
  accepted : resource.accepted.toList.Perm other.accepted.toList
  dependents : resource.dependents.toList.Perm other.dependents.toList

instance : DecidableRel Resource.SameButForOrder := fun resource other =>
  decidable_of_iff
    (resource.declines = other.declines ∧ resource.selfAccepts = other.selfAccepts ∧
      resource.accepted.toList.Perm other.accepted.toList ∧
      resource.dependents.toList.Perm other.dependents.toList)
    ⟨fun ⟨hd, hs, ha, ho⟩ => ⟨hd, hs, ha, ho⟩,
      fun h => ⟨h.declines, h.selfAccepts, h.accepted, h.dependents⟩⟩

-- Which obstacle ends a search, if there are several, depends on which dependent it tries first.
inductive Verdict.SameButForOrder : Verdict → Verdict → Prop
  | accepted {boundaries others : List Boundary} : boundaries.Perm others →
      SameButForOrder (.accepted boundaries) (.accepted others)
  | declined {reason : DeclineReason} {who : Option Url} :
      reason ∈ [DeclineReason.selfDeclines, .noImporter, .nothingAccepts] →
      SameButForOrder (.declined reason who) (.declined reason who)
  | obstructed {reason other : DeclineReason} {who blamed : Option Url} :
      reason ∈ [DeclineReason.dependentDeclines, .circularDependency] →
      other ∈ [DeclineReason.dependentDeclines, .circularDependency] →
      SameButForOrder (.declined reason who) (.declined other blamed)

namespace Resource.SameButForOrder

variable {resource other : Resource}

theorem accepts (h : resource.SameButForOrder other) (url : Url) :
    resource.accepts url = other.accepts url := by
  have hm : url ∈ resource.accepted ↔ url ∈ other.accepted := h.accepted.mem_iff
  simp only [Resource.accepts, hm]

theorem isUnused (h : resource.SameButForOrder other) : resource.isUnused = other.isUnused := by
  rw [Bool.eq_iff_iff, Resource.isUnused, Resource.isUnused, UrlSet.isEmpty_iff,
    UrlSet.isEmpty_iff]
  exact ⟨fun he => List.nil_perm.mp (he ▸ h.dependents),
    fun he => List.perm_nil.mp (he ▸ h.dependents)⟩

end Resource.SameButForOrder

theorem Finding.collect_perm {findings others : List Finding} (h : findings.Perm others) :
    (∃ boundaries reordered, collect findings = .ok boundaries ∧ collect others = .ok reordered ∧
        boundaries.Perm reordered) ∨
      ∃ met stop, collect findings = .error met ∧ collect others = .error stop := by
  cases hf : collect findings with
  | ok boundaries =>
      obtain ⟨hclear, rfl⟩ := collect_eq_ok_iff.mp hf
      have ho : collect others = .ok (others.filterMap boundary?) :=
        collect_eq_ok_iff.mpr ⟨fun met hm => hclear met (h.mem_iff.mpr hm), rfl⟩
      exact .inl ⟨_, _, rfl, ho, h.filterMap _⟩
  | error met =>
      cases ho : collect others with
      | error stop => exact .inr ⟨met, stop, rfl, rfl⟩
      | ok reordered =>
          obtain ⟨hclear, -⟩ := collect_eq_ok_iff.mp ho
          obtain ⟨before, after, rfl, -⟩ := collect_eq_error_iff.mp hf
          exact absurd (h.mem_iff.mp (by simp)) (hclear met)

theorem Resource.SameButForOrder.verdict {resource counterpart : Resource}
    {search rival : Search} (hs : resource.SameButForOrder counterpart)
    (hu : resource.url = counterpart.url)
    {findings others : List Finding} (hp : findings.Perm others)
    (hf : search.found = Finding.collect findings) (ho : rival.found = Finding.collect others) :
    (search.verdict resource).SameButForOrder (rival.verdict counterpart) := by
  rw [Search.verdict, Search.verdict, hf, ho, ← hs.isUnused, ← hu]
  rcases Finding.collect_perm hp with ⟨boundaries, reordered, hc, hr, hb⟩ | ⟨met, stop, hc, hr⟩
  · rw [hc, hr]
    cases boundaries with
    | nil =>
        rw [List.nil_perm.mp hb]
        exact .declined (by split_ifs <;> decide)
    | cons first rest =>
        cases reordered with
        | nil => exact absurd (List.perm_nil.mp hb) (List.cons_ne_nil first rest)
        | cons _ _ => exact .accepted hb
  · rw [hc, hr]
    exact .obstructed met.reason_mem stop.reason_mem

namespace Graph

variable {graph other : Graph} {path : List Url} {resource counterpart : Resource}

-- URLs are all that findings tell of resources, so they can be compared between graphs.
def findings (graph : Graph) (path : List Url) (resource : Resource) : List Finding :=
  (graph.survey path resource).map Prod.snd

theorem perm_sighting (hk : graph.Keyed) (ho : other.Keyed)
    (h : Matches Resource.SameButForOrder graph other) (hu : resource.url = counterpart.url)
    (ih : ∀ url dependent, graph.get? url = some dependent → dependent.url ∉ path →
      ∀ matching, dependent.SameButForOrder matching → dependent.url = matching.url →
        (graph.findings (dependent.url :: path) dependent).Perm
          (other.findings (dependent.url :: path) matching)) (url : Url) :
    ((graph.sighting path resource url).map Prod.snd).Perm
      ((other.sighting path counterpart url).map Prod.snd) := by
  unfold sighting
  rcases h.cases hk ho url with ⟨hg, hm⟩ | ⟨dependent, matching, hg, hm, hs, hurl⟩
  · rw [hg, hm]
  · rw [hg, hm]
    dsimp only
    rw [← hs.declines, ← hu, ← hs.accepts, ← hurl]
    split_ifs with _ _ hp
    · rfl
    · rfl
    · rfl
    · rw [List.map_map, List.map_map]
      exact ih url dependent hg hp matching hs hurl

-- The induction is on the search in one of the graphs: the path is the same in both.
theorem perm_findings (hk : graph.Keyed) (ho : other.Keyed)
    (h : Matches Resource.SameButForOrder graph other) (hs : resource.SameButForOrder counterpart)
    (hu : resource.url = counterpart.url) :
    (graph.findings path resource).Perm (other.findings path counterpart) := by
  induction path, resource using explore.induct graph generalizing counterpart with
  | case1 path resource haccepts =>
      rw [findings, findings, survey_of_selfAccepts haccepts,
        survey_of_selfAccepts (hs.selfAccepts ▸ haccepts), hu]
      rfl
  | case2 path resource haccepts ih =>
      rw [findings, findings, survey_of_not_selfAccepts haccepts,
        survey_of_not_selfAccepts (hs.selfAccepts ▸ haccepts), List.map_flatMap, List.map_flatMap]
      apply hs.dependents.flatMap
      intro url _
      exact perm_sighting hk ho h hu (fun url dependent hg hp _ => ih url dependent hg hp) url

theorem sameButForOrder_verdictOf (hk : graph.Keyed) (ho : other.Keyed)
    (h : Matches Resource.SameButForOrder graph other) (hs : resource.SameButForOrder counterpart)
    (hu : resource.url = counterpart.url) :
    (graph.verdictOf resource).SameButForOrder (other.verdictOf counterpart) := by
  cases hd : resource.declines with
  | true =>
      rw [verdictOf_of_declines hd, verdictOf_of_declines (hs.declines ▸ hd), hu]
      exact .declined (by decide)
  | false =>
      rw [verdictOf_of_willing hd, verdictOf_of_willing (hs.declines ▸ hd), ← hu]
      exact hs.verdict hu (perm_findings hk ho h hs hu) (found_explore graph _ resource)
        (found_explore other _ counterpart)

-- Only the order of boundaries and which obstacle is reported depend on the order of dependents.
theorem verdictAt_for_any_edge_order (edits others : List Edit)
    (h : Matches Resource.SameButForOrder (ofEdits edits) (ofEdits others)) (url : Url) :
    ((ofEdits edits).verdictAt url = .error ⟨url⟩ ∧
        (ofEdits others).verdictAt url = .error ⟨url⟩) ∨
      ∃ verdict other, (ofEdits edits).verdictAt url = .ok verdict ∧
        (ofEdits others).verdictAt url = .ok other ∧ verdict.SameButForOrder other := by
  have hk := (wellFormed_ofEdits edits).keyed
  have ho := (wellFormed_ofEdits others).keyed
  rcases h.cases hk ho url with ⟨hn, hm⟩ | ⟨resource, counterpart, hr, hc, hs, hu⟩
  · exact .inl ⟨verdictAt_of_none hn, verdictAt_of_none hm⟩
  · exact .inr ⟨_, _, verdictAt_of_get? hr, verdictAt_of_get? hc,
      sameButForOrder_verdictOf hk ho h hs hu⟩

-- The same edges the other way round. The dependents of `a.js` both take its update; of those of
-- `d.js`, one declines and one leads back to it.
theorem reversed_edges_reverse_boundaries :
    let first : List Edit :=
      [.declare "b.js" { dependencies := some ["a.js"], selfAccepts := some true },
        .declare "e.js" { dependencies := some ["d.js"], declines := some true }]
    let second : List Edit :=
      [.declare "c.js" { dependencies := some ["a.js"], accepted := some ["a.js"] },
        .declare "d.js" { dependencies := some ["d.js"] }]
    let graph := ofEdits (first ++ second)
    let other := ofEdits (second ++ first)
    Matches Resource.SameButForOrder graph other ∧
      graph.verdictAt "a.js" = .ok (.accepted [⟨"b.js", "b.js"⟩, ⟨"c.js", "a.js"⟩]) ∧
      other.verdictAt "a.js" = .ok (.accepted [⟨"c.js", "a.js"⟩, ⟨"b.js", "b.js"⟩]) ∧
      (Verdict.accepted [⟨"b.js", "b.js"⟩, ⟨"c.js", "a.js"⟩]).SameButForOrder
        (.accepted [⟨"c.js", "a.js"⟩, ⟨"b.js", "b.js"⟩]) ∧
      graph.verdictAt "d.js" = .ok (.declined .dependentDeclines (some "e.js")) ∧
      other.verdictAt "d.js" = .ok (.declined .circularDependency (some "d.js")) := by
  intro first second graph other
  have h : Matches Resource.SameButForOrder graph other := by decide +kernel
  have hv : graph.verdictAt "a.js" = .ok (.accepted [⟨"b.js", "b.js"⟩, ⟨"c.js", "a.js"⟩]) := by
    decide +kernel
  have ho : other.verdictAt "a.js" = .ok (.accepted [⟨"c.js", "a.js"⟩, ⟨"b.js", "b.js"⟩]) := by
    decide +kernel
  refine ⟨h, hv, ho, ?_, by decide +kernel, by decide +kernel⟩
  rcases verdictAt_for_any_edge_order (first ++ second) (second ++ first) h "a.js" with
    ⟨hn, -⟩ | ⟨verdict, rival, hverdict, hrival, hs⟩
  · cases hv.symm.trans hn
  · cases hv.symm.trans hverdict
    cases ho.symm.trans hrival
    exact hs

end Graph

end LiveReload
