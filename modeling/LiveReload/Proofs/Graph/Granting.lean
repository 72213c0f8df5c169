import LiveReload.Proofs.Graph.Acceptance
import LiveReload.Proofs.Graph.Comparison

namespace LiveReload

-- `granted` can take whatever `resource` can.
structure Resource.Grants (resource granted : Resource) : Prop where
  dependents : resource.dependents = granted.dependents
  declines : granted.declines = true → resource.declines = true
  selfAccepts : resource.selfAccepts = true → granted.selfAccepts = true
  accepted : ∀ url ∈ resource.accepted.toList, url ∈ granted.accepted

instance : DecidableRel Resource.Grants := fun resource granted =>
  decidable_of_iff
    (resource.dependents = granted.dependents ∧
      (granted.declines = true → resource.declines = true) ∧
      (resource.selfAccepts = true → granted.selfAccepts = true) ∧
      ∀ url ∈ resource.accepted.toList, url ∈ granted.accepted)
    ⟨fun ⟨ho, hd, hs, ha⟩ => ⟨ho, hd, hs, ha⟩,
      fun h => ⟨h.dependents, h.declines, h.selfAccepts, h.accepted⟩⟩

namespace Resource.Grants

variable {resource granted : Resource}

theorem accepts (h : resource.Grants granted) {url : Url} (ha : resource.accepts url = true) :
    granted.accepts url = true :=
  decide_eq_true (h.accepted url (of_decide_eq_true ha))

theorem willing (h : resource.Grants granted) (hd : resource.declines = false) :
    granted.declines = false :=
  Bool.eq_false_iff.mpr fun hg => Bool.eq_false_iff.mp hd (h.declines hg)

end Resource.Grants

namespace Search

-- If nothing ends the search, nothing ends the other one either, which then comes to a boundary if
-- the search does. Not all of the same boundaries: it may stop short of them.
def Secures (search other : Search) : Prop :=
  ∀ boundaries, search.found = .ok boundaries →
    ∃ reached, other.found = .ok reached ∧ (boundaries ≠ [] → reached ≠ [])

variable {search other : Search}

theorem secures_of_blocked {obstacle : Obstacle} : (blocked obstacle).Secures other :=
  fun _ h => nomatch h

theorem secures_boundary (search : Search) (reached : Boundary) :
    search.Secures (.boundary reached) :=
  fun _ _ => ⟨[reached], rfl, fun _ => List.cons_ne_nil reached []⟩

theorem Secures.andThen {next rest : Unit → Search} (h : search.Secures other)
    (hn : (next ()).Secures (rest ())) : (search.andThen next).Secures (other.andThen rest) := by
  intro boundaries hf
  rw [found_andThen] at hf ⊢
  cases hs : search.found with
  | error met =>
      rw [hs] at hf
      cases hf
  | ok first =>
      obtain ⟨reached, ho, hr⟩ := h first hs
      rw [hs] at hf
      cases hl : (next ()).found with
      | error met =>
          rw [hl] at hf
          cases hf
      | ok later =>
          obtain ⟨more, hm, hmore⟩ := hn later hl
          rw [hl] at hf
          cases hf
          refine ⟨reached ++ more, by rw [ho, hm]; rfl, fun hne => ?_⟩
          rw [ne_eq, List.append_eq_nil_iff, not_and_or] at hne ⊢
          exact hne.imp hr hmore

theorem secures_each {visit other : Url → Search} {urls : List Url}
    (h : ∀ url ∈ urls, (visit url).Secures (other url)) :
    (each visit urls).Secures (each other urls) := by
  induction urls with
  | nil => exact fun _ hf => ⟨_, hf, id⟩
  | cons url urls ih =>
      have hrest := ih fun rest hr => h rest (List.mem_cons_of_mem url hr)
      exact (h url List.mem_cons_self).andThen hrest

theorem Secures.verdict_accepted {resource granted : Resource} {boundaries : List Boundary}
    (h : search.Secures other) (ha : search.verdict resource = .accepted boundaries) :
    ∃ reached, other.verdict granted = .accepted reached := by
  obtain ⟨hf, hne⟩ := verdict_eq_accepted_iff.mp ha
  obtain ⟨reached, ho, hr⟩ := h boundaries hf
  exact ⟨reached, verdict_eq_accepted_iff.mpr ⟨ho, hr hne⟩⟩

end Search

namespace Graph

variable {graph other : Graph} {path : List Url} {resource granted : Resource}

-- A dependent that does not decline any more is one that would have ended the search before.
theorem secures_visit (hk : graph.Keyed) (ho : other.Keyed) (h : Matches Resource.Grants graph other)
    (hu : resource.url = granted.url)
    (ih : ∀ url dependent, graph.get? url = some dependent → dependent.url ∉ path →
      ∀ more, dependent.Grants more → dependent.url = more.url →
        (graph.explore (dependent.url :: path) dependent).Secures
          (other.explore (dependent.url :: path) more)) (url : Url) :
    (graph.visit path resource url).Secures (other.visit path granted url) := by
  unfold visit
  rcases h.cases hk ho url with ⟨hn, hm⟩ | ⟨dependent, more, hd, hm, hg, hurl⟩
  · rw [hn, hm]
    exact fun _ hf => ⟨_, hf, id⟩
  · rw [hd, hm]
    dsimp only
    rw [← hu, ← hurl]
    cases hdeclines : dependent.declines with
    | true => exact Search.secures_of_blocked
    | false =>
        rw [hg.willing hdeclines]
        simp only [Bool.false_eq_true, if_false]
        cases haccepts : more.accepts resource.url with
        | true => exact Search.secures_boundary _ _
        | false =>
            have hrefuses : dependent.accepts resource.url = false :=
              Bool.eq_false_iff.mpr fun hd => Bool.eq_false_iff.mp haccepts (hg.accepts hd)
            rw [hrefuses]
            simp only [Bool.false_eq_true, if_false]
            by_cases hp : dependent.url ∈ path
            · rw [if_pos hp]
              exact Search.secures_of_blocked
            · rw [if_neg hp, if_neg hp]
              exact ih url dependent hd hp more hg hurl

theorem secures_explore (hk : graph.Keyed) (ho : other.Keyed)
    (h : Matches Resource.Grants graph other) (hg : resource.Grants granted)
    (hu : resource.url = granted.url) :
    (graph.explore path resource).Secures (other.explore path granted) := by
  induction path, resource using explore.induct graph generalizing granted with
  | case1 path resource hs =>
      rw [explore_of_selfAccepts (hg.selfAccepts hs)]
      exact Search.secures_boundary _ _
  | case2 path resource hs ih =>
      by_cases hself : granted.selfAccepts = true
      · rw [explore_of_selfAccepts hself]
        exact Search.secures_boundary _ _
      · rw [explore_of_not_selfAccepts hs, explore_of_not_selfAccepts hself, ← hg.dependents]
        apply Search.secures_each
        intro url _
        exact secures_visit hk ho h hu (fun url dependent hd hp _ => ih url dependent hd hp) url

theorem accepted_after_grants (edits others : List Edit)
    (h : Matches Resource.Grants (ofEdits edits) (ofEdits others)) {url : Url}
    {boundaries : List Boundary}
    (ha : (ofEdits edits).verdictAt url = .ok (.accepted boundaries)) :
    ∃ reached, (ofEdits others).verdictAt url = .ok (.accepted reached) := by
  have hk := (wellFormed_ofEdits edits).keyed
  have ho := (wellFormed_ofEdits others).keyed
  rcases h.cases hk ho url with ⟨hn, -⟩ | ⟨resource, granted, hr, hm, hg, hu⟩
  · rw [verdictAt_of_none hn] at ha
    cases ha
  · rw [verdictAt_of_get? hr, Except.ok.injEq] at ha
    have hwilling : resource.declines = false := by
      by_contra hd
      rw [Bool.not_eq_false] at hd
      rw [verdictOf_of_declines hd] at ha
      cases ha
    rw [verdictOf_of_willing hwilling] at ha
    have hsecures : ((ofEdits edits).explore [resource.url] resource).Secures
        ((ofEdits others).explore [resource.url] granted) := secures_explore hk ho h hg hu
    obtain ⟨reached, hv⟩ := hsecures.verdict_accepted ha
    refine ⟨reached, ?_⟩
    rw [verdictAt_of_get? hm, verdictOf_of_willing (hg.willing hwilling), ← hu, hv]

-- `b.js` takes the update of `a.js` now and cuts off the only boundary that there was before.
theorem accepted_short_of_former_boundary :
    let edits : List Edit :=
      [.declare "b.js" { dependencies := some ["a.js"] },
        .declare "main.js" { dependencies := some ["b.js"], selfAccepts := some true },
        .declare "page.html" { dependencies := some ["main.js"], declines := some true }]
    let others := edits ++
      [.declare "b.js" { accepted := some ["a.js"] },
        .declare "page.html" { declines := some false, selfAccepts := some true }]
    Matches Resource.Grants (ofEdits edits) (ofEdits others) ∧
      (ofEdits edits).verdictAt "a.js" = .ok (.accepted [⟨"main.js", "main.js"⟩]) ∧
      (ofEdits others).verdictAt "a.js" = .ok (.accepted [⟨"b.js", "a.js"⟩]) ∧
      ∃ reached, (ofEdits others).verdictAt "a.js" = .ok (.accepted reached) := by
  intro edits others
  have h : Matches Resource.Grants (ofEdits edits) (ofEdits others) := by decide +kernel
  have ha : (ofEdits edits).verdictAt "a.js" = .ok (.accepted [⟨"main.js", "main.js"⟩]) := by
    decide +kernel
  exact ⟨h, ha, by decide +kernel, accepted_after_grants edits others h ha⟩

end Graph

end LiveReload
