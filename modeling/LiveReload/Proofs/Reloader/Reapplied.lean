import LiveReload.Proofs.Graph.Registration
import LiveReload.Proofs.Graph.Upward
import LiveReload.Proofs.Reloader.Pruning

namespace LiveReload

namespace Graph

-- `url` references `other`, from where references lead back to `url`.
def Circles (graph : Graph) (url other : Url) : Prop :=
  other ∈ graph.dependenciesOf url ∧ graph.Above url other

variable {graph : Graph} {url other : Url}

theorem WellFormed.contains_of_above (h : graph.WellFormed) (hc : graph.contains url = true)
    (ha : graph.Above url other) : graph.contains other = true := by
  have hupward : graph.IsUpward (graph.contains · = true) := by
    intro target dependent _ hd
    obtain ⟨resource, hr, hm⟩ := mem_dependentsOf.mp hd
    exact h.contains_of_mem_dependents hr hm
  exact hupward.of_above hc ha

-- A declaration adds only edges that lead back to `url` itself.
theorem WellFormed.above_of_declare (h : graph.WellFormed) {declaration : Declaration}
    (ha : (graph.declare url declaration).result.graph.Above url other) :
    graph.Above url other := by
  induction ha with
  | refl => exact Relation.ReflTransGen.refl
  | @tail target dependent _ hd ih =>
      by_cases hu : dependent = url
      · subst hu
        exact Relation.ReflTransGen.refl
      · rw [← (h.declare url declaration).mirrored, dependenciesOf_declare, if_neg hu,
          h.mirrored] at hd
        exact ih.tail hd

end Graph

-- `updates` re-apply `reapplied`, where the update of `url` arrives, and then drop `dropped`, which
-- lost the last reference to them when `url` was edited.
structure Message.Comprises (root : Url) (before after : Graph) (url : Url)
    (reapplied : List Boundary) (dropped : List Url) (updates : List Instruction) : Prop where
  updates_eq : updates =
    reapplied.map (Boundary.instruction root after) ++ dropped.map (Instruction.drop root url)
  arrives : reapplied ≠ [] → after.verdictAt url = .ok (.accepted reapplied)
  orphaned : dropped ⊆ before.orphans after url

namespace Message

variable {root url : Url} {graph : Graph} {cause other : String}
  {leading : List Boundary → List Instruction} {verdict : Verdict} {updates : List Instruction}

theorem exists_accepted_of_addOrphans {orphans : List Url}
    (h : addOrphans root graph url orphans (base root cause leading verdict) =
      .hotReload other updates) :
    ∃ boundaries, verdict = .accepted boundaries ∧
      updates = leading boundaries ++ orphans.map (Instruction.drop root url) := by
  cases verdict with
  | declined reason who => cases h
  | accepted boundaries =>
      rw [base, addOrphans_hotReload] at h
      cases hf : orphans.find? graph.declinesAt with
      | none =>
          rw [hf] at h
          cases h
          exact ⟨boundaries, rfl, rfl⟩
      | some declining =>
          rw [hf] at h
          cases h

theorem exists_accepted_of_ofVerdict
    (h : ofVerdict root graph cause verdict = .hotReload other updates) :
    ∃ boundaries, verdict = .accepted boundaries ∧
      updates = boundaries.map (Boundary.instruction root graph) := by
  cases verdict with
  | declined reason who => cases h
  | accepted boundaries =>
      cases h
      exact ⟨boundaries, rfl, rfl⟩

theorem Comprises.above {before after : Graph} {reapplied : List Boundary} {dropped : List Url}
    (h : Comprises root before after url reapplied dropped updates) (hk : after.Keyed)
    {boundary : Boundary} (hb : boundary ∈ reapplied) : after.Above url boundary.url := by
  have hv := h.arrives (List.ne_nil_of_mem hb)
  refine (after.isUpward_above url).forall_urls_verdictAt hk Relation.ReflTransGen.refl hv _ ?_
  exact List.mem_flatMap.mpr ⟨boundary, hb, List.mem_cons_self⟩

end Message

namespace Reloader

variable {reloader : Reloader} {ticket : Ticket} {url : Url} {declaration : Declaration}

-- What the calls answer that may change what `url` references, or that are told of its file.
inductive Answers (reloader : Reloader) (url : Url) : Response → Prop
  | declare (declaration : Declaration) :
      Answers reloader url (reloader.declare url declaration).result
  | finish {ticket : Ticket} (declaration : Declaration) : ticket.url = url →
      Answers reloader url (reloader.finish ticket declaration).result
  | fileChanged (kind : FileEvent.Kind) :
      Answers reloader url (reloader.fileChanged ⟨url, kind⟩).result

theorem graph_finish_eq_or (reloader : Reloader) (ticket : Ticket) (declaration : Declaration) :
    (reloader.finish ticket declaration).result.reloader.graph = reloader.graph ∨
      (reloader.finish ticket declaration).result.reloader.graph =
        (reloader.graph.declare ticket.url declaration).result.graph := by
  rw [graph_finish]
  split
  · exact .inl rfl
  · exact .inr rfl

theorem Answers.graph {response : Response} (h : reloader.Answers url response) :
    response.reloader.graph = reloader.graph ∨ ∃ declared,
      response.reloader.graph = (reloader.graph.declare url declared).result.graph := by
  cases h with
  | declare declaration =>
      exact ((reloader.begin url).2.graph_finish_eq_or (reloader.begin url).1 declaration).imp_right
        fun he => ⟨declaration, he⟩
  | finish declaration hu =>
      subst hu
      exact (graph_finish_eq_or reloader _ declaration).imp_right fun he => ⟨declaration, he⟩
  | fileChanged kind =>
      rw [reloader_fileChanged, reloader_fileRemoved]
      split_ifs
      · exact .inr ⟨{ dependencies := some [] }, rfl⟩
      · exact .inl rfl
      · exact .inl rfl

theorem Answers.wellFormed {response : Response} (h : reloader.Answers url response)
    (hw : reloader.graph.WellFormed) : response.reloader.graph.WellFormed := by
  rcases h.graph with he | ⟨declared, he⟩
  · exact he ▸ hw
  · exact he ▸ hw.declare url declared

theorem Answers.above {response : Response} (h : reloader.Answers url response)
    (hw : reloader.graph.WellFormed) {other : Url}
    (ha : response.reloader.graph.Above url other) : reloader.graph.Above url other := by
  rcases h.graph with he | ⟨declared, he⟩
  · exact he ▸ ha
  · exact hw.above_of_declare (he ▸ ha)

section Comprises

variable {cause : String} {updates : List Instruction}

-- A parse re-applies nothing.
theorem comprises_finish (hw : reloader.graph.WellFormed)
    (hm : (reloader.finish ticket declaration).result.message = some (.hotReload cause updates)) :
    ∃ dropped, Message.Comprises reloader.config.rootUrl reloader.graph
      (reloader.finish ticket declaration).result.reloader.graph ticket.url [] dropped updates := by
  have hstale : reloader.turnstile.isStale ticket = false := by
    rw [← Bool.not_eq_true]
    intro hs
    rw [result_finish_of_stale hs] at hm
    cases hm
  have htells :
      reloader.tellsOf (reloader.graph.declare ticket.url declaration).result.orphaned = true := by
    rw [← Bool.not_eq_false]
    intro hu
    rw [message_finish_of_untold hu] at hm
    cases hm
  obtain ⟨hne, hp⟩ := tellsOf_iff.mp htells
  obtain ⟨verdict, hv⟩ := reloader.graph.exists_verdictAt_declare ticket.url declaration
  rw [message_finish_of_orphaned hstale hp hne hv, Option.some.injEq] at hm
  obtain ⟨_, -, hupdates⟩ := Message.exists_accepted_of_addOrphans hm
  refine ⟨_, hupdates, fun h => absurd rfl h, ?_⟩
  rw [graph_finish, hstale, if_neg Bool.false_ne_true, hw.orphaned_declare]
  exact fun _ ho => ho

theorem comprises_fileRemoved (hw : reloader.graph.WellFormed) {event : FileEvent}
    (hm : (reloader.fileRemoved event).result.message = some (.hotReload cause updates)) :
    ∃ reapplied dropped, Message.Comprises reloader.config.rootUrl reloader.graph
      (reloader.fileRemoved event).result.reloader.graph event.url reapplied dropped updates := by
  have hc : reloader.graph.contains event.url = true := by
    by_contra hc
    simp [fileRemoved, hc] at hm
  obtain ⟨verdict, hv⟩ :=
    reloader.graph.exists_verdictAt_declare event.url { dependencies := some [] }
  rw [reloader_fileRemoved, if_pos hc]
  cases htells : reloader.tellsOf
      (reloader.graph.declare event.url { dependencies := some [] }).result.orphaned with
  | false =>
      rw [message_fileRemoved_of_untold hc htells hv, Option.some.injEq] at hm
      obtain ⟨boundaries, rfl, hupdates⟩ := Message.exists_accepted_of_ofVerdict hm
      refine ⟨boundaries, [], ?_, fun _ => hv, List.nil_subset _⟩
      rw [hupdates, List.map_nil, List.append_nil]
  | true =>
      obtain ⟨hne, hp⟩ := tellsOf_iff.mp htells
      rw [message_fileRemoved_of_orphaned hc hp hne hv, Option.some.injEq] at hm
      obtain ⟨boundaries, rfl, hupdates⟩ := Message.exists_accepted_of_addOrphans hm
      exact ⟨boundaries, _, hupdates, fun _ => hv, hw.orphaned_declare .. ▸ fun _ ho => ho⟩

-- A file that is added or modified drops nothing.
theorem comprises_notice {event : FileEvent} (hk : event.kind ≠ .removed)
    (hm : (reloader.fileChanged event).result.message = some (.hotReload cause updates)) :
    ∃ reapplied, Message.Comprises reloader.config.rootUrl reloader.graph
      (reloader.fileChanged event).result.reloader.graph event.url reapplied [] updates := by
  have hannounce : (reloader.announce event).result = some (.hotReload cause updates) := by
    rw [result_fileChanged_of_ne hk] at hm
    exact hm
  cases hv : reloader.graph.verdictAt event.url with
  | error fault =>
      unfold Graph.verdictAt at hv
      simp [announce, hv] at hannounce
  | ok verdict =>
      rw [result_announce hv, Option.some.injEq] at hannounce
      obtain ⟨boundaries, rfl, hupdates⟩ := Message.exists_accepted_of_ofVerdict hannounce
      rw [reloader_fileChanged, if_neg hk]
      refine ⟨boundaries, ?_, fun _ => hv, List.nil_subset _⟩
      rw [hupdates, List.map_nil, List.append_nil]

theorem Answers.comprises {response : Response} (h : reloader.Answers url response)
    (hw : reloader.graph.WellFormed) (hm : response.message = some (.hotReload cause updates)) :
    ∃ reapplied dropped, Message.Comprises reloader.config.rootUrl reloader.graph
      response.reloader.graph url reapplied dropped updates := by
  cases h with
  | declare declaration =>
      have hw' : (reloader.begin url).2.graph.WellFormed := hw
      obtain ⟨dropped, hcomprises⟩ := comprises_finish hw' hm
      exact ⟨[], dropped, hcomprises⟩
  | finish declaration hu =>
      subst hu
      obtain ⟨dropped, hcomprises⟩ := comprises_finish hw hm
      exact ⟨[], dropped, hcomprises⟩
  | fileChanged kind =>
      by_cases hk : kind = .removed
      · subst hk
        exact @comprises_fileRemoved reloader cause updates hw ⟨url, .removed⟩ hm
      · obtain ⟨reapplied, hcomprises⟩ := comprises_notice hk hm
        exact ⟨reapplied, [], hcomprises⟩

end Comprises

-- What is dropped was referenced by `url`, and what is re-applied leads back to it.
theorem circles_of_dropped_and_reapplied (config : Config) (calls : List Call) :
    let reloader := (empty config).run calls
    let shown := Url.relativeTo config.rootUrl
    (∀ url, reloader.graph.contains url = true → config.rootUrl.toList <+: url.toList) →
      ∀ url response cause updates, reloader.Answers url response →
        response.message = some (.hotReload cause updates) →
          ∃ reapplied dropped, Message.Comprises config.rootUrl reloader.graph
              response.reloader.graph url reapplied dropped updates ∧
            ∀ other ∈ dropped,
              shown other = shown url ∨ (∃ boundary ∈ reapplied, shown other = shown boundary.url) →
                reloader.graph.Circles url other := by
  intro reloader shown hroot url response cause updates hanswers hm
  have hw : reloader.graph.WellFormed := wellFormed_run Graph.WellFormed.empty calls
  have hconfig : reloader.config = config := config_run (empty config) calls
  obtain ⟨reapplied, dropped, hcomprises⟩ := hanswers.comprises hw hm
  rw [hconfig] at hcomprises
  refine ⟨reapplied, dropped, hcomprises, fun other ho hshown => ?_⟩
  have hd : other ∈ reloader.graph.dependenciesOf url :=
    List.mem_of_mem_filter (hcomprises.orphaned ho)
  have hc : reloader.graph.contains url = true := by
    obtain ⟨resource, hr, -⟩ := Graph.mem_dependenciesOf.mp hd
    rw [Graph.contains_eq_isSome, hr]
    rfl
  have hother := hroot other (hw.contains_of_mem_dependenciesOf hd)
  refine ⟨hd, ?_⟩
  rcases hshown with hself | ⟨boundary, hb, hsame⟩
  · rw [Url.relativeTo_inj hother (hroot url hc) hself]
    exact Relation.ReflTransGen.refl
  · have habove : reloader.graph.Above url boundary.url :=
      hanswers.above hw (hcomprises.above (hanswers.wellFormed hw).keyed hb)
    rw [Url.relativeTo_inj hother (hroot _ (hw.contains_of_above hc habove)) hsame]
    exact habove

-- `b.css` and `c.css` reference each other until the file of `b.css` is removed.
theorem circles_of_dropped_stylesheet :
    let calls : List Call :=
      [.declare "http://localhost/b.css" { dependencies := some ["http://localhost/c.css"] },
        .declare "http://localhost/c.css"
          { dependencies := some ["http://localhost/b.css"], selfAccepts := some true }]
    let reloader := (empty {}).run calls
    let response := (reloader.fileChanged ⟨"http://localhost/b.css", .removed⟩).result
    (∀ url, reloader.graph.contains url = true →
        ({} : Config).rootUrl.toList <+: url.toList) ∧
      reloader.Answers "http://localhost/b.css" response ∧
      response.message = some (.hotReload "b.css removed"
        [⟨"", "c.css", "c.css"⟩, ⟨"prune", "c.css", "b.css"⟩]) ∧
      ∃ other, Url.relativeTo ({} : Config).rootUrl other = "c.css" ∧
        reloader.graph.Circles "http://localhost/b.css" other := by
  intro calls reloader response
  have hroot : ∀ url, reloader.graph.contains url = true →
      ({} : Config).rootUrl.toList <+: url.toList := by
    have hall : ∀ url ∈ reloader.graph.urls.toList,
        ({} : Config).rootUrl.toList <+: url.toList := by
      decide +kernel
    exact fun url hc => hall url (Graph.mem_urls.mpr hc)
  have hanswers : reloader.Answers "http://localhost/b.css" response := .fileChanged .removed
  have hm : response.message = some (.hotReload "b.css removed"
      [⟨"", "c.css", "c.css"⟩, ⟨"prune", "c.css", "b.css"⟩]) := by
    decide +kernel
  obtain ⟨reapplied, dropped, hcomprises, hcircles⟩ :=
    circles_of_dropped_and_reapplied {} calls hroot _ response _ _ hanswers hm
  have hverdict : response.reloader.graph.verdictAt "http://localhost/b.css" =
      .ok (.accepted [⟨"http://localhost/c.css", "http://localhost/c.css"⟩]) := by
    decide +kernel
  have hne : reapplied ≠ [] := by
    rintro rfl
    have hupdates := hcomprises.updates_eq
    cases dropped <;> simp [Instruction.drop, Instruction.pruneKind] at hupdates
  have hreapplied := (hcomprises.arrives hne).symm.trans hverdict
  simp only [Except.ok.injEq, Verdict.accepted.injEq] at hreapplied
  subst hreapplied
  have hmap : dropped.map (Instruction.drop ({} : Config).rootUrl "http://localhost/b.css") =
      [⟨"prune", "c.css", "b.css"⟩] := by
    simpa using (List.cons.inj hcomprises.updates_eq).2.symm
  obtain ⟨other, rfl, hdrop⟩ := List.map_eq_singleton_iff.mp hmap
  have hshown : Url.relativeTo ({} : Config).rootUrl other = "c.css" :=
    congrArg Instruction.boundary hdrop
  refine ⟨hroot, hanswers, hm, other, hshown, ?_⟩
  refine hcircles other List.mem_cons_self (.inr ⟨_, List.mem_cons_self, hshown.trans ?_⟩)
  decide +kernel

-- `a.js` references itself until its file is removed; `b.js` and `c.js` reference each other until
-- the file of `b.js` is removed.
theorem dropped_though_reapplied :
    let calls : List Call :=
      [.declare "http://localhost/a.js"
        { dependencies := some ["http://localhost/a.js"], selfAccepts := some true },
        .declare "http://localhost/b.js" { dependencies := some ["http://localhost/c.js"] },
        .declare "http://localhost/c.js"
          { dependencies := some ["http://localhost/b.js"], selfAccepts := some true }]
    let reloader := (empty {}).run calls
    (∀ url, reloader.graph.contains url = true →
        ({} : Config).rootUrl.toList <+: url.toList) ∧
      (reloader.fileChanged ⟨"http://localhost/a.js", .removed⟩).result.message =
        some (.hotReload "a.js removed" [⟨"", "a.js", "a.js"⟩, ⟨"prune", "a.js", "a.js"⟩]) ∧
      (reloader.fileChanged ⟨"http://localhost/b.js", .removed⟩).result.message =
        some (.hotReload "b.js removed" [⟨"", "c.js", "c.js"⟩, ⟨"prune", "c.js", "b.js"⟩]) := by
  intro calls reloader
  have hroot : ∀ url ∈ reloader.graph.urls.toList,
      ({} : Config).rootUrl.toList <+: url.toList := by
    decide +kernel
  exact ⟨fun url hc => hroot url (Graph.mem_urls.mpr hc), by decide +kernel, by decide +kernel⟩

end Reloader

end LiveReload
