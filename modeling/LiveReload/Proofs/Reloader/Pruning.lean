import LiveReload.Proofs.Announcement
import LiveReload.Proofs.Graph.Orphan
import LiveReload.Proofs.Reloader.Consistency
import LiveReload.Proofs.Turnstile

namespace LiveReload

section Records

variable {graph : Graph} {url : Url} {record : LogRecord}

theorem Graph.mem_log_verdictAt (h : record ∈ (graph.verdictAtLogged url).log) :
    (∃ node dependent, record = .danglingDependent node dependent) ∨
      ∃ node verdict, record = Verdict.record node verdict := by
  unfold verdictAtLogged at h
  cases hr : graph.get? url with
  | none => simp [hr] at h
  | some resource =>
      rw [hr, Logged.log_map, verdictOfLogged] at h
      split at h
      · exact .inr ⟨_, _, List.mem_singleton.mp h⟩
      · rcases List.mem_append.mp h with h | h
        · obtain ⟨edge, -, rfl⟩ := List.mem_map.mp h
          exact .inl ⟨edge.1, edge.2, rfl⟩
        · exact .inr ⟨_, _, List.mem_singleton.mp h⟩

theorem Graph.mem_log_declare {declaration : Declaration}
    (h : record ∈ (graph.declare url declaration).log) :
    (∃ added, record = .registering added) ∨
      ∃ source added removed pruned, record = .reconciledEdges source added removed pruned := by
  have hregistering : ∀ (graph : Graph) (added : Url),
      record ∈ graph.registrations added → ∃ added, record = .registering added := by
    intro graph added hm
    unfold registrations at hm
    split at hm
    · cases hm
    · exact ⟨added, List.mem_singleton.mp hm⟩
  rw [declare, Logged.log_bind, List.mem_append] at h
  rcases h with h | h
  · exact .inl (hregistering _ _ h)
  · cases hd : declaration.dependencies with
    | none => simp [hd] at h
    | some urls =>
        simp only [hd, redirect, List.mem_append, List.mem_flatMap, List.mem_singleton] at h
        rcases h with ⟨added, -, h⟩ | h
        · exact .inl (hregistering _ _ h)
        · exact .inr ⟨_, _, _, _, h⟩

end Records

namespace Reloader

variable {reloader : Reloader} {ticket : Ticket} {url : Url} {declaration : Declaration}
  {fault : UnknownResource}

section Skipped

theorem not_mem_log_verdictAt {graph : Graph} :
    .pruneSkipped fault ∉ (graph.verdictAtLogged url).log := by
  intro h
  rcases Graph.mem_log_verdictAt h with ⟨_, _, h⟩ | ⟨_, verdict, h⟩
  · cases h
  · cases verdict <;> cases h

theorem not_mem_log_declare {graph : Graph} :
    .pruneSkipped fault ∉ (graph.declare url declaration).log := by
  intro h
  rcases Graph.mem_log_declare h with ⟨_, h⟩ | ⟨_, _, _, _, h⟩ <;> cases h

theorem not_mem_log_pass {turnstile : Turnstile} :
    .pruneSkipped fault ∉ (turnstile.pass ticket).log := by
  unfold Turnstile.pass
  dsimp only
  split <;> simp

theorem not_mem_log_sayAny {message : Option Message} :
    .pruneSkipped fault ∉ (reloader.sayAny message).log := by
  cases message <;> simp [sayAny, say, silent]

theorem not_mem_log_ofOrphans {root : Url} {graph : Graph} {orphans : List Url} :
    .pruneSkipped fault ∉ (Message.ofOrphans root graph url orphans).log := by
  unfold Message.ofOrphans
  split
  · simp
  · rw [Logged.log_bind, List.mem_append, not_or]
    refine ⟨not_mem_log_verdictAt, ?_⟩
    split
    · simp
    · split <;> simp

end Skipped

section Finish

theorem pass_fst_eq_true_iff :
    (reloader.turnstile.pass ticket).result.1 = true ↔ reloader.turnstile.isStale ticket = false := by
  rw [Turnstile.result_pass_eq_not, Bool.not_eq_true']

theorem tellsOf_iff {orphaned : List Url} : reloader.tellsOf orphaned = true ↔
    orphaned ≠ [] ∧ reloader.config.pruneNotifications = true := by
  simp [tellsOf]

theorem message_finish_of_untold
    (h : reloader.tellsOf (reloader.graph.declare ticket.url declaration).result.orphaned = false) :
    (reloader.finish ticket declaration).result.message = none := by
  simp only [finish, Logged.result_bind]
  split
  · rw [Logged.result_bind, if_neg]
    · rfl
    · exact Bool.not_eq_true _ ▸ h
  · rfl

theorem message_finish_of_nil
    (hn : (reloader.graph.declare ticket.url declaration).result.orphaned = []) :
    (reloader.finish ticket declaration).result.message = none :=
  message_finish_of_untold (by simp [tellsOf, hn])

theorem message_finish_of_orphaned (hf : reloader.turnstile.isStale ticket = false)
    (hp : reloader.config.pruneNotifications = true) {verdict : Verdict} :
    let change := (reloader.graph.declare ticket.url declaration).result
    change.orphaned ≠ [] → change.graph.verdictAt ticket.url = .ok verdict →
      (reloader.finish ticket declaration).result.message =
        some (Message.addOrphans reloader.config.rootUrl change.graph ticket.url change.orphaned
          (Message.base reloader.config.rootUrl
            (Message.orphanCause reloader.config.rootUrl change.orphaned) (fun _ => []) verdict)) := by
  intro change hne hv
  simp only [finish, Logged.result_bind, pass_fst_eq_true_iff.mpr hf, if_true]
  split
  · simp only [Logged.result_bind, Message.result_ofOrphans hv hne, result_sayAny, change]
  · rename_i ht
    exact absurd (tellsOf_iff.mpr ⟨hne, hp⟩) ht

theorem not_mem_log_finish : .pruneSkipped fault ∉ (reloader.finish ticket declaration).log := by
  obtain ⟨verdict, hv⟩ := reloader.graph.exists_verdictAt_declare ticket.url declaration
  simp only [finish, Logged.log_bind, List.mem_append, not_or]
  refine ⟨not_mem_log_pass, ?_⟩
  split
  · rw [Logged.log_bind, List.mem_append, not_or]
    refine ⟨not_mem_log_declare, ?_⟩
    split
    · rename_i ht
      have hne := (tellsOf_iff.mp ht).1
      rw [Logged.log_bind, List.mem_append, not_or, Message.result_ofOrphans hv hne]
      exact ⟨not_mem_log_ofOrphans, not_mem_log_sayAny⟩
    · exact List.not_mem_nil
  · exact List.not_mem_nil

end Finish

section Removed

theorem result_announce {event : FileEvent} {verdict : Verdict}
    (hv : reloader.graph.verdictAt event.url = .ok verdict) :
    (reloader.announce event).result = some (Message.ofVerdict reloader.config.rootUrl
      reloader.graph (Message.changeCause reloader.config.rootUrl event) verdict) := by
  unfold Graph.verdictAt at hv
  simp only [announce, Logged.result_bind, hv]
  rfl

theorem message_fileRemoved_of_orphaned {event : FileEvent}
    (hc : reloader.graph.contains event.url = true)
    (hp : reloader.config.pruneNotifications = true) {verdict : Verdict} :
    let root := reloader.config.rootUrl
    let change := (reloader.graph.declare event.url { dependencies := some [] }).result
    change.orphaned ≠ [] → change.graph.verdictAt event.url = .ok verdict →
      (reloader.fileRemoved event).result.message =
        some (Message.addOrphans root change.graph event.url change.orphaned
          (Message.base root (Message.changeCause root event)
            (·.map (Boundary.instruction root change.graph)) verdict)) := by
  intro root change hne hv
  have hannounce : (({ reloader with graph := change.graph } : Reloader).announce event).result =
    _ := result_announce hv
  simp only [fileRemoved, hc, if_true, Logged.result_bind]
  split
  · rw [result_sayAny]
    exact congrArg (Option.map _) (hannounce.trans (congrArg some Message.ofVerdict_eq_base))
  · rename_i ht
    exact absurd (tellsOf_iff.mpr ⟨hne, hp⟩) ht

theorem message_fileRemoved_of_untold {event : FileEvent} {verdict : Verdict}
    (hc : reloader.graph.contains event.url = true)
    (h : reloader.tellsOf
      (reloader.graph.declare event.url { dependencies := some [] }).result.orphaned = false)
    (hv : (reloader.graph.declare event.url { dependencies := some [] }).result.graph.verdictAt
      event.url = .ok verdict) :
    (reloader.fileRemoved event).result.message =
      some (Message.ofVerdict reloader.config.rootUrl
        (reloader.graph.declare event.url { dependencies := some [] }).result.graph
        (Message.changeCause reloader.config.rootUrl event) verdict) := by
  simp only [fileRemoved, hc, if_true, Logged.result_bind]
  rw [if_neg]
  · rw [result_sayAny]
    exact result_announce hv
  · rw [Bool.not_eq_true]
    exact h

theorem not_mem_log_announce {event : FileEvent} :
    .pruneSkipped fault ∉ (reloader.announce event).log := by
  rw [announce, Logged.log_bind, List.mem_append, not_or]
  refine ⟨not_mem_log_verdictAt, ?_⟩
  split <;> simp

theorem not_mem_log_fileRemoved {event : FileEvent} :
    .pruneSkipped fault ∉ (reloader.fileRemoved event).log := by
  unfold fileRemoved
  split
  · simp only [Logged.log_bind, List.mem_append, not_or]
    refine ⟨not_mem_log_declare, not_mem_log_announce, ?_⟩
    split <;> exact not_mem_log_sayAny
  · simp [silent]

end Removed

-- What clients are told by a call that may change what `url` references in the graph `before`.
-- `cause` and `leading` say how the message begins.
structure TellsOrphans (root : Url) (before : Graph) (url : Url) (cause : List Url → String)
    (leading : Graph → List Boundary → List Instruction) (logged : Logged Response) : Prop where
  mem_orphans_iff : ∀ other, other ∈ before.orphans logged.result.reloader.graph url ↔
    (∃ source, source ∈ before.dependentsOf other) ∧
      ∀ source, source ∉ logged.result.reloader.graph.dependentsOf other
  not_skipped : ∀ fault, .pruneSkipped fault ∉ logged.log
  announced :
    let after := logged.result.reloader.graph
    let orphans := before.orphans after url
    orphans ≠ [] → ∃ message, logged.result.message = some message ∧
      Message.Announces root after url orphans (cause orphans) (leading after) message

-- The message of a parse is about the orphans alone.
structure ParseTellsOrphans (root : Url) (before : Graph) (url : Url)
    (logged : Logged Response) : Prop extends
    TellsOrphans root before url (Message.orphanCause root) (fun _ _ => []) logged where
  silent : before.orphans logged.result.reloader.graph url = [] → logged.result.message = none

section TellsOrphans

theorem parseTellsOrphans_finish (hw : reloader.graph.WellFormed)
    (hp : reloader.config.pruneNotifications = true)
    (hf : (reloader.turnstile.pass ticket).result.1 = true) :
    ParseTellsOrphans reloader.config.rootUrl reloader.graph ticket.url
      (reloader.finish ticket declaration) := by
  rw [pass_fst_eq_true_iff] at hf
  have hgraph : (reloader.finish ticket declaration).result.reloader.graph =
      (reloader.graph.declare ticket.url declaration).result.graph := by
    rw [graph_finish, hf, if_neg Bool.false_ne_true]
  obtain ⟨verdict, hv⟩ := reloader.graph.exists_verdictAt_declare ticket.url declaration
  refine ⟨⟨fun other => ?_, fun _ => not_mem_log_finish, ?_⟩, ?_⟩
  · rw [hgraph]
    exact hw.mem_orphans_declare
  · intro after orphans hne
    simp only [orphans, after, hgraph, ← hw.orphaned_declare] at hne ⊢
    exact ⟨_, message_finish_of_orphaned hf hp hne hv, Message.announces_addOrphans hv⟩
  · rw [hgraph, ← hw.orphaned_declare]
    exact message_finish_of_nil

theorem tellsOrphans_fileRemoved (hw : reloader.graph.WellFormed)
    (hp : reloader.config.pruneNotifications = true) {event : FileEvent}
    (hc : reloader.graph.contains event.url = true) :
    TellsOrphans reloader.config.rootUrl reloader.graph event.url
      (fun _ => Message.changeCause reloader.config.rootUrl event)
      (fun after => (·.map (Boundary.instruction reloader.config.rootUrl after)))
      (reloader.fileRemoved event) := by
  have hgraph : (reloader.fileRemoved event).result.reloader.graph =
      (reloader.graph.declare event.url { dependencies := some [] }).result.graph := by
    rw [reloader_fileRemoved, if_pos hc]
  obtain ⟨verdict, hv⟩ :=
    reloader.graph.exists_verdictAt_declare event.url { dependencies := some [] }
  refine ⟨fun other => ?_, fun _ => not_mem_log_fileRemoved, ?_⟩
  · rw [hgraph]
    exact hw.mem_orphans_declare
  · intro after orphans hne
    simp only [orphans, after, hgraph, ← hw.orphaned_declare] at hne ⊢
    exact ⟨_, message_fileRemoved_of_orphaned hc hp hne hv, Message.announces_addOrphans hv⟩

end TellsOrphans

theorem orphans_announced (config : Config) (hp : config.pruneNotifications = true)
    (calls : List Call) :
    let reloader := (empty config).run calls
    (∀ ticket declaration, (reloader.turnstile.pass ticket).result.1 = true →
        ParseTellsOrphans config.rootUrl reloader.graph ticket.url
          (reloader.finish ticket declaration)) ∧
      (∀ url declaration,
        ((reloader.begin url).2.turnstile.pass (reloader.begin url).1).result.1 = true →
          ParseTellsOrphans config.rootUrl reloader.graph url
            (reloader.declare url declaration)) ∧
      ∀ url, reloader.graph.contains url = true →
        TellsOrphans config.rootUrl reloader.graph url
          (fun _ => Message.changeCause config.rootUrl ⟨url, .removed⟩)
          (fun after => (·.map (Boundary.instruction config.rootUrl after)))
          (reloader.fileChanged ⟨url, .removed⟩) := by
  intro reloader
  have hw : reloader.graph.WellFormed := wellFormed_run Graph.WellFormed.empty calls
  have hconfig : reloader.config = config := config_run (empty config) calls
  rw [← hconfig] at hp ⊢
  refine ⟨fun ticket declaration hf => parseTellsOrphans_finish hw hp hf, ?_, ?_⟩
  · intro url declaration hf
    have hw' : (reloader.begin url).2.graph.WellFormed := hw
    exact parseTellsOrphans_finish hw' hp hf
  · intro url hc
    have hc' : reloader.graph.contains (⟨url, .removed⟩ : FileEvent).url = true := hc
    exact tellsOrphans_fileRemoved hw hp hc'

-- `main.js` no longer references `a.js`; then its file goes, and with it the last reference to
-- `b.js`, which declines.
theorem orphans_announced_to_clients :
    let calls : List Call :=
      [.declare "http://localhost/main.js"
        { dependencies := some ["http://localhost/a.js", "http://localhost/b.js"]
          selfAccepts := some true },
        .declare "http://localhost/b.js" { declines := some true }]
    let reloader := (empty {}).run calls
    let declared := (reloader.declare "http://localhost/main.js"
      { dependencies := some ["http://localhost/b.js"] }).result
    (({} : Config).pruneNotifications = true) ∧
      declared.message = some (.hotReload "following files are no longer referenced: a.js"
        [⟨"prune", "a.js", "main.js"⟩]) ∧
      declared.reloader.graph.contains "http://localhost/main.js" = true ∧
      (declared.reloader.fileChanged ⟨"http://localhost/main.js", .removed⟩).result.message =
        some (.fullReload "main.js removed" "a pruned file declines hot reload" (some "b.js")) := by
  intro calls reloader declared
  let next : Declaration := { dependencies := some ["http://localhost/b.js"] }
  obtain ⟨-, hdeclare, -⟩ := orphans_announced {} rfl calls
  obtain ⟨-, -, hremoved⟩ :=
    orphans_announced {} rfl (calls ++ [.declare "http://localhost/main.js" next])
  have hrun : (empty {}).run (calls ++ [.declare "http://localhost/main.js" next]) =
    declared.reloader := run_concat _ _ _
  rw [hrun] at hremoved
  have hc : declared.reloader.graph.contains "http://localhost/main.js" = true := by decide +kernel
  have htold := hdeclare "http://localhost/main.js" next (by decide +kernel)
  have hlost := hremoved "http://localhost/main.js" hc
  obtain ⟨message, hm, hannounces⟩ := htold.announced (by decide +kernel)
  obtain ⟨message', hm', hannounces'⟩ := hlost.announced (by decide +kernel)
  refine ⟨rfl, hm.trans (congrArg some ?_), hc, hm'.trans (congrArg some ?_)⟩
  · have hverdict : declared.reloader.graph.verdictAt "http://localhost/main.js" =
        .ok (.accepted [⟨"http://localhost/main.js", "http://localhost/main.js"⟩]) := by
      decide +kernel
    exact (hannounces.hot _ hverdict (by decide +kernel)).trans (by decide +kernel)
  · have hverdict : (declared.reloader.fileChanged
        ⟨"http://localhost/main.js", .removed⟩).result.reloader.graph.verdictAt
          "http://localhost/main.js" =
        .ok (.accepted [⟨"http://localhost/main.js", "http://localhost/main.js"⟩]) := by
      decide +kernel
    exact (hannounces'.declining _ [] "http://localhost/b.js" [] hverdict (by decide +kernel)
      (by simp) (by decide +kernel)).trans (by decide +kernel)

end Reloader

end LiveReload
