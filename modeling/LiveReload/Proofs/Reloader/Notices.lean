import LiveReload.Proofs.Graph.Clearing
import LiveReload.Proofs.Reloader.Reapplied
import LiveReload.Proofs.Station

namespace LiveReload

-- To re-apply `boundary`, as the kind of resource that is registered there.
inductive Instruction.Reapplies (root : Url) (graph : Graph) (boundary : Boundary) :
    Instruction → Prop
  | intro {resource : Resource} : graph.get? boundary.url = some resource →
      Reapplies root graph boundary ⟨resource.kind, Url.relativeTo root boundary.url,
        Url.relativeTo root boundary.accepted⟩

-- The message passes a verdict on to clients, boundary for boundary.
inductive Message.Relays (root : Url) (graph : Graph) (cause : String) : Verdict → Message → Prop
  | declined {reason : DeclineReason} {declinedBy : Option Url} :
      Relays root graph cause (.declined reason declinedBy)
        (.fullReload cause reason.text (declinedBy.map (Url.relativeTo root)))
  | accepted {boundaries : List Boundary} {updates : List Instruction} :
      List.Forall₂ (Instruction.Reapplies root graph) boundaries updates →
        Relays root graph cause (.accepted boundaries) (.hotReload cause updates)

namespace Graph

variable {graph : Graph} {url other : Url} {verdict : Verdict}

theorem WellFormed.contains_of_mem_urls (h : graph.WellFormed)
    (hv : graph.verdictAt url = .ok verdict) (hm : other ∈ verdict.urls) :
    graph.contains other = true := by
  have habove : graph.Above url other :=
    (graph.isUpward_above url).forall_urls_verdictAt h.keyed Relation.ReflTransGen.refl hv other hm
  exact h.contains_of_above (contains_of_verdictAt hv) habove

theorem WellFormed.relays_ofVerdict (h : graph.WellFormed)
    (hv : graph.verdictAt url = .ok verdict) (root : Url) (cause : String) :
    Message.Relays root graph cause verdict (Message.ofVerdict root graph cause verdict) := by
  cases verdict with
  | declined reason declinedBy => exact .declined
  | accepted boundaries =>
      refine .accepted ?_
      rw [List.forall₂_map_right_iff, List.forall₂_same]
      intro boundary hb
      have hnamed : boundary.url ∈ (Verdict.accepted boundaries).urls :=
        List.mem_flatMap.mpr ⟨boundary, hb, List.mem_cons_self⟩
      obtain ⟨resource, hr⟩ := Option.isSome_iff_exists.mp (h.contains_of_mem_urls hv hnamed)
      have hkind : ((graph.get? boundary.url).map Resource.kind).getD "" = resource.kind := by
        rw [Graph.get?, hr, Option.map_some, Option.getD_some]
      rw [hkind]
      exact .intro hr

end Graph

-- A call that changes nothing and says nothing does not reach the roster.
theorem Station.step_reload_of_idle {σ : Type} {station : Station σ} {call : Reloader.Call}
    (h : station.reloader.respond call = ⟨station.reloader, none⟩)
    (conduct : Subscription σ → List Nat) :
    station.step (.reload call conduct) = (none, { station with events := [] }) := by
  rw [step_reload_of_none (congrArg Reloader.Response.message h), before,
    ← Reloader.reloader_respond, h]

namespace Reloader

variable {reloader : Reloader} {event : FileEvent}

theorem result_announce_of_unknown (h : reloader.graph.contains event.url = false) :
    (reloader.announce event).result = none := by
  cases hv : reloader.graph.verdictAt event.url with
  | ok verdict =>
      rw [Graph.contains_of_verdictAt hv] at h
      cases h
  | error fault =>
      unfold Graph.verdictAt at hv
      simp only [announce, Logged.result_bind, hv]
      rfl

theorem result_fileChanged_of_unknown (h : reloader.graph.contains event.url = false) :
    (reloader.fileChanged event).result = ⟨reloader, none⟩ := by
  by_cases hk : event.kind = .removed
  · simp [fileChanged, hk, fileRemoved, h]
  · rw [result_fileChanged_of_ne hk, result_announce_of_unknown h]

-- Whether or not clients are also told what the removal orphaned.
theorem exists_message_fileRemoved (hc : reloader.graph.contains event.url = true) :
    ∃ message, (reloader.fileRemoved event).result.message = some message := by
  obtain ⟨verdict, hv⟩ :=
    reloader.graph.exists_verdictAt_declare event.url { dependencies := some [] }
  cases htells : reloader.tellsOf
      (reloader.graph.declare event.url { dependencies := some [] }).result.orphaned with
  | false => exact ⟨_, message_fileRemoved_of_untold hc htells hv⟩
  | true =>
      obtain ⟨hne, hp⟩ := tellsOf_iff.mp htells
      exact ⟨_, message_fileRemoved_of_orphaned hc hp hne hv⟩

theorem effect_of_notice (config : Config) (calls : List Call) (event : FileEvent) :
    let reloader := (empty config).run calls
    let response := (reloader.fileChanged event).result
    (reloader.graph.contains event.url = false → response = ⟨reloader, none⟩ ∧
        ∀ {σ : Type} (station : Station σ) (conduct : Subscription σ → List Nat),
          station.reloader = reloader → station.step (.reload (.fileChanged event) conduct) =
            (none, { station with events := [] })) ∧
      (reloader.graph.contains event.url = true →
        ∃ message, response.message = some message ∧
          (event.kind ≠ .removed → response.reloader = reloader ∧
            ∃ verdict, reloader.graph.verdictAt event.url = .ok verdict ∧
              Message.Relays config.rootUrl reloader.graph
                (Message.changeCause config.rootUrl event) verdict message) ∧
          (event.kind = .removed → response.reloader =
            { reloader with
              graph := reloader.graph.mapResources (reloader.graph.cleared event.url) })) := by
  intro reloader response
  have hw : reloader.graph.WellFormed := wellFormed_run Graph.WellFormed.empty calls
  have hconfig : reloader.config = config := config_run (empty config) calls
  refine ⟨fun hc => ?_, fun hc => ?_⟩
  · have hnothing : response = ⟨reloader, none⟩ := result_fileChanged_of_unknown hc
    refine ⟨hnothing, fun station conduct hs => ?_⟩
    exact Station.step_reload_of_idle (hs ▸ hnothing) conduct
  · by_cases hk : event.kind = .removed
    · have hresponse : response = (reloader.fileRemoved event).result := by
        simp only [response, fileChanged, hk]
      have hreloader : response.reloader = _ :=
        (congrArg Response.reloader hresponse).trans
          ((reloader_fileRemoved event).trans (if_pos hc))
      obtain ⟨message, hm⟩ := exists_message_fileRemoved hc
      rw [Graph.graph_declare_nothing hc] at hreloader
      exact ⟨message, hresponse ▸ hm, fun h => absurd hk h, fun _ => hreloader⟩
    · obtain ⟨verdict, hv⟩ := Graph.exists_verdictAt hc
      have hresponse : response = _ := result_fileChanged_of_ne hk
      rw [result_announce hv, hconfig] at hresponse
      rw [hresponse]
      exact ⟨_, rfl, fun _ => ⟨rfl, verdict, hv, hw.relays_ofVerdict hv _ _⟩,
        fun h => absurd h hk⟩

-- `a.js` references itself and, around a cycle, `b.js`. Both take updates of `c.css`; when the file
-- of `a.js` goes, `b.js` goes on referencing it.
theorem notices_around_cycle :
    let calls : List Call := [
      .declare "http://localhost/a.js" {
        kind := some "js"
        dependencies :=
          some ["http://localhost/b.js", "http://localhost/a.js", "http://localhost/c.css"]
        accepted := some ["http://localhost/c.css"] },
      .declare "http://localhost/b.js" {
        dependencies := some ["http://localhost/c.css", "http://localhost/a.js"]
        accepted := some ["http://localhost/c.css"] }]
    let reloader := (empty {}).run calls
    let modified := (reloader.fileChanged ⟨"http://localhost/c.css", .modified⟩).result
    let removed := (reloader.fileChanged ⟨"http://localhost/a.js", .removed⟩).result
    (reloader.graph.contains "http://localhost/d.js" = false ∧
        (reloader.fileChanged ⟨"http://localhost/d.js", .removed⟩).result = ⟨reloader, none⟩) ∧
      (reloader.graph.contains "http://localhost/c.css" = true ∧ modified.reloader = reloader ∧
        ∃ message verdict, modified.message = some message ∧
          reloader.graph.verdictAt "http://localhost/c.css" = .ok verdict ∧
          Message.Relays "http://localhost/" reloader.graph "c.css modified" verdict message ∧
          message = .hotReload "c.css modified" [⟨"js", "a.js", "c.css"⟩, ⟨"", "b.js", "c.css"⟩]) ∧
      reloader.graph.contains "http://localhost/a.js" = true ∧
        (∃ message, removed.message = some message) ∧
        removed.reloader.graph =
          reloader.graph.mapResources (reloader.graph.cleared "http://localhost/a.js") ∧
        removed.reloader.graph.nodes = [
          ⟨0, "http://localhost/a.js", "js", ∅, .ofList ["http://localhost/b.js"], false, false,
            .ofList ["http://localhost/c.css"]⟩,
          ⟨1, "http://localhost/b.js", "",
            .ofList ["http://localhost/c.css", "http://localhost/a.js"], ∅, false, false,
            .ofList ["http://localhost/c.css"]⟩,
          ⟨2, "http://localhost/c.css", "", ∅, .ofList ["http://localhost/b.js"], false, false,
            ∅⟩] := by
  intro calls reloader modified removed
  have hunknown : reloader.graph.contains "http://localhost/d.js" = false := by decide +kernel
  have hc : reloader.graph.contains "http://localhost/c.css" = true := by decide +kernel
  have ha : reloader.graph.contains "http://localhost/a.js" = true := by decide +kernel
  obtain ⟨hnothing, -⟩ := (effect_of_notice {} calls ⟨"http://localhost/d.js", .removed⟩).1 hunknown
  obtain ⟨message, hm, hquiet, -⟩ :=
    (effect_of_notice {} calls ⟨"http://localhost/c.css", .modified⟩).2 hc
  obtain ⟨told, ht, -, hcleared⟩ :=
    (effect_of_notice {} calls ⟨"http://localhost/a.js", .removed⟩).2 ha
  obtain ⟨hkept, verdict, hv, hrelays⟩ := hquiet (by decide)
  have hmessage : modified.message = some (.hotReload "c.css modified"
      [⟨"js", "a.js", "c.css"⟩, ⟨"", "b.js", "c.css"⟩]) := by
    decide +kernel
  refine ⟨⟨hunknown, hnothing⟩, ⟨hc, hkept, message, verdict, hm, hv, hrelays, ?_⟩, ha, ⟨told, ht⟩,
    congrArg Reloader.graph (hcleared rfl), by decide +kernel⟩
  exact Option.some.inj (hm.symm.trans hmessage)

end Reloader

end LiveReload
