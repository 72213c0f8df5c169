import LiveReload.Proofs.Session.Desk

namespace LiveReload.Session

open Station (tellings)

variable {session later : Session} {station : Station Sink} {on : Nat} {command : Command}
  {answer : Answer} {call : Reloader.Call} {exchanges : List Exchange}

-- The observers among the subscribers of a roster, in order.
def observersOf (roster : Roster Sink) : List String :=
  roster.subscriptions.filterMap fun subscription => observer? subscription.sink

theorem filterMap_observed?_tellings (station : Station Sink) (next : Station.Call Sink) :
    (tellings (station.outcome next).events).filterMap observed? =
      (station.outcome next).message.toList.flatMap fun message =>
        (observersOf station.roster).map (·, message) := by
  rw [(Station.continues_call station next).2.1]
  cases (station.outcome next).message with
  | none => rfl
  | some message =>
      rw [Option.toList_some, List.flatMap_singleton, List.flatMap_singleton, List.filterMap_map,
        observersOf, List.map_filterMap]
      rfl

-- Whatever a command returns is told to the observers on the roster that it finds.
theorem Attends.observed_step (h : Attends on station session) (hm : command.Modest)
    (hs : session.step on command = .ok (answer, later)) :
    observed [⟨⟨on, command⟩, answer⟩] =
      (produced [⟨⟨on, command⟩, answer⟩]).flatMap fun message =>
        (observersOf station.roster).map (·, message) := by
  have hamounts := h.step hm hs
  rw [hamounts.told, hamounts.returned]
  cases session.call? on command with
  | none => rfl
  | some next =>
      rw [Option.toList_some, Station.outcomes, Station.outcomes, List.flatMap_singleton,
        filterMap_observed?_tellings, List.filterMap_cons]
      cases (station.outcome next).message <;> rfl

theorem foldl_convey_tellings (station : Station Sink) (next : Station.Call Sink)
    (channels : List (Channel Message)) :
    (tellings (station.outcome next).events).foldl convey channels =
      (station.outcome next).message.toList.foldl (fun channels message =>
        (channelsOf station.roster).foldl
          (fun channels id => channels.modify id (Channel.deliver message)) channels) channels := by
  rw [(Station.continues_call station next).2.1]
  cases (station.outcome next).message with
  | none => rfl
  | some message =>
      rw [Option.toList_some, List.flatMap_singleton, List.foldl_map, List.foldl_cons,
        List.foldl_nil, channelsOf, List.foldl_filterMap]
      refine congrArg (List.foldl · channels station.roster.subscriptions) ?_
      funext channels subscription
      rw [convey]
      cases subscription.sink <;> rfl

-- A call of the reloader that returns a message tells it to everyone on the roster that it finds,
-- in order, and the roster only loses those whom somebody told of it unsubscribes.
theorem Attends.delivered_by_step (h : Attends on station session)
    (hc : session.reloaderCall? command = some call) :
    let message := (station.reloader.respond call).message
    let gone := station.roster.subscriptions.flatMap (session.conduct on)
    ∃ answer later, session.step on command = .ok (answer, later) ∧
      answer.reply.message? = message ∧
      answer.notes.filterMap Note.telling? = message.toList.flatMap (fun message =>
        (observersOf station.roster).map (·, message)) ∧
      later.channels = message.toList.foldl (fun channels message =>
        (channelsOf station.roster).foldl
          (fun channels id => channels.modify id (Channel.deliver message)) channels)
        session.channels ∧
      later.graph = (station.reloader.call call).graph ∧
      later.desks[on]?.map Desk.roster =
        some (station.roster.without (message.toList.flatMap fun _ => gone)) := by
  intro message gone
  obtain ⟨answer, later, hs, hnotes, henacts⟩ := h.exists_step_reload hc
  let next : Station.Call Sink := .reload call (session.conduct on)
  have hmessage : (station.outcome next).message = message :=
    Station.message_outcome_reload station call _
  obtain ⟨hcontinues, -, hdismissed⟩ := Station.continues_call station next
  refine ⟨answer, later, hs, henacts.returned.trans hmessage, ?_, ?_, ?_, ?_⟩
  · rw [hnotes, henacts.mirrors.told, ← hmessage]
    exact filterMap_observed?_tellings station next
  · rw [henacts.mirrors.sent, ← hmessage]
    exact foldl_convey_tellings station next session.channels
  · rw [henacts.mirrors.hosts.graph, hcontinues.reloader_eq]
    rfl
  · rw [henacts.mirrors.hosts.desk, Option.map_some, deskOf, hcontinues.roster_eq, hdismissed,
      hmessage]
    cases message with
    | none => rfl
    | some message => rw [Option.toList_some, List.flatMap_singleton]; rfl

-- What the observer `name` was told.
def heardBy (name : String) (exchanges : List Exchange) : List Message :=
  (observed exchanges).filterMap fun telling => if telling.1 = name then some telling.2 else none

theorem Amounts.heardBy {calls : List (Station.Call Sink)}
    (h : Amounts on station calls exchanges later) (name : String) :
    heardBy name exchanges =
      (station.outcomes calls).flatMap (Station.Outcome.heardBy (.observer name)) := by
  rw [Session.heardBy, h.told, List.filterMap_filterMap, List.filterMap_flatMap]
  refine List.flatMap_congr fun outcome _ => List.filterMap_congr fun telling _ => ?_
  rw [observed?]
  cases telling.1.sink <;> simp [observer?]

theorem mem_observersOf_iff {roster : Roster Sink} {name : String} :
    name ∈ observersOf roster ↔
      ∃ subscription ∈ roster.subscriptions, subscription.sink = .observer name := by
  rw [observersOf, List.mem_filterMap]
  refine exists_congr fun subscription => and_congr_right fun _ => ?_
  cases subscription.sink <;> simp [observer?]

-- An observer is told what the requests return, each message once and in order, from when it
-- subscribes until somebody unsubscribes it.
theorem Attends.heard_while_registered (h : Attends on station session) {name : String}
    {before after : List Request} (hl : Local on (before ++ ⟨on, .subscribe name⟩ :: after))
    (hnew : name ∉ observersOf station.roster)
    (hother : ∀ request ∈ before ++ after, request.command.observer? ≠ some name)
    (hrun : session.replay (before ++ ⟨on, .subscribe name⟩ :: after) = .ok (exchanges, later)) :
    ∃ past answer future, exchanges = past ++ ⟨⟨on, .subscribe name⟩, answer⟩ :: future ∧
      past.map Exchange.request = before ∧
      (∃ rest, produced future = heardBy name exchanges ++ rest) ∧
      ∀ desk, later.desks[on]? = some desk → name ∈ observersOf desk.roster →
        heardBy name exchanges = produced future := by
  obtain ⟨hbefore, hafter⟩ := List.forall_mem_append.mp hl
  obtain ⟨hsubscribe, hafter⟩ := List.forall_mem_cons.mp hafter
  obtain ⟨hother, hother'⟩ := List.forall_mem_append.mp hother
  obtain ⟨past, middle, others, hpast, hothers, rfl⟩ := of_replay_append hrun
  obtain ⟨answer, next, future, hstep, hfuture, rfl⟩ := of_replay_cons hothers
  obtain ⟨calls, hcalls, hnone⟩ := h.replay hbefore hpast
  let joined := (station.run calls).call (.subscribe (.observer name))
  have hadded : Amounts on (station.run calls) [.subscribe (.observer name)]
      [⟨⟨on, .subscribe name⟩, answer⟩] next := hcalls.attends.step hsubscribe.2 hstep
  have hattends : Attends on joined next := hadded.attends
  obtain ⟨more, hmore, hnone'⟩ := hattends.replay hafter hfuture
  have habsent : ∀ subscription ∈ station.roster.subscriptions,
      subscription.sink ≠ .observer name := fun subscription hm he =>
    hnew (mem_observersOf_iff.mpr ⟨subscription, hm, he⟩)
  obtain ⟨hheard, hsole⟩ := Station.heardBy_outcomes_subscribe h.numbered habsent
    (hnone name hother) (hnone' name hother')
  have hwhole := (hcalls.append (hadded.append hmore)).heardBy name
  rw [List.singleton_append] at hwhole
  have htold := hwhole.trans hheard
  refine ⟨past, answer, future, rfl, map_request_of_replay hpast, ?_, fun desk hd hm => ?_⟩
  · obtain ⟨rest, hr⟩ := Station.exists_eq_lifetime_append (station.run calls).roster.nextId
      (joined.outcomes more)
    refine ⟨rest.filterMap Station.Outcome.message, ?_⟩
    rw [htold, ← List.filterMap_append, ← hr]
    exact hmore.returned
  · have hdesk := hmore.attends.hosts.desk
    rw [hd] at hdesk
    cases hdesk
    obtain ⟨subscription, hsub, hsink⟩ := mem_observersOf_iff.mp hm
    have hid := (hsole subscription hsub).mp hsink
    rw [htold, Station.lifetime_outcomes_of_mem hattends.numbered (Nat.lt_succ_self _)
      (hid ▸ List.mem_map_of_mem hsub)]
    exact hmore.returned.symm

-- "b" unsubscribes "c" when it is told of the first change, of which "c" hears all the same.
example :
    let requests : List Request := [⟨0, .declareQuietly "a.js" {}⟩,
      ⟨0, .subscribeReacting "b" 0 (.unsubscribe "c")⟩, ⟨0, .subscribe "c"⟩,
      ⟨0, .fileEvent "a.js" (.text "modified")⟩, ⟨0, .fileEvent "a.js" (.text "removed")⟩]
    let modified := Message.fullReload "a.js modified" "no importer" (some "a.js")
    let removed := Message.fullReload "a.js removed" "no importer" (some "a.js")
    (Session.replay { desks := [newDesk {}] } requests).toOption.map (fun result =>
      (heardBy "b" result.1, heardBy "c" result.1)) = some ([modified, removed], [modified]) := by
  decide +kernel

end LiveReload.Session
