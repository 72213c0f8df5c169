import LiveReload.Proofs.Session.Accounting
import LiveReload.Proofs.Session.Subscribers

namespace LiveReload.Session

open Station (tellings)

variable {session later : Session} {station : Station Sink} {react : Nat → Command → Run Reply}
  {on : Nat} {command : Command} {reply : Reply} {answer : Answer}

section Calls

-- The call of the reloader that a command makes.
def reloaderCall? (session : Session) : Command → Option Reloader.Call
  | .declare url declaration => some (.declare url declaration)
  | .begin url _ => some (.begin url)
  | .finish name declaration => (session.tickets.get? name).map (.finish · declaration)
  | .fileEvent url kind =>
    (FileEvent.Kind.ofValue kind).toOption.map fun kind => .fileChanged ⟨url, kind⟩
  | .remove url => some (.remove url)
  | .declareQuietly url declaration => some (.edit (.declare url declaration))
  | .removeQuietly url => some (.edit (.remove url))
  | _ => none

-- What a command at the desk `on` does to who is on the roster.
def rosterCall? (session : Session) (on : Nat) : Command → Option (Station.Call Sink)
  | .subscribe name | .subscribeReacting name _ _ => some (.subscribe (.observer name))
  | .broadcast _ | .attach _ _ => some (.subscribe (.channel session.channels.length))
  | .unsubscribe name => (session.dismissed? on on name).map .unsubscribe
  | _ => none

-- What a command at the desk `on` is to its station.
def call? (session : Session) (on : Nat) (command : Command) : Option (Station.Call Sink) :=
  match session.reloaderCall? command with
  | some call => some (.reload call (session.conduct on))
  | none => session.rosterCall? on command

-- Whoever subscribes reacts by unsubscribing somebody, if at all.
def Command.Modest : Command → Prop
  | .subscribeReacting _ _ reaction => ∃ name, reaction = .unsubscribe name
  | _ => True

-- The observer that a command adds to a roster.
def Command.observer? : Command → Option String
  | .subscribe name | .subscribeReacting name _ _ => some name
  | _ => none

theorem call?_of_reloaderCall? {call : Reloader.Call}
    (h : session.reloaderCall? command = some call) (on : Nat) :
    session.call? on command = some (.reload call (session.conduct on)) := by
  rw [call?, h]

theorem call?_of_none (h : session.reloaderCall? command = none) (on : Nat) :
    session.call? on command = session.rosterCall? on command := by
  rw [call?, h]

theorem observer?_of_call? {name : String}
    (h : session.call? on command = some (.subscribe (.observer name))) :
    command.observer? = some name := by
  cases hc : session.reloaderCall? command with
  | some call =>
      rw [call?_of_reloaderCall? hc] at h
      cases h
  | none =>
      rw [call?_of_none hc] at h
      cases command with
      | subscribe other | subscribeReacting other target reaction =>
          cases h
          rfl
      | unsubscribe other =>
          obtain ⟨_, _, he⟩ := Option.map_eq_some_iff.mp h
          cases he
      | _ => cases h

-- Nobody is told anything by it.
theorem silent_of_rosterCall? {next : Station.Call Sink}
    (h : session.rosterCall? on command = some next) (station : Station Sink) :
    (station.outcome next).message = none ∧ tellings (station.outcome next).events = [] := by
  cases command with
  | subscribe name | subscribeReacting name target reaction | broadcast name
  | attach name capacity =>
      cases h
      exact ⟨rfl, rfl⟩
  | unsubscribe name =>
      obtain ⟨id, -, rfl⟩ := Option.map_eq_some_iff.mp h
      exact ⟨rfl, rfl⟩
  | _ => cases h

theorem produced_singleton (request : Request) (answer : Answer) :
    produced [⟨request, answer⟩] = answer.reply.message?.toList := by
  simp only [produced, List.filterMap_cons, List.filterMap_nil]
  cases answer.reply <;> rfl

theorem produced_append (exchanges more : List Exchange) :
    produced (exchanges ++ more) = produced exchanges ++ produced more := List.filterMap_append

-- What the observers were told.
def observed (exchanges : List Exchange) : List (String × Message) :=
  exchanges.flatMap fun exchange => exchange.answer.notes.filterMap Note.telling?

theorem observed_append (exchanges more : List Exchange) :
    observed (exchanges ++ more) = observed exchanges ++ observed more := List.flatMap_append

end Calls

section Reloads

-- The session hosts the station, whose subscribers unsubscribe others if they react at all.
structure Attends (on : Nat) (station : Station Sink) (session : Session) : Prop where
  hosts : Hosts on station session
  numbered : station.roster.Numbered
  unsubscribing : session.Unsubscribing

-- A session attends to its first reloader from the start.
theorem attends_start {config : Config} (h : start config = .ok session) :
    Attends 0 (Station.opened (Reloader.empty config)) session := by
  unfold start at h
  split at h
  · cases h
  · cases h
    exact ⟨⟨rfl, rfl⟩, ⟨List.Pairwise.nil, fun _ hi => nomatch hi⟩, fun _ hm => nomatch hm⟩

theorem Attends.congr (h : Attends on station session) (hg : later.graph = session.graph)
    (hd : later.desks[on]? = session.desks[on]?) (hr : later.reactions = session.reactions) :
    Attends on station later where
  hosts := h.hosts.congr hg hd
  numbered := h.numbered
  unsubscribing := by
    unfold Unsubscribing
    rw [hr]
    exact h.unsubscribing

-- Whoever is on the roster does next what the session's reactions say.
theorem Attends.awaits (h : Attends on station session)
    (hreact : session.reactions ≠ [] → ∀ target reaction, ∃ next,
      react target reaction = run.runAt next target reaction) :
    session.Awaits react on (session.conduct on) station.roster.subscriptions where
  nodup := h.numbered.nodup
  conduct := fun _ _ => rfl
  unsubscribing := h.unsubscribing
  carried := fun _ hm => hreact (List.ne_nil_of_mem hm) _ _

theorem message?_elim (message : Option Message) :
    (message.elim .nothing .message : Reply).message? = message := by
  cases message <;> rfl

-- The desk, and those who were told of it, are as after a call that returned what the reply does.
structure Enacts (on : Nat) (station : Station Sink) (next : Station.Call Sink)
    (session later : Session) (reply : Reply) : Prop where
  mirrors : Mirrors on session.channels (station.call next) later
  unsubscribing : later.Unsubscribing
  returned : reply.message? = (station.outcome next).message

variable {call : Reloader.Call} {conduct : Subscription Sink → List Nat}

-- A call that returns no message only changes the reloader.
theorem enacts_of_none (hm : (station.reloader.respond call).message = none)
    (hl : Hosts on (station.before (.reload call conduct)) later) (hn : later.notes = [])
    (hc : later.channels = session.channels) (hu : later.Unsubscribing)
    (hr : reply.message? = none) :
    Enacts on station (.reload call conduct) session later reply where
  mirrors := by
    rw [Station.call, Station.step_reload_of_none hm]
    exact ⟨hl, by rw [hn]; rfl, hc⟩
  unsubscribing := hu
  returned := by rw [hr, Station.message_outcome_reload, hm]

theorem exists_enacts_of_settle (logged : Logged Reloader.Response)
    (h : Hosts on station session) (hn : session.notes = [])
    (ha : session.Awaits react on conduct station.roster.subscriptions)
    (hl : logged.result = station.reloader.respond call)
    (hp : (perform react on (deskOf station) command).run session =
      (settle react on logged).run session) :
    ∃ reply later, (perform react on (deskOf station) command).run session = .ok (reply, later) ∧
      Enacts on station (.reload call conduct) session later reply := by
  obtain ⟨later, hrun, hm, hu⟩ := run_settle_eq_step h hl hn ha
  exact ⟨_, later, hp.trans hrun, hm, hu, message?_elim _⟩

-- An edit of the graph past the reloader.
theorem exists_enacts_of_edit {edit : Graph.Edit} (change : Graph → Logged Graph.Change)
    (h : Hosts on station session) (hn : session.notes = []) (hu : session.Unsubscribing)
    (he : station.reloader.graph.edit edit = (change station.reloader.graph).result.graph)
    (hp : (perform react on (deskOf station) command).run session =
      .ok (.urls (change session.graph).result.orphaned, { session with
        graph := (change session.graph).result.graph
        log := session.log ++ (change session.graph).log })) :
    ∃ reply later, (perform react on (deskOf station) command).run session = .ok (reply, later) ∧
      Enacts on station (.reload (.edit edit) conduct) session later reply := by
  rw [h.graph, ← he] at hp
  exact ⟨_, _, hp, enacts_of_none rfl ⟨rfl, h.desk⟩ hn rfl hu rfl⟩

theorem exists_enacts (h : Hosts on station session) (hn : session.notes = [])
    (ha : session.Awaits react on conduct station.roster.subscriptions)
    (hc : session.reloaderCall? command = some call) :
    ∃ reply later, (perform react on (deskOf station) command).run session = .ok (reply, later) ∧
      Enacts on station (.reload call conduct) session later reply := by
  cases command with
  | declare url declaration =>
      cases hc
      refine exists_enacts_of_settle (station.reloader.declare url declaration) h hn ha rfl ?_
      rw [← h.reloaderAt]
      rfl
  | finish name declaration =>
      obtain ⟨ticket, ht, rfl⟩ := Option.map_eq_some_iff.mp hc
      refine exists_enacts_of_settle (station.reloader.finish ticket declaration) h hn ha rfl ?_
      rw [perform_finish ht, h.reloaderAt]
  | fileEvent url kind =>
      obtain ⟨named, ho, rfl⟩ := Option.map_eq_some_iff.mp hc
      cases hk : FileEvent.Kind.ofValue kind with
      | error problem =>
          rw [hk] at ho
          cases ho
      | ok other =>
          rw [hk] at ho
          cases ho
          refine exists_enacts_of_settle (station.reloader.fileChanged ⟨url, named⟩) h hn ha rfl ?_
          simp only [perform, hk]
          rw [← h.reloaderAt]
          rfl
  | begin url name =>
      cases hc
      let begun := station.reloader.begin url
      refine ⟨.ticket begun.1, { session with
        graph := begun.2.graph
        desks := session.desks.modify on fun desk => { desk with turnstile := begun.2.turnstile }
        tickets := session.tickets.insert name begun.1 }, ?_, ?_⟩
      · simp only [perform, StateT.run_bind, StateT.run_get, pure_bind, h.reloaderAt]
        rfl
      · exact enacts_of_none rfl (h.modify rfl rfl rfl) hn rfl ha.unsubscribing rfl
  | remove url =>
      cases hc
      let removed := station.reloader.remove url
      refine ⟨.urls removed.result.1, { session with
        graph := removed.result.2.graph
        desks := session.desks.modify on fun desk =>
          { desk with turnstile := removed.result.2.turnstile }
        log := session.log ++ removed.log }, ?_, ?_⟩
      · simp only [perform, StateT.run_bind, StateT.run_get, pure_bind, h.reloaderAt]
        rfl
      · exact enacts_of_none rfl (h.modify rfl rfl rfl) hn rfl ha.unsubscribing rfl
  | declareQuietly url declaration =>
      cases hc
      exact exists_enacts_of_edit (·.declare url declaration) h hn ha.unsubscribing rfl rfl
  | removeQuietly url =>
      cases hc
      exact exists_enacts_of_edit (·.remove url) h hn ha.unsubscribing rfl rfl
  | _ => cases hc

end Reloads

section Others

-- A channel that is made becomes a subscriber, whatever comes next.
theorem Hosts.run_open_add (h : Hosts on station session) {capacity : Nat}
    {goOn : Nat → SubscriberKey → Run Reply}
    (hrun : (do
      let id ← openChannel capacity
      let key ← addSubscriber on (.channel id)
      goOn id key).run session = .ok (reply, later)) :
    ∃ channel, (goOn session.channels.length ⟨on, station.roster.nextId⟩).run { session with
      channels := session.channels ++ [channel]
      desks := session.desks.modify on fun desk => { desk with
        roster := (station.roster.add (.channel session.channels.length)).2 } } =
      .ok (reply, later) := by
  cases hc : Channel.create (μ := Message) capacity with
  | error fault =>
      simp only [openChannel, hc] at hrun
      cases hrun
  | ok channel =>
      have hadd := run_addSubscriber_of_getElem?
        { session with channels := session.channels ++ [channel] } h.desk
        (.channel session.channels.length)
      have hopen : (openChannel capacity).run session = .ok (session.channels.length,
          { session with channels := session.channels ++ [channel] }) := by
        simp only [openChannel, hc]
        rfl
      rw [StateT.run_bind, hopen] at hrun
      change (do
        let key ← addSubscriber on (.channel session.channels.length)
        goOn session.channels.length key).run
          { session with channels := session.channels ++ [channel] } = _ at hrun
      rw [StateT.run_bind, hadd] at hrun
      exact ⟨channel, hrun⟩

-- Nobody was told anything.
structure Quietly (on : Nat) (station : Station Sink) (later : Session) (reply : Reply) : Prop where
  hosts : Hosts on station later
  unsubscribing : later.Unsubscribing
  notes : later.notes = []
  returned : reply.message? = none

variable (h : Attends on station session) (hn : session.notes = [])

include h hn

theorem Attends.quietly (hg : later.graph = session.graph)
    (hd : later.desks[on]? = session.desks[on]?) (hr : later.reactions = session.reactions)
    (hl : later.notes = session.notes) (hreply : reply.message? = none) :
    Quietly on station later reply :=
  ⟨h.hosts.congr hg hd, (h.congr hg hd hr).unsubscribing, hl.trans hn, hreply⟩

theorem Attends.quietly_addReloader {config : Config}
    (hrun : (addReloader config).run session = .ok (reply, later)) :
    Quietly on station later reply := by
  unfold addReloader at hrun
  cases hv : config.validate with
  | error fault =>
      rw [hv] at hrun
      cases hrun
      exact h.quietly hn rfl rfl rfl rfl rfl
  | ok =>
      rw [hv] at hrun
      cases hrun
      refine h.quietly hn rfl ?_ rfl rfl rfl
      exact List.getElem?_append_left (List.getElem?_eq_some_iff.mp h.hosts.desk).1

theorem Attends.quietly_receive {name : String}
    (hrun : (receive name).run session = .ok (reply, later)) :
    Quietly on station later reply := by
  simp only [receive, StateT.run_bind, StateT.run_get, pure_bind] at hrun
  split at hrun
  · cases hrun
    exact h.quietly hn rfl rfl rfl rfl rfl
  · split at hrun
    · cases hrun
      exact h.quietly hn rfl rfl rfl rfl rfl
    · cases hrun
      exact h.quietly hn rfl rfl rfl rfl rfl

theorem Attends.quietly_listen {id : Nat} {name : String}
    (hrun : (listen id name).run session = .ok (reply, later)) :
    Quietly on station later reply := by
  cases hc : session.channels[id]? with
  | none =>
      simp only [listen, StateT.run_bind, StateT.run_get, pure_bind, hc] at hrun
      cases hrun
      exact h.quietly hn rfl rfl rfl rfl rfl
  | some channel =>
      obtain ⟨count, hlisten⟩ := run_listen hc name
      rw [hlisten] at hrun
      cases hrun
      exact h.quietly hn rfl rfl rfl rfl rfl

-- A new subscriber, and what else the command did.
theorem Attends.quietly_subscribe (sink : Sink)
    (hg : later.graph = session.graph)
    (hd : later.desks = session.desks.modify on fun desk =>
      { desk with roster := (station.roster.add sink).2 })
    (hu : later.Unsubscribing) (hl : later.notes = session.notes) (hr : reply.message? = none) :
    Quietly on (station.call (.subscribe sink)) later reply where
  hosts := h.hosts.modify (hg.trans h.hosts.graph) hd rfl
  unsubscribing := hu
  notes := hl.trans hn
  returned := hr

theorem Attends.quietly_unsubscribe {name : String}
    (hrun : (perform react on (deskOf station) (.unsubscribe name)).run session =
      .ok (reply, later)) :
    Quietly on (station.run (session.rosterCall? on (.unsubscribe name)).toList) later reply := by
  obtain ⟨other, hr, hother⟩ := run_unsubscribe react on name session
  have hat : (run.runAt react on (.unsubscribe name)).run session =
      (perform react on (deskOf station) (.unsubscribe name)).run session := by
    simp only [run.runAt, StateT.run_bind, StateT.run_get, pure_bind, h.hosts.desk]
  rw [← hat, hother] at hrun
  cases hrun
  have hmirrors : Mirrors on session.channels
      (((session.dismissed? on on name).toList.forM Station.unsubscribe).run
        { station with events := [] }).2
      { session with desks := session.dismiss on name } :=
    (h.hosts.mirrors hn).dismiss rfl rfl rfl rfl
  refine ⟨?_, h.unsubscribing, hn, hr⟩
  rw [rosterCall?]
  cases hd : session.dismissed? on on name with
  | none =>
      rw [hd] at hmirrors
      exact ⟨hmirrors.hosts.graph, hmirrors.hosts.desk⟩
  | some id =>
      rw [hd] at hmirrors
      exact hmirrors.hosts

-- Commands that are no calls of the reloader.
theorem Attends.quietly_perform
    (hc : session.reloaderCall? command = none) (hm : command.Modest)
    (hrun : (perform react on (deskOf station) command).run session = .ok (reply, later)) :
    Quietly on (station.run (session.rosterCall? on command).toList) later reply := by
  cases command with
  | declare url declaration | begin url name | remove url | declareQuietly url declaration
  | removeQuietly url => cases hc
  | finish name declaration =>
      have ht : session.tickets.get? name = none := Option.map_eq_none_iff.mp hc
      simp only [perform, StateT.run_bind, StateT.run_get, pure_bind, ht] at hrun
      cases hrun
      exact h.quietly hn rfl rfl rfl rfl rfl
  | fileEvent url kind =>
      have hk : (FileEvent.Kind.ofValue kind).toOption = none := Option.map_eq_none_iff.mp hc
      cases hv : FileEvent.Kind.ofValue kind with
      | ok named =>
          rw [hv] at hk
          cases hk
      | error problem =>
          simp only [perform, hv] at hrun
          cases hrun
          exact h.quietly hn rfl rfl rfl rfl rfl
  | verdict url =>
      cases hrun
      refine h.quietly hn rfl rfl rfl rfl ?_
      cases (session.graph.verdictAtLogged url).result <;> rfl
  | relative url | config | dropChannel name =>
      cases hrun
      exact h.quietly hn rfl rfl rfl rfl rfl
  | addReloader config => exact h.quietly_addReloader hn hrun
  | subscribe name =>
      have hadd := run_addSubscriber_of_getElem? session h.hosts.desk (.observer name)
      rw [perform, StateT.run_bind, hadd] at hrun
      cases hrun
      exact h.quietly_subscribe hn _ rfl rfl h.unsubscribing rfl rfl
  | subscribeReacting name target reaction =>
      have hadd := run_addSubscriber_of_getElem? session h.hosts.desk (.observer name)
      rw [perform, StateT.run_bind, hadd] at hrun
      cases hrun
      refine h.quietly_subscribe hn _ rfl rfl (fun pending hp => ?_) rfl rfl
      rcases List.mem_append.mp hp with hp | hp
      · exact h.unsubscribing pending hp
      · rw [List.mem_singleton.mp hp]
        exact hm
  | unsubscribe name => exact h.quietly_unsubscribe hn hrun
  | broadcast name | attach name capacity =>
      obtain ⟨channel, hrest⟩ := h.hosts.run_open_add hrun
      cases hrest
      exact h.quietly_subscribe hn _ rfl rfl h.unsubscribing rfl rfl
  | send name message =>
      simp only [perform, StateT.run_bind, StateT.run_get, pure_bind] at hrun
      cases hg : session.handles.get? name with
      | none =>
          simp only [hg] at hrun
          cases hrun
          exact h.quietly hn rfl rfl rfl rfl rfl
      | some id =>
          obtain ⟨log, hsend⟩ := run_sendTo session id message
          simp only [hg, StateT.run_bind, hsend] at hrun
          cases hrun
          exact h.quietly hn rfl rfl rfl rfl rfl
  | listen channel receiver =>
      simp only [perform, StateT.run_bind, StateT.run_get, pure_bind] at hrun
      cases hg : session.handles.get? channel with
      | none =>
          simp only [hg] at hrun
          cases hrun
          exact h.quietly hn rfl rfl rfl rfl rfl
      | some id =>
          simp only [hg] at hrun
          exact h.quietly_listen hn hrun
  | receiverCount name =>
      simp only [perform, StateT.run_bind, StateT.run_get, pure_bind] at hrun
      split at hrun
      · cases hrun
        exact h.quietly hn rfl rfl rfl rfl rfl
      · cases hrun
        exact h.quietly hn rfl rfl rfl rfl rfl
  | dropReceiver name =>
      simp only [perform, StateT.run_map, run_dropListener] at hrun
      cases hrun
      exact h.quietly hn rfl rfl rfl rfl rfl
  | receive name => exact h.quietly_receive hn hrun

end Others

section Runs

variable {call : Reloader.Call}

-- A command that is a call of the reloader does at the desk what the call does at the station.
theorem Attends.exists_step_reload (h : Attends on station session)
    (hc : session.reloaderCall? command = some call) :
    ∃ answer later, session.step on command = .ok (answer, later) ∧ answer.notes = later.notes ∧
      Enacts on station (.reload call (session.conduct on)) session later answer.reply := by
  let cleared : Session := { session with notes := [], log := [] }
  obtain ⟨react, hreact, hstep⟩ := exists_step_eq_perform h.hosts.desk command
  have hcleared : Attends on station cleared := h.congr rfl rfl rfl
  have hcall : cleared.reloaderCall? command = some call := hc
  have hconduct : cleared.conduct on = session.conduct on := conduct_congr rfl rfl on
  obtain ⟨reply, later, hrun, henacts⟩ :=
    exists_enacts hcleared.hosts rfl (hcleared.awaits hreact) hcall
  rw [hconduct] at henacts
  refine ⟨⟨reply, later.notes, later.log⟩, later, ?_, rfl,
    ⟨henacts.mirrors, henacts.unsubscribing, henacts.returned⟩⟩
  rw [hstep, hrun]
  rfl

theorem Attends.quietly_step (h : Attends on station session) (hm : command.Modest)
    (hc : session.reloaderCall? command = none)
    (hs : session.step on command = .ok (answer, later)) :
    answer.notes = [] ∧
      Quietly on (station.run (session.rosterCall? on command).toList) later answer.reply := by
  let cleared : Session := { session with notes := [], log := [] }
  obtain ⟨react, -, hstep⟩ := exists_step_eq_perform h.hosts.desk command
  have hcleared : Attends on station cleared := h.congr rfl rfl rfl
  have hcall : cleared.reloaderCall? command = none := hc
  rw [hstep] at hs
  cases hrun : (perform react on (deskOf station) command).run cleared with
  | error fault =>
      rw [hrun] at hs
      cases hs
  | ok result =>
      rw [hrun] at hs
      cases hs
      have hquiet := hcleared.quietly_perform rfl hcall hm hrun
      exact ⟨hquiet.notes, hquiet⟩

-- The exchanges came to the same as the calls.
structure Amounts (on : Nat) (station : Station Sink) (calls : List (Station.Call Sink))
    (exchanges : List Exchange) (later : Session) : Prop where
  attends : Attends on (station.run calls) later
  returned : produced exchanges = (station.outcomes calls).filterMap Station.Outcome.message
  told : observed exchanges =
    ((station.outcomes calls).flatMap fun outcome => tellings outcome.events).filterMap observed?

theorem Amounts.append {calls more : List (Station.Call Sink)} {exchanges others : List Exchange}
    {middle : Session} (h : Amounts on station calls exchanges middle)
    (hm : Amounts on (station.run calls) more others later) :
    Amounts on station (calls ++ more) (exchanges ++ others) later where
  attends := by
    rw [Station.run, List.foldl_append]
    exact hm.attends
  returned := by
    rw [produced_append, Station.outcomes_append, List.filterMap_append, h.returned, hm.returned]
  told := by
    rw [observed_append, Station.outcomes_append, List.flatMap_append, List.filterMap_append,
      h.told, hm.told]

theorem Attends.amounts_nil (h : Attends on station session) : Amounts on station [] [] session :=
  ⟨h, rfl, rfl⟩

theorem amounts_of_call {request : Request} {next : Station.Call Sink}
    (ha : Attends on (station.call next) later)
    (hr : answer.reply.message? = (station.outcome next).message)
    (ht : answer.notes.filterMap Note.telling? =
      (tellings (station.outcome next).events).filterMap observed?) :
    Amounts on station [next] [⟨request, answer⟩] later where
  attends := ha
  returned := by
    rw [produced_singleton, hr, Station.outcomes, Station.outcomes, List.filterMap_cons]
    cases (station.outcome next).message <;> rfl
  told := by
    rw [Station.outcomes, Station.outcomes, List.flatMap_singleton, ← ht]
    exact List.append_nil _

-- A command does at the desk what its call, if it is one, does at the station.
theorem Attends.step (h : Attends on station session) (hm : command.Modest)
    (hs : session.step on command = .ok (answer, later)) :
    Amounts on station (session.call? on command).toList [⟨⟨on, command⟩, answer⟩] later := by
  cases hc : session.reloaderCall? command with
  | some call =>
      obtain ⟨_, _, hstep, hnotes, henacts⟩ := h.exists_step_reload hc
      rw [hs] at hstep
      cases hstep
      rw [call?_of_reloaderCall? hc]
      refine amounts_of_call ⟨henacts.mirrors.hosts, Station.numbered_call h.numbered _,
        henacts.unsubscribing⟩ henacts.returned ?_
      rw [hnotes, henacts.mirrors.told]
      rfl
  | none =>
      obtain ⟨hnotes, hquiet⟩ := h.quietly_step hm hc hs
      rw [call?_of_none hc]
      cases hr : session.rosterCall? on command with
      | none =>
          rw [hr] at hquiet
          refine ⟨⟨hquiet.hosts, h.numbered, hquiet.unsubscribing⟩, ?_, ?_⟩
          · rw [produced_singleton, hquiet.returned]
            rfl
          · rw [observed, List.flatMap_singleton, hnotes]
            rfl
      | some next =>
          rw [hr] at hquiet
          obtain ⟨hmessage, htellings⟩ := silent_of_rosterCall? hr station
          refine amounts_of_call ⟨hquiet.hosts, Station.numbered_call h.numbered _,
            hquiet.unsubscribing⟩ (hquiet.returned.trans hmessage.symm) ?_
          rw [hnotes, htellings]
          rfl

variable {requests : List Request} {exchanges : List Exchange}

-- Requests that are all made at the desk `on`.
def Local (on : Nat) (requests : List Request) : Prop :=
  ∀ request ∈ requests, request.on = on ∧ request.command.Modest

-- A run at the desk amounts to a run of calls at the station, by which nobody subscribes under a
-- name that no request does.
theorem Attends.replay (h : Attends on station session) (hl : Local on requests)
    (hrun : session.replay requests = .ok (exchanges, later)) :
    ∃ calls, Amounts on station calls exchanges later ∧
      ∀ name, (∀ request ∈ requests, request.command.observer? ≠ some name) →
        .subscribe (.observer name) ∉ calls := by
  induction requests generalizing station session exchanges with
  | nil =>
      cases hrun
      exact ⟨[], h.amounts_nil, fun _ _ => List.not_mem_nil⟩
  | cons request requests ih =>
      obtain ⟨⟨hon, hm⟩, hrest⟩ := List.forall_mem_cons.mp hl
      obtain ⟨answer, middle, others, hs, hr, rfl⟩ := of_replay_cons hrun
      rw [hon] at hs
      have hstep := h.step hm hs
      obtain ⟨calls, hamounts, hnew⟩ := ih hstep.attends hrest hr
      have hrequest : request = ⟨on, request.command⟩ := by rw [← hon]
      refine ⟨(session.call? on request.command).toList ++ calls, ?_, fun name hother hc => ?_⟩
      · rw [hrequest]
        exact hstep.append hamounts
      · obtain ⟨hfirst, hothers⟩ := List.forall_mem_cons.mp hother
        rcases List.mem_append.mp hc with hc | hc
        · exact hfirst (observer?_of_call? (Option.mem_toList.mp hc))
        · exact hnew name hothers hc

end Runs

end LiveReload.Session
