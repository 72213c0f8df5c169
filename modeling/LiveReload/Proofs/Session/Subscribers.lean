import LiveReload.Proofs.Session.Delivery
import LiveReload.Proofs.Station.Delivery

namespace LiveReload.Session

open Station (tellings)

variable {session : Session} {station : Station Sink} {react : Nat → Command → Run Reply}
  {on : Nat}

section Together

variable {α β : Type} {before between after : Station Sink → Session → Prop}

-- From a station and a session that match, both actions lead to ones that match, with one result.
def Together (before : Station Sink → Session → Prop) (act : StateM (Station Sink) α)
    (run : Run α) (after : α → Station Sink → Session → Prop) : Prop :=
  ∀ station session, before station session →
    ∃ later, run.run session = .ok ((act.run station).1, later) ∧
      after (act.run station).1 (act.run station).2 later

theorem Together.bind {act : StateM (Station Sink) α} {run : Run α}
    {between : α → Station Sink → Session → Prop} {next : α → StateM (Station Sink) β}
    {goOn : α → Run β} {after : β → Station Sink → Session → Prop}
    (h : Together before act run between)
    (hn : ∀ a, Together (between a) (next a) (goOn a) after) :
    Together before (act >>= next) (run >>= goOn) after := by
  intro station session hs
  obtain ⟨middle, hrun, hm⟩ := h station session hs
  obtain ⟨later, hgo, hl⟩ := hn _ _ middle hm
  refine ⟨later, ?_, hl⟩
  rw [StateT.run_bind, hrun]
  exact hgo

-- `still` says how station and session match while some subscribers are still to be told.
theorem together_forM {still : List α → Station Sink → Session → Prop}
    {act : α → StateM (Station Sink) Unit} {run : α → Run Unit}
    (h : ∀ a rest, Together (still (a :: rest)) (act a) (run a) fun _ => still rest) (l : List α) :
    Together (still l) (l.forM act) (l.forM run) fun _ => still [] := by
  induction l with
  | nil => exact fun station session hs => ⟨session, rfl, hs⟩
  | cons a l ih => exact (h a l).bind fun _ => ih

theorem together_publish {response : Reloader.Response}
    {store : Reloader → StateM (Station Sink) Unit} {keep : Reloader → Run Unit}
    {summon : StateM (Station Sink) (Roster Sink)} {call : Run (Roster Sink)}
    {tell : Message → Subscription Sink → StateM (Station Sink) Unit}
    {deliver : Message → Subscription Sink → Run Unit}
    {still : List (Subscription Sink) → Station Sink → Session → Prop}
    (hstore : Together before (store response.reloader) (keep response.reloader) fun _ => between)
    (hsummon : Together between summon call fun roster => still roster.subscriptions)
    (htell : ∀ message subscription rest, Together (still (subscription :: rest))
      (tell message subscription) (deliver message subscription) fun _ => still rest)
    (hbetween : ∀ station session, between station session → after station session)
    (hstill : ∀ station session, still [] station session → after station session) :
    Together before (response.publish store summon tell) (response.publish keep call deliver)
      fun _ => after := by
  cases hm : response.message with
  | none =>
      rw [Reloader.Response.publish_of_none hm, Reloader.Response.publish_of_none hm]
      exact hstore.bind fun _ station session hs => ⟨session, rfl, hbetween station session hs⟩
  | some message =>
      rw [Reloader.Response.publish_of_some hm, Reloader.Response.publish_of_some hm]
      refine hstore.bind fun _ => hsummon.bind fun roster => ?_
      refine (together_forM (htell message) roster.subscriptions).bind fun _ station session hs => ?_
      exact ⟨session, rfl, hstill station session hs⟩

end Together

section Mirrors

def Note.telling? : Note → Option (String × Message)
  | .told name message => some (name, message)
  | .reacted .. => none

def observer? : Sink → Option String
  | .observer name => some name
  | .channel _ => none

-- What a session notes down of a telling.
def observed? (telling : Subscription Sink × Message) : Option (String × Message) :=
  (observer? telling.1.sink).map (·, telling.2)

-- What a telling does to the channels.
def convey (channels : List (Channel Message)) (telling : Subscription Sink × Message) :
    List (Channel Message) :=
  match telling.1.sink with
  | .observer _ => channels
  | .channel id => channels.modify id (Channel.deliver telling.2)

-- The station's part of a session that it shares with other desks.
def deskOf (station : Station Sink) : Desk :=
  ⟨station.reloader.config, station.reloader.turnstile, station.roster⟩

-- The desk `on` is as the station is.
structure Hosts (on : Nat) (station : Station Sink) (session : Session) : Prop where
  graph : session.graph = station.reloader.graph
  desk : session.desks[on]? = some (deskOf station)

variable {later : Session}

theorem Hosts.reloaderAt (h : Hosts on station session) :
    session.reloaderAt (deskOf station) = station.reloader := by
  rw [Session.reloaderAt, h.graph]
  rfl

theorem Hosts.congr (h : Hosts on station session) (hg : later.graph = session.graph)
    (hd : later.desks[on]? = session.desks[on]?) : Hosts on station later where
  graph := hg.trans h.graph
  desk := hd.trans h.desk

theorem Hosts.modify (h : Hosts on station session) {next : Station Sink} {f : Desk → Desk}
    (hg : later.graph = next.reloader.graph) (hd : later.desks = session.desks.modify on f)
    (hf : f (deskOf station) = deskOf next) : Hosts on next later where
  graph := hg
  desk := by
    rw [hd, List.getElem?_modify_eq, h.desk]
    exact congrArg some hf

-- What the subscribers of the desk `on` were told, since the channels were `channels` and nothing
-- was noted down, is what those of the station were told.
structure Mirrors (on : Nat) (channels : List (Channel Message)) (station : Station Sink)
    (session : Session) : Prop where
  hosts : Hosts on station session
  told : session.notes.filterMap Note.telling? = (tellings station.events).filterMap observed?
  sent : session.channels = (tellings station.events).foldl convey channels

variable {channels : List (Channel Message)}

theorem Mirrors.congr (h : Mirrors on channels station session)
    (hg : later.graph = session.graph) (hd : later.desks[on]? = session.desks[on]?)
    (hn : later.notes.filterMap Note.telling? = session.notes.filterMap Note.telling?)
    (hc : later.channels = session.channels) : Mirrors on channels station later where
  hosts := h.hosts.congr hg hd
  told := hn.trans h.told
  sent := hc.trans h.sent

theorem Mirrors.note_told (h : Mirrors on channels station session)
    {subscription : Subscription Sink} {message : Message}
    (hg : later.graph = session.graph) (hd : later.desks = session.desks)
    (hn : later.notes.filterMap Note.telling? =
      session.notes.filterMap Note.telling? ++ (observed? (subscription, message)).toList)
    (hc : later.channels = convey session.channels (subscription, message)) :
    Mirrors on channels ((Station.note (.told subscription message)).run station).2 later := by
  have htellings : tellings (station.events ++ [.told subscription message]) =
      tellings station.events ++ [(subscription, message)] := Station.tellings_append _ _
  refine ⟨⟨hg.trans h.hosts.graph, hd ▸ h.hosts.desk⟩, ?_, ?_⟩
  · show _ = (tellings (station.events ++ [.told subscription message])).filterMap observed?
    rw [hn, h.told, htellings, List.filterMap_append, List.filterMap_cons]
    cases observed? (subscription, message) <;> rfl
  · show _ = (tellings (station.events ++ [.told subscription message])).foldl convey channels
    rw [hc, h.sent, htellings, List.foldl_append]
    rfl

theorem Mirrors.note_observer (h : Mirrors on channels station session)
    {subscription : Subscription Sink} {message : Message} {name : String}
    (hs : subscription.sink = .observer name) (hg : later.graph = session.graph)
    (hd : later.desks = session.desks) (hn : later.notes = session.notes ++ [.told name message])
    (hc : later.channels = session.channels) :
    Mirrors on channels ((Station.note (.told subscription message)).run station).2 later := by
  refine h.note_told hg hd ?_ ?_
  · rw [hn, List.filterMap_append, observed?, hs]
    rfl
  · rw [hc, convey, hs]

theorem Mirrors.unsubscribe (h : Mirrors on channels station session) (id : Nat)
    (hg : later.graph = session.graph)
    (hd : later.desks = session.desks.modify on fun desk =>
      { desk with roster := desk.roster.remove id })
    (hn : later.notes.filterMap Note.telling? = session.notes.filterMap Note.telling?)
    (hc : later.channels = session.channels) :
    Mirrors on channels ((Station.unsubscribe id).run station).2 later := by
  have htellings (present : Bool) : tellings (station.events ++ [.unsubscribed id present]) =
      tellings station.events := (Station.tellings_append _ _).trans (List.append_nil _)
  refine ⟨h.hosts.modify (hg.trans h.hosts.graph) hd rfl, ?_, ?_⟩
  · exact (hn.trans h.told).trans (congrArg _ (htellings _).symm)
  · exact (hc.trans h.sent).trans (congrArg _ (htellings _).symm)

end Mirrors

section Reactions

def Reply.message? : Reply → Option Message
  | .message returned => some returned
  | _ => none

-- The desks after somebody had `name` unsubscribed at the desk `target`.
def dismiss (session : Session) (target : Nat) (name : String) : List Desk :=
  match session.subscribers.get? name with
  | none => session.desks
  | some key =>
    if key.desk = target then
      session.desks.modify target fun desk => { desk with roster := desk.roster.remove key.id }
    else session.desks

-- Subscribers react by unsubscribing somebody, if they react at all.
def Unsubscribing (session : Session) : Prop :=
  ∀ reaction ∈ session.reactions, ∃ name, reaction.command = .unsubscribe name

-- Whom the desk `on` loses when `name` is unsubscribed at the desk `target`.
def dismissed? (session : Session) (on target : Nat) (name : String) : Option Nat :=
  if target = on then
    (session.subscribers.get? name).bind fun key => if key.desk = on then some key.id else none
  else none

-- Whom a reaction takes off the roster of the desk `on`.
def dismissal? (session : Session) (on : Nat) (reaction : Reaction) : Option Nat :=
  match reaction.command with
  | .unsubscribe name => session.dismissed? on reaction.on name
  | _ => none

-- What a subscriber at the desk `on` does when it is told something next.
def conduct (session : Session) (on : Nat) (subscription : Subscription Sink) : List Nat :=
  match subscription.sink with
  | .channel _ => []
  | .observer _ =>
    ((session.reactions.find? (·.subscriber = ⟨on, subscription.id⟩)).bind
      (session.dismissal? on)).toList

theorem dismiss_of_none {target : Nat} (h : session.desks[target]? = none) (name : String) :
    session.dismiss target name = session.desks := by
  unfold dismiss
  split
  · rfl
  · split
    · exact List.modify_eq_self (List.getElem?_eq_none_iff.mp h)
    · rfl

theorem run_unsubscribe (react : Nat → Command → Run Reply) (target : Nat) (name : String)
    (session : Session) : ∃ reply, reply.message? = none ∧
      (run.runAt react target (.unsubscribe name)).run session =
        .ok (reply, { session with desks := session.dismiss target name }) := by
  cases hdesk : session.desks[target]? with
  | none =>
      refine ⟨.badCommand, rfl, ?_⟩
      rw [dismiss_of_none hdesk]
      simp only [run.runAt, StateT.run_bind, StateT.run_get, pure_bind, hdesk]
      rfl
  | some desk =>
      simp only [run.runAt, perform, StateT.run_bind, StateT.run_get, pure_bind, hdesk, dismiss]
      cases session.subscribers.get? name with
      | none => exact ⟨.nothing, rfl, rfl⟩
      | some key =>
          simp only [removeSubscriber, StateT.run_map, StateT.run_bind, StateT.run_get, pure_bind,
            hdesk]
          split_ifs
          · exact ⟨.flag (desk.roster.contains key.id), rfl, rfl⟩
          · exact ⟨.flag false, rfl, rfl⟩

theorem getElem?_dismiss_of_ne {target : Nat} (h : target ≠ on) (name : String) :
    (session.dismiss target name)[on]? = session.desks[on]? := by
  unfold dismiss
  split
  · rfl
  · split
    · exact List.getElem?_modify_ne _ _ h
    · rfl

-- Nobody else leaves the desk `on`.
theorem Mirrors.dismiss {channels : List (Channel Message)} {later : Session} {target : Nat}
    {name : String} (h : Mirrors on channels station session) (hg : later.graph = session.graph)
    (hd : later.desks = session.dismiss target name)
    (hn : later.notes.filterMap Note.telling? = session.notes.filterMap Note.telling?)
    (hc : later.channels = session.channels) :
    Mirrors on channels
      (((session.dismissed? on target name).toList.forM Station.unsubscribe).run station).2
      later := by
  unfold dismissed?
  by_cases hon : target = on
  · rw [hon, Session.dismiss] at hd
    rw [if_pos hon]
    cases hk : session.subscribers.get? name with
    | none =>
        rw [hk] at hd
        exact h.congr hg (congrArg (·[on]?) hd) hn hc
    | some key =>
        rw [hk] at hd
        dsimp only [Option.bind_some] at hd ⊢
        split_ifs at hd ⊢
        · exact h.unsubscribe key.id hg hd hn hc
        · exact h.congr hg (congrArg (·[on]?) hd) hn hc
  · rw [if_neg hon]
    have hdesk := (congrArg (·[on]?) hd).trans (getElem?_dismiss_of_ne hon name)
    exact h.congr hg hdesk hn hc

theorem dismissal?_congr {later : Session} (h : later.subscribers = session.subscribers)
    (on : Nat) : later.dismissal? on = session.dismissal? on := by
  funext reaction
  simp only [dismissal?, dismissed?, h]

theorem conduct_congr {later : Session} (hs : later.subscribers = session.subscribers)
    (hr : later.reactions = session.reactions) (on : Nat) :
    later.conduct on = session.conduct on := by
  funext subscription
  simp only [conduct, hr, dismissal?_congr hs]

-- Subscribers to be told yet, each of whom will do what `conduct` says of it.
structure Awaits (react : Nat → Command → Run Reply) (on : Nat)
    (conduct : Subscription Sink → List Nat) (rest : List (Subscription Sink)) (session : Session) :
    Prop where
  nodup : (rest.map Subscription.id).Nodup
  conduct : ∀ subscription ∈ rest, session.conduct on subscription = conduct subscription
  unsubscribing : session.Unsubscribing
  -- Reactions are carried out.
  carried : ∀ reaction ∈ session.reactions, ∃ next,
    react reaction.on reaction.command = run.runAt next reaction.on reaction.command

variable {channels : List (Channel Message)} {conduct : Subscription Sink → List Nat}

theorem Awaits.rest {later : Session} {subscription : Subscription Sink}
    {rest : List (Subscription Sink)}
    (h : session.Awaits react on conduct (subscription :: rest))
    (hs : later.subscribers = session.subscribers) (hsub : later.reactions ⊆ session.reactions)
    (hr : ∀ id, id ≠ subscription.id → later.reactions.find? (·.subscriber = ⟨on, id⟩) =
      session.reactions.find? (·.subscriber = ⟨on, id⟩)) :
    later.Awaits react on conduct rest where
  nodup := (List.nodup_cons.mp h.nodup).2
  conduct := by
    intro other ho
    have hne : other.id ≠ subscription.id := fun he =>
      (List.nodup_cons.mp h.nodup).1 (he ▸ List.mem_map_of_mem ho)
    rw [← h.conduct other (List.mem_cons_of_mem _ ho)]
    simp only [Session.conduct, hr other.id hne, dismissal?_congr hs]
  unsubscribing := fun reaction hm => h.unsubscribing reaction (hsub hm)
  carried := fun reaction hm => h.carried reaction (hsub hm)

-- A reaction that is taken leaves those of other subscribers.
theorem find?_filter_subscriber {reactions : List Reaction} {key other : SubscriberKey}
    (h : other ≠ key) : (reactions.filter (·.subscriber ≠ key)).find? (·.subscriber = other) =
      reactions.find? (·.subscriber = other) := by
  rw [List.find?_filter]
  congr 1
  funext reaction
  by_cases he : reaction.subscriber = other
  · simp [he, h]
  · simp [he]

theorem run_tell (conduct : Subscription Sink → List Nat) (message : Message)
    (subscription : Subscription Sink) (station : Station Sink) :
    (Station.tell conduct message subscription).run station =
      ((conduct subscription).forM Station.unsubscribe).run
        ((Station.note (.told subscription message)).run station).2 := rfl

-- Station and session while `rest` are still to be told.
structure Telling (react : Nat → Command → Run Reply) (on : Nat) (channels : List (Channel Message))
    (conduct : Subscription Sink → List Nat) (rest : List (Subscription Sink))
    (station : Station Sink) (session : Session) : Prop where
  mirrors : Mirrors on channels station session
  awaits : session.Awaits react on conduct rest

section Observers

variable {name : String} {message : Message} {subscription : Subscription Sink}

theorem run_deliver_of_none (hs : subscription.sink = .observer name)
    (hf : session.reactions.find? (·.subscriber = ⟨on, subscription.id⟩) = none) :
    (deliver react on message subscription).run session =
      .ok ((), { session with notes := session.notes ++ [.told name message] }) := by
  simp only [deliver, hs, note, takeReaction, StateT.run_bind, StateT.run_modify, StateT.run_get,
    pure_bind, hf]
  rfl

theorem run_deliver_of_reaction {reaction : Reaction} {next : Nat → Command → Run Reply}
    {other : String} (hs : subscription.sink = .observer name)
    (hf : session.reactions.find? (·.subscriber = ⟨on, subscription.id⟩) = some reaction)
    (hr : reaction.command = .unsubscribe other)
    (hc : react reaction.on reaction.command = run.runAt next reaction.on reaction.command) :
    ∃ reply, (deliver react on message subscription).run session = .ok ((), { session with
      notes := session.notes ++ [.told name message] ++ [.reacted name reply]
      reactions := session.reactions.filter (·.subscriber ≠ ⟨on, subscription.id⟩)
      desks := session.dismiss reaction.on other }) := by
  obtain ⟨reply, -, hrun⟩ := run_unsubscribe next reaction.on other { session with
    notes := session.notes ++ [.told name message]
    reactions := session.reactions.filter (·.subscriber ≠ ⟨on, subscription.id⟩) }
  rw [hr] at hc
  refine ⟨reply, ?_⟩
  simp only [deliver, hs, note, takeReaction, StateT.run_bind, StateT.run_modify, StateT.run_get,
    StateT.run_set, StateT.run_pure, pure_bind, hf, hr, hc]
  rw [hrun]
  rfl

end Observers

theorem together_deliver (message : Message) (subscription : Subscription Sink)
    (rest : List (Subscription Sink)) :
    Together (Telling react on channels conduct (subscription :: rest))
      (Station.tell conduct message subscription) (deliver react on message subscription)
      fun _ => Telling react on channels conduct rest := by
  rintro station session ⟨hm, ha⟩
  rw [run_tell, ← ha.conduct subscription List.mem_cons_self, Session.conduct]
  cases hsink : subscription.sink with
  | channel id =>
      obtain ⟨log, hsend⟩ := run_sendTo session id message
      refine ⟨{ session with
        channels := session.channels.modify id (Channel.deliver message)
        awaiting := session.awaiting.erase id
        log := log }, ?_, ?_, ha.rest rfl (List.Subset.refl _) fun _ _ => rfl⟩
      · simp only [deliver, hsink, StateT.run_bind, hsend]
        rfl
      · exact hm.note_told rfl rfl (by simp [observed?, observer?, hsink])
          (by simp [convey, hsink])
  | observer name =>
      cases hfind : session.reactions.find? (·.subscriber = ⟨on, subscription.id⟩) with
      | none =>
          exact ⟨_, run_deliver_of_none hsink hfind, hm.note_observer hsink rfl rfl rfl rfl,
            ha.rest rfl (List.Subset.refl _) fun _ _ => rfl⟩
      | some reaction =>
          have hmem := List.mem_of_find?_eq_some hfind
          obtain ⟨other, hcommand⟩ := ha.unsubscribing reaction hmem
          obtain ⟨next, hcarried⟩ := ha.carried reaction hmem
          obtain ⟨reply, hrun⟩ := run_deliver_of_reaction hsink hfind hcommand hcarried
          have htold : Mirrors on channels
              ((Station.note (.told subscription message)).run station).2
              { session with notes := session.notes ++ [.told name message] } :=
            hm.note_observer hsink rfl rfl rfl rfl
          refine ⟨_, hrun, ?_, ?_⟩
          · show Mirrors on channels
              (((session.dismissal? on reaction).toList.forM Station.unsubscribe).run _).2 _
            rw [dismissal?, hcommand]
            exact htold.dismiss rfl rfl (by simp [Note.telling?]) rfl
          · refine ha.rest rfl List.filter_sublist.subset fun id hne => find?_filter_subscriber ?_
            simpa using hne

end Reactions

section Publishing

variable {channels : List (Channel Message)} {conduct : Subscription Sink → List Nat}

theorem Hosts.mirrors (h : Hosts on station session) (hn : session.notes = []) :
    Mirrors on session.channels { station with events := [] } session where
  hosts := ⟨h.graph, h.desk⟩
  told := by rw [hn]; rfl
  sent := rfl

theorem Awaits.congr {later : Session} {rest : List (Subscription Sink)}
    (h : session.Awaits react on conduct rest) (hs : later.subscribers = session.subscribers)
    (hr : later.reactions = session.reactions) : later.Awaits react on conduct rest where
  nodup := h.nodup
  conduct := by
    rw [conduct_congr hs hr]
    exact h.conduct
  unsubscribing := by
    unfold Unsubscribing
    rw [hr]
    exact h.unsubscribing
  carried := hr ▸ h.carried

theorem together_store (reloader : Reloader) :
    Together
      (fun station session => station.reloader.config = reloader.config ∧
        Telling react on channels conduct station.roster.subscriptions station session)
      (modify fun station => { station with reloader := reloader }) (store on reloader)
      fun _ station session =>
        Telling react on channels conduct station.roster.subscriptions station session := by
  rintro station session ⟨hc, hm, ha⟩
  refine ⟨{ session with
    graph := reloader.graph
    desks := session.desks.modify on fun desk => { desk with turnstile := reloader.turnstile } },
    rfl, ⟨hm.hosts.modify rfl rfl ?_, hm.told, hm.sent⟩, ha.congr rfl rfl⟩
  rw [deskOf, hc]
  rfl

theorem together_summon :
    Together
      (fun station session =>
        Telling react on channels conduct station.roster.subscriptions station session)
      (Station.roster <$> get) (summon on)
      fun roster => Telling react on channels conduct roster.subscriptions := by
  rintro station session ⟨hm, ha⟩
  have hrun : (summon on).run session = .ok (station.roster, { session with
      awaiting := channelsOf station.roster ++ session.awaiting }) := by
    simp only [summon, StateT.run_bind, StateT.run_get, pure_bind, hm.hosts.desk]
    rfl
  exact ⟨_, hrun, hm.congr rfl rfl rfl rfl, ha.congr rfl rfl⟩

theorem together_reload (response : Reloader.Response) :
    Together
      (fun station session => station.reloader.config = response.reloader.config ∧
        Telling react on channels conduct station.roster.subscriptions station session)
      (response.publish
        (fun reloader => modify fun station => { station with reloader := reloader })
        (Station.roster <$> get) (Station.tell conduct))
      (response.publish (store on) (summon on) (deliver react on))
      fun _ station session => Mirrors on channels station session ∧ session.Unsubscribing := by
  exact together_publish (together_store response.reloader) together_summon together_deliver
    (fun _ _ h => ⟨h.mirrors, h.awaits.unsubscribing⟩)
    fun _ _ h => ⟨h.mirrors, h.awaits.unsubscribing⟩

-- A reload call at a desk does to the desk, and to those that it tells, what it does at a station.
theorem run_settle_eq_step {call : Reloader.Call} {logged : Logged Reloader.Response}
    (h : Hosts on station session) (hl : logged.result = station.reloader.respond call)
    (hn : session.notes = [])
    (ha : session.Awaits react on conduct station.roster.subscriptions) :
    ∃ later, (settle react on logged).run session =
        .ok ((station.outcome (.reload call conduct)).message.elim .nothing .message, later) ∧
      Mirrors on session.channels (station.call (.reload call conduct)) later ∧
      later.Unsubscribing := by
  have hconfig : station.reloader.config = logged.result.reloader.config := by
    rw [hl, Reloader.reloader_respond, Reloader.config_call]
  have hrecorded : Telling react on session.channels conduct station.roster.subscriptions
      { station with events := [] } { session with log := session.log ++ logged.log } :=
    ⟨(h.mirrors hn).congr rfl rfl rfl rfl, ha.congr rfl rfl⟩
  obtain ⟨later, hrun, hm⟩ := together_reload logged.result { station with events := [] }
    { session with log := session.log ++ logged.log } ⟨hconfig, hrecorded⟩
  refine ⟨later, ?_, ?_⟩
  · have hrecord : (record logged).run session =
        .ok (logged.result, { session with log := session.log ++ logged.log }) := rfl
    rw [settle_eq_publish, StateT.run_bind, hrecord]
    show (do let message ← logged.result.publish (store on) (summon on) (deliver react on)
             pure (message.elim .nothing .message) : Run Reply).run _ = _
    rw [StateT.run_bind, hrun, hl]
    rfl
  · rw [hl] at hm
    exact hm

end Publishing

end LiveReload.Session
