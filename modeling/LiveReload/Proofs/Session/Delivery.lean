import LiveReload.Proofs.Channel
import LiveReload.Proofs.Session
import Mathlib.Data.List.Basic

namespace LiveReload.Session

variable (react : Nat → Command → Run Reply) (session : Session) {desk : Desk}

-- The channels among the subscribers of a roster, in order.
def channelsOf (roster : Roster Sink) : List Nat :=
  roster.subscriptions.filterMap fun subscription => channelOf? subscription.sink

theorem run_sendTo (id : Nat) (message : Message) :
    ∃ log, (sendTo id message).run session =
      .ok ((), { session with
        channels := session.channels.modify id (Channel.deliver message)
        log := log }) := by
  have hmodify := List.modify_eq_set_getElem? (Channel.deliver message) id session.channels
  cases hc : session.channels[id]? with
  | none =>
      rw [hc] at hmodify
      refine ⟨session.log, ?_⟩
      simp only [sendTo, StateT.run_bind, StateT.run_get, pure_bind, hc, hmodify]
      rfl
  | some channel =>
      rw [hc] at hmodify
      cases hs : channel.send message with
      | none =>
          have hsame : session.channels.modify id (Channel.deliver message) = session.channels :=
            modify_of_getElem? hc (by rw [Channel.deliver, hs, Option.getD_none])
          refine ⟨session.log ++ [.noClient message.cause], ?_⟩
          simp only [sendTo, StateT.run_bind, StateT.run_get, pure_bind, hc, hs, hsame]
          rfl
      | some next =>
          have hnext : channel.deliver message = next := by
            rw [Channel.deliver, hs, Option.getD_some]
          refine ⟨session.log, ?_⟩
          simp only [sendTo, StateT.run_bind, StateT.run_get, pure_bind, hc, hs, hmodify]
          rw [← hnext]
          rfl

-- Nobody reacts, so what is told to one subscriber reaches at most its own channel.
theorem run_deliver (on : Nat) (hr : session.reactions = []) (message : Message)
    (subscription : Subscription Sink) :
    ∃ awaiting notes log, (deliver react on message subscription).run session =
      .ok ((), { session with
        channels := (channelOf? subscription.sink).toList.foldl
          (fun channels id => channels.modify id (Channel.deliver message)) session.channels
        awaiting := awaiting
        notes := notes
        log := log }) := by
  unfold deliver
  cases subscription.sink with
  | channel id =>
      obtain ⟨log, hsend⟩ := run_sendTo session id message
      refine ⟨session.awaiting.erase id, session.notes, log, ?_⟩
      simp only [StateT.run_bind, hsend]
      rfl
  | observer name =>
      refine ⟨session.awaiting, session.notes ++ [.told name message], session.log, ?_⟩
      have hnone : ∀ key : SubscriberKey, session.reactions.find? (·.subscriber = key) = none := by
        intro key
        rw [hr]
        rfl
      simp only [note, takeReaction, StateT.run_bind, StateT.run_modify, StateT.run_get, pure_bind,
        hnone]
      rfl

theorem run_forM_deliver (on : Nat) (hr : session.reactions = []) (message : Message)
    (subscriptions : List (Subscription Sink)) :
    ∃ awaiting notes log, (subscriptions.forM (deliver react on message)).run session =
      .ok ((), { session with
        channels := (subscriptions.filterMap fun subscription =>
            channelOf? subscription.sink).foldl
          (fun channels id => channels.modify id (Channel.deliver message)) session.channels
        awaiting := awaiting
        notes := notes
        log := log }) := by
  induction subscriptions generalizing session with
  | nil => exact ⟨_, _, _, rfl⟩
  | cons subscription subscriptions ih =>
      obtain ⟨awaiting, notes, log, hfirst⟩ :=
        run_deliver react session on hr message subscription
      obtain ⟨awaiting', notes', log', hrest⟩ := ih { session with
        channels := (channelOf? subscription.sink).toList.foldl
          (fun channels id => channels.modify id (Channel.deliver message)) session.channels
        awaiting := awaiting
        notes := notes
        log := log } hr
      refine ⟨awaiting', notes', log', ?_⟩
      have hcons : (subscription :: subscriptions).filterMap
            (fun subscription => channelOf? subscription.sink) =
          (channelOf? subscription.sink).toList ++
            subscriptions.filterMap fun subscription => channelOf? subscription.sink := by
        rw [List.filterMap_cons]
        cases channelOf? subscription.sink <;> rfl
      have hrun : (subscription :: subscriptions).forM (deliver react on message) = (do
          deliver react on message subscription
          subscriptions.forM (deliver react on message)) := rfl
      rw [hrun, StateT.run_bind, hfirst, hcons, List.foldl_append]
      exact hrest

theorem getElem?_foldl_modify_range {α : Type} (f : α → α) (l : List α) (n i : Nat) :
    ((List.range n).foldl (fun l id => l.modify id f) l)[i]? =
      if i < n then l[i]?.map f else l[i]? := by
  induction n with
  | zero => simp
  | succ n ih =>
      rw [List.range_succ, List.foldl_append, List.foldl_cons, List.foldl_nil,
        List.getElem?_modify, ih]
      by_cases hi : n = i
      · simp [hi]
      · have hiff : i < n + 1 ↔ i < n := by omega
        simp [hi, hiff]

-- What is done to one after the other is done to all of them.
theorem foldl_modify_range {α : Type} (f : α → α) (l : List α) :
    (List.range l.length).foldl (fun l id => l.modify id f) l = l.map f := by
  apply List.ext_getElem?
  intro i
  rw [getElem?_foldl_modify_range, List.getElem?_map]
  by_cases hi : i < l.length
  · rw [if_pos hi]
  · rw [if_neg hi, List.getElem?_eq_none (Nat.le_of_not_lt hi), Option.map_none]

theorem run_notify (hd : session.desks = [desk]) (hr : session.reactions = [])
    (hc : channelsOf desk.roster = List.range session.channels.length) (message : Message) :
    ∃ awaiting notes log, (notify react 0 message).run session =
      .ok ((), { session with
        channels := session.channels.map (Channel.deliver message)
        awaiting := awaiting
        notes := notes
        log := log }) := by
  have hdesk : session.desks[0]? = some desk := by rw [hd, List.getElem?_cons_zero]
  obtain ⟨awaiting, notes, log, hrun⟩ := run_forM_deliver react
    { session with awaiting := channelsOf desk.roster ++ session.awaiting } 0 hr message
    desk.roster.subscriptions
  refine ⟨awaiting, notes, log, ?_⟩
  have hchannels : (channelsOf desk.roster).foldl
      (fun channels id => channels.modify id (Channel.deliver message)) session.channels =
        session.channels.map (Channel.deliver message) := by
    rw [hc, foldl_modify_range]
  rw [← hchannels]
  simp only [notify, StateT.run_bind, StateT.run_get, pure_bind, hdesk]
  exact hrun

theorem run_updateDesk (hd : session.desks = [desk]) (f : Desk → Desk) :
    (updateDesk 0 f).run session = .ok ((), { session with desks := [f desk] }) := by
  have hdesks : session.desks.modify 0 f = [f desk] := by
    rw [hd]
    rfl
  rw [← hdesks]
  rfl

theorem run_store (hd : session.desks = [desk]) (reloader : Reloader) :
    (store 0 reloader).run session = .ok ((), { session with
      graph := reloader.graph
      desks := [{ desk with turnstile := reloader.turnstile }] }) := by
  have hupdate := run_updateDesk { session with graph := reloader.graph } hd
    fun desk => { desk with turnstile := reloader.turnstile }
  exact hupdate

theorem run_addSubscriber_of_getElem? {on : Nat} (hd : session.desks[on]? = some desk)
    (sink : Sink) : (addSubscriber on sink).run session = .ok (⟨on, desk.roster.nextId⟩,
      { session with desks := session.desks.modify on fun desk' =>
          { desk' with roster := (desk.roster.add sink).2 } }) := by
  simp only [addSubscriber, StateT.run_bind, StateT.run_get, pure_bind, hd]
  rfl

theorem run_addSubscriber (hd : session.desks = [desk]) (sink : Sink) :
    (addSubscriber 0 sink).run session = .ok (⟨0, desk.roster.nextId⟩, { session with
      desks := [{ desk with roster := (desk.roster.add sink).2 }] }) := by
  have hdesk : session.desks[0]? = some desk := by rw [hd, List.getElem?_cons_zero]
  rw [run_addSubscriber_of_getElem? session hdesk, hd]
  rfl

theorem run_openChannel {capacity : Nat} (hp : Channel.Possible capacity) :
    (openChannel capacity).run session = .ok (session.channels.length, { session with
      channels := session.channels ++ [⟨Channel.slots capacity, [], 0, 0⟩] }) := by
  have hcreate := Channel.create_of_possible (μ := Message) hp
  simp only [openChannel, hcreate]
  rfl

-- How a session without reactions takes over what a call of its only reloader led to.
theorem run_settle (hd : session.desks = [desk]) (hr : session.reactions = [])
    (hc : channelsOf desk.roster = List.range session.channels.length)
    (logged : Logged Reloader.Response) :
    ∃ awaiting notes log, (settle react 0 logged).run session =
      .ok (logged.result.message.elim .nothing .message, { session with
        graph := logged.result.reloader.graph
        desks := [{ desk with turnstile := logged.result.reloader.turnstile }]
        channels := logged.result.message.elim session.channels fun message =>
          session.channels.map (Channel.deliver message)
        awaiting := awaiting
        notes := notes
        log := log }) := by
  obtain ⟨⟨reloader, answer⟩, records⟩ := logged
  have hstore := run_store { session with log := session.log ++ records } hd reloader
  cases answer with
  | none =>
      refine ⟨session.awaiting, session.notes, session.log ++ records, ?_⟩
      have hsettle : (settle react 0 ⟨⟨reloader, none⟩, records⟩).run session =
          (do store 0 reloader; pure .nothing : Run Reply).run
            { session with log := session.log ++ records } := rfl
      rw [hsettle, StateT.run_bind, hstore]
      rfl
  | some message =>
      obtain ⟨awaiting, notes, log, hrun⟩ := run_notify react
        { session with
          graph := reloader.graph
          desks := [{ desk with turnstile := reloader.turnstile }]
          log := session.log ++ records } rfl hr hc message
      refine ⟨awaiting, notes, log, ?_⟩
      have hsettle : (settle react 0 ⟨⟨reloader, some message⟩, records⟩).run session =
          (do store 0 reloader; notify react 0 message; pure (.message message) : Run Reply).run
            { session with log := session.log ++ records } := rfl
      rw [hsettle, StateT.run_bind, hstore]
      show (do notify react 0 message; pure (.message message) : Run Reply).run _ = _
      rw [StateT.run_bind, hrun]
      rfl

end LiveReload.Session
