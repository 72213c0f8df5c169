import LiveReload.Proofs.Station
import LiveReload.Session

namespace LiveReload.Session

variable {session : Session} {react : Nat → Command → Run Reply} {on : Nat} {desk : Desk}

theorem modify_of_getElem? {α : Type} {l : List α} {n : Nat} {a : α} {f : α → α}
    (h : l[n]? = some a) (hf : f a = a) : l.modify n f = l := by
  apply List.ext_getElem?
  intro m
  rw [List.getElem?_modify]
  by_cases hm : n = m
  · subst m
    simp [h, hf]
  · simp [hm]

theorem settle_of_idle {logged : Logged Reloader.Response} (hd : session.desks[on]? = some desk)
    (h : logged.result = ⟨session.reloaderAt desk, none⟩) :
    (settle react on logged).run session =
      .ok (.nothing, { session with log := session.log ++ logged.log }) := by
  have hdesks : session.desks.modify on
      (fun desk' => { desk' with turnstile := desk.turnstile }) = session.desks :=
    modify_of_getElem? hd rfl
  have hs : (settle react on logged).run session =
      .ok (.nothing,
        { session with
          log := session.log ++ logged.log
          desks := session.desks.modify on
            fun desk' => { desk' with turnstile := desk.turnstile } }) := by
    simp only [settle, record, h]
    rfl
  rw [hs, hdesks]

section Publishing

-- The subscribers at a desk; the channels among them are about to be told.
def summon (on : Nat) : Run (Roster Sink) := do
  let session ← get
  match session.desks[on]? with
  | none => pure ∅
  | some desk =>
    let told := desk.roster.subscriptions.filterMap fun subscription => channelOf? subscription.sink
    set { session with awaiting := told ++ session.awaiting }
    pure desk.roster

theorem notify_eq_summon (message : Message) :
    notify react on message = (do
      let roster ← summon on
      roster.notify (deliver react on message)) := by
  simp only [notify, summon, bind_assoc]
  refine bind_congr fun session => ?_
  cases session.desks[on]? with
  | none => exact (pure_bind _ _).symm
  | some desk => simp only [bind_assoc, pure_bind]

theorem settle_eq_publish (logged : Logged Reloader.Response) :
    settle react on logged = (do
      let response ← record logged
      let message ← response.publish (store on) (summon on) (deliver react on)
      pure (message.elim .nothing .message)) := by
  rw [settle]
  refine bind_congr fun response => ?_
  rw [Reloader.Response.publish]
  simp only [bind_assoc]
  refine bind_congr fun _ => ?_
  cases response.message with
  | none => exact (pure_bind _ _).symm
  | some message => simp only [notify_eq_summon, bind_assoc, pure_bind, Option.elim]

end Publishing

theorem perform_finish {name : String} {ticket : Ticket} {declaration : Declaration}
    (ht : session.tickets.get? name = some ticket) :
    (perform react on desk (.finish name declaration)).run session =
      (settle react on ((session.reloaderAt desk).finish ticket declaration)).run session := by
  simp only [perform, StateT.run_bind, StateT.run_get, pure_bind, ht]

theorem exists_run_eq_runAt (depth on : Nat) (command : Command) :
    ∃ next, run depth on command = run.runAt next on command := by
  cases depth with
  | zero => exact ⟨fun _ _ => pure .badCommand, rfl⟩
  | succ depth => exact ⟨run depth, rfl⟩

theorem pendingReactions_pos (h : session.reactions ≠ []) : 0 < session.pendingReactions := by
  have hle (reactions : List Reaction) (pending : Nat) : pending + reactions.length ≤
      reactions.foldl (fun pending reaction => pending + reaction.command.reactions + 1) pending := by
    induction reactions generalizing pending with
    | nil => exact Nat.le_refl _
    | cons reaction reactions ih =>
        have hrest := ih (pending + reaction.command.reactions + 1)
        simp only [List.foldl_cons, List.length_cons]
        omega
  have hlength := List.length_pos_iff.mpr h
  have hsession := hle session.reactions 0
  unfold pendingReactions
  omega

-- The reactions that a step allows for matter to nothing but how `react` carries them out, and one
-- that is pending is carried out.
theorem exists_step_eq_perform (hd : session.desks[on]? = some desk) (command : Command) :
    ∃ react, (session.reactions ≠ [] → ∀ target reaction, ∃ next,
        react target reaction = run.runAt next target reaction) ∧
      session.step on command = (do
        let (reply, later) ←
          (perform react on desk command).run { session with notes := [], log := [] }
        pure (⟨reply, later.notes, later.log⟩, later)) := by
  cases hdepth : session.pendingReactions + command.reactions with
  | zero =>
      refine ⟨fun _ _ => pure .badCommand, fun h => ?_, ?_⟩
      · have hpos := pendingReactions_pos h
        omega
      · simp only [step, hdepth, run, run.runAt, StateT.run_bind, StateT.run_get, pure_bind, hd]
  | succ depth =>
      refine ⟨run depth, fun _ => exists_run_eq_runAt depth, ?_⟩
      simp only [step, hdepth, run, run.runAt, StateT.run_bind, StateT.run_get, pure_bind, hd]

section Replays

structure Request where
  on : Nat
  command : Command

structure Exchange where
  request : Request
  answer : Answer

-- Carries out one request after another.
def replay (session : Session) : List Request →
    Except Channel.CapacityFault (List Exchange × Session)
  | [] => .ok ([], session)
  | request :: requests => do
    let (answer, session) ← session.step request.on request.command
    let (exchanges, session) ← session.replay requests
    pure (⟨request, answer⟩ :: exchanges, session)

theorem replay_cons_of_step {session middle : Session} {request : Request} {answer : Answer}
    (h : session.step request.on request.command = .ok (answer, middle)) (requests : List Request) :
    session.replay (request :: requests) = (do
      let (exchanges, session) ← middle.replay requests
      pure (⟨request, answer⟩ :: exchanges, session)) := by
  rw [replay, h]
  rfl

theorem of_replay_cons {session last : Session} {request : Request} {requests : List Request}
    {exchanges : List Exchange}
    (h : session.replay (request :: requests) = .ok (exchanges, last)) :
    ∃ answer middle others, session.step request.on request.command = .ok (answer, middle) ∧
      middle.replay requests = .ok (others, last) ∧ exchanges = ⟨request, answer⟩ :: others := by
  cases hs : session.step request.on request.command with
  | error fault =>
      rw [replay, hs] at h
      cases h
  | ok first =>
      rw [replay_cons_of_step hs] at h
      cases hr : first.2.replay requests with
      | error fault =>
          rw [hr] at h
          cases h
      | ok rest =>
          rw [hr] at h
          cases h
          exact ⟨first.1, first.2, rest.1, rfl, hr, rfl⟩

theorem replay_append {session middle last : Session} {requests more : List Request}
    {exchanges later : List Exchange} (h : session.replay requests = .ok (exchanges, middle))
    (hm : middle.replay more = .ok (later, last)) :
    session.replay (requests ++ more) = .ok (exchanges ++ later, last) := by
  induction requests generalizing session exchanges with
  | nil =>
      cases h
      exact hm
  | cons request requests ih =>
      obtain ⟨answer, first, others, hs, hr, rfl⟩ := of_replay_cons h
      rw [List.cons_append, replay_cons_of_step hs, ih hr]
      rfl

theorem map_request_of_replay {session last : Session} {requests : List Request}
    {exchanges : List Exchange} (h : session.replay requests = .ok (exchanges, last)) :
    exchanges.map Exchange.request = requests := by
  induction requests generalizing session exchanges with
  | nil =>
      cases h
      rfl
  | cons request requests ih =>
      obtain ⟨answer, first, others, -, hr, rfl⟩ := of_replay_cons h
      rw [List.map_cons, ih hr]

theorem of_replay_append {session last : Session} {requests more : List Request}
    {exchanges : List Exchange} (h : session.replay (requests ++ more) = .ok (exchanges, last)) :
    ∃ past middle future, session.replay requests = .ok (past, middle) ∧
      middle.replay more = .ok (future, last) ∧ exchanges = past ++ future := by
  induction requests generalizing session exchanges with
  | nil => exact ⟨[], session, exchanges, rfl, h, rfl⟩
  | cons request requests ih =>
      obtain ⟨answer, first, others, hs, hr, rfl⟩ := of_replay_cons h
      obtain ⟨past, middle, future, hpast, hfuture, rfl⟩ := ih hr
      refine ⟨⟨request, answer⟩ :: past, middle, future, ?_, hfuture, rfl⟩
      rw [replay_cons_of_step hs, hpast]
      rfl

end Replays

end LiveReload.Session
