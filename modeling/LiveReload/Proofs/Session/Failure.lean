import LiveReload.Proofs.Channel
import LiveReload.Proofs.Session

namespace LiveReload.Session

-- Whether a command makes channels, now or by what it leaves behind, of `allowed` capacities only,
-- and none of a configured capacity unless `broadcasting`.
def Command.Within (allowed : Nat → Prop) (broadcasting : Prop) : Command → Prop
  | .broadcast _ => broadcasting
  | .attach _ capacity => allowed capacity
  | .addReloader other => broadcasting → allowed other.channelCapacity.toNat
  | .subscribeReacting _ _ reaction => reaction.Within allowed broadcasting
  | _ => True

def configs (session : Session) : List Config := session.desks.map Desk.config

variable {allowed : Nat → Prop} {broadcasting : Prop} {config : Config} {session later : Session}

-- What stays true of a session that began with a reloader of `config`.
structure Within (allowed : Nat → Prop) (broadcasting : Prop) (config : Config)
    (session : Session) : Prop where
  first : session.configs.head? = some config
  configs : broadcasting → ∀ config ∈ session.configs, allowed config.channelCapacity.toNat
  reactions : ∀ reaction ∈ session.reactions, reaction.command.Within allowed broadcasting

theorem Within.congr (h : session.Within allowed broadcasting config)
    (hc : later.configs = session.configs) (hr : later.reactions ⊆ session.reactions) :
    later.Within allowed broadcasting config where
  first := hc ▸ h.first
  configs := hc ▸ h.configs
  reactions := fun reaction hm => h.reactions reaction (hr hm)

theorem Within.same (h : session.Within allowed broadcasting config)
    (hc : later.configs = session.configs) (hr : later.reactions = session.reactions) :
    later.Within allowed broadcasting config :=
  h.congr hc (hr ▸ List.Subset.refl _)

section Reaches

variable {α β : Type} {post : α → Session → Prop} {goal : β → Session → Prop}

-- The result is as `post` says, or it is a failure to make a channel of an allowed capacity.
def Meets (allowed : Nat → Prop) (post : α → Session → Prop) :
    Except Channel.CapacityFault (α × Session) → Prop
  | .ok (a, later) => post a later
  | .error _ => ∃ capacity, allowed capacity ∧ ¬Channel.Possible capacity

theorem Meets.bind {result : Except Channel.CapacityFault (α × Session)}
    {next : α × Session → Except Channel.CapacityFault (β × Session)}
    (h : Meets allowed post result)
    (hn : ∀ a later, post a later → Meets allowed goal (next (a, later))) :
    Meets allowed goal (result >>= next) := by
  cases result with
  | error fault => exact h
  | ok result => exact hn result.1 result.2 h

def Reaches (allowed : Nat → Prop) (post : α → Session → Prop) (act : Run α)
    (session : Session) : Prop := Meets allowed post (act.run session)

theorem reaches_bind {act : Run α} {next : α → Run β} (h : Reaches allowed post act session)
    (hn : ∀ a later, post a later → Reaches allowed goal (next a) later) :
    Reaches allowed goal (act >>= next) session := by
  unfold Reaches
  rw [StateT.run_bind]
  exact Meets.bind h hn

theorem reaches_get {next : Session → Run α} (h : Reaches allowed post (next session) session) :
    Reaches allowed post (get >>= next) session := h

theorem reaches_set {next : PUnit → Run α} (h : Reaches allowed post (next ⟨⟩) later) :
    Reaches allowed post (set later >>= next) session := h

end Reaches

section Keeps

variable {α β : Type}

-- The action keeps what stays true, unless it fails as said.
def Keeps (allowed : Nat → Prop) (broadcasting : Prop) (config : Config) (act : Run α) : Prop :=
  ∀ session, session.Within allowed broadcasting config →
    Reaches allowed (fun _ later => later.Within allowed broadcasting config) act session

theorem keeps_pure (a : α) : Keeps allowed broadcasting config (pure a : Run α) :=
  fun _ h => h

theorem Keeps.bind {act : Run α} {next : α → Run β} (h : Keeps allowed broadcasting config act)
    (hn : ∀ a, Keeps allowed broadcasting config (next a)) :
    Keeps allowed broadcasting config (act >>= next) :=
  fun session hs => reaches_bind (h session hs) fun a later hl => hn a later hl

-- What is read is the state that is then written to.
theorem keeps_get {next : Session → Run α}
    (h : ∀ session, session.Within allowed broadcasting config →
      Reaches allowed (fun _ later => later.Within allowed broadcasting config) (next session)
        session) :
    Keeps allowed broadcasting config (get >>= next) := h

theorem Keeps.map {act : Run α} (h : Keeps allowed broadcasting config act) (f : α → β) :
    Keeps allowed broadcasting config (f <$> act) := by
  rw [map_eq_pure_bind]
  exact h.bind fun a => keeps_pure (f a)

theorem keeps_modify {f : Session → Session}
    (h : ∀ session, session.Within allowed broadcasting config →
      (f session).Within allowed broadcasting config) :
    Keeps allowed broadcasting config (modify f) := h

theorem keeps_modify_pure {f : Session → Session} {a : α}
    (h : ∀ session, session.Within allowed broadcasting config →
      (f session).Within allowed broadcasting config) :
    Keeps allowed broadcasting config (do modify f; pure a) :=
  (keeps_modify h).bind fun _ => keeps_pure a

theorem keeps_forM {act : α → Run Unit} (h : ∀ a, Keeps allowed broadcasting config (act a))
    (l : List α) : Keeps allowed broadcasting config (l.forM act) := by
  induction l with
  | nil => exact keeps_pure ()
  | cons a l ih => exact (h a).bind fun _ => ih

theorem keeps_note (note : Note) : Keeps allowed broadcasting config (Session.note note) :=
  keeps_modify fun _ h => h.same rfl rfl

theorem keeps_record (logged : Logged α) : Keeps allowed broadcasting config (record logged) :=
  keeps_modify_pure fun _ h => h.same rfl rfl

theorem keeps_updateDesk {on : Nat} {f : Desk → Desk} (hf : ∀ desk, (f desk).config = desk.config) :
    Keeps allowed broadcasting config (updateDesk on f) := by
  refine keeps_modify fun session h => h.congr ?_ (List.Subset.refl _)
  apply List.ext_getElem?
  intro m
  simp only [configs, List.getElem?_map, List.getElem?_modify]
  by_cases hm : on = m
  · simp [hm, Function.comp_def, hf]
  · simp [hm]

theorem keeps_store (on : Nat) (reloader : Reloader) :
    Keeps allowed broadcasting config (store on reloader) :=
  Keeps.bind (keeps_modify fun _ h => h.same rfl rfl) fun _ =>
    keeps_updateDesk fun _ => rfl

end Keeps

section Channels

theorem keeps_sendTo (id : Nat) (message : Message) :
    Keeps allowed broadcasting config (sendTo id message) := by
  refine keeps_get fun session h => ?_
  cases session.channels[id]? with
  | none => exact h
  | some channel =>
      dsimp only
      cases channel.send message with
      | none => exact keeps_record _ session h
      | some channel => exact h.same rfl rfl

theorem keeps_openChannel {capacity : Nat} (ha : allowed capacity) :
    Keeps allowed broadcasting config (openChannel capacity) := by
  intro session h
  by_cases hp : Channel.Possible capacity
  · have hcreate := Channel.create_of_possible (μ := Message) hp
    simp only [openChannel, hcreate]
    exact h.same rfl rfl
  · have herror : ∃ fault, Channel.create (μ := Message) capacity = .error fault := by
      cases hcreate : Channel.create (μ := Message) capacity with
      | error fault => exact ⟨fault, rfl⟩
      | ok channel => exact absurd (Channel.create_eq_ok_iff.mp hcreate).1 hp
    obtain ⟨fault, hcreate⟩ := herror
    simp only [openChannel, hcreate]
    exact ⟨capacity, ha, hp⟩

theorem keeps_dropListener (name : String) :
    Keeps allowed broadcasting config (dropListener name) := by
  refine keeps_get fun session h => ?_
  cases session.listeners.get? name with
  | none => exact h
  | some listener => exact h.same rfl rfl

theorem keeps_listen (id : Nat) (name : String) :
    Keeps allowed broadcasting config (listen id name) := by
  refine keeps_get fun session h => ?_
  cases session.channels[id]? with
  | none => exact h
  | some channel =>
      refine reaches_set ?_
      refine Keeps.bind (keeps_dropListener name) (fun _ => ?_) _ (h.same rfl rfl)
      refine Keeps.bind (keeps_modify fun _ h => h.same rfl rfl) fun _ => ?_
      exact keeps_get fun _ h => h

theorem keeps_receive (name : String) : Keeps allowed broadcasting config (receive name) := by
  refine keeps_get fun session h => ?_
  cases session.listeners.get? name with
  | none => exact h
  | some listener =>
      dsimp only
      cases session.channels[listener.channel]? with
      | none => exact h
      | some channel => exact h.same rfl rfl

end Channels

section Subscribers

theorem keeps_addSubscriber (on : Nat) (sink : Sink) :
    Keeps allowed broadcasting config (addSubscriber on sink) := by
  refine keeps_get fun session h => ?_
  cases session.desks[on]? with
  | none => exact h
  | some desk =>
      refine Keeps.bind (keeps_updateDesk ?_) (fun _ => keeps_pure _) session h
      exact fun _ => rfl

theorem keeps_removeSubscriber (on : Nat) (key : SubscriberKey) :
    Keeps allowed broadcasting config (removeSubscriber on key) := by
  refine keeps_get fun session h => ?_
  cases session.desks[on]? with
  | none => exact h
  | some desk =>
      dsimp only
      split
      · refine Keeps.bind (keeps_updateDesk ?_) (fun _ => keeps_pure _) session h
        exact fun _ => rfl
      · exact h

-- A reaction may be anything that the subscriber's own command was allowed to be.
variable {react : Nat → Command → Run Reply} (hreact : ∀ on command,
  Command.Within allowed broadcasting command →
    Keeps allowed broadcasting config (react on command))

include hreact

theorem keeps_deliver (on : Nat) (message : Message) (subscription : Subscription Sink) :
    Keeps allowed broadcasting config (deliver react on message subscription) := by
  unfold deliver
  cases subscription.sink with
  | channel id =>
      exact Keeps.bind (keeps_sendTo id message) fun _ =>
        keeps_modify fun _ h => h.same rfl rfl
  | observer name =>
      refine Keeps.bind (keeps_note _) fun _ session h => ?_
      simp only [takeReaction, bind_assoc]
      refine reaches_get ?_
      cases hf : session.reactions.find? (·.subscriber = ⟨on, subscription.id⟩) with
      | none => exact h
      | some reaction =>
          have hw := h.reactions reaction (List.mem_of_find?_eq_some hf)
          have hrest : Within allowed broadcasting config { session with
              reactions := session.reactions.filter (·.subscriber ≠ ⟨on, subscription.id⟩) } :=
            h.congr rfl (List.filter_subset_self _)
          exact Keeps.bind (hreact reaction.on reaction.command hw) (fun _ => keeps_note _) _ hrest

theorem keeps_settle (on : Nat) (logged : Logged Reloader.Response) :
    Keeps allowed broadcasting config (settle react on logged) := by
  refine Keeps.bind (keeps_record logged) fun response => ?_
  refine Keeps.bind (keeps_store on response.reloader) fun _ => ?_
  cases response.message with
  | none => exact keeps_pure _
  | some message =>
      refine Keeps.bind (keeps_get fun session h => ?_) fun _ => keeps_pure _
      cases session.desks[on]? with
      | none => exact h
      | some desk =>
          refine reaches_set ?_
          exact keeps_forM (keeps_deliver hreact on message) desk.roster.subscriptions _
            (h.same rfl rfl)

end Subscribers

section Commands

theorem keeps_addReloader {other : Config}
    (ha : broadcasting → allowed other.channelCapacity.toNat) :
    Keeps allowed broadcasting config (addReloader other) := by
  unfold addReloader
  cases other.validate with
  | error fault => exact keeps_pure _
  | ok =>
      refine keeps_get fun session h => ?_
      have hc : ({ session with desks := session.desks ++ [newDesk other] } : Session).configs =
          session.configs ++ [other] := List.map_append
      refine ⟨?_, fun hb config hm => ?_, h.reactions⟩
      · rw [hc, List.head?_append, h.first]
        rfl
      · rw [hc, List.mem_append, List.mem_singleton] at hm
        rcases hm with hm | rfl
        · exact h.configs hb config hm
        · exact ha hb

variable {react : Nat → Command → Run Reply} (hreact : ∀ on command,
  Command.Within allowed broadcasting command →
    Keeps allowed broadcasting config (react on command))

include hreact

theorem keeps_perform (on : Nat) {desk : Desk} {command : Command}
    (ha : broadcasting → allowed desk.config.channelCapacity.toNat)
    (hc : command.Within allowed broadcasting) :
    Keeps allowed broadcasting config (perform react on desk command) := by
  cases command with
  | declare url declaration => exact keeps_get fun session => keeps_settle hreact on _ session
  | begin url name =>
      refine keeps_get fun session h => ?_
      refine Keeps.bind (keeps_store on _) (fun _ => ?_) session h
      exact keeps_modify_pure fun _ h => h.same rfl rfl
  | finish name declaration =>
      refine keeps_get fun session h => ?_
      cases session.tickets.get? name with
      | none => exact h
      | some ticket => exact keeps_settle hreact on _ session h
  | fileEvent url kind =>
      simp only [perform]
      cases FileEvent.Kind.ofValue kind with
      | error problem => exact keeps_pure _
      | ok kind => exact keeps_get fun session => keeps_settle hreact on _ session
  | remove url =>
      refine keeps_get fun session h => ?_
      refine Keeps.bind (keeps_record _) (fun result => ?_) session h
      exact Keeps.bind (keeps_store on result.2) fun _ => keeps_pure _
  | verdict url => exact keeps_get fun session => (keeps_record _).map verdictReply session
  | relative url => exact keeps_pure _
  | config => exact keeps_pure _
  | declareQuietly url declaration | removeQuietly url =>
      refine keeps_get fun session h => ?_
      refine Keeps.bind (keeps_record _) (fun change => ?_) session h
      exact keeps_modify_pure fun _ h => h.same rfl rfl
  | addReloader other => exact keeps_addReloader hc
  | subscribe name =>
      refine Keeps.bind (keeps_addSubscriber on _) fun key => ?_
      exact keeps_modify_pure fun _ h => h.same rfl rfl
  | subscribeReacting name target reaction =>
      refine Keeps.bind (keeps_addSubscriber on _) fun key => ?_
      refine Keeps.bind (keeps_modify fun _ h => h.same rfl rfl) fun _ => ?_
      refine Keeps.bind (keeps_modify fun session h => ⟨h.first, h.configs, ?_⟩) fun _ =>
        keeps_pure _
      intro pending hm
      rcases List.mem_append.mp hm with hm | hm
      · exact h.reactions pending hm
      · rw [List.mem_singleton.mp hm]
        exact hc
  | unsubscribe name =>
      refine keeps_get fun session h => ?_
      cases session.subscribers.get? name with
      | none => exact h
      | some key => exact (keeps_removeSubscriber on key).map _ session h
  | broadcast name =>
      refine Keeps.bind (keeps_openChannel (ha hc)) fun id => ?_
      refine Keeps.bind (keeps_addSubscriber on _) fun _ => ?_
      exact keeps_modify_pure fun _ h => h.same rfl rfl
  | attach name capacity =>
      refine Keeps.bind (keeps_openChannel hc) fun id => ?_
      refine Keeps.bind (keeps_addSubscriber on _) fun key => ?_
      refine Keeps.bind (keeps_modify fun _ h => h.same rfl rfl) fun _ => ?_
      exact keeps_modify_pure fun _ h => h.same rfl rfl
  | dropChannel name => exact keeps_get fun session h => h.same rfl rfl
  | send name message =>
      refine keeps_get fun session h => ?_
      cases session.handles.get? name with
      | none => exact h
      | some id => exact Keeps.bind (keeps_sendTo id message) (fun _ => keeps_pure _) session h
  | listen channel receiver =>
      refine keeps_get fun session h => ?_
      cases session.handles.get? channel with
      | none => exact h
      | some id => exact keeps_listen id receiver session h
  | receiverCount name =>
      refine keeps_get fun session h => ?_
      cases (session.handles.get? name).bind (session.channels[·]?) with
      | none => exact h
      | some channel => exact h
  | dropReceiver name => exact (keeps_dropListener name).map _
  | receive name => exact keeps_receive name

end Commands

theorem keeps_runAt {react : Nat → Command → Run Reply} (hreact : ∀ on command,
    Command.Within allowed broadcasting command →
      Keeps allowed broadcasting config (react on command)) (on : Nat) {command : Command}
    (hc : command.Within allowed broadcasting) :
    Keeps allowed broadcasting config (run.runAt react on command) := by
  refine keeps_get fun session h => ?_
  cases hd : session.desks[on]? with
  | none => exact h
  | some desk =>
      refine keeps_perform hreact on (fun hb => h.configs hb desk.config ?_) hc session h
      exact List.mem_map_of_mem (List.mem_of_getElem? hd)

theorem keeps_run (depth on : Nat) {command : Command} (hc : command.Within allowed broadcasting) :
    Keeps allowed broadcasting config (run depth on command) := by
  induction depth generalizing on command with
  | zero => exact keeps_runAt (fun _ _ _ => keeps_pure _) on hc
  | succ depth ih => exact keeps_runAt (fun on _ hc => ih on hc) on hc

theorem meets_step (h : session.Within allowed broadcasting config) (on : Nat) {command : Command}
    (hc : command.Within allowed broadcasting) :
    Meets allowed (fun _ later => later.Within allowed broadcasting config)
      (session.step on command) :=
  Meets.bind (keeps_run _ on hc _ (h.same rfl rfl)) fun _ _ hl => hl

theorem meets_replay (h : session.Within allowed broadcasting config) (requests : List Request)
    (hr : ∀ request ∈ requests, request.command.Within allowed broadcasting) :
    Meets allowed (fun _ later => later.Within allowed broadcasting config)
      (session.replay requests) := by
  induction requests generalizing session with
  | nil => exact h
  | cons request requests ih =>
      obtain ⟨hfirst, hrest⟩ := List.forall_mem_cons.mp hr
      refine Meets.bind (meets_step h request.on hfirst) fun answer middle hm => ?_
      exact Meets.bind (ih hm hrest) fun _ _ hl => hl

section Started

-- Whatever is asked for is within these bounds.
theorem Command.within_any (command : Command) : command.Within (fun _ => True) True := by
  induction command with
  | subscribeReacting name on reaction ih => exact ih
  | addReloader other => exact fun _ => trivial
  | _ => exact trivial

theorem within_start (h : start config = .ok session)
    (ha : broadcasting → allowed config.channelCapacity.toNat) :
    session.Within allowed broadcasting config := by
  unfold start at h
  split at h
  · cases h
  · cases h
    refine ⟨rfl, fun hb other hm => ?_, fun _ hm => absurd hm List.not_mem_nil⟩
    obtain rfl : other = config := List.mem_singleton.mp hm
    exact ha hb

theorem pos_capacity_of_start (h : start config = .ok session) :
    0 < config.channelCapacity.toNat := by
  unfold start Config.validate at h
  split_ifs at h with hroot hcap
  exact Nat.pos_of_ne_zero fun hz => hcap (UInt64.toNat_inj.mp hz)

theorem step_broadcast_of_lt {on : Nat} {desk : Desk} (hd : session.desks[on]? = some desk)
    (h : 2 ^ 57 < desk.config.channelCapacity.toNat) (name : String) :
    session.step on (.broadcast name) = .error .tooLarge := by
  have hcreate := Channel.create_of_lt (μ := Message) h
  obtain ⟨react, -, hstep⟩ := exists_step_eq_perform hd (.broadcast name)
  rw [hstep]
  simp only [perform, openChannel, StateT.run_bind, hcreate]
  rfl

-- A channel of the configured capacity is the only thing that can go wrong with a valid
-- configuration, and it does go wrong when its slots would not fit into a buffer.
theorem replay_of_start (h : start config = .ok session) :
    (∀ broadcasting : Prop, (broadcasting → config.channelCapacity.toNat ≤ 2 ^ 57) →
      ∀ requests : List Request,
        (∀ request ∈ requests, request.command.Within Channel.Possible broadcasting) →
          ∃ exchanges later, session.replay requests = .ok (exchanges, later)) ∧
    (2 ^ 57 < config.channelCapacity.toNat →
      ∀ requests exchanges later, session.replay requests = .ok (exchanges, later) →
        ∀ name, later.step 0 (.broadcast name) = .error .tooLarge) := by
  constructor
  · intro broadcasting hb requests hr
    have hw : session.Within Channel.Possible broadcasting config :=
      within_start h fun hyes => ⟨pos_capacity_of_start h, hb hyes⟩
    have hm := meets_replay hw requests hr
    cases hreplay : session.replay requests with
    | error fault =>
        rw [hreplay] at hm
        obtain ⟨capacity, hp, hn⟩ := hm
        exact absurd hp hn
    | ok result => exact ⟨result.1, result.2, rfl⟩
  · intro hlt requests exchanges later hreplay name
    have hm := meets_replay (within_start h fun _ => trivial) requests
      fun request _ => request.command.within_any
    rw [hreplay] at hm
    have hfirst : later.configs.head? = some config := hm.first
    rw [configs, List.head?_map, Option.map_eq_some_iff] at hfirst
    obtain ⟨desk, hd, rfl⟩ := hfirst
    exact step_broadcast_of_lt (List.head?_eq_getElem? ▸ hd) hlt name

theorem replay_of_start_at_extremes :
    (∃ session, start {} = .ok session ∧
      ∃ exchanges later,
        session.replay [⟨0, .broadcast "a"⟩, ⟨0, .broadcast "b"⟩] = .ok (exchanges, later)) ∧
    ∃ session, start { channelCapacity := 0x8000000000000000 } = .ok session ∧
      ∃ exchanges later, session.replay [⟨0, .declare "a.js" {}⟩] = .ok (exchanges, later) ∧
        later.step 0 (.broadcast "b") = .error .tooLarge := by
  constructor
  · have hstart : start {} = .ok { desks := [newDesk {}] } := rfl
    refine ⟨_, hstart, (replay_of_start hstart).1 True (fun _ => by decide) _ ?_⟩
    intro request hr
    rcases List.mem_cons.mp hr with rfl | hr
    · exact trivial
    · rw [List.mem_singleton.mp hr]
      exact trivial
  · have hstart : start { channelCapacity := 0x8000000000000000 } =
        .ok { desks := [newDesk { channelCapacity := 0x8000000000000000 }] } := rfl
    obtain ⟨exchanges, later, hreplay⟩ := (replay_of_start hstart).1 False False.elim
      [⟨0, .declare "a.js" {}⟩] (fun request hr => by rw [List.mem_singleton.mp hr]; exact trivial)
    exact ⟨_, hstart, exchanges, later, hreplay,
      (replay_of_start hstart).2 (by decide) _ exchanges later hreplay "b"⟩

-- A capacity that passes the check, though no channel can be made with it.
theorem broadcast_fails_though_valid :
    ({ channelCapacity := 0x8000000000000000 } : Config).validate = .ok () ∧
      ∃ session, start { channelCapacity := 0x8000000000000000 } = .ok session ∧
        session.step 0 (.broadcast "b") = .error .tooLarge :=
  ⟨rfl, _, rfl, step_broadcast_of_lt rfl (by decide) "b"⟩

end Started

end LiveReload.Session
