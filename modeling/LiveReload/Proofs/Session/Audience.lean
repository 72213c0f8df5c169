import LiveReload.Proofs.Channel
import LiveReload.Proofs.Session
import LiveReload.Proofs.Table

namespace LiveReload

namespace Channel

variable {μ : Type} {channel other : Channel μ} {history unread : List μ} {receiver : Receiver}

-- The channel but for how many receive from it.
def vacant (channel : Channel μ) : Channel μ := { channel with receivers := 0 }

theorem Holds.congr (h : channel.Holds history) (hv : other.vacant = channel.vacant) :
    other.Holds history := by
  obtain ⟨hsize, hkept, hsent, -⟩ := Channel.mk.inj hv
  exact ⟨hsent.trans h.sent, by rw [hkept, hsize, h.kept]⟩

theorem Awaits.congr (h : channel.Awaits receiver unread) (hv : other.vacant = channel.vacant) :
    other.Awaits receiver unread := by
  obtain ⟨history, hh, hn, hu⟩ := h
  exact ⟨history, hh.congr hv, hn, hu⟩

end Channel

namespace Session

-- How many listen to the channel.
def audience (listeners : Table Listener) (id : Nat) : Nat :=
  listeners.values.countP (·.channel = id)

-- Whether this listener, if there is one, is among them.
def attendance (listener : Option Listener) (id : Nat) : Nat :=
  match listener with
  | none => 0
  | some listener => if listener.channel = id then 1 else 0

-- The channels without this listener, if there is one.
def vacate (listener : Option Listener) (channels : List (Channel Message)) :
    List (Channel Message) :=
  match listener with
  | none => channels
  | some listener => channels.modify listener.channel Channel.unsubscribe

section Audience

variable (listeners : Table Listener) (name : String) (id : Nat)

theorem audience_insert (listener : Listener) :
    audience (listeners.insert name listener) id =
      audience (listeners.erase name) id + attendance (some listener) id := by
  have hperm := listeners.values_insert_perm name listener
  unfold audience attendance
  rw [hperm.countP_eq, List.countP_cons]
  simp

theorem audience_erase :
    audience listeners id = audience (listeners.erase name) id +
      attendance (listeners.get? name) id := by
  cases hg : listeners.get? name with
  | none => rw [Table.erase_of_get?_eq_none hg, attendance, Nat.add_zero]
  | some listener =>
      have hperm := Table.values_perm_of_get? hg
      unfold audience attendance
      rw [hperm.countP_eq, List.countP_cons]
      simp

theorem attendance_le_audience :
    attendance (listeners.get? name) id ≤ audience listeners id := by
  rw [audience_erase listeners name id]
  exact Nat.le_add_left _ _

end Audience

section Vacate

variable (listener : Option Listener) (channels : List (Channel Message))

theorem getElem?_vacate (id : Nat) :
    (vacate listener channels)[id]? = channels[id]?.map fun channel =>
      { channel with receivers := channel.receivers - attendance listener id } := by
  cases listener with
  | none => simp [vacate, attendance]
  | some listener =>
      rw [vacate, List.getElem?_modify]
      by_cases hi : listener.channel = id
      · simp [hi, attendance, Channel.unsubscribe]
      · simp [hi, attendance]

theorem map_vacant_vacate :
    (vacate listener channels).map Channel.vacant = channels.map Channel.vacant := by
  apply List.ext_getElem?
  intro id
  rw [List.getElem?_map, getElem?_vacate, List.getElem?_map, Option.map_map]
  rfl

end Vacate

variable {session later : Session} {size id : Nat} {name other : String} {unread : List Message}

structure Attended (size : Nat) (session : Session) : Prop where
  sized : ∀ channel ∈ session.channels, channel.size = size
  held : ∀ channel ∈ session.channels, ∃ history, channel.Holds history
  counted : ∀ id channel, session.channels[id]? = some channel →
    channel.receivers = audience session.listeners id
  placed : ∀ name listener, session.listeners.get? name = some listener →
    listener.channel < session.channels.length

-- The receiver `name` is one of the channel `id` and has yet to read `unread` there.
def Hears (session : Session) (name : String) (id : Nat) (unread : List Message) : Prop :=
  ∃ channel receiver, session.channels[id]? = some channel ∧
    session.listeners.get? name = some ⟨id, receiver⟩ ∧ channel.Awaits receiver unread

theorem Attended.congr (h : session.Attended size) (hc : later.channels = session.channels)
    (hl : later.listeners = session.listeners) : later.Attended size where
  sized := hc ▸ h.sized
  held := hc ▸ h.held
  counted := hc ▸ hl ▸ h.counted
  placed := hc ▸ hl ▸ h.placed

theorem Hears.congr (h : session.Hears name id unread) (hc : later.channels = session.channels)
    (hl : later.listeners = session.listeners) : later.Hears name id unread := by
  unfold Hears
  rw [hc, hl]
  exact h

section Sending

variable {message : Message}

theorem Attended.publish (h : session.Attended size)
    (hc : later.channels = session.channels.map (Channel.deliver message))
    (hl : later.listeners = session.listeners) : later.Attended size where
  sized := by
    rw [hc, List.forall_mem_map]
    intro channel hm
    rw [Channel.size_deliver, h.sized channel hm]
  held := by
    rw [hc, List.forall_mem_map]
    intro channel hm
    obtain ⟨history, hh⟩ := h.held channel hm
    by_cases hr : channel.receivers = 0
    · exact ⟨history, by rwa [Channel.deliver_of_receivers_eq_zero hr]⟩
    · exact ⟨history ++ [message], hh.deliver hr message⟩
  counted := by
    intro id channel hi
    rw [hc, List.getElem?_map, Option.map_eq_some_iff] at hi
    obtain ⟨before, hb, rfl⟩ := hi
    rw [hl, Channel.receivers_deliver, h.counted id before hb]
  placed := by
    rw [hc, hl, List.length_map]
    exact h.placed

theorem Hears.receivers_ne_zero (h : session.Hears name id unread) (ha : session.Attended size)
    {channel : Channel Message} (hc : session.channels[id]? = some channel) :
    channel.receivers ≠ 0 := by
  obtain ⟨-, receiver, -, hl, -⟩ := h
  have hle := attendance_le_audience session.listeners name id
  rw [hl, attendance, if_pos rfl, ← ha.counted id channel hc] at hle
  omega

theorem Hears.publish (h : session.Hears name id unread) (ha : session.Attended size)
    (hc : later.channels = session.channels.map (Channel.deliver message))
    (hl : later.listeners = session.listeners) : later.Hears name id (unread ++ [message]) := by
  obtain ⟨channel, receiver, hi, hg, hw⟩ := h
  have hr : channel.receivers ≠ 0 := receivers_ne_zero ⟨channel, receiver, hi, hg, hw⟩ ha hi
  refine ⟨channel.deliver message, receiver, ?_, hl ▸ hg, hw.deliver hr message⟩
  rw [hc, List.getElem?_map, hi, Option.map_some]

theorem Attended.open (h : session.Attended size)
    (hc : later.channels = session.channels ++ [⟨size, [], 0, 0⟩])
    (hl : later.listeners = session.listeners) : later.Attended size where
  sized := by
    rw [hc]
    intro channel hm
    rcases List.mem_append.mp hm with hm | hm
    · exact h.sized channel hm
    · rw [List.mem_singleton.mp hm]
  held := by
    rw [hc]
    intro channel hm
    rcases List.mem_append.mp hm with hm | hm
    · exact h.held channel hm
    · rw [List.mem_singleton.mp hm]
      exact ⟨[], rfl, List.drop_nil.symm⟩
  counted := by
    rw [hc, hl]
    intro id channel hi
    rcases Nat.lt_or_ge id session.channels.length with hlt | hge
    · rw [List.getElem?_append_left hlt] at hi
      exact h.counted id channel hi
    · -- Nobody listens to a channel that has only just been made.
      have hnobody : audience session.listeners id = 0 := by
        refine List.countP_eq_zero.mpr fun listener hm => ?_
        obtain ⟨⟨name, _⟩, he, rfl⟩ := List.mem_map.mp hm
        have := h.placed name _ (Table.mem_entries_iff.mp he)
        simp only [decide_eq_true_eq]
        omega
      rw [List.getElem?_append_right hge] at hi
      obtain rfl := List.mem_singleton.mp (List.mem_of_getElem? hi)
      exact hnobody.symm
  placed := by
    rw [hc, hl, List.length_append]
    intro name listener hg
    exact Nat.lt_succ_of_lt (h.placed name listener hg)

theorem Hears.open {channel : Channel Message} (h : session.Hears name id unread)
    (hc : later.channels = session.channels ++ [channel])
    (hl : later.listeners = session.listeners) : later.Hears name id unread := by
  obtain ⟨own, receiver, hi, hg, hw⟩ := h
  refine ⟨own, receiver, ?_, hl ▸ hg, hw⟩
  have hlt := (List.getElem?_eq_some_iff.mp hi).1
  rw [hc, List.getElem?_append_left hlt, hi]

end Sending

section Seating

-- Where receivers come and go, channels keep all but their counts.
theorem exists_getElem?_of_vacant
    (hv : later.channels.map Channel.vacant = session.channels.map Channel.vacant)
    {channel : Channel Message} (hi : session.channels[id]? = some channel) :
    ∃ other, later.channels[id]? = some other ∧ other.vacant = channel.vacant := by
  have hmap := congrArg (·[id]?) hv
  simp only [List.getElem?_map, hi, Option.map_some, Option.map_eq_some_iff] at hmap
  exact hmap

theorem length_of_vacant
    (hv : later.channels.map Channel.vacant = session.channels.map Channel.vacant) :
    later.channels.length = session.channels.length := by
  simpa using congrArg List.length hv

theorem Attended.reseat (h : session.Attended size)
    (hv : later.channels.map Channel.vacant = session.channels.map Channel.vacant)
    (hcount : ∀ id channel, later.channels[id]? = some channel →
      channel.receivers = audience later.listeners id)
    (hplace : ∀ name listener, later.listeners.get? name = some listener →
      listener.channel < session.channels.length) : later.Attended size := by
  have hlength := length_of_vacant hv
  have hback : ∀ channel ∈ later.channels, ∃ before ∈ session.channels,
      channel.vacant = before.vacant := by
    intro channel hm
    obtain ⟨id, hi⟩ := List.mem_iff_getElem?.mp hm
    obtain ⟨before, hb, hvacant⟩ := exists_getElem?_of_vacant hv.symm hi
    exact ⟨before, List.mem_of_getElem? hb, hvacant.symm⟩
  refine ⟨fun channel hm => ?_, fun channel hm => ?_, hcount, by rwa [hlength]⟩
  · obtain ⟨before, hb, hvacant⟩ := hback channel hm
    exact (Channel.mk.inj hvacant).1.trans (h.sized before hb)
  · obtain ⟨before, hb, hvacant⟩ := hback channel hm
    obtain ⟨history, hh⟩ := h.held before hb
    exact ⟨history, hh.congr hvacant⟩

theorem Hears.reseat (h : session.Hears name id unread)
    (hv : later.channels.map Channel.vacant = session.channels.map Channel.vacant)
    (hl : later.listeners.get? name = session.listeners.get? name) :
    later.Hears name id unread := by
  obtain ⟨channel, receiver, hi, hg, hw⟩ := h
  obtain ⟨other, ho, hvacant⟩ := exists_getElem?_of_vacant hv hi
  exact ⟨other, receiver, ho, hl.trans hg, hw.congr hvacant⟩

end Seating

section Dropping

-- The session without the receiver `name`.
def leave (session : Session) (name : String) : Session :=
  { session with
    listeners := session.listeners.erase name
    channels := vacate (session.listeners.get? name) session.channels }

theorem run_dropListener (session : Session) (name : String) :
    (dropListener name).run session =
      .ok ((session.listeners.get? name).isSome, session.leave name) := by
  unfold leave
  cases hg : session.listeners.get? name with
  | none =>
      rw [Table.erase_of_get?_eq_none hg]
      simp only [dropListener, StateT.run_bind, StateT.run_get, pure_bind, hg]
      rfl
  | some listener =>
      simp only [dropListener, StateT.run_bind, StateT.run_get, pure_bind, hg]
      rfl

theorem get?_listeners_leave (session : Session) (name other : String) :
    (session.leave name).listeners.get? other =
      if other = name then none else session.listeners.get? other :=
  Table.get?_erase _ _ _

theorem length_leave (session : Session) (name : String) :
    (session.leave name).channels.length = session.channels.length :=
  length_of_vacant (map_vacant_vacate _ _)

theorem Attended.leave (h : session.Attended size) (name : String) :
    (session.leave name).Attended size := by
  refine h.reseat (map_vacant_vacate _ _) (fun id channel hi => ?_) fun other listener hg => ?_
  · unfold Session.leave at hi
    rw [getElem?_vacate, Option.map_eq_some_iff] at hi
    obtain ⟨before, hb, rfl⟩ := hi
    have hcount := h.counted id before hb
    have herase := audience_erase session.listeners name id
    show before.receivers - _ = audience (session.listeners.erase name) id
    omega
  · rw [get?_listeners_leave] at hg
    split at hg
    · cases hg
    · exact h.placed other listener hg

theorem Hears.leave (h : session.Hears name id unread) (hn : name ≠ other) :
    (session.leave other).Hears name id unread :=
  h.reseat (map_vacant_vacate _ _) (by rw [get?_listeners_leave, if_neg hn])

end Dropping

section Listening

variable {channel : Channel Message}

-- The session with a new receiver `name` of the channel `id`, in place of another of that name.
def seat (session : Session) (id : Nat) (channel : Channel Message) (name : String) : Session :=
  { session with
    listeners := (session.listeners.erase name).insert name ⟨id, channel.subscribe.1⟩
    channels := vacate (session.listeners.get? name) (session.channels.set id channel.subscribe.2) }

theorem run_listen (hc : session.channels[id]? = some channel) (name : String) :
    ∃ count, (listen id name).run session = .ok (.count count, session.seat id channel name) := by
  let joined : Session := { session with channels := session.channels.set id channel.subscribe.2 }
  have hrun : (listen id name).run session = (do
      let _ ← dropListener name
      modify fun session =>
        { session with listeners := session.listeners.insert name ⟨id, channel.subscribe.1⟩ }
      let session ← get
      pure (.count ((session.channels[id]?.map Channel.receivers).getD 0)) : Run Reply).run
        joined := by
    simp only [listen, StateT.run_bind, StateT.run_get, pure_bind, hc]
    rfl
  refine ⟨((session.seat id channel name).channels[id]?.map Channel.receivers).getD 0, ?_⟩
  rw [hrun, StateT.run_bind, run_dropListener]
  rfl

theorem get?_listeners_seat (other : String) :
    (session.seat id channel name).listeners.get? other =
      if other = name then some ⟨id, channel.subscribe.1⟩ else session.listeners.get? other := by
  unfold seat
  rw [Table.get?_insert]
  split
  · rfl
  · rename_i hn
    rw [Table.get?_erase, if_neg hn]

theorem map_vacant_seat (hc : session.channels[id]? = some channel) :
    (session.seat id channel name).channels.map Channel.vacant =
      session.channels.map Channel.vacant := by
  refine (map_vacant_vacate _ _).trans ?_
  apply List.ext_getElem?
  intro other
  rw [List.getElem?_map, List.getElem?_map, List.getElem?_set]
  by_cases ho : id = other
  · subst other
    have hlt := (List.getElem?_eq_some_iff.mp hc).1
    rw [if_pos rfl, if_pos hlt, hc]
    rfl
  · rw [if_neg ho]

theorem length_seat (hc : session.channels[id]? = some channel) :
    (session.seat id channel name).channels.length = session.channels.length :=
  length_of_vacant (map_vacant_seat hc)

theorem Attended.seat (h : session.Attended size) (hc : session.channels[id]? = some channel)
    (name : String) : (session.seat id channel name).Attended size := by
  refine h.reseat (map_vacant_seat hc) (fun other after hi => ?_) fun other listener hg => ?_
  · -- The newcomer is counted before the one whose place it takes is gone.
    have herase := audience_erase session.listeners name other
    have hinsert := audience_insert (session.listeners.erase name) name other
      ⟨id, channel.subscribe.1⟩
    have hfresh : (session.listeners.erase name).get? name = none := by
      rw [Table.get?_erase, if_pos rfl]
    rw [Table.erase_of_get?_eq_none hfresh] at hinsert
    unfold Session.seat at hi
    rw [getElem?_vacate, Option.map_eq_some_iff] at hi
    obtain ⟨between, hb, rfl⟩ := hi
    show between.receivers - _ = audience ((session.listeners.erase name).insert name _) other
    rw [List.getElem?_set] at hb
    by_cases ho : id = other
    · subst other
      rw [if_pos rfl, if_pos (List.getElem?_eq_some_iff.mp hc).1, Option.some.injEq] at hb
      subst between
      have hcount := h.counted id channel hc
      simp only [attendance, if_true] at hinsert
      show channel.receivers + 1 - _ = _
      omega
    · rw [if_neg ho] at hb
      have hcount := h.counted other between hb
      simp only [attendance, if_neg ho] at hinsert
      omega
  · rw [get?_listeners_seat] at hg
    split at hg
    · cases hg
      exact (List.getElem?_eq_some_iff.mp hc).1
    · exact h.placed other listener hg

theorem Hears.seat (h : session.Hears name id unread) (hn : name ≠ other) {joined : Nat}
    (hc : session.channels[joined]? = some channel) :
    (session.seat joined channel other).Hears name id unread :=
  h.reseat (map_vacant_seat hc) (by rw [get?_listeners_seat, if_neg hn])

theorem hears_seat (h : session.Attended size) (hc : session.channels[id]? = some channel) :
    (session.seat id channel name).Hears name id [] := by
  obtain ⟨history, hh⟩ := h.held channel (List.mem_of_getElem? hc)
  obtain ⟨other, ho, hvacant⟩ := exists_getElem?_of_vacant (map_vacant_seat hc) hc
  refine ⟨other, channel.subscribe.1, ho, ?_, hh.awaits_subscribe.congr hvacant⟩
  rw [get?_listeners_seat, if_pos rfl]

end Listening

section Receiving

variable {channel : Channel Message} {receiver : Receiver}

-- The session with the receiver `name`, which is one of the channel `id`, at another position.
def advance (session : Session) (name : String) (id : Nat) (receiver : Receiver) : Session :=
  { session with listeners := session.listeners.insert name ⟨id, receiver⟩ }

theorem run_receive (hg : session.listeners.get? name = some ⟨id, receiver⟩)
    (hc : session.channels[id]? = some channel) (ho : session.isOpen id = true) :
    (receive name).run session = .ok (.reception (channel.receive true receiver).1,
      session.advance name id (channel.receive true receiver).2) := by
  simp only [receive, StateT.run_bind, StateT.run_get, pure_bind, hg, hc, ho]
  rfl

theorem Attended.advance (h : session.Attended size)
    (hg : session.listeners.get? name = some ⟨id, receiver⟩) (next : Receiver) :
    (session.advance name id next).Attended size := by
  refine h.reseat rfl (fun other channel hi => ?_) fun other listener ho => ?_
  · have herase := audience_erase session.listeners name other
    have hinsert := audience_insert session.listeners name other ⟨id, next⟩
    rw [hg] at herase
    rw [h.counted other channel hi, herase]
    exact hinsert.symm
  · unfold Session.advance at ho
    rw [Table.get?_insert] at ho
    split at ho
    · cases ho
      exact h.placed name ⟨id, receiver⟩ hg
    · exact h.placed other listener ho

theorem Hears.advance (h : session.Hears name id unread) (hn : name ≠ other) {joined : Nat}
    (next : Receiver) : (session.advance other joined next).Hears name id unread :=
  h.reseat rfl (by rw [Session.advance, Table.get?_insert, if_neg hn])

-- A receiver finds what is next in the queue of what it has yet to read.
theorem Hears.receive (h : session.Hears name id unread) (ha : session.Attended size)
    (ho : session.isOpen id = true) :
    ∃ receiver next, session.listeners.get? name = some ⟨id, receiver⟩ ∧
      (Session.receive name).run session =
        .ok (.reception (Channel.read size unread).1, session.advance name id next) ∧
      (session.advance name id next).Hears name id (Channel.read size unread).2 := by
  obtain ⟨channel, receiver, hi, hg, hw⟩ := h
  obtain ⟨hfound, hrest⟩ := hw.receive
  rw [ha.sized channel (List.mem_of_getElem? hi)] at hfound hrest
  refine ⟨receiver, (channel.receive true receiver).2, hg, ?_, channel, _, hi, ?_, hrest⟩
  · rw [run_receive hg hi ho, hfound]
  · rw [Session.advance, Table.get?_insert, if_pos rfl]

end Receiving

end Session

end LiveReload
