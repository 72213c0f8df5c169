import LiveReload.Channel
import Mathlib.Algebra.GroupWithZero.Nat

namespace LiveReload.Channel

variable {μ : Type} {capacity : Nat}

section Capacity

theorem le_slots (capacity : Nat) : capacity ≤ slots capacity := by
  unfold slots
  split
  · assumption
  · have := Nat.lt_log2_self (n := capacity - 1)
    rw [Nat.one_shiftLeft]
    omega

theorem slots_le_two_pow {exponent : Nat} (h : capacity ≤ 2 ^ exponent) :
    slots capacity ≤ 2 ^ exponent := by
  unfold slots
  split
  · exact Nat.one_le_two_pow
  · rw [Nat.one_shiftLeft]
    refine Nat.pow_le_pow_right Nat.two_pos ?_
    exact (Nat.log2_lt (by omega)).mpr (by omega)

-- The capacities whose slots fit into a buffer.
def Possible (capacity : Nat) : Prop := 0 < capacity ∧ capacity ≤ 2 ^ 57

theorem create_of_possible (h : Possible capacity) :
    create (μ := μ) capacity = .ok ⟨slots capacity, [], 0, 0⟩ := by
  have hslots := slots_le_two_pow h.2
  have hpos : capacity ≠ 0 := Nat.ne_of_gt h.1
  have hle := h.2
  have hfits : ¬(maxCapacity < capacity ∨ maxCapacity < slots capacity * slotSize) := by
    unfold maxCapacity slotSize
    omega
  rw [create, if_neg hpos]
  exact if_neg hfits

theorem create_of_lt (h : 2 ^ 57 < capacity) :
    create (μ := μ) capacity = .error .tooLarge := by
  -- The next power of two already takes a byte more than a buffer may have.
  have hslots : 2 ^ 58 ≤ slots capacity := by
    rw [slots, if_neg (by omega), Nat.one_shiftLeft]
    refine Nat.pow_le_pow_right Nat.two_pos (Nat.succ_le_succ ?_)
    exact (Nat.le_log2 (by omega)).mpr (by omega)
  have hlarge : maxCapacity < capacity ∨ maxCapacity < slots capacity * slotSize := by
    unfold maxCapacity slotSize
    omega
  rw [create, if_neg (by omega)]
  exact if_pos hlarge

theorem create_eq_ok_iff {channel : Channel μ} :
    create capacity = .ok channel ↔
      Possible capacity ∧ channel = ⟨slots capacity, [], 0, 0⟩ := by
  constructor
  · intro h
    have hp : Possible capacity := by
      rcases Nat.eq_zero_or_pos capacity with rfl | hpos
      · cases h
      · refine ⟨hpos, Nat.le_of_not_lt fun hlt => ?_⟩
        rw [create_of_lt hlt] at h
        cases h
    rw [create_of_possible hp] at h
    cases h
    exact ⟨hp, rfl⟩
  · rintro ⟨hp, rfl⟩
    exact create_of_possible hp

end Capacity

section History

variable {channel : Channel μ} {history unread : List μ} {receiver : Receiver}

-- The channel after the messages of `history` took a position each.
structure Holds (channel : Channel μ) (history : List μ) : Prop where
  sent : channel.sent = history.length
  kept : channel.kept = history.drop (history.length - channel.size)

theorem Holds.length_kept (h : channel.Holds history) :
    channel.kept.length = min channel.size history.length := by
  rw [h.kept, List.length_drop]
  omega

theorem Holds.oldest (h : channel.Holds history) :
    channel.oldest = history.length - channel.size := by
  have := h.length_kept
  have := h.sent
  unfold Channel.oldest
  omega

-- Sends a message, or drops it where nobody would receive it.
def deliver (message : μ) (channel : Channel μ) : Channel μ := (channel.send message).getD channel

theorem deliver_of_receivers_eq_zero (h : channel.receivers = 0) (message : μ) :
    channel.deliver message = channel := by
  simp [deliver, send, h]

@[simp] theorem size_deliver (message : μ) (channel : Channel μ) :
    (channel.deliver message).size = channel.size := by
  by_cases h : channel.receivers = 0
  · rw [deliver_of_receivers_eq_zero h]
  · simp [deliver, send, h]

@[simp] theorem receivers_deliver (message : μ) (channel : Channel μ) :
    (channel.deliver message).receivers = channel.receivers := by
  by_cases h : channel.receivers = 0
  · rw [deliver_of_receivers_eq_zero h]
  · simp [deliver, send, h]

theorem Holds.deliver (h : channel.Holds history) (hr : channel.receivers ≠ 0) (message : μ) :
    (channel.deliver message).Holds (history ++ [message]) := by
  have hsent := h.sent
  have hlength := h.length_kept
  constructor
  · simp [Channel.deliver, send, hr, hsent]
  · simp only [Channel.deliver, send, hr, if_false, Option.getD_some]
    -- Both sides are what is left of the history with the message at its end.
    rw [h.kept, ← List.drop_append_of_le_length (by omega), List.drop_drop]
    simp only [List.length_drop, List.length_append, List.length_singleton]
    congr 1
    omega

-- The receiver has yet to read `unread` of what was sent.
def Awaits (channel : Channel μ) (receiver : Receiver) (unread : List μ) : Prop :=
  ∃ history, channel.Holds history ∧ receiver.next ≤ history.length ∧
    history.drop receiver.next = unread

theorem Holds.awaits_subscribe (h : channel.Holds history) :
    channel.subscribe.2.Awaits channel.subscribe.1 [] :=
  ⟨history, ⟨h.sent, h.kept⟩, Nat.le_of_eq h.sent, by rw [subscribe, h.sent, List.drop_length]⟩

theorem Awaits.deliver (h : channel.Awaits receiver unread) (hr : channel.receivers ≠ 0)
    (message : μ) : (channel.deliver message).Awaits receiver (unread ++ [message]) := by
  obtain ⟨history, hh, hn, rfl⟩ := h
  refine ⟨history ++ [message], hh.deliver hr message, ?_, List.drop_append_of_le_length hn⟩
  rw [List.length_append]
  omega

-- What a receiver finds that has yet to read `unread`, and what it still has to read then.
def read (size : Nat) (unread : List μ) : Reception μ × List μ :=
  if size < unread.length then
    (.lagged (unread.length - size), unread.drop (unread.length - size))
  else
    match unread with
    | [] => (.empty, [])
    | message :: rest => (.message message, rest)

-- Too much unread costs the oldest of it; otherwise the oldest is found, if there is any.
theorem read_cases (size : Nat) (unread : List μ) :
    (∃ skipped kept, unread = skipped ++ kept ∧ kept.length = size ∧ skipped ≠ [] ∧
      read size unread = (.lagged skipped.length, kept)) ∨
    (unread = [] ∧ read size unread = (.empty, [])) ∨
    ∃ message rest, unread = message :: rest ∧ rest.length < size ∧
      read size unread = (.message message, rest) := by
  unfold read
  by_cases hlag : size < unread.length
  · have hskip : (unread.take (unread.length - size)).length = unread.length - size := by
      rw [List.length_take]
      omega
    refine .inl ⟨unread.take (unread.length - size), unread.drop (unread.length - size),
      (List.take_append_drop _ _).symm, ?_, ?_, ?_⟩
    · rw [List.length_drop]
      omega
    · apply List.ne_nil_of_length_pos
      omega
    · rw [if_pos hlag, hskip]
  · rw [if_neg hlag]
    cases unread with
    | nil => exact .inr (.inl ⟨rfl, rfl⟩)
    | cons message rest =>
        exact .inr (.inr ⟨message, rest, rfl, Nat.lt_of_succ_le (Nat.le_of_not_lt hlag), rfl⟩)

theorem read_eq_empty_iff (size : Nat) (unread : List μ) :
    (read size unread).1 = .empty ↔ unread = [] := by
  rcases read_cases size unread with
    ⟨skipped, kept, rfl, -, hn, hr⟩ | ⟨rfl, hr⟩ | ⟨message, rest, rfl, -, hr⟩
  · simp [hr, hn]
  · simp [hr]
  · simp [hr]

theorem length_read_le (size : Nat) (unread : List μ) : (read size unread).2.length ≤ size := by
  rcases read_cases size unread with ⟨skipped, kept, -, hk, -, hr⟩ | ⟨-, hr⟩ | ⟨_, rest, -, hk, hr⟩
  · exact hr ▸ Nat.le_of_eq hk
  · exact hr ▸ Nat.zero_le _
  · exact hr ▸ Nat.le_of_lt hk

theorem Awaits.receive (h : channel.Awaits receiver unread) :
    (channel.receive true receiver).1 = (read channel.size unread).1 ∧
      channel.Awaits (channel.receive true receiver).2 (read channel.size unread).2 := by
  obtain ⟨history, hh, hn, rfl⟩ := h
  have holdest := hh.oldest
  have hlength := List.length_drop (i := receiver.next) (l := history)
  unfold Channel.receive read
  by_cases hlag : channel.size < (history.drop receiver.next).length
  · have hnext : receiver.next < channel.oldest := by omega
    rw [if_pos hlag, if_pos hnext]
    have hlost : channel.oldest - receiver.next =
        (history.drop receiver.next).length - channel.size := by omega
    have hplace : channel.oldest =
        receiver.next + ((history.drop receiver.next).length - channel.size) := by omega
    refine ⟨by rw [hlost], history, hh, ?_, ?_⟩
    · show channel.oldest ≤ history.length
      omega
    · show history.drop channel.oldest = _
      rw [List.drop_drop, ← hplace]
  · have hnext : ¬receiver.next < channel.oldest := by omega
    rw [if_neg hlag, if_neg hnext]
    have hget : channel.kept[receiver.next - channel.oldest]? = history[receiver.next]? := by
      rw [hh.kept, List.getElem?_drop]
      congr 1
      omega
    rw [hget]
    cases hfound : history[receiver.next]? with
    | none =>
        have hend : history.drop receiver.next = [] :=
          List.drop_eq_nil_iff.mpr (List.getElem?_eq_none_iff.mp hfound)
        rw [hend]
        exact ⟨rfl, history, hh, hn, hend⟩
    | some message =>
        obtain ⟨hlt, rfl⟩ := List.getElem?_eq_some_iff.mp hfound
        rw [List.drop_eq_getElem_cons hlt]
        exact ⟨rfl, history, hh, hlt, rfl⟩

-- How many messages the receiver has lost without having been told yet.
def overdue (channel : Channel μ) (receiver : Receiver) : Nat := channel.oldest - receiver.next

-- What the channel still keeps for the receiver.
def buffered (channel : Channel μ) (receiver : Receiver) : List μ :=
  channel.kept.drop (receiver.next - channel.oldest)

theorem Awaits.overdue_eq (h : channel.Awaits receiver unread) :
    channel.overdue receiver = unread.length - channel.size := by
  obtain ⟨history, hh, hn, rfl⟩ := h
  have := hh.oldest
  have := List.length_drop (i := receiver.next) (l := history)
  unfold overdue
  omega

theorem Awaits.eq_append_buffered (h : channel.Awaits receiver unread) :
    ∃ skipped, skipped.length = channel.overdue receiver ∧
      unread = skipped ++ channel.buffered receiver := by
  have hoverdue := h.overdue_eq
  obtain ⟨history, hh, hn, rfl⟩ := h
  have holdest := hh.oldest
  refine ⟨(history.drop receiver.next).take (channel.overdue receiver), ?_, ?_⟩
  · rw [List.length_take]
    omega
  · -- What is left without the skipped messages starts at the oldest that is kept, or later.
    have hplace : receiver.next + channel.overdue receiver =
        history.length - channel.size + (receiver.next - channel.oldest) := by
      unfold overdue
      omega
    have hkept : (history.drop receiver.next).drop (channel.overdue receiver) =
        channel.buffered receiver := by
      rw [buffered, hh.kept, List.drop_drop, List.drop_drop, hplace]
    rw [← hkept, List.take_append_drop]

end History

end LiveReload.Channel
