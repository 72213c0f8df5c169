import LiveReload.Proofs.Channel

namespace LiveReload

variable {μ : Type}

namespace Reception

variable {found : List (Reception μ)}

def message? : Reception μ → Option μ
  | .message content => some content
  | _ => none

def loss : Reception μ → Nat
  | .lagged count => count
  | _ => 0

def received (found : List (Reception μ)) : List μ := found.filterMap message?

def lost (found : List (Reception μ)) : Nat := (found.map loss).sum

@[simp] theorem received_nil : received ([] : List (Reception μ)) = [] := rfl

@[simp] theorem received_message (content : μ) :
    received (.message content :: found) = content :: received found := rfl

@[simp] theorem received_empty : received (.empty :: found) = received found := rfl

@[simp] theorem received_lagged (count : Nat) :
    received (.lagged count :: found) = received found := rfl

@[simp] theorem lost_nil : lost ([] : List (Reception μ)) = 0 := rfl

@[simp] theorem lost_cons (reception : Reception μ) :
    lost (reception :: found) = reception.loss + lost found := List.sum_cons

end Reception

open Reception (received lost)

-- What was found covers what was sent, part by part and in order, up to `rest`.
inductive Tally : List (Reception μ) → List μ → List μ → Prop where
  | done (rest : List μ) : Tally [] rest rest
  | message {found : List (Reception μ)} {sent rest : List μ} (content : μ) :
    Tally found sent rest → Tally (.message content :: found) (content :: sent) rest
  | empty {found : List (Reception μ)} {sent rest : List μ} :
    Tally found sent rest → Tally (.empty :: found) sent rest
  | lagged {found : List (Reception μ)} {sent rest : List μ} (skipped : List μ) :
    Tally found sent rest → Tally (.lagged skipped.length :: found) (skipped ++ sent) rest

namespace Tally

variable {found : List (Reception μ)} {sent rest : List μ}

theorem length_eq (h : Tally found sent rest) :
    (received found).length + lost found + rest.length = sent.length := by
  induction h with
  | done rest => simp
  | message content _ ih =>
      simp only [Reception.received_message, Reception.lost_cons, Reception.loss, List.length_cons]
      omega
  | empty _ ih =>
      simp only [Reception.received_empty, Reception.lost_cons, Reception.loss]
      omega
  | lagged skipped _ ih =>
      simp only [Reception.received_lagged, Reception.lost_cons, Reception.loss, List.length_append]
      omega

theorem sublist (h : Tally found sent rest) : (received found ++ rest).Sublist sent := by
  induction h with
  | done rest => exact List.Sublist.refl rest
  | message content _ ih => exact ih.cons_cons content
  | empty _ ih => exact ih
  | lagged skipped _ ih => exact ih.trans (List.sublist_append_right skipped _)

theorem eq_append_of_lost_eq_zero (h : Tally found sent rest) (hl : lost found = 0) :
    sent = received found ++ rest := by
  have hlength := h.length_eq
  refine (h.sublist.eq_of_length ?_).symm
  rw [List.length_append]
  omega

end Tally

-- What happens around one receiver.
inductive Turn (μ : Type) where
  | sent (message : μ)
  | found (reception : Reception μ)

namespace Turn

variable {turns : List (Turn μ)}

def sent? : Turn μ → Option μ
  | .sent message => some message
  | .found _ => none

def found? : Turn μ → Option (Reception μ)
  | .sent _ => none
  | .found reception => some reception

def allSent (turns : List (Turn μ)) : List μ := turns.filterMap sent?

def allFound (turns : List (Turn μ)) : List (Reception μ) := turns.filterMap found?

@[simp] theorem allSent_nil : allSent ([] : List (Turn μ)) = [] := rfl

@[simp] theorem allSent_sent (message : μ) :
    allSent (.sent message :: turns) = message :: allSent turns := rfl

@[simp] theorem allSent_found (reception : Reception μ) :
    allSent (.found reception :: turns) = allSent turns := rfl

@[simp] theorem allFound_nil : allFound ([] : List (Turn μ)) = [] := rfl

@[simp] theorem allFound_sent (message : μ) :
    allFound (.sent message :: turns) = allFound turns := rfl

@[simp] theorem allFound_found (reception : Reception μ) :
    allFound (.found reception :: turns) = reception :: allFound turns := rfl

theorem allFound_append (turns more : List (Turn μ)) :
    allFound (turns ++ more) = allFound turns ++ allFound more := List.filterMap_append

end Turn

open Turn (allSent allFound)

namespace Channel

-- The turns of a receiver that has yet to read `unread` before them and `rest` after them.
inductive Reads (size : Nat) : List μ → List (Turn μ) → List μ → Prop where
  | done (unread : List μ) : Reads size unread [] unread
  | sent {unread rest : List μ} {turns : List (Turn μ)} (message : μ) :
    Reads size (unread ++ [message]) turns rest → Reads size unread (.sent message :: turns) rest
  | found {unread rest : List μ} {turns : List (Turn μ)} :
    Reads size (Channel.read size unread).2 turns rest →
      Reads size unread (.found (Channel.read size unread).1 :: turns) rest

namespace Reads

variable {size capacity : Nat} {unread middle rest : List μ} {turns more : List (Turn μ)}

theorem append (h : Reads size unread turns middle) (hm : Reads size middle more rest) :
    Reads size unread (turns ++ more) rest := by
  induction h with
  | done unread => exact hm
  | sent message _ ih => exact .sent message (ih hm)
  | found _ ih => exact .found (ih hm)

theorem tally (h : Reads size unread turns rest) :
    Tally (allFound turns) (unread ++ allSent turns) rest := by
  induction h with
  | done unread => simpa using Tally.done unread
  | sent message _ ih => simpa using ih
  | @found unread rest turns _ ih =>
      rw [Turn.allFound_found, Turn.allSent_found]
      rcases read_cases size unread with
        ⟨skipped, kept, rfl, -, -, hr⟩ | ⟨rfl, hr⟩ | ⟨message, later, rfl, -, hr⟩
      · rw [hr] at ih ⊢
        rw [List.append_assoc]
        exact ih.lagged skipped
      · rw [hr] at ih ⊢
        exact ih.empty
      · rw [hr] at ih ⊢
        exact ih.message message

-- A receiver that never has more than `capacity` messages ahead of it loses none.
theorem lost_eq_zero (h : Reads size unread turns rest) (hs : capacity ≤ size)
    (hb : ∀ before after, turns = before ++ after →
      unread.length + (allSent before).length ≤
        (received (allFound before)).length + lost (allFound before) + capacity) :
    lost (allFound turns) = 0 := by
  induction h with
  | done unread => rfl
  | sent message _ ih =>
      refine ih fun before after he => ?_
      have hbefore := hb (.sent message :: before) after (congrArg _ he)
      simp only [Turn.allSent_sent, Turn.allFound_sent, List.length_cons, List.length_append,
        List.length_nil] at hbefore ⊢
      omega
  | @found unread rest turns _ ih =>
      have hnow := hb [] _ rfl
      have hlater := fun before after (he : turns = before ++ after) =>
        hb (.found (Channel.read size unread).1 :: before) after (congrArg _ he)
      simp only [Turn.allSent_nil, Turn.allFound_nil, Reception.received_nil, Reception.lost_nil,
        List.length_nil] at hnow
      simp only [Turn.allSent_found, Turn.allFound_found] at hlater ⊢
      rcases read_cases size unread with
        ⟨skipped, kept, rfl, hk, hn, hr⟩ | ⟨rfl, hr⟩ | ⟨message, later, rfl, -, hr⟩
      · have hpos := List.length_pos_iff.mpr hn
        rw [List.length_append] at hnow
        omega
      · simp only [hr, Reception.lost_cons, Reception.received_empty, Reception.loss,
          Nat.zero_add] at hlater ih ⊢
        exact ih hlater
      · simp only [hr, Reception.lost_cons, Reception.received_message, Reception.loss,
          Nat.zero_add, List.length_cons] at hlater ih ⊢
        refine ih fun before after he => ?_
        have := hlater before after he
        omega

-- What the receiver finds depends on what it has yet to read after the turns before.
theorem exists_unread_before {before after : List (Turn μ)} {reception : Reception μ}
    (h : Reads size unread (before ++ .found reception :: after) rest) :
    ∃ middle, Reads size unread before middle ∧ reception = (Channel.read size middle).1 := by
  induction before generalizing unread with
  | nil =>
      cases h with
      | found _ => exact ⟨unread, .done unread, rfl⟩
  | cons turn before ih =>
      cases h with
      | sent message h =>
          obtain ⟨middle, hreads, he⟩ := ih h
          exact ⟨middle, .sent message hreads, he⟩
      | found h =>
          obtain ⟨middle, hreads, he⟩ := ih h
          exact ⟨middle, .found hreads, he⟩

theorem eq_empty_iff {before after : List (Turn μ)} {reception : Reception μ}
    (h : Reads size unread (before ++ .found reception :: after) rest) :
    reception = .empty ↔ (received (allFound before)).length + lost (allFound before) =
      (unread ++ allSent before).length := by
  obtain ⟨middle, hreads, rfl⟩ := h.exists_unread_before
  have hlength := hreads.tally.length_eq
  rw [read_eq_empty_iff, ← List.length_eq_zero_iff]
  omega

-- Whoever has just looked has lost nothing that it does not know of.
theorem length_rest_le {reception : Reception μ}
    (h : Reads size unread (turns ++ [.found reception]) rest) : rest.length ≤ size := by
  induction turns generalizing unread with
  | nil =>
      cases h with
      | found h =>
          cases h
          exact length_read_le size unread
  | cons turn turns ih =>
      cases h with
      | sent message h => exact ih h
      | found h => exact ih h

end Reads

end Channel

end LiveReload
