import LiveReload.Table
import LiveReload.LogRecord

namespace LiveReload

-- Parses of one resource can finish in another order than they were begun in, so each takes a
-- ticket when it begins.
structure Ticket where
  url : Url
  generation : Nat
deriving DecidableEq

-- For each URL the newest generation issued and the newest one admitted.
structure Turnstile where
  issued : Table Nat
  admitted : Table Nat

namespace Turnstile

def empty : Turnstile := ⟨∅, ∅⟩

instance : EmptyCollection Turnstile := ⟨empty⟩

instance : Inhabited Turnstile := ⟨empty⟩

def newestIssued (turnstile : Turnstile) (url : Url) : Nat := (turnstile.issued.get? url).getD 0

def newestAdmitted (turnstile : Turnstile) (url : Url) : Nat :=
  (turnstile.admitted.get? url).getD 0

def issue (turnstile : Turnstile) (url : Url) : Ticket × Turnstile :=
  let generation := turnstile.newestIssued url + 1
  (⟨url, generation⟩, { turnstile with issued := turnstile.issued.insert url generation })

def isStale (turnstile : Turnstile) (ticket : Ticket) : Bool :=
  ticket.generation ≤ turnstile.newestAdmitted ticket.url

-- Whether the ticket is let through. A stale one changes no generation.
def pass (turnstile : Turnstile) (ticket : Ticket) : Logged (Bool × Turnstile) :=
  let newest := turnstile.newestAdmitted ticket.url
  if turnstile.isStale ticket then
    ⟨(false, { turnstile with admitted := turnstile.admitted.insert ticket.url newest }),
      [.staleTicket ticket.url ticket.generation newest]⟩
  else
    pure (true,
      { turnstile with admitted := turnstile.admitted.insert ticket.url ticket.generation })

-- Tickets issued before this are as good as new afterwards.
def forget (turnstile : Turnstile) (url : Url) : Turnstile :=
  ⟨turnstile.issued.erase url, turnstile.admitted.erase url⟩

def tracked (turnstile : Turnstile) : Nat := max turnstile.issued.size turnstile.admitted.size

theorem newestIssued_issue (turnstile : Turnstile) (url other : Url) :
    (turnstile.issue url).2.newestIssued other =
      if other = url then (turnstile.issue url).1.generation else turnstile.newestIssued other := by
  simp only [issue, newestIssued, Table.get?_insert]
  split <;> rfl

theorem isStale_iff {turnstile : Turnstile} {ticket : Ticket} :
    turnstile.isStale ticket = true ↔ ticket.generation ≤ turnstile.newestAdmitted ticket.url := by
  simp [isStale]

theorem newestAdmitted_pass (turnstile : Turnstile) (ticket : Ticket) (url : Url) :
    (turnstile.pass ticket).result.2.newestAdmitted url =
      if url = ticket.url then max ticket.generation (turnstile.newestAdmitted url)
      else turnstile.newestAdmitted url := by
  by_cases hs : turnstile.isStale ticket = true
  · have hle := isStale_iff.1 hs
    simp only [pass, hs, if_true]
    rw [newestAdmitted, Table.get?_insert]
    split
    · subst url
      exact (Nat.max_eq_right hle).symm
    · rfl
  · have hlt := mt isStale_iff.2 hs
    simp only [pass, hs]
    rw [newestAdmitted, if_neg Bool.false_ne_true, Logged.result_pure, Table.get?_insert]
    split
    · subst url
      exact (Nat.max_eq_left (Nat.le_of_not_le hlt)).symm
    · rfl

end Turnstile

end LiveReload
