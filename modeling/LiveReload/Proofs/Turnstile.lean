import LiveReload.Turnstile
import LiveReload.Proofs.Table

namespace LiveReload.Turnstile

@[simp] theorem newestAdmitted_empty (url : Url) : (∅ : Turnstile).newestAdmitted url = 0 := rfl

@[simp] theorem url_issue (turnstile : Turnstile) (url : Url) :
    (turnstile.issue url).1.url = url := rfl

@[simp] theorem generation_issue (turnstile : Turnstile) (url : Url) :
    (turnstile.issue url).1.generation = turnstile.newestIssued url + 1 := rfl

@[simp] theorem newestAdmitted_issue (turnstile : Turnstile) (url other : Url) :
    (turnstile.issue url).2.newestAdmitted other = turnstile.newestAdmitted other := rfl

@[simp] theorem newestIssued_pass (turnstile : Turnstile) (ticket : Ticket) (url : Url) :
    (turnstile.pass ticket).result.2.newestIssued url = turnstile.newestIssued url := by
  unfold pass
  dsimp only
  split <;> rfl

theorem newestIssued_forget (turnstile : Turnstile) (url other : Url) :
    (turnstile.forget url).newestIssued other =
      if other = url then 0 else turnstile.newestIssued other := by
  rw [newestIssued, forget, Table.get?_erase]
  split <;> rfl

theorem newestAdmitted_forget (turnstile : Turnstile) (url other : Url) :
    (turnstile.forget url).newestAdmitted other =
      if other = url then 0 else turnstile.newestAdmitted other := by
  rw [newestAdmitted, forget, Table.get?_erase]
  split <;> rfl

theorem result_pass_eq_not (turnstile : Turnstile) (ticket : Ticket) :
    (turnstile.pass ticket).result.1 = !turnstile.isStale ticket := by
  cases h : turnstile.isStale ticket <;> simp [pass, h]

theorem result_pass_of_stale {turnstile : Turnstile} {ticket : Ticket}
    (hs : turnstile.isStale ticket = true) (hg : 0 < ticket.generation) :
    (turnstile.pass ticket).result = (false, turnstile) := by
  have hle := isStale_iff.mp hs
  have hget : turnstile.admitted.get? ticket.url = some (turnstile.newestAdmitted ticket.url) := by
    unfold newestAdmitted at hle ⊢
    cases ha : turnstile.admitted.get? ticket.url with
    | none =>
        rw [ha, Option.getD_none] at hle
        omega
    | some newest => rfl
  simp only [pass, hs, if_true, Table.insert_of_get? hget]

end LiveReload.Turnstile
