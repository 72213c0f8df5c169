import LiveReload.Proofs.Reloader.Run
import LiveReload.Proofs.Turnstile
import Mathlib.Data.List.Induction
import Mathlib.Order.Lattice

namespace LiveReload.Reloader

namespace Call

-- Whether the call makes the reloader forget the tickets of `url`.
def removes (url : Url) : Call → Bool
  | .remove other => other = url
  | _ => false

def begins (url : Url) : Call → Bool
  | .begin other => other = url
  | .declare other _ => other = url
  | _ => false

-- The ticket handed in.
def finishes? : Call → Option Ticket
  | .finish ticket _ => some ticket
  | _ => none

end Call

-- The calls made since `url` was removed the last time.
def recent (url : Url) (calls : List Call) : List Call :=
  calls.foldl (fun since call => if call.removes url then [] else since ++ [call]) []

def begun (url : Url) (calls : List Call) : Nat := (recent url calls).countP (·.begins url)

def finished (url : Url) (calls : List Call) : List Ticket :=
  ((recent url calls).filterMap Call.finishes?).filter (·.url = url)

-- Whether a ticket was finished that is ahead of every parse begun since the last removal.
def isOvertaken (url : Url) (calls : List Call) : Bool :=
  (finished url calls).any fun ticket => begun url calls < ticket.generation

-- What `f` sees in the calls of a run and in the states that they find, in order.
def observed {α : Type} (f : Reloader → Call → Option α) (reloader : Reloader) : List Call → List α
  | [] => []
  | next :: calls => (f reloader next).toList ++ observed f (reloader.call next) calls

def handsOut? (reloader : Reloader) : Call → Option Ticket
  | .begin url => some (reloader.begin url).1
  | _ => none

def tickets (reloader : Reloader) (calls : List Call) : List Ticket :=
  reloader.observed handsOut? calls

section Steps

variable {url : Url} {calls : List Call} {next : Call}

theorem recent_concat : recent url (calls ++ [next]) =
    if next.removes url then [] else recent url calls ++ [next] := by
  rw [recent, List.foldl_append]
  rfl

theorem begun_concat : begun url (calls ++ [next]) =
    if next.removes url then 0 else begun url calls + if next.begins url then 1 else 0 := by
  rw [begun, recent_concat]
  split
  · rfl
  · rw [List.countP_append, List.countP_singleton, begun]

theorem finished_concat : finished url (calls ++ [next]) =
    if next.removes url then []
    else finished url calls ++ next.finishes?.toList.filter (·.url = url) := by
  rw [finished, recent_concat]
  split
  · rfl
  · rw [List.filterMap_append, List.filter_append, finished]
    cases h : next.finishes? <;> simp [h]

theorem observed_append {α : Type} (f : Reloader → Call → Option α) (reloader : Reloader)
    (calls more : List Call) : reloader.observed f (calls ++ more) =
      reloader.observed f calls ++ (reloader.run calls).observed f more := by
  induction calls generalizing reloader with
  | nil => rfl
  | cons first calls ih =>
      rw [List.cons_append, observed, ih, observed, List.append_assoc]
      rfl

theorem observed_concat {α : Type} (f : Reloader → Call → Option α) (reloader : Reloader)
    (calls : List Call) (next : Call) : reloader.observed f (calls ++ [next]) =
      reloader.observed f calls ++ (f (reloader.run calls) next).toList := by
  rw [observed_append, observed, observed, List.append_nil]

theorem tickets_concat (reloader : Reloader) (calls : List Call) (next : Call) :
    reloader.tickets (calls ++ [next]) =
      reloader.tickets calls ++ (handsOut? (reloader.run calls) next).toList :=
  observed_concat handsOut? reloader calls next

end Steps

theorem turnstile_call (reloader : Reloader) (next : Call) :
    (reloader.call next).turnstile =
      match next with
      | .begin url => (reloader.turnstile.issue url).2
      | .finish ticket _ => (reloader.turnstile.pass ticket).result.2
      | .declare url _ =>
        ((reloader.turnstile.issue url).2.pass (reloader.turnstile.issue url).1).result.2
      | .remove url => reloader.turnstile.forget url
      | _ => reloader.turnstile := by
  cases next with
  | edit edit => rfl
  | begin url => rfl
  | finish ticket declaration => exact turnstile_finish ticket declaration
  | declare url declaration => exact turnstile_finish _ declaration
  | fileChanged event =>
      rw [call, reloader_fileChanged, reloader_fileRemoved]
      split_ifs <;> rfl
  | remove url => rfl

theorem newestIssued_call (reloader : Reloader) (next : Call) (url : Url) :
    (reloader.call next).turnstile.newestIssued url =
      if next.removes url then 0
      else reloader.turnstile.newestIssued url + if next.begins url then 1 else 0 := by
  rw [turnstile_call]
  cases next with
  | edit edit => rfl
  | finish ticket declaration => exact Turnstile.newestIssued_pass _ _ _
  | fileChanged event => rfl
  | begin other =>
      rw [Turnstile.newestIssued_issue]
      by_cases h : other = url
      · subst other
        simp [Call.removes, Call.begins]
      · simp [Call.removes, Call.begins, h, Ne.symm h]
  | declare other declaration =>
      rw [Turnstile.newestIssued_pass, Turnstile.newestIssued_issue]
      by_cases h : other = url
      · subst other
        simp [Call.removes, Call.begins]
      · simp [Call.removes, Call.begins, h, Ne.symm h]
  | remove other =>
      rw [Turnstile.newestIssued_forget]
      by_cases h : other = url
      · simp [Call.removes, h]
      · simp [Call.removes, Call.begins, h, Ne.symm h]

section FromStart

variable {config : Config} {graph : Graph} {url : Url}

theorem newestIssued_run (config : Config) (graph : Graph) (url : Url) (calls : List Call) :
    ((ofGraph config graph).run calls).turnstile.newestIssued url = begun url calls := by
  induction calls using List.reverseRecOn with
  | nil => rfl
  | append_singleton calls next ih => rw [run_concat, newestIssued_call, ih, begun_concat]

-- A parse that begins and finishes at once is admitted with no more than the generations begun, so
-- it never shows in a bound from there on.
theorem newestAdmitted_run_le_iff {calls : List Call} {n : Nat} (hn : begun url calls ≤ n) :
    ((ofGraph config graph).run calls).turnstile.newestAdmitted url ≤ n ↔
      ∀ ticket ∈ finished url calls, ticket.generation ≤ n := by
  induction calls using List.reverseRecOn with
  | nil => simp [finished, recent, ofGraph]
  | append_singleton calls next ih =>
      rw [begun_concat] at hn
      rw [run_concat, turnstile_call, finished_concat]
      cases next with
      | edit edit => simpa [Call.removes, Call.finishes?] using ih hn
      | fileChanged event => simpa [Call.removes, Call.finishes?] using ih hn
      | begin other =>
          have hle : begun url calls ≤ n := by
            simp only [Call.removes, Bool.false_eq_true, if_false] at hn
            omega
          simpa [Call.removes, Call.finishes?] using ih hle
      | finish ticket declaration =>
          have ih := ih hn
          dsimp only
          rw [Turnstile.newestAdmitted_pass]
          by_cases h : ticket.url = url
          · simp [Call.removes, Call.finishes?, h, ih, or_imp, forall_and, and_comm]
          · simpa [Call.removes, Call.finishes?, h, Ne.symm h] using ih
      | declare other declaration =>
          dsimp only
          rw [Turnstile.newestAdmitted_pass]
          by_cases h : other = url
          · subst other
            have hbegun : begun url calls + 1 ≤ n := by
              simpa [Call.removes, Call.begins] using hn
            have hissued := newestIssued_run config graph url calls
            simpa [Call.removes, Call.finishes?, hissued, hbegun] using ih (by omega)
          · simp only [Call.removes, Call.begins, h] at hn
            simpa [Call.removes, Call.finishes?, Ne.symm h] using ih (by simpa using hn)
      | remove other =>
          dsimp only
          rw [Turnstile.newestAdmitted_forget]
          by_cases h : other = url
          · simp [Call.removes, h]
          · simp only [Call.removes, Call.begins, h] at hn
            simpa [Call.removes, Call.finishes?, h, Ne.symm h] using ih (by simpa using hn)

end FromStart

end LiveReload.Reloader
