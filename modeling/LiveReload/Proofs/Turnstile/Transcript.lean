import LiveReload.Proofs.Turnstile
import Mathlib.Data.List.DropRight
import Mathlib.Data.List.Induction
import Mathlib.Order.Lattice

namespace LiveReload

namespace Turnstile

inductive Request where
  | issue (url : Url)
  | pass (ticket : Ticket)
  | forget (url : Url)
deriving DecidableEq

inductive Reply where
  | ticket (ticket : Ticket)
  | passed (admitted : Bool)
  | done
deriving DecidableEq

def Request.url : Request → Url
  | issue url => url
  | pass ticket => ticket.url
  | forget url => url

def respond (turnstile : Turnstile) : Request → Reply × Turnstile
  | .issue url => (.ticket (turnstile.issue url).1, (turnstile.issue url).2)
  | .pass ticket => (.passed (turnstile.pass ticket).result.1, (turnstile.pass ticket).result.2)
  | .forget url => (.done, turnstile.forget url)

def serve (turnstile : Turnstile) (requests : List Request) : Turnstile :=
  requests.foldl (fun turnstile request => (turnstile.respond request).2) turnstile

-- A request and what came of it.
structure Entry where
  request : Request
  reply : Reply

def transcript (turnstile : Turnstile) : List Request → List Entry
  | [] => []
  | request :: requests =>
    ⟨request, (turnstile.respond request).1⟩ :: (turnstile.respond request).2.transcript requests

-- The ticket that was let through.
def Entry.admitted? : Entry → Option Ticket
  | ⟨.pass ticket, .passed true⟩ => some ticket
  | _ => none

-- What happened since `url` was forgotten the last time.
def since (url : Url) (entries : List Entry) : List Entry :=
  entries.rtakeWhile (·.request ≠ .forget url)

-- How many tickets for `url` were issued since then.
def begun (url : Url) (entries : List Entry) : Nat :=
  (since url entries).countP (·.request = .issue url)

-- The tickets for `url` that were let through since then.
def admittedOf (url : Url) (entries : List Entry) : List Ticket :=
  ((since url entries).filterMap Entry.admitted?).filter (·.url = url)

section Transcript

variable {url : Url} {entries : List Entry} {entry : Entry}

theorem serve_append (turnstile : Turnstile) (requests more : List Request) :
    turnstile.serve (requests ++ more) = (turnstile.serve requests).serve more :=
  List.foldl_append

theorem transcript_append (turnstile : Turnstile) (requests more : List Request) :
    turnstile.transcript (requests ++ more) =
      turnstile.transcript requests ++ (turnstile.serve requests).transcript more := by
  induction requests generalizing turnstile with
  | nil => rfl
  | cons request requests ih =>
      rw [List.cons_append, transcript, ih]
      rfl

theorem since_concat (url : Url) (entries : List Entry) (entry : Entry) :
    since url (entries ++ [entry]) =
      if entry.request = .forget url then [] else since url entries ++ [entry] := by
  rw [since, List.rtakeWhile_concat]
  by_cases h : entry.request = .forget url <;> simp [h, since]

theorem begun_concat (url : Url) (entries : List Entry) (entry : Entry) :
    begun url (entries ++ [entry]) = if entry.request = .forget url then 0
      else begun url entries + if entry.request = .issue url then 1 else 0 := by
  rw [begun, since_concat]
  split
  · rfl
  · rw [List.countP_append, List.countP_singleton, begun]
    simp only [decide_eq_true_eq]

theorem admittedOf_concat (url : Url) (entries : List Entry) (entry : Entry) :
    admittedOf url (entries ++ [entry]) = if entry.request = .forget url then []
      else admittedOf url entries ++ entry.admitted?.toList.filter (·.url = url) := by
  rw [admittedOf, since_concat]
  split
  · rfl
  · rw [List.filterMap_append, List.filter_append, admittedOf]
    cases h : entry.admitted? <;> simp [h]

end Transcript

section Respond

variable (turnstile : Turnstile) (url : Url)

theorem newestIssued_respond (request : Request) :
    (turnstile.respond request).2.newestIssued url = if request = .forget url then 0
      else turnstile.newestIssued url + if request = .issue url then 1 else 0 := by
  cases request with
  | issue other =>
      rw [respond, newestIssued_issue]
      by_cases h : url = other
      · simp [h]
      · simp [h, Ne.symm h]
  | pass ticket => simp [respond]
  | forget other =>
      rw [respond, newestIssued_forget]
      by_cases h : url = other
      · simp [h]
      · simp [h, Ne.symm h]

end Respond

-- What a turnstile knows of a URL is what its transcript says.
structure Recounts (turnstile : Turnstile) (entries : List Entry) : Prop where
  newestIssued : ∀ url, turnstile.newestIssued url = begun url entries
  newestAdmitted_le_iff : ∀ url bound, turnstile.newestAdmitted url ≤ bound ↔
    ∀ ticket ∈ admittedOf url entries, ticket.generation ≤ bound

namespace Recounts

variable {turnstile : Turnstile} {entries : List Entry}

theorem respond (h : turnstile.Recounts entries) (request : Request) :
    (turnstile.respond request).2.Recounts
      (entries ++ [⟨request, (turnstile.respond request).1⟩]) where
  newestIssued url := by rw [newestIssued_respond, begun_concat, h.newestIssued]
  newestAdmitted_le_iff url bound := by
    have hold := h.newestAdmitted_le_iff url bound
    rw [admittedOf_concat]
    cases request with
    | issue other => simpa [Turnstile.respond, Entry.admitted?] using hold
    | forget other =>
        dsimp only [Turnstile.respond]
        rw [newestAdmitted_forget]
        by_cases hu : other = url
        · simp [hu]
        · simpa [hu, Ne.symm hu, Entry.admitted?] using hold
    | pass ticket =>
        dsimp only [Turnstile.respond]
        rw [newestAdmitted_pass, result_pass_eq_not]
        by_cases hu : url = ticket.url
        · subst hu
          cases hs : turnstile.isStale ticket with
          -- a ticket that is turned away is no newer than one admitted before
          | true =>
              rw [if_pos rfl, Nat.max_eq_right (isStale_iff.mp hs)]
              simpa [Entry.admitted?] using hold
          | false => simp [Entry.admitted?, hold, or_imp, forall_and, and_comm]
        · rw [if_neg hu]
          cases turnstile.isStale ticket <;> simpa [Entry.admitted?, Ne.symm hu] using hold

end Recounts

theorem recounts_serve (requests : List Request) :
    ((∅ : Turnstile).serve requests).Recounts ((∅ : Turnstile).transcript requests) := by
  induction requests using List.reverseRecOn with
  | nil => exact ⟨fun _ => rfl, fun _ _ => by simp [serve, transcript, admittedOf, since]⟩
  | append_singleton requests next ih =>
      rw [serve_append, transcript_append]
      exact ih.respond next

-- All that requests about `url` can tell two turnstiles by.
structure AgreesAt (url : Url) (turnstile other : Turnstile) : Prop where
  newestIssued : turnstile.newestIssued url = other.newestIssued url
  newestAdmitted : turnstile.newestAdmitted url = other.newestAdmitted url

namespace AgreesAt

variable {turnstile other : Turnstile} {url : Url} {request : Request}

theorem respond_of_ne (h : turnstile.AgreesAt url other) (hr : request.url ≠ url) :
    (turnstile.respond request).2.AgreesAt url other where
  newestIssued := by
    rw [newestIssued_respond, ← h.newestIssued, if_neg, if_neg]
    · rfl
    · rintro rfl
      exact hr rfl
    · rintro rfl
      exact hr rfl
  newestAdmitted := by
    rw [← h.newestAdmitted]
    cases request with
    | issue other => rfl
    | pass ticket => exact (newestAdmitted_pass turnstile ticket url).trans (if_neg (Ne.symm hr))
    | forget other => exact (newestAdmitted_forget turnstile other url).trans (if_neg (Ne.symm hr))

theorem respond (h : turnstile.AgreesAt url other) (request : Request) :
    (turnstile.respond request).2.AgreesAt url (other.respond request).2 where
  newestIssued := by rw [newestIssued_respond, newestIssued_respond, h.newestIssued]
  newestAdmitted := by
    cases request with
    | issue requested => exact h.newestAdmitted
    | pass ticket =>
        dsimp only [Turnstile.respond]
        rw [newestAdmitted_pass, newestAdmitted_pass, h.newestAdmitted]
    | forget requested =>
        dsimp only [Turnstile.respond]
        rw [newestAdmitted_forget, newestAdmitted_forget, h.newestAdmitted]

theorem serve (h : turnstile.AgreesAt url other) (requests : List Request) :
    (turnstile.serve requests).AgreesAt url (other.serve requests) := by
  induction requests generalizing turnstile other with
  | nil => exact h
  | cons request requests ih => exact ih (h.respond request)

theorem reply_eq (h : turnstile.AgreesAt request.url other) :
    (turnstile.respond request).1 = (other.respond request).1 := by
  cases request with
  | issue url =>
      have hissued : turnstile.newestIssued url = other.newestIssued url := h.newestIssued
      simp only [Turnstile.respond, issue, hissued]
  | pass ticket =>
      have hadmitted : turnstile.newestAdmitted ticket.url = other.newestAdmitted ticket.url :=
        h.newestAdmitted
      simp only [Turnstile.respond, result_pass_eq_not, isStale, hadmitted]
  | forget url => rfl

end AgreesAt

end Turnstile

-- Whether some turnstile issued the ticket, not necessarily the one that it is shown to.
def Ticket.IsIssued (ticket : Ticket) : Prop :=
  ∃ requests url, (((∅ : Turnstile).serve requests).issue url).1 = ticket

namespace Turnstile

theorem pos_of_isIssued {ticket : Ticket} (h : ticket.IsIssued) : 0 < ticket.generation := by
  obtain ⟨requests, url, rfl⟩ := h
  exact Nat.succ_pos _

theorem answers_of_transcript (requests : List Request) :
    let turnstile := (∅ : Turnstile).serve requests
    let entries := (∅ : Turnstile).transcript requests
    (∀ url, (turnstile.issue url).1 = ⟨url, 1 + begun url entries⟩) ∧
      (∀ ticket : Ticket, ticket.IsIssued →
        ((turnstile.pass ticket).result.1 = true ↔
          ∀ earlier ∈ admittedOf ticket.url entries, earlier.generation < ticket.generation) ∧
        ((turnstile.pass ticket).result.1 = false →
          (turnstile.pass ticket).result.2 = turnstile)) ∧
      ∀ before other after next, requests = before ++ other :: after → other.url ≠ next.url →
        (turnstile.respond next).1 =
          (((∅ : Turnstile).serve (before ++ after)).respond next).1 := by
  intro turnstile entries
  have h : turnstile.Recounts entries := recounts_serve requests
  refine ⟨fun url => ?_, fun ticket hi => ⟨?_, ?_⟩, ?_⟩
  · rw [Nat.add_comm, ← h.newestIssued]
    rfl
  · have hpos := pos_of_isIssued hi
    -- as a bound on what was admitted, it is the generation before that of the ticket
    have hbound := h.newestAdmitted_le_iff ticket.url (ticket.generation - 1)
    rw [result_pass_eq_not, Bool.not_eq_true', ← Bool.not_eq_true, isStale_iff, Nat.not_le,
      ← Nat.le_sub_one_iff_lt hpos, hbound]
    simp only [Nat.le_sub_one_iff_lt hpos]
  · intro hs
    rw [result_pass_eq_not, Bool.not_eq_false'] at hs
    rw [result_pass_of_stale hs (pos_of_isIssued hi)]
  · rintro before other after next rfl hne
    have hagree : turnstile.AgreesAt next.url ((∅ : Turnstile).serve (before ++ after)) := by
      simp only [turnstile, serve_append]
      exact (AgreesAt.respond_of_ne ⟨rfl, rfl⟩ hne).serve after
    exact hagree.reply_eq

-- A ticket from before `a.js` was forgotten passes once more, and then no more; one that another
-- turnstile issued is ahead of it.
theorem second_ticket_back_after_forgetting :
    let requests : List Request := [.issue "a.js", .issue "a.js", .pass ⟨"a.js", 2⟩, .issue "b.js",
      .forget "a.js", .pass ⟨"a.js", 2⟩]
    let turnstile := (∅ : Turnstile).serve requests
    (turnstile.issue "a.js").1 = ⟨"a.js", 1⟩ ∧ (turnstile.issue "b.js").1 = ⟨"b.js", 2⟩ ∧
      Ticket.IsIssued ⟨"a.js", 2⟩ ∧ (turnstile.pass ⟨"a.js", 2⟩).result = (false, turnstile) ∧
      Ticket.IsIssued ⟨"a.js", 3⟩ ∧ (turnstile.pass ⟨"a.js", 3⟩).result.1 = true ∧
      (Request.forget "a.js").url ≠ (Request.issue "b.js").url ∧
      (turnstile.respond (.issue "b.js")).1 =
        (((∅ : Turnstile).serve [.issue "a.js", .issue "a.js", .pass ⟨"a.js", 2⟩, .issue "b.js",
          .pass ⟨"a.js", 2⟩]).respond (.issue "b.js")).1 := by
  intro requests turnstile
  obtain ⟨hissue, hpass, hother⟩ := answers_of_transcript requests
  have hsecond : Ticket.IsIssued ⟨"a.js", 2⟩ := ⟨[.issue "a.js"], "a.js", by decide⟩
  have hthird : Ticket.IsIssued ⟨"a.js", 3⟩ :=
    ⟨[.issue "a.js", .issue "a.js"], "a.js", by decide⟩
  have hlet : admittedOf "a.js" ((∅ : Turnstile).transcript requests) = [⟨"a.js", 2⟩] := by
    decide
  obtain ⟨hagain, hunchanged⟩ := hpass ⟨"a.js", 2⟩ hsecond
  have haway : (turnstile.pass ⟨"a.js", 2⟩).result.1 = false := by
    rw [← Bool.not_eq_true, hagain, hlet]
    decide
  have hahead : (turnstile.pass ⟨"a.js", 3⟩).result.1 = true := by
    rw [(hpass ⟨"a.js", 3⟩ hthird).1, hlet]
    decide
  have hne : (Request.forget "a.js").url ≠ (Request.issue "b.js").url := by decide
  exact ⟨hissue "a.js", hissue "b.js", hsecond, Prod.ext haway (hunchanged haway), hthird, hahead,
    hne, hother [.issue "a.js", .issue "a.js", .pass ⟨"a.js", 2⟩, .issue "b.js"]
      (.forget "a.js") [.pass ⟨"a.js", 2⟩] (.issue "b.js") rfl hne⟩

end Turnstile

end LiveReload
