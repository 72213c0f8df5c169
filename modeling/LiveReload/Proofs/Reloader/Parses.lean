import LiveReload.Proofs.Reloader.History

namespace LiveReload.Reloader

def ended (calls : List Call) : List Ticket := calls.filterMap Call.finishes?

-- The ticket handed in, unless it is turned away as stale.
def letsIn? (reloader : Reloader) : Call → Option Ticket
  | .finish ticket _ => if reloader.turnstile.isStale ticket then none else some ticket
  | _ => none

def admitted (reloader : Reloader) (calls : List Call) : List Ticket :=
  reloader.observed letsIn? calls

-- Parses begin at any time and finish at any time after that, with the declaration that their
-- ticket stands for. Between them files may be added and modified.
inductive Orderly (start : Reloader) (carried : Ticket → Declaration) : List Call → Prop
  | nil : Orderly start carried []
  | begin {calls} (url : Url) : Orderly start carried calls →
      Orderly start carried (calls ++ [.begin url])
  | finish {calls} {ticket : Ticket} : Orderly start carried calls → ticket ∈ start.tickets calls →
      ticket ∉ ended calls → Orderly start carried (calls ++ [.finish ticket (carried ticket)])
  | notice {calls} {event : FileEvent} : Orderly start carried calls → event.kind ≠ .removed →
      Orderly start carried (calls ++ [.fileChanged event])

section Steps

variable {calls : List Call} {next : Call}

theorem ended_concat : ended (calls ++ [next]) = ended calls ++ next.finishes?.toList := by
  rw [ended, List.filterMap_append]
  cases h : next.finishes? <;> simp [ended, h]

theorem admitted_concat (reloader : Reloader) (calls : List Call) (next : Call) :
    reloader.admitted (calls ++ [next]) =
      reloader.admitted calls ++ (letsIn? (reloader.run calls) next).toList :=
  observed_concat letsIn? reloader calls next

theorem call_notice (reloader : Reloader) {event : FileEvent} (h : event.kind ≠ .removed) :
    reloader.call (.fileChanged event) = reloader := by
  rw [call, reloader_fileChanged, if_neg h]

-- A ticket that was handed out and comes too late changes nothing at all.
theorem result_finish_of_issued_stale {reloader : Reloader} {ticket : Ticket}
    {declaration : Declaration} (hg : 0 < ticket.generation)
    (hs : reloader.turnstile.isStale ticket = true) :
    (reloader.finish ticket declaration).result = ⟨reloader, none⟩ := by
  rw [result_finish_of_stale hs, Turnstile.result_pass_of_stale hs hg]

end Steps

-- The tickets of each URL are numbered in the order in which they were handed out.
structure Numbered (start : Reloader) (calls : List Call) : Prop where
  generation_pos : ∀ ticket ∈ start.tickets calls, 0 < ticket.generation
  generation_le : ∀ ticket ∈ start.tickets calls,
    ticket.generation ≤ (start.run calls).turnstile.newestIssued ticket.url
  ascending : (start.tickets calls).Pairwise fun earlier later =>
    earlier.url = later.url → earlier.generation < later.generation

-- What was let in, and what that left in the turnstile.
structure Counted (start : Reloader) (calls : List Call) : Prop extends
    Numbered start calls where
  ended_subset : ended calls ⊆ start.tickets calls
  admitted_subset : start.admitted calls ⊆ ended calls
  ended_le : ∀ ticket ∈ ended calls,
    ticket.generation ≤ (start.run calls).turnstile.newestAdmitted ticket.url
  newest_admitted : ∀ url, 0 < (start.run calls).turnstile.newestAdmitted url →
    ⟨url, (start.run calls).turnstile.newestAdmitted url⟩ ∈ start.admitted calls

section Invariant

variable {start : Reloader} {calls : List Call}

theorem Numbered.begin (h : start.Numbered calls) (url : Url) :
    start.Numbered (calls ++ [.begin url]) := by
  have htickets : start.tickets (calls ++ [.begin url]) =
      start.tickets calls ++ [((start.run calls).turnstile.issue url).1] := tickets_concat ..
  have hissued : ∀ other, (start.run (calls ++ [.begin url])).turnstile.newestIssued other =
      if other = url then (start.run calls).turnstile.newestIssued url + 1
      else (start.run calls).turnstile.newestIssued other := by
    intro other
    rw [run_concat]
    exact Turnstile.newestIssued_issue _ url other
  constructor
  · rw [htickets]
    intro ticket ht
    rcases List.mem_append.mp ht with hold | hnew
    · exact h.generation_pos ticket hold
    · rw [List.mem_singleton.mp hnew]
      exact Nat.succ_pos _
  · rw [htickets]
    intro ticket ht
    rw [hissued]
    rcases List.mem_append.mp ht with hold | hnew
    · have hle := h.generation_le ticket hold
      split
      · rename_i hu
        rw [hu] at hle
        exact Nat.le_succ_of_le hle
      · exact hle
    · rw [List.mem_singleton.mp hnew, Turnstile.url_issue]
      exact Nat.le_of_eq (if_pos rfl).symm
  · rw [htickets, List.pairwise_append]
    refine ⟨h.ascending, List.pairwise_singleton _ _, ?_⟩
    intro earlier he later hl hu
    rw [List.mem_singleton.mp hl] at hu ⊢
    have hle := h.generation_le earlier he
    rw [hu] at hle
    exact Nat.lt_succ_of_le hle

-- Only handing out tickets changes how they are numbered.
theorem Numbered.of_eq {more : List Call} (h : start.Numbered calls)
    (ht : start.tickets more = start.tickets calls)
    (hi : ∀ url, (start.run more).turnstile.newestIssued url =
      (start.run calls).turnstile.newestIssued url) : start.Numbered more where
  generation_pos := ht ▸ h.generation_pos
  generation_le := fun ticket hm => hi ticket.url ▸ h.generation_le ticket (ht ▸ hm)
  ascending := ht ▸ h.ascending

theorem Counted.nil (config : Config) (graph : Graph) : (ofGraph config graph).Counted [] where
  generation_pos := fun _ h => nomatch h
  generation_le := fun _ h => nomatch h
  ascending := List.Pairwise.nil
  ended_subset := fun _ h => h
  admitted_subset := fun _ h => h
  ended_le := fun _ h => nomatch h
  newest_admitted := fun _ h => absurd h (Nat.lt_irrefl 0)

-- A call that takes in no ticket changes nothing about those taken in.
theorem Counted.concat (h : start.Counted calls) {next : Call}
    (hn : start.Numbered (calls ++ [next])) (hf : next.finishes? = none)
    (hl : letsIn? (start.run calls) next = none)
    (ha : ∀ url, ((start.run calls).call next).turnstile.newestAdmitted url =
      (start.run calls).turnstile.newestAdmitted url) : start.Counted (calls ++ [next]) := by
  have hended : ended (calls ++ [next]) = ended calls := by
    rw [ended_concat, hf]
    exact List.append_nil _
  have hadmitted : start.admitted (calls ++ [next]) = start.admitted calls := by
    rw [admitted_concat, hl]
    exact List.append_nil _
  refine ⟨hn, ?_, ?_, ?_, ?_⟩
  · rw [hended, tickets_concat]
    exact fun ticket ht => List.mem_append_left _ (h.ended_subset ht)
  · rw [hadmitted, hended]
    exact h.admitted_subset
  · simpa only [hended, run_concat, ha] using h.ended_le
  · simpa only [hadmitted, run_concat, ha] using h.newest_admitted

theorem Counted.begin (h : start.Counted calls) (url : Url) :
    start.Counted (calls ++ [.begin url]) :=
  h.concat (h.toNumbered.begin url) rfl rfl fun _ => rfl

-- A call that the turnstile knows nothing of.
theorem Counted.concat_of_turnstile_eq (h : start.Counted calls) {next : Call}
    (ht : handsOut? (start.run calls) next = none) (hf : next.finishes? = none)
    (hl : letsIn? (start.run calls) next = none)
    (he : ((start.run calls).call next).turnstile = (start.run calls).turnstile) :
    start.Counted (calls ++ [next]) := by
  refine h.concat (h.toNumbered.of_eq ?_ ?_) hf hl fun url => by rw [he]
  · rw [tickets_concat, ht]
    exact List.append_nil _
  · intro url
    rw [run_concat, he]

theorem Counted.notice (h : start.Counted calls) {event : FileEvent} (hk : event.kind ≠ .removed) :
    start.Counted (calls ++ [.fileChanged event]) :=
  h.concat_of_turnstile_eq rfl rfl rfl (by rw [call_notice _ hk])

theorem Counted.finish (h : start.Counted calls) {ticket : Ticket} {declaration : Declaration}
    (ht : ticket ∈ start.tickets calls) :
    start.Counted (calls ++ [.finish ticket declaration]) := by
  have htickets : start.tickets (calls ++ [.finish ticket declaration]) = start.tickets calls := by
    rw [tickets_concat]
    exact List.append_nil _
  have hended : ended (calls ++ [.finish ticket declaration]) = ended calls ++ [ticket] :=
    ended_concat
  have hturnstile : (start.run (calls ++ [.finish ticket declaration])).turnstile =
      ((start.run calls).turnstile.pass ticket).result.2 := by
    rw [run_concat]
    exact turnstile_finish ticket declaration
  have hadmitted := admitted_concat start calls (.finish ticket declaration)
  have hnumbered := h.toNumbered.of_eq htickets fun url => by
    rw [hturnstile, Turnstile.newestIssued_pass]
  refine ⟨hnumbered, ?_, ?_, ?_, ?_⟩
  · rw [htickets, hended]
    intro other ho
    rcases List.mem_append.mp ho with hold | hnew
    · exact h.ended_subset hold
    · rwa [List.mem_singleton.mp hnew]
  · rw [hadmitted, hended]
    intro other ho
    rcases List.mem_append.mp ho with hold | hnew
    · exact List.mem_append_left _ (h.admitted_subset hold)
    · simp only [letsIn?, Option.mem_toList] at hnew
      split at hnew
      · cases hnew
      · cases hnew
        exact List.mem_append_right _ (List.mem_singleton.mpr rfl)
  · rw [hended, hturnstile]
    intro other ho
    rw [Turnstile.newestAdmitted_pass]
    rcases List.mem_append.mp ho with hold | hnew
    · have hle := h.ended_le other hold
      split
      · exact Nat.le_trans hle (Nat.le_max_right _ _)
      · exact hle
    · rw [List.mem_singleton.mp hnew, if_pos rfl]
      exact Nat.le_max_left _ _
  · rw [hadmitted, hturnstile]
    intro url hpos
    rw [Turnstile.newestAdmitted_pass] at hpos ⊢
    by_cases hu : url = ticket.url
    · subst url
      rw [if_pos rfl] at hpos ⊢
      cases hs : (start.run calls).turnstile.isStale ticket with
      | true =>
          -- a ticket turned away was not ahead, so the newest one is the same as before
          have hle := Turnstile.isStale_iff.mp hs
          rw [Nat.max_eq_right hle] at hpos ⊢
          exact List.mem_append_left _ (h.newest_admitted _ hpos)
      | false =>
          have hlt : ¬_ := mt Turnstile.isStale_iff.mpr (Bool.eq_false_iff.mp hs)
          rw [Nat.max_eq_left (Nat.le_of_not_le hlt)]
          apply List.mem_append_right
          simp [letsIn?, hs]
    · rw [if_neg hu] at hpos ⊢
      exact List.mem_append_left _ (h.newest_admitted url hpos)

end Invariant

theorem Orderly.counted {config : Config} {graph : Graph} {carried : Ticket → Declaration}
    {calls : List Call} (h : Orderly (ofGraph config graph) carried calls) :
    (ofGraph config graph).Counted calls := by
  induction h with
  | nil => exact Counted.nil config graph
  | begin url _ ih => exact ih.begin url
  | finish _ ht _ ih => exact ih.finish ht
  | notice _ hk ih => exact ih.notice hk

-- Both are tickets of one resource, and `later` was handed out after `ticket`.
def BegunAfter (tickets : List Ticket) (ticket later : Ticket) : Prop :=
  later.url = ticket.url ∧
    ∃ before after, tickets = before ++ ticket :: after ∧ later ∈ after

-- Of all parses of its resource that finish in the run, this one was begun last.
def IsNewest (start : Reloader) (calls : List Call) (ticket : Ticket) : Prop :=
  ticket ∈ ended calls ∧ ∀ other ∈ ended calls, ¬BegunAfter (start.tickets calls) ticket other

namespace Counted

variable {start : Reloader} {calls : List Call} {ticket later : Ticket}

theorem begunAfter_iff (h : start.Counted calls) (ht : ticket ∈ start.tickets calls)
    (hl : later ∈ start.tickets calls) (hu : later.url = ticket.url) :
    BegunAfter (start.tickets calls) ticket later ↔ ticket.generation < later.generation := by
  constructor
  · rintro ⟨_, before, after, hs, ha⟩
    have hascending := h.ascending
    rw [hs, List.pairwise_append, List.pairwise_cons] at hascending
    exact hascending.2.1.1 later ha hu.symm
  · intro hlt
    obtain ⟨before, after, hs⟩ := List.append_of_mem ht
    refine ⟨hu, before, after, hs, ?_⟩
    have hascending := h.ascending
    rw [hs, List.pairwise_append] at hascending
    rw [hs, List.mem_append, List.mem_cons] at hl
    rcases hl with hb | rfl | ha
    · have hgt := hascending.2.2 later hb ticket List.mem_cons_self hu
      omega
    · exact absurd hlt (Nat.lt_irrefl _)
    · exact ha

theorem newest_mem_admitted (h : start.Counted calls) (ht : ticket ∈ ended calls) :
    ⟨ticket.url, (start.run calls).turnstile.newestAdmitted ticket.url⟩ ∈ start.admitted calls := by
  have hle := h.ended_le ticket ht
  have hpos := h.generation_pos ticket (h.ended_subset ht)
  exact h.newest_admitted ticket.url (Nat.lt_of_lt_of_le hpos hle)

-- Within a URL the order of the generations is the order in which the parses were begun.
theorem isNewest_iff (h : start.Counted calls) : start.IsNewest calls ticket ↔
    ticket ∈ ended calls ∧
      ticket.generation = (start.run calls).turnstile.newestAdmitted ticket.url := by
  apply and_congr_right
  intro ht
  have hle := h.ended_le ticket ht
  have hnewest := h.admitted_subset (h.newest_mem_admitted ht)
  constructor
  · intro hnone
    have hnot := hnone _ hnewest
    rw [h.begunAfter_iff (h.ended_subset ht) (h.ended_subset hnewest) rfl] at hnot
    exact Nat.le_antisymm hle (Nat.le_of_not_lt hnot)
  · intro hg other ho hafter
    have hother := h.ended_le other ho
    have hlt := (h.begunAfter_iff (h.ended_subset ht) (h.ended_subset ho) hafter.1).mp hafter
    rw [hafter.1] at hother
    omega

theorem exists_isNewest (h : start.Counted calls) (ht : ticket ∈ ended calls) :
    ∃ newest, newest.url = ticket.url ∧ start.IsNewest calls newest := by
  have hnewest := h.admitted_subset (h.newest_mem_admitted ht)
  exact ⟨⟨ticket.url, (start.run calls).turnstile.newestAdmitted ticket.url⟩, rfl,
    h.isNewest_iff.mpr ⟨hnewest, rfl⟩⟩

theorem mem_admitted_of_isNewest (h : start.Counted calls) (hn : start.IsNewest calls ticket) :
    ticket ∈ start.admitted calls := by
  obtain ⟨ht, hg⟩ := h.isNewest_iff.mp hn
  have hnewest := h.newest_mem_admitted ht
  rwa [← hg] at hnewest

-- The newest generation let in is the largest one that finished, in whatever order they did.
theorem newestAdmitted_le {other : List Call} (h : start.Counted calls)
    (ho : start.Counted other) (hs : ended calls ⊆ ended other) (url : Url) :
    (start.run calls).turnstile.newestAdmitted url ≤
      (start.run other).turnstile.newestAdmitted url := by
  rcases Nat.eq_zero_or_pos ((start.run calls).turnstile.newestAdmitted url) with hz | hpos
  · omega
  · exact ho.ended_le _ (hs (h.admitted_subset (h.newest_admitted url hpos)))

theorem isStale_iff (h : start.Counted calls) (ht : ticket ∈ start.tickets calls)
    (hn : ticket ∉ ended calls) : (start.run calls).turnstile.isStale ticket = true ↔
      ∃ later ∈ start.admitted calls, BegunAfter (start.tickets calls) ticket later := by
  rw [Turnstile.isStale_iff]
  constructor
  · intro hle
    have hpos := h.generation_pos ticket ht
    have hnewest := h.newest_admitted ticket.url (by omega)
    have hended := h.admitted_subset hnewest
    refine ⟨_, hnewest, (h.begunAfter_iff ht (h.ended_subset hended) rfl).mpr ?_⟩
    refine Nat.lt_of_le_of_ne hle fun hg => hn ?_
    dsimp only at hg
    rwa [← hg] at hended
  · rintro ⟨later, hl, hafter⟩
    have hended := h.admitted_subset hl
    have hle := h.ended_le later hended
    have hlt := (h.begunAfter_iff ht (h.ended_subset hended) hafter.1).mp hafter
    rw [hafter.1] at hle
    omega

end Counted

end LiveReload.Reloader
