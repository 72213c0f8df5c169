import LiveReload.Proofs.Turnstile.Transcript
import Mathlib.Data.Finset.Card

namespace LiveReload.Turnstile

-- The URLs that a generation is kept of, be it of a ticket issued or of one admitted.
def known (turnstile : Turnstile) : Finset Url :=
  turnstile.issued.keys.toFinset ∪ turnstile.admitted.keys.toFinset

def Request.shows (url : Url) : Request → Bool
  | .pass ticket => ticket.url = url
  | _ => false

-- How many tickets for `url` were shown since it was forgotten, let through or not.
def shown (url : Url) (entries : List Entry) : Nat :=
  (since url entries).countP (·.request.shows url)

-- The ticket that was handed out.
def Entry.issued? : Entry → Option Ticket
  | ⟨_, .ticket ticket⟩ => some ticket
  | _ => none

def issuedIn (entries : List Entry) : List Ticket := entries.filterMap Entry.issued?

-- Only tickets handed out in the course of the run are shown in it.
def Own (requests : List Request) : Prop :=
  ∀ before ticket after, requests = before ++ .pass ticket :: after →
    ticket ∈ issuedIn ((∅ : Turnstile).transcript before)

section Keys

variable {turnstile : Turnstile} {url : Url}

theorem mem_known :
    url ∈ turnstile.known ↔ url ∈ turnstile.issued.keys ∨ url ∈ turnstile.admitted.keys := by
  rw [known, Finset.mem_union, List.mem_toFinset, List.mem_toFinset]

@[simp] theorem issued_pass (turnstile : Turnstile) (ticket : Ticket) :
    (turnstile.pass ticket).result.2.issued = turnstile.issued := by
  unfold pass
  dsimp only
  split <;> rfl

-- A ticket that is turned away leaves an entry for its URL all the same.
theorem keys_admitted_pass (turnstile : Turnstile) (ticket : Ticket) :
    (turnstile.pass ticket).result.2.admitted.keys =
      (turnstile.admitted.insert ticket.url ticket.generation).keys := by
  unfold pass
  dsimp only
  split <;> simp only [Logged.result_pure, Table.keys_insert]

theorem mem_keys_issued_respond (turnstile : Turnstile) (url : Url) (request : Request) :
    url ∈ (turnstile.respond request).2.issued.keys ↔
      request ≠ .forget url ∧ (request = .issue url ∨ url ∈ turnstile.issued.keys) := by
  cases request with
  | issue other => simp [respond, issue, Table.mem_keys_insert, eq_comm]
  | pass ticket => simp [respond]
  | forget other => simp [respond, forget, and_comm, eq_comm (a := url)]

theorem mem_keys_admitted_respond (turnstile : Turnstile) (url : Url) (request : Request) :
    url ∈ (turnstile.respond request).2.admitted.keys ↔
      request ≠ .forget url ∧ (request.shows url = true ∨ url ∈ turnstile.admitted.keys) := by
  cases request with
  | issue other => simp [respond, issue, Request.shows]
  | pass ticket =>
      simp [respond, keys_admitted_pass, Table.mem_keys_insert, Request.shows, eq_comm]
  | forget other => simp [respond, forget, Request.shows, and_comm, eq_comm (a := url)]

end Keys

theorem shown_concat (url : Url) (entries : List Entry) (entry : Entry) :
    shown url (entries ++ [entry]) = if entry.request = .forget url then 0
      else shown url entries + if entry.request.shows url then 1 else 0 := by
  rw [shown, since_concat]
  split
  · rfl
  · rw [List.countP_append, List.countP_singleton, shown]

-- Which URLs a turnstile keeps generations of is what its transcript says.
structure Records (turnstile : Turnstile) (entries : List Entry) : Prop where
  issued : ∀ url, url ∈ turnstile.issued.keys ↔ 0 < begun url entries
  admitted : ∀ url, url ∈ turnstile.admitted.keys ↔ 0 < shown url entries

theorem Records.respond {turnstile : Turnstile} {entries : List Entry}
    (h : turnstile.Records entries) (request : Request) :
    (turnstile.respond request).2.Records
      (entries ++ [⟨request, (turnstile.respond request).1⟩]) where
  issued url := by
    rw [mem_keys_issued_respond, begun_concat, h.issued]
    by_cases hforget : request = .forget url
    · simp [hforget]
    · by_cases hissue : request = .issue url <;> simp [hforget, hissue]
  admitted url := by
    rw [mem_keys_admitted_respond, shown_concat, h.admitted]
    by_cases hforget : request = .forget url
    · simp [hforget]
    · by_cases hshows : request.shows url = true <;> simp [hforget, hshows]

theorem records_serve (requests : List Request) :
    ((∅ : Turnstile).serve requests).Records ((∅ : Turnstile).transcript requests) := by
  induction requests using List.reverseRecOn with
  | nil =>
      exact ⟨fun _ => iff_of_false List.not_mem_nil (Nat.lt_irrefl 0),
        fun _ => iff_of_false List.not_mem_nil (Nat.lt_irrefl 0)⟩
  | append_singleton requests next ih =>
      rw [serve_append, transcript_append]
      exact ih.respond next

section Count

theorem card_keys {α : Type} (table : Table α) : table.keys.toFinset.card = table.size := by
  rw [Table.keys, List.toFinset_card_of_nodup table.nodup, List.length_map, Table.size]

-- The larger of two sets falls short of their union by what the smaller one has for itself.
theorem card_union_eq_max_add_min {α : Type} [DecidableEq α] (s t : Finset α) :
    (s ∪ t).card = max s.card t.card + min (s \ t).card (t \ s).card := by
  have hunion := Finset.card_union_add_card_inter s t
  have hs := Finset.card_sdiff_add_card_inter s t
  have ht := Finset.card_sdiff_add_card_inter t s
  rw [Finset.inter_comm] at ht
  omega

variable {turnstile : Turnstile} {entries : List Entry}

theorem Records.mem_known_iff (h : turnstile.Records entries) (url : Url) :
    url ∈ turnstile.known ↔ 0 < begun url entries ∨ 0 < shown url entries := by
  rw [mem_known, h.issued, h.admitted]

theorem Records.card_known (h : turnstile.Records entries) :
    turnstile.known.card = turnstile.tracked +
      min {url ∈ turnstile.known | shown url entries = 0}.card
        {url ∈ turnstile.known | begun url entries = 0}.card := by
  have hunshown : {url ∈ turnstile.known | shown url entries = 0} =
      turnstile.issued.keys.toFinset \ turnstile.admitted.keys.toFinset := by
    rw [← Finset.union_sdiff_right, Finset.sdiff_eq_filter]
    refine Finset.filter_congr fun url _ => ?_
    rw [List.mem_toFinset, h.admitted, Nat.pos_iff_ne_zero, not_not]
  have hleft : {url ∈ turnstile.known | begun url entries = 0} =
      turnstile.admitted.keys.toFinset \ turnstile.issued.keys.toFinset := by
    rw [← Finset.union_sdiff_left, Finset.sdiff_eq_filter]
    refine Finset.filter_congr fun url _ => ?_
    rw [List.mem_toFinset, h.issued, Nat.pos_iff_ne_zero, not_not]
  rw [hunshown, hleft, known, card_union_eq_max_add_min, card_keys, card_keys, tracked]

end Count

-- After `url` was forgotten for the last time, no ticket for it is issued, but one from before is
-- shown.
def LeavesOver (url : Url) (requests : List Request) : Prop :=
  ∃ before later ticket, requests = before ++ .forget url :: later ∧
    .forget url ∉ later ∧ .issue url ∉ later ∧ .pass ticket ∈ later ∧ ticket.url = url ∧
    ticket ∈ issuedIn ((∅ : Turnstile).transcript before)

section LeftOver

variable {url : Url} {before later requests : List Request} {ticket : Ticket}

theorem map_request_transcript (turnstile : Turnstile) (requests : List Request) :
    (turnstile.transcript requests).map Entry.request = requests := by
  induction requests generalizing turnstile with
  | nil => rfl
  | cons request requests ih => rw [transcript, List.map_cons, ih]

theorem issue_mem_of_mem_issuedIn {turnstile : Turnstile}
    (h : ticket ∈ issuedIn (turnstile.transcript requests)) : .issue ticket.url ∈ requests := by
  induction requests generalizing turnstile with
  | nil => cases h
  | cons request requests ih =>
      obtain ⟨entry, he, hticket⟩ := List.mem_filterMap.mp h
      rcases List.mem_cons.mp he with rfl | he
      · cases request with
        | issue url =>
            obtain rfl : (turnstile.issue url).1 = ticket := Option.some.inj hticket
            exact List.mem_cons_self
        | pass _ => cases hticket
        | forget _ => cases hticket
      · exact List.mem_cons_of_mem _ (ih (List.mem_filterMap.mpr ⟨entry, he, hticket⟩))

theorem since_append_cons {entry : Entry} (he : entry.request = .forget url)
    (former entries : List Entry) :
    since url (former ++ entry :: entries) = since url entries := by
  induction entries using List.reverseRecOn with
  | nil => exact (since_concat ..).trans (if_pos he)
  | append_singleton entries next ih =>
      rw [← List.cons_append, ← List.append_assoc, since_concat, since_concat, ih]

theorem since_transcript (turnstile : Turnstile) (h : .forget url ∉ requests) :
    since url (turnstile.transcript requests) = turnstile.transcript requests := by
  refine List.rtakeWhile_eq_self_iff.mpr fun entry he => decide_eq_true ?_
  intro heq
  apply h
  rw [← map_request_transcript turnstile requests, ← heq]
  exact List.mem_map_of_mem he

-- What is left of a run that forgets `url` and then forgets it no more.
theorem since_transcript_forgetting (hf : .forget url ∉ later) :
    since url ((∅ : Turnstile).transcript (before ++ .forget url :: later)) =
      (((∅ : Turnstile).serve before).forget url).transcript later := by
  rw [transcript_append, transcript, since_append_cons rfl, since_transcript _ hf]
  rfl

theorem countP_transcript (turnstile : Turnstile) (requests : List Request) (p : Request → Bool) :
    (turnstile.transcript requests).countP (p ·.request) = requests.countP p := by
  conv_rhs => rw [← map_request_transcript turnstile requests, List.countP_map]
  rfl

section Since

variable {turnstile : Turnstile} {entries : List Entry}

theorem begun_eq_zero_iff (h : since url entries = turnstile.transcript later) :
    begun url entries = 0 ↔ .issue url ∉ later := by
  rw [begun, h, countP_transcript turnstile later (· = .issue url), List.countP_eq_zero]
  simp only [decide_eq_true_eq, List.forall_mem_ne']

theorem shown_pos_iff (h : since url entries = turnstile.transcript later) :
    0 < shown url entries ↔ ∃ ticket, .pass ticket ∈ later ∧ ticket.url = url := by
  rw [shown, h, countP_transcript turnstile later (·.shows url), List.countP_pos_iff]
  constructor
  · rintro ⟨request, hm, hs⟩
    cases request with
    | pass ticket => exact ⟨ticket, hm, of_decide_eq_true hs⟩
    | issue _ => cases hs
    | forget _ => cases hs
  · rintro ⟨ticket, hm, hu⟩
    exact ⟨.pass ticket, hm, decide_eq_true hu⟩

end Since

-- A ticket that is shown though none for its URL was issued since is from before.
theorem Own.mem_issuedIn (ho : Own (before ++ later)) (hp : .pass ticket ∈ later)
    (hi : .issue ticket.url ∉ later) : ticket ∈ issuedIn ((∅ : Turnstile).transcript before) := by
  obtain ⟨mid, rest, rfl⟩ := List.append_of_mem hp
  have hissued := ho (before ++ mid) ticket rest (List.append_assoc ..).symm
  rw [transcript_append, issuedIn, List.filterMap_append, List.mem_append] at hissued
  refine hissued.resolve_right fun hmid => hi ?_
  exact List.mem_append_left _ (issue_mem_of_mem_issuedIn hmid)

theorem exists_last_of_mem {request : Request} (h : request ∈ requests) :
    ∃ before later, requests = before ++ request :: later ∧ request ∉ later := by
  obtain ⟨later, before, hr, hn⟩ := List.eq_append_cons_of_mem (List.mem_reverse.mpr h)
  refine ⟨before.reverse, later.reverse, ?_, mt List.mem_reverse.mp hn⟩
  rw [← List.reverse_reverse requests, hr, List.reverse_append, List.reverse_cons,
    List.append_assoc, List.singleton_append]

theorem Own.leavesOver_iff (ho : Own requests) :
    LeavesOver url requests ↔
      0 < shown url ((∅ : Turnstile).transcript requests) ∧
        begun url ((∅ : Turnstile).transcript requests) = 0 := by
  constructor
  · rintro ⟨before, later, ticket, rfl, hf, hi, hp, hu, -⟩
    rw [shown_pos_iff (since_transcript_forgetting hf), begun_eq_zero_iff (since_transcript_forgetting hf)]
    exact ⟨⟨ticket, hp, hu⟩, hi⟩
  · intro h
    by_cases hforget : .forget url ∈ requests
    · obtain ⟨before, later, rfl, hf⟩ := exists_last_of_mem hforget
      rw [shown_pos_iff (since_transcript_forgetting hf), begun_eq_zero_iff (since_transcript_forgetting hf)] at h
      obtain ⟨⟨ticket, hp, rfl⟩, hi⟩ := h
      refine ⟨before, later, ticket, rfl, hf, hi, hp, rfl, ?_⟩
      exact ho.mem_issuedIn (List.mem_cons_of_mem _ hp) (by simp [hi])
    -- a URL that was never forgotten has a ticket issued before one is shown
    · have hall := since_transcript ∅ hforget
      rw [shown_pos_iff hall, begun_eq_zero_iff hall] at h
      obtain ⟨⟨ticket, hp, rfl⟩, hi⟩ := h
      have hstart : Own ([] ++ requests) := ho
      cases hstart.mem_issuedIn hp hi

end LeftOver

-- The larger table alone is counted. It misses the URLs that no ticket was shown for since they were
-- begun, or else those that only a ticket from before they were forgotten was shown for.
theorem tracked_of_transcript (requests : List Request) :
    let turnstile := (∅ : Turnstile).serve requests
    let entries := (∅ : Turnstile).transcript requests
    let unshown : Finset Url := {url ∈ turnstile.known | shown url entries = 0}
    let leftOver : Finset Url := {url ∈ turnstile.known | begun url entries = 0}
    (∀ url, url ∈ turnstile.known ↔ 0 < begun url entries ∨ 0 < shown url entries) ∧
      turnstile.known.card = turnstile.tracked + min unshown.card leftOver.card ∧
      (turnstile.tracked = turnstile.known.card ↔ unshown = ∅ ∨ leftOver = ∅) ∧
      (Own requests → ∀ url, url ∈ leftOver ↔ LeavesOver url requests) := by
  intro turnstile entries unshown leftOver
  have h : turnstile.Records entries := records_serve requests
  have hcard : turnstile.known.card = turnstile.tracked + min unshown.card leftOver.card :=
    h.card_known
  refine ⟨h.mem_known_iff, hcard, ?_, fun ho url => ?_⟩
  · rw [hcard, Nat.left_eq_add, Nat.min_eq_zero_iff, Finset.card_eq_zero, Finset.card_eq_zero]
  · rw [ho.leavesOver_iff, Finset.mem_filter, h.mem_known_iff]
    constructor
    · rintro ⟨hknown, hbegun⟩
      exact ⟨hknown.resolve_left (by omega), hbegun⟩
    · rintro ⟨hshown, hbegun⟩
      exact ⟨Or.inr hshown, hbegun⟩

-- Of `a.js` only the ticket from before it was forgotten was shown, of `b.js` and `c.js` none yet.
theorem left_over_untracked :
    let requests : List Request := [.issue "a.js", .forget "a.js", .pass ⟨"a.js", 1⟩,
      .issue "b.js", .issue "c.js"]
    let turnstile := (∅ : Turnstile).serve requests
    Own requests ∧ LeavesOver "a.js" requests ∧ turnstile.tracked = 2 ∧
      turnstile.known.card = turnstile.tracked + 1 := by
  intro requests turnstile
  have ho : Own requests := by
    intro before ticket after hr
    rcases before with _ | ⟨_, _ | ⟨_, _ | ⟨_, _ | ⟨_, _ | ⟨_, before⟩⟩⟩⟩⟩ <;>
      simp [requests] at hr
    obtain ⟨rfl, rfl, rfl, rfl⟩ := hr
    decide
  obtain ⟨-, hcard, -, hleft⟩ := tracked_of_transcript requests
  exact ⟨ho, (hleft ho "a.js").mp (by decide), by decide, hcard.trans (by decide)⟩

-- Two URLs have a generation, and one is said to be tracked.
theorem one_tracked_of_two_known :
    let requests : List Request := [.issue "a.js", .forget "a.js", .pass ⟨"a.js", 1⟩,
      .issue "b.js"]
    let turnstile := (∅ : Turnstile).serve requests
    Own requests ∧ turnstile.known.card = 2 ∧ turnstile.tracked = 1 := by
  refine ⟨?_, by decide, by decide⟩
  intro before ticket after hr
  rcases before with _ | ⟨_, _ | ⟨_, _ | ⟨_, _ | ⟨_, before⟩⟩⟩⟩ <;> simp at hr
  obtain ⟨rfl, rfl, rfl, rfl⟩ := hr
  decide

end LiveReload.Turnstile
