import LiveReload.Proofs.Graph.Replay
import LiveReload.Proofs.Reloader.Departure
import LiveReload.Proofs.Reloader.Freshness
import LiveReload.Proofs.Reloader.Parses

namespace LiveReload.Reloader

-- A parse that begins and finishes at once, as two calls.
def Call.steps (reloader : Reloader) : Call → List Call
  | .declare url declaration => [.begin url, .finish (reloader.begin url).1 declaration]
  | next => [next]

def spelledOut (reloader : Reloader) : List Call → List Call
  | [] => []
  | next :: calls => next.steps reloader ++ spelledOut (reloader.call next) calls

-- The tickets of all parses of the run, in the order in which they were begun.
def parses (reloader : Reloader) (calls : List Call) : List Ticket :=
  reloader.tickets (reloader.spelledOut calls)

-- The tickets of the parses whose declarations were taken in.
def takenIn (reloader : Reloader) (calls : List Call) : List Ticket :=
  reloader.admitted (reloader.spelledOut calls)

-- A parse that was begun in the run and did not finish in it.
structure Pending (reloader : Reloader) (calls : List Call) (ticket : Ticket) : Prop where
  begun : ticket ∈ reloader.parses calls
  unfinished : ticket ∉ ended (reloader.spelledOut calls)

-- The declaration of `ticket` comes too late.
def IsSuperseded (reloader : Reloader) (calls : List Call) (ticket : Ticket) : Prop :=
  ∃ newer ∈ reloader.takenIn calls, BegunAfter (reloader.parses calls) ticket newer

-- Whether the call leaves the graph alone though it is one that edits it.
def ignores (reloader : Reloader) : Call → Bool
  | .finish ticket _ => reloader.turnstile.isStale ticket
  | .declare url _ => (reloader.begin url).2.turnstile.isStale (reloader.begin url).1
  | .fileChanged event => !reloader.graph.contains event.url
  | _ => false

def effect? (reloader : Reloader) (next : Call) : Option Graph.Edit :=
  if reloader.ignores next then none else next.edit?

-- The edits that the calls of a run make of the graph.
def effects (reloader : Reloader) (calls : List Call) : List Graph.Edit :=
  reloader.observed effect? calls

section Effects

theorem graph_call_eq_elim (reloader : Reloader) (next : Call) :
    (reloader.call next).graph =
      (reloader.effect? next).elim reloader.graph reloader.graph.edit := by
  cases next with
  | edit edit => rfl
  | begin url => rfl
  | finish ticket declaration =>
      rw [call, graph_finish, effect?, ignores]
      split <;> rfl
  | declare url declaration =>
      rw [call, declare, graph_finish, effect?, ignores]
      split <;> rfl
  | fileChanged event =>
      rw [call, reloader_fileChanged, reloader_fileRemoved, effect?, ignores, Call.edit?]
      cases reloader.graph.contains event.url <;> split_ifs <;> simp_all [Graph.edit]
  | remove url => rfl

theorem graph_run (reloader : Reloader) (calls : List Call) :
    (reloader.run calls).graph = (reloader.effects calls).foldl Graph.edit reloader.graph := by
  induction calls generalizing reloader with
  | nil => rfl
  | cons next calls ih =>
      have hnext := reloader.graph_call_eq_elim next
      have hrun := ih (reloader.call next)
      rw [hnext] at hrun
      rw [effects, observed, List.foldl_append]
      cases h : reloader.effect? next <;> (rw [h] at hrun; exact hrun)

end Effects

section SpelledOut

variable {reloader : Reloader} {calls : List Call}

theorem run_steps (reloader : Reloader) (next : Call) :
    reloader.run (next.steps reloader) = reloader.call next := by
  cases next <;> rfl

theorem run_spelledOut (reloader : Reloader) (calls : List Call) :
    reloader.run (reloader.spelledOut calls) = reloader.run calls := by
  induction calls generalizing reloader with
  | nil => rfl
  | cons next calls ih =>
      rw [spelledOut, run_append, run_steps, ih]
      rfl

theorem spelledOut_concat (reloader : Reloader) (calls : List Call) (next : Call) :
    reloader.spelledOut (calls ++ [next]) =
      reloader.spelledOut calls ++ next.steps (reloader.run calls) := by
  induction calls generalizing reloader with
  | nil => exact List.append_nil _
  | cons first calls ih =>
      rw [List.cons_append, spelledOut, ih, spelledOut, List.append_assoc]
      rfl

theorem parses_concat (reloader : Reloader) (calls : List Call) (next : Call) :
    reloader.parses (calls ++ [next]) =
      reloader.parses calls ++ (reloader.run calls).tickets (next.steps (reloader.run calls)) := by
  rw [parses, spelledOut_concat, tickets, observed_append, run_spelledOut]
  rfl

theorem tickets_subset_parses (reloader : Reloader) (calls : List Call) :
    reloader.tickets calls ⊆ reloader.parses calls := by
  induction calls using List.reverseRecOn with
  | nil => exact List.nil_subset _
  | append_singleton calls next ih =>
      rw [tickets_concat, parses_concat]
      have hnext : (handsOut? (reloader.run calls) next).toList ⊆
          (reloader.run calls).tickets (next.steps (reloader.run calls)) := by
        cases next with
        | declare url declaration => exact List.nil_subset _
        | _ => exact List.Subset.refl _
      exact List.append_subset.mpr
        ⟨fun _ ht => List.mem_append_left _ (ih ht), fun _ ht => List.mem_append_right _ (hnext ht)⟩

end SpelledOut

section Invariant

variable {config : Config} {graph : Graph} {calls : List Call}

theorem Own.counted (ho : (ofGraph config graph).Own calls) (hr : ∀ url, Call.remove url ∉ calls) :
    (ofGraph config graph).Counted ((ofGraph config graph).spelledOut calls) := by
  induction calls using List.reverseRecOn with
  | nil => exact Counted.nil config graph
  | append_singleton calls next ih =>
      have ih := ih ho.of_concat fun url hm => hr url (List.mem_append_left _ hm)
      rw [spelledOut_concat]
      cases next with
      | begin url => exact ih.begin url
      | finish ticket declaration =>
          exact ih.finish (tickets_subset_parses _ _ (ho calls ticket declaration [] rfl))
      | declare url declaration =>
          have hbegin := ih.begin url
          rw [Call.steps, List.append_cons]
          apply hbegin.finish
          rw [tickets_concat, run_spelledOut]
          exact List.mem_append_right _ List.mem_cons_self
      | edit edit => exact ih.concat_of_turnstile_eq rfl rfl rfl (turnstile_call _ _)
      | fileChanged event => exact ih.concat_of_turnstile_eq rfl rfl rfl (turnstile_call _ _)
      | remove url => exact absurd (List.mem_append_right _ List.mem_cons_self) (hr url)

theorem isStale_iff_isSuperseded (ho : (ofGraph config graph).Own calls)
    (hr : ∀ url, Call.remove url ∉ calls) {ticket : Ticket}
    (hp : (ofGraph config graph).Pending calls ticket) :
    ((ofGraph config graph).run calls).turnstile.isStale ticket = true ↔
      (ofGraph config graph).IsSuperseded calls ticket := by
  rw [← run_spelledOut]
  exact (ho.counted hr).isStale_iff hp.begun hp.unfinished

end Invariant

-- Once its file was removed, `url` references what it was last said to reference since then. A parse
-- is stopped by one begun later that was taken in, on whichever side of the removal either began.
theorem removal_overtakes_no_parse (config : Config) (edits : List Graph.Edit)
    (before later : List Call) (url : Url) :
    let start := ofGraph config (Graph.ofEdits edits)
    let gone : Call := .fileChanged ⟨url, .removed⟩
    let calls := before ++ gone :: later
    let cleared := start.run (before ++ [gone])
    let reloader := start.run calls
    start.Own calls → (∀ other, Call.remove other ∉ calls) →
      (reloader.graph.dependenciesOf url).toList = Graph.references url (cleared.effects later) ∧
        ∀ ticket, start.Pending calls ticket → ∀ declaration,
          (start.IsSuperseded calls ticket →
            (reloader.finish ticket declaration).result = ⟨reloader, none⟩) ∧
          (¬start.IsSuperseded calls ticket →
            (reloader.finish ticket declaration).result.reloader.graph =
              (reloader.graph.declare ticket.url declaration).result.graph) := by
  intro start gone calls cleared reloader ho hr
  constructor
  · have hwf : cleared.graph.WellFormed := wellFormed_run (Graph.wellFormed_ofEdits edits) _
    have hempty : cleared.graph.dependenciesOf url = ∅ := by
      simp only [cleared, run_concat]
      exact Call.Clears.fileRemoved.dependenciesOf (start.run before)
    have hrun : reloader = cleared.run later := by
      simp only [reloader, calls, cleared, run_append]
      rfl
    rw [hrun, graph_run]
    exact Graph.toList_dependenciesOf_foldl_edit hwf hempty _
  · intro ticket hp declaration
    have hstale := isStale_iff_isSuperseded ho hr hp
    refine ⟨fun hs => ?_, fun hs => ?_⟩
    · have hpos := (ho.counted hr).generation_pos ticket hp.begun
      exact result_finish_of_issued_stale hpos (hstale.mpr hs)
    · rw [graph_finish, if_neg (mt hstale.mp hs)]

-- Three parses of `a.js` are begun before its file is removed; the second finishes after that, and
-- then stops the first, but not the third.
theorem second_of_three_parses_taken_in :
    let edits : List Graph.Edit := [.declare "a.js" { dependencies := some ["b.js"] }]
    let before : List Call := [.begin "a.js", .begin "a.js", .begin "a.js"]
    let gone : Call := .fileChanged ⟨"a.js", .removed⟩
    let later : List Call := [.finish ⟨"a.js", 2⟩ { dependencies := some ["c.js"] }]
    let start := ofGraph {} (Graph.ofEdits edits)
    let calls := before ++ gone :: later
    let reloader := start.run calls
    let first : Ticket := ⟨"a.js", 1⟩
    let third : Ticket := ⟨"a.js", 3⟩
    let declaration : Declaration := { dependencies := some ["d.js"] }
    start.Own calls ∧ (∀ other, Call.remove other ∉ calls) ∧
      start.Pending calls first ∧ start.IsSuperseded calls first ∧
      start.Pending calls third ∧ ¬start.IsSuperseded calls third ∧
      (reloader.graph.dependenciesOf "a.js").toList = ["c.js"] ∧
      (reloader.finish first declaration).result = ⟨reloader, none⟩ ∧
      ((reloader.finish third declaration).result.reloader.graph.dependenciesOf "a.js").toList =
        ["d.js"] := by
  intro edits before gone later start calls reloader first third declaration
  have ho : start.Own calls := by
    intro former ticket declaration after hc
    rcases former with _ | ⟨_, _ | ⟨_, _ | ⟨_, _ | ⟨_, _ | ⟨_, former⟩⟩⟩⟩⟩ <;>
      simp [calls, before, gone, later] at hc
    obtain ⟨rfl, rfl, rfl, rfl, ⟨rfl, rfl⟩, rfl⟩ := hc
    decide +kernel
  have hr : ∀ other, Call.remove other ∉ calls := by
    simp [calls, before, gone, later]
  have hfirst : start.Pending calls first := ⟨by decide +kernel, by decide +kernel⟩
  have hthird : start.Pending calls third := ⟨by decide +kernel, by decide +kernel⟩
  have hparses : start.parses calls = [first, ⟨"a.js", 2⟩, third] := by decide +kernel
  have htaken : start.takenIn calls = [⟨"a.js", 2⟩] := by decide +kernel
  have hlate : start.IsSuperseded calls first := by
    refine ⟨⟨"a.js", 2⟩, ?_, rfl, [], [⟨"a.js", 2⟩, third], hparses, List.mem_cons_self⟩
    rw [htaken]
    exact List.mem_cons_self
  have hlast : ¬start.IsSuperseded calls third := by
    rintro ⟨newer, hn, hafter⟩
    rw [htaken, List.mem_singleton] at hn
    subst hn
    have hsecond : ⟨"a.js", 2⟩ ∈ start.parses calls := by decide +kernel
    have hlt := ((ho.counted hr).begunAfter_iff hthird.begun hsecond rfl).mp hafter
    exact absurd hlt (by decide)
  obtain ⟨hreferences, hparse⟩ := removal_overtakes_no_parse {} edits before later "a.js" ho hr
  have hlisted : (reloader.graph.dependenciesOf "a.js").toList = ["c.js"] :=
    hreferences.trans (by decide +kernel)
  have hrelisted :
      ((reloader.finish third declaration).result.reloader.graph.dependenciesOf "a.js").toList =
        ["d.js"] := by
    rw [(hparse third hthird declaration).2 hlast, Graph.dependenciesOf_declare, if_pos rfl]
    rfl
  exact ⟨ho, hr, hfirst, hlate, hthird, hlast, hlisted,
    (hparse first hfirst declaration).1 hlate, hrelisted⟩

-- `a.js` references `b.js`. Its file is removed after a second parse was begun, which finds the
-- reference that was there before.
theorem removal_undone_by_late_parse :
    let declaration : Declaration := { dependencies := some ["b.js"] }
    let before : List Call := [.declare "a.js" declaration, .begin "a.js"]
    let late : Ticket := ⟨"a.js", 2⟩
    let cleared := (empty {}).run (before ++ [.fileChanged ⟨"a.js", .removed⟩])
    late ∈ (empty {}).tickets before ∧
      ((empty {}).run before).graph.contains "a.js" = true ∧
      (cleared.graph.dependenciesOf "a.js").toList = [] ∧
      ((cleared.finish late declaration).result.reloader.graph.dependenciesOf "a.js").toList =
        ["b.js"] := by
  decide +kernel

end LiveReload.Reloader
