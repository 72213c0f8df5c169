import LiveReload.Proofs.Reloader.Parses
import LiveReload.Proofs.Session

namespace LiveReload

-- Nothing is left to what was there before.
structure Declaration.IsFull (declaration : Declaration) : Prop where
  kind : declaration.kind.isSome
  dependencies : declaration.dependencies.isSome
  declines : declaration.declines.isSome
  selfAccepts : declaration.selfAccepts.isSome
  accepted : declaration.accepted.isSome

-- The resource is what the declaration says, field by field.
structure Resource.Reflects (resource : Resource) (declaration : Declaration) : Prop where
  kind : declaration.kind = some resource.kind
  dependencies : declaration.dependencies.map UrlSet.ofList = some resource.dependencies
  declines : declaration.declines = some resource.declines
  selfAccepts : declaration.selfAccepts = some resource.selfAccepts
  accepted : declaration.accepted.map UrlSet.ofList = some resource.accepted

namespace Graph

def Reflects (graph : Graph) (url : Url) (declaration : Declaration) : Prop :=
  ∃ resource, graph.get? url = some resource ∧ resource.Reflects declaration

variable {graph : Graph} {url other : Url} {declaration : Declaration}

theorem reflects_declare_self (h : declaration.IsFull) :
    (graph.declare url declaration).result.graph.Reflects url declaration := by
  obtain ⟨kind, hk⟩ := Option.isSome_iff_exists.mp h.kind
  obtain ⟨dependencies, hd⟩ := Option.isSome_iff_exists.mp h.dependencies
  obtain ⟨declines, hl⟩ := Option.isSome_iff_exists.mp h.declines
  obtain ⟨selfAccepts, hs⟩ := Option.isSome_iff_exists.mp h.selfAccepts
  obtain ⟨accepted, ha⟩ := Option.isSome_iff_exists.mp h.accepted
  refine ⟨_, get?_declare_self, ?_⟩
  constructor <;> simp [Resource.declare, hk, hd, hl, hs, ha]

theorem Reflects.declare_of_ne (h : graph.Reflects url declaration) (hne : url ≠ other)
    (another : Declaration) :
    (graph.declare other another).result.graph.Reflects url declaration := by
  obtain ⟨resource, hr, hk, hd, hl, hs, ha⟩ := h
  exact ⟨_, get?_declare_of_ne hne hr, hk, hd, hl, hs, ha⟩

theorem Reflects.dependenciesOf (h : graph.Reflects url declaration) :
    declaration.dependencies.map UrlSet.ofList = some (graph.dependenciesOf url) := by
  obtain ⟨resource, hr, hf⟩ := h
  rw [dependenciesOf_of_get? hr]
  exact hf.dependencies

end Graph

namespace Reloader

section Orderly

variable {start : Reloader} {carried : Ticket → Declaration} {calls before after : List Call}

theorem Orderly.of_concat {whole : List Call} (h : Orderly start carried whole) {next : Call}
    (hw : whole = calls ++ [next]) : Orderly start carried calls ∧
      ∀ ticket declaration, next = .finish ticket declaration →
        ticket ∈ start.tickets calls ∧ ticket ∉ ended calls := by
  cases h with
  | nil => simp at hw
  | begin url h =>
      obtain ⟨rfl, hn⟩ := List.append_inj' hw rfl
      cases hn
      exact ⟨h, fun _ _ hf => nomatch hf⟩
  | finish h ht hfirst =>
      obtain ⟨rfl, hn⟩ := List.append_inj' hw rfl
      cases hn
      refine ⟨h, fun ticket declaration hf => ?_⟩
      cases hf
      exact ⟨ht, hfirst⟩
  | notice h hk =>
      obtain ⟨rfl, hn⟩ := List.append_inj' hw rfl
      cases hn
      exact ⟨h, fun _ _ hf => nomatch hf⟩

theorem Orderly.of_append {ticket : Ticket} {declaration : Declaration}
    (h : Orderly start carried (before ++ .finish ticket declaration :: after)) :
    Orderly start carried before ∧ ticket ∈ start.tickets before ∧ ticket ∉ ended before := by
  induction after using List.reverseRecOn with
  | nil =>
      obtain ⟨hb, hf⟩ := h.of_concat rfl
      exact ⟨hb, hf ticket declaration rfl⟩
  | append_singleton after next ih =>
      rw [← List.cons_append, ← List.append_assoc] at h
      exact ih (h.of_concat rfl).1

end Orderly

section FromStart

variable {config : Config} {graph : Graph} {carried : Ticket → Declaration} {calls : List Call}

-- Parses of other resources never touch the fields of this one.
theorem Orderly.reflects_run (h : Orderly (ofGraph config graph) carried calls)
    (hfull : ∀ ticket ∈ ended calls, (carried ticket).IsFull) {ticket : Ticket}
    (ht : ticket ∈ (ofGraph config graph).admitted calls)
    (hnewest : ticket.generation =
      ((ofGraph config graph).run calls).turnstile.newestAdmitted ticket.url) :
    ((ofGraph config graph).run calls).graph.Reflects ticket.url (carried ticket) := by
  induction h with
  | nil => cases ht
  | begin url _ ih =>
      rw [run_concat] at hnewest ⊢
      rw [ended_concat] at hfull
      rw [admitted_concat] at ht
      exact ih (fun other ho => hfull other (List.mem_append_left _ ho))
        (by simpa [letsIn?] using ht) hnewest
  | notice _ hk ih =>
      rw [run_concat, call_notice _ hk] at hnewest ⊢
      rw [ended_concat] at hfull
      rw [admitted_concat] at ht
      exact ih (fun other ho => hfull other (List.mem_append_left _ ho))
        (by simpa [letsIn?] using ht) hnewest
  | @finish calls next horderly _ _ ih =>
      rw [ended_concat] at hfull
      have hfull' : ∀ other ∈ ended calls, (carried other).IsFull :=
        fun other ho => hfull other (List.mem_append_left _ ho)
      rw [run_concat, turnstile_call, Turnstile.newestAdmitted_pass] at hnewest
      rw [run_concat, call, graph_finish]
      rw [admitted_concat] at ht
      cases hs : ((ofGraph config graph).run calls).turnstile.isStale next with
      | true =>
          have hle := Turnstile.isStale_iff.mp hs
          rw [if_pos rfl]
          apply ih hfull' (by simpa [letsIn?, hs] using ht)
          split at hnewest
          · rename_i hu
            rwa [hu, Nat.max_eq_right hle, ← hu] at hnewest
          · exact hnewest
      | false =>
          have hlt : ¬_ := mt Turnstile.isStale_iff.mpr (Bool.eq_false_iff.mp hs)
          rw [if_neg Bool.false_ne_true]
          rcases List.mem_append.mp ht with hold | hnew
          · -- of the same URL, `next` would be the newest now
            have hne : ticket.url ≠ next.url := by
              intro hu
              have hle := horderly.counted.ended_le ticket (horderly.counted.admitted_subset hold)
              rw [if_pos hu] at hnewest
              rw [hu] at hle hnewest
              omega
            rw [if_neg hne] at hnewest
            exact (ih hfull' hold hnewest).declare_of_ne hne _
          · obtain rfl : ticket = next := by simpa [letsIn?, hs] using hnew
            exact Graph.reflects_declare_self
              (hfull ticket (List.mem_append_right _ (List.mem_singleton.mpr rfl)))

theorem Orderly.dependenciesOf_run (h : Orderly (ofGraph config graph) carried calls) {source : Url}
    (hn : ∀ ticket ∈ (ofGraph config graph).admitted calls, ticket.url ≠ source) :
    ((ofGraph config graph).run calls).graph.dependenciesOf source =
      graph.dependenciesOf source := by
  induction h with
  | nil => rfl
  | begin url _ ih =>
      rw [admitted_concat] at hn
      rw [run_concat]
      exact ih fun ticket ht => hn ticket (List.mem_append_left _ ht)
  | notice _ hk ih =>
      rw [admitted_concat] at hn
      rw [run_concat, call_notice _ hk]
      exact ih fun ticket ht => hn ticket (List.mem_append_left _ ht)
  | @finish calls next _ _ _ ih =>
      rw [admitted_concat] at hn
      have ih := ih fun ticket ht => hn ticket (List.mem_append_left _ ht)
      rw [run_concat, call, graph_finish]
      cases hs : ((ofGraph config graph).run calls).turnstile.isStale next with
      | true => exact ih
      | false =>
          have hne : next.url ≠ source := hn next (List.mem_append_right _ (by simp [letsIn?, hs]))
          rw [if_neg Bool.false_ne_true, Graph.dependenciesOf_declare, if_neg (Ne.symm hne)]
          exact ih

-- What becomes of a ticket that is handed in after the calls `before`.
structure Settled (start : Reloader) (before : List Call) (ticket : Ticket)
    (declaration : Declaration) : Prop where
  discarded_iff : ((start.run before).turnstile.pass ticket).result.1 = false ↔
    ∃ later ∈ start.admitted before, BegunAfter (start.tickets before) ticket later
  taken_in : ((start.run before).turnstile.pass ticket).result.1 = true →
    ((start.run before).finish ticket declaration).result.reloader.graph =
      ((start.run before).graph.declare ticket.url declaration).result.graph
  unchanged : ((start.run before).turnstile.pass ticket).result.1 = false →
    ((start.run before).finish ticket declaration).result = ⟨start.run before, none⟩
  untold : ((start.run before).turnstile.pass ticket).result.1 = false →
    ∀ (session : Session) (react : Nat → Session.Command → Session.Run Session.Reply) (on : Nat)
      (desk : Session.Desk) (name : String), session.desks[on]? = some desk →
      session.reloaderAt desk = start.run before → session.tickets.get? name = some ticket →
      (Session.perform react on desk (.finish name declaration)).run session =
        .ok (.nothing, { session with
          log := session.log ++ ((start.run before).finish ticket declaration).log })

theorem Orderly.settled {before after : List Call} {ticket : Ticket} {declaration : Declaration}
    (h : Orderly (ofGraph config graph) carried (before ++ .finish ticket declaration :: after)) :
    (ofGraph config graph).Settled before ticket declaration := by
  obtain ⟨hb, ht, hn⟩ := h.of_append
  have hpass := Turnstile.result_pass_eq_not ((ofGraph config graph).run before).turnstile ticket
  have hunchanged : (((ofGraph config graph).run before).turnstile.pass ticket).result.1 = false →
      (((ofGraph config graph).run before).finish ticket declaration).result =
        ⟨(ofGraph config graph).run before, none⟩ := by
    intro hs
    rw [hpass, Bool.not_eq_false'] at hs
    exact result_finish_of_issued_stale (hb.counted.generation_pos ticket ht) hs
  refine ⟨?_, ?_, hunchanged, ?_⟩
  · rw [hpass, Bool.not_eq_false', hb.counted.isStale_iff ht hn]
  · intro hs
    rw [hpass, Bool.not_eq_true'] at hs
    rw [graph_finish, hs, if_neg Bool.false_ne_true]
  · intro hs session react on desk name hd hr hname
    rw [Session.perform_finish hname, ← hr]
    apply Session.settle_of_idle hd
    rw [hr]
    exact hunchanged hs

-- Runs in which the same parses finish agree on which of them was begun last.
theorem isNewest_congr {other : List Call} {ticket : Ticket}
    (hc : Orderly (ofGraph config graph) carried calls)
    (ho : Orderly (ofGraph config graph) carried other)
    (hs : ∀ ticket, ticket ∈ ended calls ↔ ticket ∈ ended other) :
    (ofGraph config graph).IsNewest calls ticket ↔
      (ofGraph config graph).IsNewest other ticket := by
  have hnewest : ((ofGraph config graph).run calls).turnstile.newestAdmitted ticket.url =
      ((ofGraph config graph).run other).turnstile.newestAdmitted ticket.url :=
    Nat.le_antisymm
      (hc.counted.newestAdmitted_le ho.counted (fun other ho => (hs other).mp ho) ticket.url)
      (ho.counted.newestAdmitted_le hc.counted (fun other ho => (hs other).mpr ho) ticket.url)
  rw [hc.counted.isNewest_iff, ho.counted.isNewest_iff, hs, hnewest]

theorem Orderly.reflects_of_isNewest (h : Orderly (ofGraph config graph) carried calls)
    (hfull : ∀ ticket ∈ ended calls, (carried ticket).IsFull) {ticket : Ticket}
    (hn : (ofGraph config graph).IsNewest calls ticket) :
    ((ofGraph config graph).run calls).graph.Reflects ticket.url (carried ticket) :=
  h.reflects_run hfull (h.counted.mem_admitted_of_isNewest hn) (h.counted.isNewest_iff.mp hn).2

theorem dependenciesOf_run_congr {other : List Call}
    (hc : Orderly (ofGraph config graph) carried calls)
    (ho : Orderly (ofGraph config graph) carried other)
    (hfull : ∀ ticket ∈ ended calls, (carried ticket).IsFull)
    (hs : ∀ ticket, ticket ∈ ended calls ↔ ticket ∈ ended other) (source : Url) :
    ((ofGraph config graph).run calls).graph.dependenciesOf source =
      ((ofGraph config graph).run other).graph.dependenciesOf source := by
  by_cases hfinished : ∃ ticket ∈ ended calls, ticket.url = source
  · obtain ⟨ticket, ht, rfl⟩ := hfinished
    obtain ⟨newest, hu, hn⟩ := hc.counted.exists_isNewest ht
    rw [← hu]
    apply Option.some.inj
    rw [← (hc.reflects_of_isNewest hfull hn).dependenciesOf]
    have hfull' : ∀ ticket ∈ ended other, (carried ticket).IsFull :=
      fun ticket ht => hfull ticket ((hs ticket).mpr ht)
    exact (ho.reflects_of_isNewest hfull' ((isNewest_congr hc ho hs).mp hn)).dependenciesOf
  · have hnone : ∀ ticket ∈ ended calls, ticket.url ≠ source :=
      fun ticket ht hu => hfinished ⟨ticket, ht, hu⟩
    rw [hc.dependenciesOf_run fun ticket ht => hnone ticket (hc.counted.admitted_subset ht),
      ho.dependenciesOf_run fun ticket ht =>
        hnone ticket ((hs ticket).mpr (ho.counted.admitted_subset ht))]

end FromStart

-- Two runs over a graph that edits built, in which the same parses finish.
theorem last_begun_wins (config : Config) (edits : List Graph.Edit)
    {carried : Ticket → Declaration} {calls other : List Call}
    (hc : Orderly (ofGraph config (Graph.ofEdits edits)) carried calls)
    (ho : Orderly (ofGraph config (Graph.ofEdits edits)) carried other)
    (hfull : ∀ ticket ∈ ended calls, (carried ticket).IsFull)
    (hs : ∀ ticket, ticket ∈ ended calls ↔ ticket ∈ ended other) :
    let start := ofGraph config (Graph.ofEdits edits)
    (∀ ticket ∈ ended calls, ∃ newest, newest.url = ticket.url ∧ start.IsNewest calls newest) ∧
      (∀ newest, start.IsNewest calls newest → start.IsNewest other newest ∧
        (start.run calls).graph.Reflects newest.url (carried newest) ∧
        (start.run other).graph.Reflects newest.url (carried newest)) ∧
      (∀ source, (start.run calls).graph.dependenciesOf source =
        (start.run other).graph.dependenciesOf source) ∧
      (∀ source target, source ∈ (start.run calls).graph.dependentsOf target ↔
        source ∈ (start.run other).graph.dependentsOf target) ∧
      ∀ run ∈ [calls, other], ∀ before ticket declaration after,
        run = before ++ .finish ticket declaration :: after →
          start.Settled before ticket declaration := by
  have hfull' : ∀ ticket ∈ ended other, (carried ticket).IsFull :=
    fun ticket ht => hfull ticket ((hs ticket).mpr ht)
  have hedges := dependenciesOf_run_congr hc ho hfull hs
  refine ⟨fun _ => hc.counted.exists_isNewest, ?_, hedges, ?_, ?_⟩
  · intro newest hn
    have hn' := (isNewest_congr hc ho hs).mp hn
    exact ⟨hn', hc.reflects_of_isNewest hfull hn, ho.reflects_of_isNewest hfull' hn'⟩
  · intro source target
    have hgraph := Graph.wellFormed_ofEdits edits
    rw [← (wellFormed_run hgraph calls).mirrored, ← (wellFormed_run hgraph other).mirrored, hedges]
  · intro run hr before ticket declaration after he
    subst he
    simp only [List.mem_cons, List.not_mem_nil, or_false] at hr
    rcases hr with rfl | rfl
    · exact hc.settled
    · exact ho.settled

-- The first parse of `a.js` finishes before the second one, or after it and in vain.
theorem second_parse_wins :
    let carried : Ticket → Declaration := fun ticket =>
      { kind := some "js"
        dependencies := some (if ticket.generation = 2 then ["b.js"] else ["a.js", "c.js"])
        declines := some false
        selfAccepts := some (ticket.url = "b.js")
        accepted := some [] }
    let edits : List Graph.Edit := [.declare "c.js" { dependencies := some ["a.js"] }]
    let start := ofGraph {} (Graph.ofEdits edits)
    let finish := fun ticket => Call.finish ticket (carried ticket)
    let calls := [.begin "a.js", .begin "b.js", .begin "a.js", finish ⟨"a.js", 1⟩,
      finish ⟨"a.js", 2⟩, finish ⟨"b.js", 1⟩]
    let other := [.begin "a.js", .begin "a.js", finish ⟨"a.js", 2⟩, .begin "b.js",
      finish ⟨"b.js", 1⟩, finish ⟨"a.js", 1⟩]
    Orderly start carried calls ∧ Orderly start carried other ∧
      (∀ ticket ∈ ended calls, (carried ticket).IsFull) ∧
      (∀ ticket, ticket ∈ ended calls ↔ ticket ∈ ended other) ∧
      start.IsNewest calls ⟨"a.js", 2⟩ ∧
      (start.run calls).graph.Reflects "a.js" (carried ⟨"a.js", 2⟩) ∧
      (start.run other).graph.Reflects "a.js" (carried ⟨"a.js", 2⟩) := by
  intro carried edits start finish calls other
  have hc : Orderly start carried calls :=
    ((((((Orderly.nil).begin "a.js").begin "b.js").begin "a.js").finish
      (by decide) (by decide)).finish (by decide) (by decide)).finish (by decide) (by decide)
  have ho : Orderly start carried other :=
    ((((((Orderly.nil).begin "a.js").begin "a.js").finish (by decide) (by decide)).begin
      "b.js").finish (by decide) (by decide)).finish (by decide) (by decide)
  have hfull : ∀ ticket ∈ ended calls, (carried ticket).IsFull :=
    fun ticket _ => ⟨rfl, rfl, rfl, rfl, rfl⟩
  have hs : ∀ ticket, ticket ∈ ended calls ↔ ticket ∈ ended other := by
    intro ticket
    simp only [calls, other, finish, ended, List.filterMap_cons, Call.finishes?,
      List.filterMap_nil, List.mem_cons, List.not_mem_nil, or_false]
    tauto
  have hn : start.IsNewest calls ⟨"a.js", 2⟩ :=
    hc.counted.isNewest_iff.mpr ⟨by decide, by decide +kernel⟩
  obtain ⟨-, hnewest, -⟩ := last_begun_wins {} edits hc ho hfull hs
  exact ⟨hc, ho, hfull, hs, hn, (hnewest _ hn).2⟩

end Reloader

end LiveReload
