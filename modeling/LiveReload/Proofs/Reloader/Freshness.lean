import LiveReload.Proofs.Reloader.History

namespace LiveReload.Reloader

-- Only tickets handed out in the course of the run are finished in it.
def Own (reloader : Reloader) (calls : List Call) : Prop :=
  ∀ before ticket declaration after,
    calls = before ++ .finish ticket declaration :: after → ticket ∈ reloader.tickets before

theorem Own.of_concat {reloader : Reloader} {calls : List Call} {next : Call}
    (h : reloader.Own (calls ++ [next])) : reloader.Own calls := by
  intro before ticket declaration after hc
  apply h before ticket declaration (after ++ [next])
  rw [hc, List.append_assoc, List.cons_append]

section FromStart

variable {config : Config} {graph : Graph} {url : Url}

theorem isStale_issue_run (config : Config) (graph : Graph) (url : Url) (calls : List Call) :
    (((ofGraph config graph).run calls).turnstile.issue url).2.isStale
      (((ofGraph config graph).run calls).turnstile.issue url).1 =
        isOvertaken url calls := by
  rw [Bool.eq_iff_iff, Turnstile.isStale_iff, Turnstile.generation_issue, Turnstile.url_issue,
    Turnstile.newestAdmitted_issue, newestIssued_run, Nat.succ_le_iff, ← Nat.not_le,
    newestAdmitted_run_le_iff (Nat.le_refl _)]
  simp [isOvertaken]

theorem url_of_mem_finished {calls : List Call} {ticket : Ticket}
    (h : ticket ∈ finished url calls) : ticket.url = url := by
  simpa using (List.mem_filter.mp h).2

theorem begun_le_concat (calls : List Call) {next : Call} (h : next.removes url = false) :
    begun url calls ≤ begun url (calls ++ [next]) := by
  rw [begun_concat, h]
  exact Nat.le_add_right _ _

-- Generations start over at a removal, so a ticket ahead of all begun since is from before.
theorem exists_remove_of_begun_lt {calls : List Call} {ticket : Ticket}
    (ht : ticket ∈ (ofGraph config graph).tickets calls) (hu : ticket.url = url)
    (hlt : begun url calls < ticket.generation) :
    ∃ before later, calls = before ++ .remove url :: later ∧
      ticket ∈ (ofGraph config graph).tickets before := by
  induction calls using List.reverseRecOn with
  | nil => cases ht
  | append_singleton calls next ih =>
      rw [tickets_concat, List.mem_append, Option.mem_toList] at ht
      cases hr : next.removes url with
      | true =>
          obtain rfl : next = .remove url := by
            cases next <;> simp [Call.removes] at hr
            rw [hr]
          refine ⟨calls, [], rfl, ?_⟩
          simpa [handsOut?] using ht
      | false =>
          have hle := begun_le_concat calls hr
          rcases ht with hold | hnew
          · obtain ⟨before, later, hc, hb⟩ := ih hold (by omega)
            refine ⟨before, later ++ [next], ?_, hb⟩
            rw [hc, List.append_assoc, List.cons_append]
          · cases next with
            | begin other =>
                cases hnew
                have hissued := newestIssued_run config graph other calls
                obtain rfl : other = url := hu
                simp [begun_concat, Call.removes, Call.begins, begin, hissued] at hlt
            | _ => cases hnew

theorem Own.exists_remove {calls : List Call}
    (ho : (ofGraph config graph).Own calls) {ticket : Ticket}
    (ht : ticket ∈ finished url calls) (hlt : begun url calls < ticket.generation) :
    ∃ before later declaration, calls = before ++ .remove url :: later ∧
      ticket ∈ (ofGraph config graph).tickets before ∧
      .finish ticket declaration ∈ later := by
  induction calls using List.reverseRecOn with
  | nil => cases ht
  | append_singleton calls next ih =>
      rw [finished_concat] at ht
      cases hr : next.removes url with
      | true => simp [hr] at ht
      | false =>
          have hle := begun_le_concat calls hr
          rw [hr, if_neg Bool.false_ne_true, List.mem_append, List.mem_filter,
            Option.mem_toList] at ht
          rcases ht with hold | ⟨hnew, hu⟩
          · obtain ⟨before, later, declaration, hc, hb, hf⟩ := ih ho.of_concat hold (by omega)
            refine ⟨before, later ++ [next], declaration, ?_, hb, List.mem_append_left _ hf⟩
            rw [hc, List.append_assoc, List.cons_append]
          · cases next with
            | finish other declaration =>
                obtain rfl : other = ticket := Option.some.inj hnew
                obtain ⟨before, later, hc, hb⟩ := exists_remove_of_begun_lt
                  (ho calls other declaration [] rfl) (of_decide_eq_true hu) (by omega)
                refine ⟨before, later ++ [.finish other declaration], declaration, ?_, hb, ?_⟩
                · rw [hc, List.append_assoc, List.cons_append]
                · simp
            | _ => cases hnew

end FromStart

-- A parse that begins and finishes at once is taken in unless a ticket that an earlier life of
-- `url` left over came in since `url` was removed, and is ahead.
theorem graph_declare_run (config : Config) (graph : Graph) (calls : List Call) (url : Url)
    (declaration : Declaration) :
    (((ofGraph config graph).run calls).declare url declaration).result.reloader.graph =
        (if isOvertaken url calls then ((ofGraph config graph).run calls).graph
        else (((ofGraph config graph).run calls).graph.declare url declaration).result.graph) ∧
      ((ofGraph config graph).Own calls → isOvertaken url calls = true →
        ∃ before later ticket late, calls = before ++ .remove url :: later ∧
          ticket.url = url ∧ ticket ∈ (ofGraph config graph).tickets before ∧
          .finish ticket late ∈ later) := by
  constructor
  · have hstale := isStale_issue_run config graph url calls
    rw [declare, graph_finish]
    simp only [begin, hstale, Turnstile.url_issue]
  · intro hown hovertaken
    obtain ⟨ticket, ht, hlt⟩ := List.any_eq_true.mp hovertaken
    obtain ⟨before, later, late, hc, hb, hf⟩ := hown.exists_remove ht (of_decide_eq_true hlt)
    exact ⟨before, later, ticket, late, hc, url_of_mem_finished ht, hb, hf⟩

theorem own_finish_after_remove :
    (empty {}).Own [.begin "a.js", .remove "a.js", .finish ⟨"a.js", 1⟩ {}] := by
  intro before ticket declaration after hc
  rcases before with _ | ⟨_, _ | ⟨_, _ | ⟨_, before⟩⟩⟩ <;> simp at hc
  obtain ⟨rfl, rfl, ⟨rfl, rfl⟩, rfl⟩ := hc
  decide

-- No parse was begun since the removal, and the ticket is the first one of the life before it.
theorem overtaken_by_ticket_of_earlier_life :
    let calls : List Call := [.begin "a.js", .remove "a.js", .finish ⟨"a.js", 1⟩ {}]
    (empty {}).Own calls ∧ isOvertaken "a.js" calls = true ∧
      ∃ before later ticket late, calls = before ++ .remove "a.js" :: later ∧
        ticket.url = "a.js" ∧ ticket ∈ (empty {}).tickets before ∧ .finish ticket late ∈ later := by
  have hovertaken :
      isOvertaken "a.js" [.begin "a.js", .remove "a.js", .finish ⟨"a.js", 1⟩ {}] = true := by
    decide
  exact ⟨own_finish_after_remove, hovertaken,
    (graph_declare_run {} ∅ _ "a.js" {}).2 own_finish_after_remove hovertaken⟩

-- The ticket is left over from before the removal, and what is declared afterwards is lost.
theorem parse_lost_after_late_finish :
    let calls : List Call := [.begin "a.js", .remove "a.js", .finish ⟨"a.js", 1⟩ {}]
    let reloader := (empty {}).run calls
    let declaration : Declaration := { dependencies := some ["b.js"] }
    (empty {}).Own calls ∧
      (reloader.declare "a.js" declaration).result.reloader.graph ≠
        (reloader.graph.declare "a.js" declaration).result.graph := by
  refine ⟨own_finish_after_remove, ?_⟩
  intro he
  have hcontains := congrArg (Graph.contains · "b.js") he
  revert hcontains
  decide

end LiveReload.Reloader
