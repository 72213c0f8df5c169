import LiveReload.Proofs.Graph.Upward
import LiveReload.Proofs.Reloader.Run

namespace LiveReload

namespace Graph

variable {graph : Graph} {url : Url}

-- What the edit says that `url` references.
def Edit.references (url : Url) : Edit → List Url
  | .declare source declaration =>
    if source = url then declaration.dependencies.getD [] else []
  | .register _ | .remove _ => []

theorem dependenciesOf_edit_eq_empty {next : Edit} (h : graph.dependenciesOf url = ∅)
    (hn : next.references url = []) : (graph.edit next).dependenciesOf url = ∅ := by
  cases next with
  | register added => exact (dependenciesOf_register graph added url).trans h
  | declare source declaration =>
      rw [edit, dependenciesOf_declare]
      by_cases hs : url = source
      · subst hs
        rw [if_pos rfl, h]
        simp only [Edit.references, if_true] at hn
        cases hd : declaration.dependencies with
        | none => rfl
        | some urls =>
            rw [hd, Option.getD_some] at hn
            rw [hn]
            rfl
      · rw [if_neg hs, h]
  | remove removed =>
      rw [edit, dependenciesOf_remove, h]
      split_ifs
      · rfl
      · exact UrlSet.ext rfl
      · rfl

-- Whoever depends on something references it.
theorem WellFormed.isUpward_ne (h : graph.WellFormed) (hu : graph.dependenciesOf url = ∅) :
    graph.IsUpward (· ≠ url) := by
  rintro target dependent - hd rfl
  rw [← h.mirrored, hu] at hd
  exact List.not_mem_nil hd

end Graph

namespace Reloader

namespace Call

def references (url : Url) (call : Call) : List Url :=
  (call.edit?.map (Graph.Edit.references url)).getD []

-- After such a call `url` references nothing: its file is gone, or it is taken out. The graph may
-- learn of either through another reloader.
inductive Clears (url : Url) : Call → Prop
  | fileRemoved : Clears url (.fileChanged ⟨url, .removed⟩)
  | remove : Clears url (.remove url)
  | edit {edit : Graph.Edit} :
      edit ∈ [.remove url, .declare url { dependencies := some [] }] → Clears url (.edit edit)

end Call

variable {url : Url}

theorem dependenciesOf_call_eq_empty {reloader : Reloader} {next : Call}
    (h : reloader.graph.dependenciesOf url = ∅) (hn : next.references url = []) :
    (reloader.call next).graph.dependenciesOf url = ∅ := by
  rcases reloader.graph_call next with he | ⟨edit, hm, he⟩
  · rw [he, h]
  · have hedit : edit.references url = [] := by
      rw [Call.references, hm, Option.map_some, Option.getD_some] at hn
      exact hn
    rw [he, Graph.dependenciesOf_edit_eq_empty h hedit]

theorem dependenciesOf_run_eq_empty {reloader : Reloader} {calls : List Call}
    (h : reloader.graph.dependenciesOf url = ∅) (hc : ∀ next ∈ calls, next.references url = []) :
    (reloader.run calls).graph.dependenciesOf url = ∅ := by
  induction calls generalizing reloader with
  | nil => exact h
  | cons next calls ih =>
      have hnext := dependenciesOf_call_eq_empty h (hc next List.mem_cons_self)
      exact ih hnext fun other ho => hc other (List.mem_cons_of_mem next ho)

theorem Call.Clears.dependenciesOf {gone : Call} (h : gone.Clears url) (reloader : Reloader) :
    (reloader.call gone).graph.dependenciesOf url = ∅ := by
  have hdeclare : (reloader.graph.edit
      (.declare url { dependencies := some [] })).dependenciesOf url = ∅ := by
    rw [Graph.edit, Graph.dependenciesOf_declare, if_pos rfl]
    rfl
  have hremove : (reloader.graph.edit (.remove url)).dependenciesOf url = ∅ := by
    rw [Graph.edit, Graph.dependenciesOf_remove, if_pos rfl]
  cases h with
  | fileRemoved =>
      rw [call, reloader_fileChanged, reloader_fileRemoved, if_pos rfl]
      split
      · exact hdeclare
      · rename_i hc
        rw [Graph.contains_eq_isSome, Bool.not_eq_true, Option.isSome_eq_false_iff,
          Option.isNone_iff_eq_none] at hc
        simp [Graph.dependenciesOf, hc]
  | remove => exact hremove
  | edit hm =>
      rcases List.mem_pair.mp hm with rfl | rfl
      · exact hremove
      · exact hdeclare

theorem not_named_once_gone (config : Config) (before later : List Call) {url : Url} {gone : Call}
    (hgone : gone.Clears url) (hlater : ∀ next ∈ later, next.references url = []) :
    let graph := ((empty config).run (before ++ gone :: later)).graph
    ∀ other, graph.contains other = true → other ≠ url →
      ∃ verdict, graph.verdictAt other = .ok verdict ∧ url ∉ verdict.urls := by
  intro graph other hc hne
  have hw : graph.WellFormed := wellFormed_run Graph.WellFormed.empty _
  have hempty : graph.dependenciesOf url = ∅ := by
    have hcleared := hgone.dependenciesOf ((empty config).run before)
    rw [← run_concat] at hcleared
    simp only [graph, List.append_cons before gone later, run_append _ (before ++ [gone])]
    exact dependenciesOf_run_eq_empty hcleared hlater
  obtain ⟨verdict, hv⟩ := Graph.exists_verdictAt hc
  refine ⟨verdict, hv, fun hm => ?_⟩
  exact (hw.isUpward_ne hempty).forall_urls_verdictAt hw.keyed hne hv url hm rfl

-- `b.js` takes the updates of `a.js` until its file is gone; afterwards `a.js` references it in
-- turn, and it is parsed again, without references.
theorem not_named_once_gone_though_parsed_again :
    let before : List Call :=
      [.declare "b.js" { dependencies := some ["a.js"], selfAccepts := some true },
        .declare "c.js" { dependencies := some ["a.js"], accepted := some ["a.js"] }]
    let gone : Call := .fileChanged ⟨"b.js", .removed⟩
    let later : List Call :=
      [.declare "a.js" { dependencies := some ["b.js"] },
        .declare "b.js" { accepted := some ["a.js"] }]
    let former := ((empty {}).run before).graph
    let graph := ((empty {}).run (before ++ gone :: later)).graph
    former.verdictAt "a.js" = .ok (.accepted [⟨"b.js", "b.js"⟩, ⟨"c.js", "a.js"⟩]) ∧
      gone.Clears "b.js" ∧ (∀ next ∈ later, next.references "b.js" = []) ∧
      graph.contains "a.js" = true ∧ "a.js" ≠ "b.js" ∧
      ∃ verdict, graph.verdictAt "a.js" = .ok verdict ∧ "b.js" ∉ verdict.urls := by
  intro before gone later former graph
  have hgone : gone.Clears "b.js" := .fileRemoved
  have hlater : ∀ next ∈ later, next.references "b.js" = [] := by decide
  have hc : graph.contains "a.js" = true := by decide +kernel
  refine ⟨by decide +kernel, hgone, hlater, hc, by decide, ?_⟩
  exact not_named_once_gone {} before later hgone hlater "a.js" hc (by decide)

end Reloader

end LiveReload
