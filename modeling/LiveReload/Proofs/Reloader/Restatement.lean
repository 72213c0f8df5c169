import LiveReload.Proofs.Graph.Locality
import LiveReload.Proofs.Graph.Registration
import LiveReload.Proofs.Reloader.Pruning
import LiveReload.Proofs.Station

namespace LiveReload

-- What the declaration says, as far as it says anything, holds of `resource` already. Of a list
-- only the URLs in it count.
structure Declaration.Restates (declaration : Declaration) (resource : Resource) : Prop where
  kind : ∀ kind ∈ declaration.kind, kind = resource.kind
  dependencies : ∀ urls ∈ declaration.dependencies,
    ∀ url, url ∈ urls ↔ url ∈ resource.dependencies
  declines : ∀ declines ∈ declaration.declines, declines = resource.declines
  selfAccepts : ∀ selfAccepts ∈ declaration.selfAccepts, selfAccepts = resource.selfAccepts
  accepted : ∀ urls ∈ declaration.accepted, ∀ url, url ∈ urls ↔ url ∈ resource.accepted

-- The resource with its sets in the order in which the declaration lists them.
def Resource.reordered (resource : Resource) (declaration : Declaration) : Resource :=
  { resource with
    dependencies := (declaration.dependencies.map UrlSet.ofList).getD resource.dependencies
    accepted := (declaration.accepted.map UrlSet.ofList).getD resource.accepted }

namespace Declaration.Restates

variable {declaration : Declaration} {resource : Resource}

private theorem getD_eq_of_forall_mem {α : Type} {said : Option α} {held : α}
    (h : ∀ value ∈ said, value = held) : said.getD held = held := by
  cases said with
  | none => rfl
  | some value => exact h value rfl

theorem declare_eq (h : declaration.Restates resource) : resource.declare declaration =
    { resource with
      accepted := (declaration.accepted.map UrlSet.ofList).getD resource.accepted } := by
  rw [Resource.declare, getD_eq_of_forall_mem h.kind, getD_eq_of_forall_mem h.declines,
    getD_eq_of_forall_mem h.selfAccepts]

theorem accepts_reordered (h : declaration.Restates resource) (url : Url) :
    (resource.reordered declaration).accepts url = resource.accepts url := by
  rw [Resource.accepts, Resource.accepts, Resource.reordered]
  cases hd : declaration.accepted with
  | none => rfl
  | some urls =>
      have hsame := h.accepted urls hd url
      simp only [Option.map_some, Option.getD_some, UrlSet.mem_ofList, hsame]

end Declaration.Restates

namespace Graph

variable {graph : Graph} {url : Url} {resource : Resource} {declaration : Declaration}

-- Of the targets before and after, none is on one side only.
theorem graph_redirect_of_same {next : UrlSet}
    (h : ∀ target, target ∈ next ↔ target ∈ graph.dependenciesOf url) :
    (graph.redirect url next).result.graph =
      graph.modify url fun resource => { resource with dependencies := next } := by
  have hdropped : (graph.dependenciesOf url).without next = [] :=
    List.filter_eq_nil_iff.mpr fun target ht => by simpa using (h target).mpr ht
  have hadded : next.without (graph.dependenciesOf url) = [] :=
    List.filter_eq_nil_iff.mpr fun target ht => by simpa using (h target).mp ht
  rw [graph_redirect, relisted, hdropped, hadded, List.foldl_nil]
  apply mapResources_eq_self
  intro key resource _
  rw [if_neg List.not_mem_nil, if_neg List.not_mem_nil]

theorem graph_declare_of_restates (hr : graph.get? url = some resource)
    (hd : declaration.Restates resource) :
    (graph.declare url declaration).result.graph =
      graph.modify url (·.reordered declaration) := by
  have hc : graph.contains url = true := Option.isSome_of_eq_some hr
  cases hurls : declaration.dependencies with
  | none =>
      rw [graph_declare_of_none hurls, register_of_contains hc, modify_eq_mapResources,
        modify_eq_mapResources]
      apply mapResources_congr
      intro key found hf
      split
      · subst key
        cases hr.symm.trans hf
        rw [hd.declare_eq, Resource.reordered, hurls, Option.map_none, Option.getD_none]
      · rfl
  | some urls =>
      have hsame : ∀ target, target ∈ UrlSet.ofList urls ↔
          target ∈ ((graph.register url).modify url (·.declare declaration)).dependenciesOf url := by
        intro target
        rw [UrlSet.mem_ofList, hd.dependencies urls hurls, dependenciesOf_declared,
          dependenciesOf_of_get? hr]
      rw [result_declare_of_some hurls, graph_redirect_of_same hsame, register_of_contains hc,
        modify_eq_mapResources, modify_eq_mapResources, modify_eq_mapResources,
        mapResources_mapResources]
      apply mapResources_congr
      intro key found hf
      split
      · subst key
        cases hr.symm.trans hf
        rw [hd.declare_eq, Resource.reordered, hurls, Option.map_some, Option.getD_some]
      · rfl

theorem orphaned_declare_of_restates (hr : graph.get? url = some resource)
    (hd : declaration.Restates resource) : (graph.declare url declaration).result.orphaned = [] := by
  cases hurls : declaration.dependencies with
  | none => exact orphaned_declare_of_none hurls
  | some urls =>
      have hdropped : (graph.dependenciesOf url).without (.ofList urls) = [] := by
        refine List.filter_eq_nil_iff.mpr fun target ht => ?_
        rw [dependenciesOf_of_get? hr] at ht
        simpa using (hd.dependencies urls hurls target).mpr ht
      rw [orphaned_declare_of_some hurls, hdropped, List.filter_nil]

-- All that a search asks of a resource has the answer that it had.
theorem agreesWithin_modify_reordered (hr : graph.get? url = some resource)
    (hd : declaration.Restates resource) (inside : Url → Prop) :
    graph.AgreesWithin inside (graph.modify url (·.reordered declaration)) := by
  intro other _ found hf counterpart hc
  rw [get?_modify] at hc
  split at hc
  · subst other
    cases hr.symm.trans hf
    rw [hr] at hc
    cases hc
    exact ⟨rfl, rfl, rfl, fun dependency _ _ => (hd.accepts_reordered dependency).symm⟩
  · cases hf.symm.trans hc
    exact .refl inside found

theorem not_contains_iff : graph.contains url = false ↔ graph.get? url = none := by
  rw [contains_eq_isSome, Option.isSome_eq_false_iff, Option.isNone_iff_eq_none]

theorem WellFormed.verdictAt_declare_of_restates (h : graph.WellFormed)
    (hr : graph.get? url = some resource) (hd : declaration.Restates resource) (other : Url) :
    (graph.declare url declaration).result.graph.verdictAt other = graph.verdictAt other := by
  have hafter := h.declare url declaration
  rw [graph_declare_of_restates hr hd] at hafter ⊢
  have hcontains : (graph.modify url (·.reordered declaration)).contains other =
      graph.contains other := contains_modify ..
  cases hc : graph.contains other with
  | true =>
      exact verdictAt_eq_of_agreesWithin h hafter (fun _ _ _ _ => trivial)
        (agreesWithin_modify_reordered hr hd fun _ => True) trivial hc (hcontains.trans hc)
  | false =>
      rw [verdictAt_of_none (not_contains_iff.mp hc),
        verdictAt_of_none (not_contains_iff.mp (hcontains.trans hc))]

end Graph

namespace Reloader

-- The call takes in a parse of `url` that found what `declaration` says.
inductive Call.Parses (url : Url) (declaration : Declaration) : Call → Prop
  | declare : Parses url declaration (.declare url declaration)
  | finish {ticket : Ticket} : ticket.url = url →
      Parses url declaration (.finish ticket declaration)

variable {reloader : Reloader} {url : Url} {declaration : Declaration} {next : Call}

-- Whether the parse is taken in or came too late.
theorem message_respond_of_parses (hn : next.Parses url declaration)
    (h : (reloader.graph.declare url declaration).result.orphaned = []) :
    (reloader.respond next).message = none := by
  cases hn with
  | declare => exact @message_finish_of_nil (reloader.begin url).2 _ _ h
  | finish ht => exact message_finish_of_nil (ht ▸ h)

theorem unmoved_by_restatement (edits : List Graph.Edit) {url : Url} {resource : Resource}
    {declaration : Declaration} (hr : (Graph.ofEdits edits).get? url = some resource)
    (hd : declaration.Restates resource) :
    let graph := Graph.ofEdits edits
    let change := (graph.declare url declaration).result
    change.orphaned = [] ∧
      change.graph = graph.modify url (·.reordered declaration) ∧
      change.graph.urls = graph.urls ∧
      (∀ other, change.graph.dependentsOf other = graph.dependentsOf other) ∧
      (∀ other, change.graph.verdictAt other = graph.verdictAt other) ∧
      ∀ {σ : Type} (station : Station σ) (next : Call) (conduct : Subscription σ → List Nat),
        station.reloader.graph = graph → next.Parses url declaration →
          station.step (.reload next conduct) =
            (none, ⟨station.reloader.call next, station.roster, []⟩) := by
  intro graph change
  have h : graph.WellFormed := Graph.wellFormed_ofEdits edits
  have hnone : change.orphaned = [] := Graph.orphaned_declare_of_restates hr hd
  have hgraph : change.graph = graph.modify url (·.reordered declaration) :=
    Graph.graph_declare_of_restates hr hd
  refine ⟨hnone, hgraph, ?_, fun other => ?_, h.verdictAt_declare_of_restates hr hd, ?_⟩
  · rw [hgraph, Graph.urls_modify]
  · rw [hgraph]
    exact Graph.dependentsOf_modify url other fun _ => rfl
  · intro σ station next conduct hs hn
    exact Station.step_reload_of_none (message_respond_of_parses hn (hs ▸ hnone))

-- `b.js` and `c.js` depend on `a.js` in this order, and `b.js` on itself.
theorem unmoved_by_shuffled_lists :
    let edits : List Graph.Edit := [
      .declare "b.js"
        { dependencies := some ["a.js", "b.js", "d.js"], accepted := some ["a.js", "d.js"] },
      .declare "c.js" { dependencies := some ["a.js"], selfAccepts := some true }]
    let resource : Resource := ⟨0, "b.js", "", .ofList ["a.js", "b.js", "d.js"], .ofList ["b.js"],
      false, false, .ofList ["a.js", "d.js"]⟩
    let declaration : Declaration := {
      kind := some ""
      dependencies := some ["d.js", "a.js", "d.js", "b.js", "a.js"]
      declines := some false
      accepted := some ["d.js", "a.js", "d.js"] }
    let graph := Graph.ofEdits edits
    let change := (graph.declare "b.js" declaration).result
    graph.get? "b.js" = some resource ∧ declaration.Restates resource ∧
      change.orphaned = [] ∧
      change.graph.nodes = [
        ⟨0, "b.js", "", .ofList ["d.js", "a.js", "b.js"], .ofList ["b.js"], false, false,
          .ofList ["d.js", "a.js"]⟩,
        ⟨1, "a.js", "", ∅, .ofList ["b.js", "c.js"], false, false, ∅⟩,
        ⟨2, "d.js", "", ∅, .ofList ["b.js"], false, false, ∅⟩,
        ⟨3, "c.js", "", .ofList ["a.js"], ∅, false, true, ∅⟩] ∧
      change.graph.verdictAt "a.js" = .ok (.accepted [⟨"b.js", "a.js"⟩, ⟨"c.js", "c.js"⟩]) ∧
      ∀ (station : Station Unit) (conduct : Subscription Unit → List Nat),
        station.reloader.graph = graph →
          (station.step (.reload (.finish ⟨"b.js", 1⟩ declaration) conduct)).1 = none := by
  intro edits resource declaration graph change
  have hr : graph.get? "b.js" = some resource := by decide +kernel
  have hset : ∀ one other : List Url, one ⊆ other → other ⊆ one →
      ∀ url, url ∈ one ↔ url ∈ UrlSet.ofList other := fun one other hle hge url =>
    ⟨fun hm => UrlSet.mem_ofList.mpr (hle hm), fun hm => hge (UrlSet.mem_ofList.mp hm)⟩
  have hd : declaration.Restates resource := by
    refine ⟨?_, ?_, ?_, ?_, ?_⟩
    · rintro _ ⟨⟩; rfl
    · rintro _ ⟨⟩
      exact hset _ _ (by decide) (by decide)
    · rintro _ ⟨⟩; rfl
    · rintro _ ⟨⟩
    · rintro _ ⟨⟩
      exact hset _ _ (by decide) (by decide)
  obtain ⟨hnone, -, -, -, hverdict, hquiet⟩ := unmoved_by_restatement edits hr hd
  refine ⟨hr, hd, hnone, by decide +kernel, (hverdict "a.js").trans (by decide +kernel), ?_⟩
  intro station conduct hs
  rw [hquiet station _ conduct hs (.finish rfl)]

end Reloader

end LiveReload
