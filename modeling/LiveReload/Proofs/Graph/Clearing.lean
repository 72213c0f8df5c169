import LiveReload.Proofs.Graph.Unused

namespace LiveReload.Graph

-- What becomes of `resource`, registered under `key`, when `url` comes to reference nothing.
def cleared (graph : Graph) (url key : Url) (resource : Resource) : Resource :=
  { resource with
    dependencies := if key = url then ∅ else resource.dependencies
    dependents :=
      if key ∈ graph.dependenciesOf url then resource.dependents.erase url
      else resource.dependents }

-- Only the list of resources gets shorter: whatever references `url` still does.
def drop (graph : Graph) (url : Url) : Graph :=
  { graph with resources := graph.resources.erase url }

variable {graph : Graph} {url other : Url} {resource : Resource}

-- Nothing is new to `url`, so nothing is registered.
theorem graph_redirect_empty (graph : Graph) (url : Url) :
    (graph.redirect url ∅).result.graph = graph.mapResources (graph.cleared url) := by
  have hadded : (∅ : UrlSet).without (graph.dependenciesOf url) = [] := rfl
  rw [graph_redirect, relisted, hadded, List.foldl_nil, modify_eq_mapResources,
    mapResources_mapResources]
  apply mapResources_congr
  intro key resource _
  have hdropped : key ∈ (graph.dependenciesOf url).without ∅ ↔ key ∈ graph.dependenciesOf url := by
    simp [UrlSet.mem_def]
  simp only [hdropped, List.not_mem_nil, if_false, cleared, Resource.removeDependent]
  split_ifs <;> rfl

theorem graph_declare_nothing (h : graph.contains url = true) :
    (graph.declare url { dependencies := some [] }).result.graph =
      graph.mapResources (graph.cleared url) := by
  have hdeclared : graph.modify url (·.declare { dependencies := some [] }) = graph := by
    rw [modify_eq_mapResources]
    apply mapResources_eq_self
    intro key resource _
    split_ifs <;> rfl
  rw [result_declare_of_some rfl, register_of_contains h, hdeclared]
  exact graph_redirect_empty graph url

theorem drop_mapResources (graph : Graph) (f : Url → Resource → Resource) (url : Url) :
    (graph.mapResources f).drop url = (graph.drop url).mapResources f :=
  congrArg (fun resources => { graph with resources := resources }) (Table.erase_mapWithKey ..)

theorem get?_drop (graph : Graph) (url other : Url) :
    (graph.drop url).get? other = if other = url then none else graph.get? other :=
  Table.get?_erase ..

theorem get?_drop_eq_some : (graph.drop url).get? other = some resource ↔
    other ≠ url ∧ graph.get? other = some resource := by
  rw [get?_drop]
  split_ifs with h <;> simp [h]

theorem graph_remove (h : graph.get? url = some resource) :
    (graph.remove url).result.graph = (graph.drop url).mapResources (sever resource url) := by
  simp only [remove, h]
  rfl

-- The one way goes by who references `url`, the other by who is referenced: they come to the same
-- because both ends of an edge agree.
theorem WellFormed.graph_remove_eq (h : graph.WellFormed) (hc : graph.contains url = true) :
    (graph.remove url).result.graph =
      ((graph.declare url { dependencies := some [] }).result.graph.drop url).mapResources
        fun _ resource => resource.removeDependency url := by
  obtain ⟨gone, hg⟩ := Option.isSome_iff_exists.mp hc
  rw [graph_remove hg, graph_declare_nothing hc, drop_mapResources, mapResources_mapResources]
  apply mapResources_congr
  intro key resource hr
  obtain ⟨hne, hr⟩ := get?_drop_eq_some.mp hr
  have hmirrored : url ∈ resource.dependencies ↔ key ∈ gone.dependents := by
    rw [← dependenciesOf_of_get? hr, ← dependentsOf_of_get? hg]
    exact h.mirrored key url
  simp only [sever, cleared, dependenciesOf_of_get? hg, if_neg hne]
  by_cases hd : key ∈ gone.dependents
  · rw [if_pos hd]
    split_ifs <;> rfl
  · have herase : resource.dependencies.erase url = resource.dependencies :=
      UrlSet.erase_of_not_mem (mt hmirrored.mp hd)
    rw [if_neg hd, Resource.removeDependency]
    split_ifs
    · rw [Resource.removeDependent, herase]
    · rw [herase]

-- Without `url` itself, of which a resource that references itself may be the last dependent.
theorem WellFormed.orphaned_remove_eq (h : graph.WellFormed) (hc : graph.contains url = true) :
    (graph.remove url).result.orphaned =
      (graph.declare url { dependencies := some [] }).result.orphaned.filter (· ≠ url) := by
  have hunused : ∀ other, (graph.remove url).result.graph.isUnused other =
      (decide (other ≠ url) &&
        (graph.declare url { dependencies := some [] }).result.graph.isUnused other) := by
    intro other
    rw [h.graph_remove_eq hc, isUnused, get?_mapResources, get?_drop, isUnused]
    by_cases ho : other = url
    · simp [ho]
    · simp only [Option.any_map, ne_eq, ho, not_false_eq_true, decide_true, Bool.true_and]
      rfl
  have hdropped : (graph.dependenciesOf url).without (.ofList []) =
      (graph.dependenciesOf url).toList :=
    List.filter_eq_self.mpr fun other _ => by simp
  rw [orphaned_remove, orphaned_declare_of_some rfl, hdropped, List.filter_filter]
  exact List.filter_congr fun other _ => hunused other

-- To remove a resource is to have it reference nothing first, and then to strike it out wherever
-- else it is listed.
theorem remove_like_clearing (edits : List Edit) {url : Url}
    (hc : (ofEdits edits).contains url = true) :
    let graph := ofEdits edits
    let cleared := (graph.declare url { dependencies := some [] }).result
    let removed := (graph.remove url).result
    removed.orphaned = cleared.orphaned.filter (· ≠ url) ∧
      cleared.graph = graph.mapResources (graph.cleared url) ∧
      removed.graph =
        (cleared.graph.drop url).mapResources fun _ resource => resource.removeDependency url := by
  intro graph cleared removed
  have h : graph.WellFormed := wellFormed_ofEdits edits
  exact ⟨h.orphaned_remove_eq hc, graph_declare_nothing hc, h.graph_remove_eq hc⟩

-- `a.js` and `b.js` reference each other; `d.js` goes on accepting updates of what it lost.
theorem removed_like_cleared_on_cycle :
    let graph := ofEdits [
      .declare "a.js" { dependencies := some ["b.js", "a.js", "c.js"] },
      .declare "b.js" { dependencies := some ["a.js"] },
      .declare "d.js" { dependencies := some ["c.js", "a.js"], accepted := some ["a.js"] }]
    let cleared := (graph.declare "a.js" { dependencies := some [] }).result
    let removed := (graph.remove "a.js").result
    graph.contains "a.js" = true ∧ removed.orphaned = cleared.orphaned.filter (· ≠ "a.js") ∧
      removed.orphaned = ["b.js"] ∧
      removed.graph = (cleared.graph.drop "a.js").mapResources
        (fun _ resource => resource.removeDependency "a.js") ∧
      removed.graph.nodes = [⟨1, "b.js", "", ∅, ∅, false, false, ∅⟩,
        ⟨2, "c.js", "", ∅, .ofList ["d.js"], false, false, ∅⟩,
        ⟨3, "d.js", "", .ofList ["c.js"], ∅, false, false, .ofList ["a.js"]⟩] := by
  intro graph cleared removed
  have hc : graph.contains "a.js" = true := by decide +kernel
  obtain ⟨horphaned, -, hgraph⟩ := remove_like_clearing _ hc
  exact ⟨hc, horphaned, by decide +kernel, hgraph, by decide +kernel⟩

end LiveReload.Graph
