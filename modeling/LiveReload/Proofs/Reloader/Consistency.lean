import LiveReload.Proofs.Graph.Exploration
import LiveReload.Proofs.Reloader.Run

namespace LiveReload

@[simp] theorem Logged.log_map {α β : Type} (f : α → β) (step : Logged α) :
    (f <$> step).log = step.log := List.append_nil _

namespace Graph

-- What can be relied on between any two edits.
structure Consistent (graph : Graph) : Prop where
  -- Each resource is registered once, under its own URL.
  urls_nodup : (graph.nodes.map Resource.url).Nodup
  url_eq : ∀ url resource, graph.get? url = some resource → resource.url = url
  dependencies_nodup : ∀ url resource, graph.get? url = some resource →
    resource.dependencies.toList.Nodup
  dependents_nodup : ∀ url resource, graph.get? url = some resource →
    resource.dependents.toList.Nodup
  -- An edge is listed at both of its ends or at neither.
  mem_dependencies_iff : ∀ source target resource, graph.get? source = some resource →
    (target ∈ resource.dependencies ↔
      ∃ other, graph.get? target = some other ∧ source ∈ other.dependents)
  contains_dependent : ∀ url resource, graph.get? url = some resource →
    ∀ other ∈ resource.dependents, graph.contains other = true
  -- So a search from any URL finds every dependent that it comes across.
  no_dangling : ∀ url node dependent,
    .danglingDependent node dependent ∉ (graph.verdictAtLogged url).log

variable {graph : Graph}

theorem WellFormed.not_mem_log_verdictAt (h : graph.WellFormed) (url node dependent : Url) :
    .danglingDependent node dependent ∉ (graph.verdictAtLogged url).log := by
  unfold verdictAtLogged
  cases hr : graph.get? url with
  | none => simp
  | some resource =>
      rw [Logged.log_map, verdictOfLogged]
      split
      · simp [Verdict.record]
      · simp only [h.dangling_explore _ hr]
        cases (graph.explore [resource.url] resource).verdict resource <;>
          simp [Verdict.record]

theorem WellFormed.consistent (h : graph.WellFormed) : graph.Consistent where
  urls_nodup := by
    have hkeys : graph.nodes.map Resource.url = graph.resources.keys :=
      Table.values_eq_of_keyed h.keyed
    rw [hkeys]
    exact graph.resources.nodup
  url_eq := h.keyed
  dependencies_nodup := fun _ resource _ => resource.dependencies.nodup
  dependents_nodup := fun _ resource _ => resource.dependents.nodup
  mem_dependencies_iff := fun source target resource hr => by
    rw [← dependenciesOf_of_get? hr, h.mirrored, mem_dependentsOf]
  contains_dependent := fun _ _ hr _ ho => h.contains_of_mem_dependents hr ho
  no_dangling := h.not_mem_log_verdictAt

end Graph

theorem Reloader.consistent_run (config : Config) (calls : List Call) :
    ((empty config).run calls).graph.Consistent :=
  (wellFormed_run Graph.WellFormed.empty calls).consistent

end LiveReload
