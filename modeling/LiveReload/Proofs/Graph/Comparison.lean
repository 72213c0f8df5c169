import LiveReload.Proofs.Graph.Exploration
import Mathlib.Data.List.Perm.Basic

namespace LiveReload.Graph

structure Matches (rel : Resource → Resource → Prop) (graph other : Graph) : Prop where
  contains_iff : ∀ url, graph.contains url = true ↔ other.contains url = true
  rel_of_get? : ∀ url, ∀ resource ∈ graph.get? url, ∀ counterpart ∈ other.get? url,
    rel resource counterpart

variable {rel : Resource → Resource → Prop} {graph other : Graph}

theorem Matches.cases (h : Matches rel graph other) (hk : graph.Keyed) (ho : other.Keyed)
    (url : Url) : (graph.get? url = none ∧ other.get? url = none) ∨
      ∃ resource counterpart, graph.get? url = some resource ∧
        other.get? url = some counterpart ∧ rel resource counterpart ∧
          resource.url = counterpart.url := by
  have hc := h.contains_iff url
  rw [contains_eq_isSome, contains_eq_isSome] at hc
  cases hg : graph.get? url with
  | none =>
      rw [hg] at hc
      exact .inl ⟨rfl, by simpa using hc⟩
  | some resource =>
      obtain ⟨counterpart, hm⟩ := Option.isSome_iff_exists.mp (hc.mp (by rw [hg]; rfl))
      have hu : resource.url = counterpart.url := (hk url _ hg).trans (ho url _ hm).symm
      exact .inr ⟨resource, counterpart, rfl, hm, h.rel_of_get? url resource hg counterpart hm, hu⟩

theorem matches_iff_forall_keys : Matches rel graph other ↔
    graph.resources.keys.Perm other.resources.keys ∧
      ∀ url ∈ graph.resources.keys, ∀ resource ∈ graph.get? url, ∀ counterpart ∈ other.get? url,
        rel resource counterpart := by
  have hkeys : graph.resources.keys.Perm other.resources.keys ↔
      ∀ url, graph.contains url = true ↔ other.contains url = true := by
    simp only [contains, Table.contains_iff_mem_keys]
    exact List.perm_ext_iff_of_nodup graph.resources.nodup other.resources.nodup
  rw [hkeys]
  constructor
  · exact fun h => ⟨h.contains_iff, fun url _ => h.rel_of_get? url⟩
  · rintro ⟨hc, hr⟩
    refine ⟨hc, fun url resource hg => hr url ?_ resource hg⟩
    exact Table.contains_iff_mem_keys.mp (Option.isSome_of_eq_some hg)

instance [DecidableRel rel] : Decidable (Matches rel graph other) :=
  decidable_of_iff _ matches_iff_forall_keys.symm

end LiveReload.Graph
