import LiveReload.Graph.Edges
import LiveReload.Proofs.Table

namespace LiveReload

namespace Graph

-- Who depends on `url`; nobody on a URL that no resource is registered under.
def dependentsOf (graph : Graph) (url : Url) : UrlSet :=
  ((graph.get? url).map Resource.dependents).getD ∅

theorem dependentsOf_of_get? {graph : Graph} {url : Url} {resource : Resource}
    (h : graph.get? url = some resource) : graph.dependentsOf url = resource.dependents := by
  simp [dependentsOf, h]

@[simp] theorem get?_empty (url : Url) : (∅ : Graph).get? url = none := rfl

theorem contains_eq_isSome (graph : Graph) (url : Url) :
    graph.contains url = (graph.get? url).isSome := rfl

theorem mem_dependenciesOf {graph : Graph} {url other : Url} :
    other ∈ graph.dependenciesOf url ↔
      ∃ resource, graph.get? url = some resource ∧ other ∈ resource.dependencies := by
  cases h : graph.get? url with
  | none => simp [dependenciesOf, h, UrlSet.mem_def]
  | some resource => simp [dependenciesOf, h]

theorem mem_dependentsOf {graph : Graph} {url other : Url} :
    other ∈ graph.dependentsOf url ↔
      ∃ resource, graph.get? url = some resource ∧ other ∈ resource.dependents := by
  cases h : graph.get? url with
  | none => simp [dependentsOf, h, UrlSet.mem_def]
  | some resource => simp [dependentsOf, h]

section Register

@[simp] theorem dependenciesOf_register (graph : Graph) (url other : Url) :
    (graph.register url).dependenciesOf other = graph.dependenciesOf other := by
  simp only [dependenciesOf, get?_register]
  split
  · subst other
    cases graph.get? url <;> rfl
  · rfl

@[simp] theorem dependentsOf_register (graph : Graph) (url other : Url) :
    (graph.register url).dependentsOf other = graph.dependentsOf other := by
  simp only [dependentsOf, get?_register]
  split
  · subst other
    cases graph.get? url <;> rfl
  · rfl

@[simp] theorem contains_register {graph : Graph} {url other : Url} :
    (graph.register url).contains other = true ↔ graph.contains other = true ∨ other = url := by
  simp only [contains_eq_isSome, get?_register]
  by_cases h : other = url
  · simp [h]
  · simp [h]

@[simp] theorem dependenciesOf_foldl_register (urls : List Url) (graph : Graph) (other : Url) :
    (urls.foldl register graph).dependenciesOf other = graph.dependenciesOf other := by
  induction urls generalizing graph with
  | nil => rfl
  | cons url urls ih => rw [List.foldl_cons, ih, dependenciesOf_register]

@[simp] theorem dependentsOf_foldl_register (urls : List Url) (graph : Graph) (other : Url) :
    (urls.foldl register graph).dependentsOf other = graph.dependentsOf other := by
  induction urls generalizing graph with
  | nil => rfl
  | cons url urls ih => rw [List.foldl_cons, ih, dependentsOf_register]

theorem contains_foldl_register {urls : List Url} {graph : Graph} {other : Url} :
    (urls.foldl register graph).contains other = true ↔
      graph.contains other = true ∨ other ∈ urls := by
  induction urls generalizing graph with
  | nil => simp
  | cons url urls ih => rw [List.foldl_cons, ih, contains_register, List.mem_cons, or_assoc]

end Register

section Map

variable {graph : Graph} {f : Url → Resource → Resource}

theorem mapResources_mapResources (graph : Graph) (f g : Url → Resource → Resource) :
    (graph.mapResources f).mapResources g =
      graph.mapResources fun url resource => g url (f url resource) :=
  congrArg (fun resources => { graph with resources := resources })
    (Table.mapWithKey_mapWithKey _ f g)

theorem mapResources_congr {g : Url → Resource → Resource}
    (h : ∀ url resource, graph.get? url = some resource → f url resource = g url resource) :
    graph.mapResources f = graph.mapResources g :=
  congrArg (fun resources => { graph with resources := resources }) (Table.mapWithKey_congr h)

theorem mapResources_eq_self
    (h : ∀ url resource, graph.get? url = some resource → f url resource = resource) :
    graph.mapResources f = graph :=
  congrArg (fun resources => { graph with resources := resources }) (Table.mapWithKey_eq_self h)

theorem modify_eq_mapResources (graph : Graph) (url : Url) (f : Resource → Resource) :
    graph.modify url f =
      graph.mapResources fun other resource => if other = url then f resource else resource := rfl

@[simp] theorem contains_mapResources (url : Url) :
    (graph.mapResources f).contains url = graph.contains url := by
  simp [contains_eq_isSome]

theorem dependenciesOf_mapResources (hf : ∀ key resource,
    (f key resource).dependencies = resource.dependencies) (url : Url) :
    (graph.mapResources f).dependenciesOf url = graph.dependenciesOf url := by
  simp only [dependenciesOf, get?_mapResources, Option.map_map]
  congr 2
  funext resource
  exact hf url resource

@[simp] theorem contains_modify (url other : Url) (f : Resource → Resource) :
    (graph.modify url f).contains other = graph.contains other := by
  simp only [contains_eq_isSome, get?_modify]
  split <;> simp

theorem dependenciesOf_modify (url other : Url) {f : Resource → Resource}
    (hf : ∀ resource, (f resource).dependencies = resource.dependencies) :
    (graph.modify url f).dependenciesOf other = graph.dependenciesOf other := by
  simp only [dependenciesOf, get?_modify]
  split
  · rw [Option.map_map]
    congr 2
    funext resource
    exact hf resource
  · rfl

theorem dependentsOf_modify (url other : Url) {f : Resource → Resource}
    (hf : ∀ resource, (f resource).dependents = resource.dependents) :
    (graph.modify url f).dependentsOf other = graph.dependentsOf other := by
  simp only [dependentsOf, get?_modify]
  split
  · rw [Option.map_map]
    congr 2
    funext resource
    exact hf resource
  · rfl

end Map

end Graph

end LiveReload
