import LiveReload.Proofs.Graph.Views

namespace LiveReload.Graph

section Redirect

variable {graph : Graph} {url : Url} {next : UrlSet}

-- The middle of a redirection: `url` lists its new dependencies, all of them are registered, and
-- their dependents are still the old ones.
def relisted (graph : Graph) (url : Url) (next : UrlSet) : Graph :=
  (next.without (graph.dependenciesOf url)).foldl register
    (graph.modify url fun resource => { resource with dependencies := next })

theorem graph_redirect (graph : Graph) (url : Url) (next : UrlSet) :
    (graph.redirect url next).result.graph =
      (graph.relisted url next).mapResources fun key resource =>
        if key ∈ (graph.dependenciesOf url).without next then resource.removeDependent url
        else if key ∈ next.without (graph.dependenciesOf url) then resource.addDependent url
        else resource := rfl

theorem contains_relisted {other : Url} :
    (graph.relisted url next).contains other = true ↔
      graph.contains other = true ∨ other ∈ next.without (graph.dependenciesOf url) := by
  rw [relisted, contains_foldl_register, contains_modify]

theorem dependentsOf_relisted (graph : Graph) (url : Url) (next : UrlSet) (other : Url) :
    (graph.relisted url next).dependentsOf other = graph.dependentsOf other := by
  rw [relisted, dependentsOf_foldl_register, dependentsOf_modify]
  exact fun _ => rfl

theorem get?_foldl_register_of_get? {urls : List Url} {graph : Graph} {other : Url}
    {resource : Resource} (h : graph.get? other = some resource) :
    (urls.foldl register graph).get? other = some resource := by
  induction urls generalizing graph with
  | nil => exact h
  | cons url urls ih =>
      apply ih
      rw [get?_register]
      split
      · subst other
        rw [h, Option.getD_some]
      · exact h

theorem get?_relisted_of_get? {other : Url} {resource : Resource}
    (h : graph.get? other = some resource) :
    (graph.relisted url next).get? other = some { resource with
      dependencies := if other = url then next else resource.dependencies } := by
  apply get?_foldl_register_of_get?
  rw [get?_modify, h]
  split <;> rfl

-- Who is listed before and after keeps its place among the dependents of the target.
theorem dependentsOf_redirect (graph : Graph) (url : Url) (next : UrlSet) (other : Url) :
    (graph.redirect url next).result.graph.dependentsOf other =
      if other ∈ (graph.dependenciesOf url).without next then (graph.dependentsOf other).erase url
      else if other ∈ next.without (graph.dependenciesOf url) then
        (graph.dependentsOf other).insert url
      else graph.dependentsOf other := by
  rw [← dependentsOf_relisted graph url next other, graph_redirect]
  simp only [dependentsOf, get?_mapResources]
  cases hg : (graph.relisted url next).get? other with
  | some resource =>
      simp only [Option.map_some, Option.getD_some]
      split_ifs <;> rfl
  | none =>
      have hn : other ∉ next.without (graph.dependenciesOf url) := by
        intro hm
        have hc := contains_relisted.mpr (Or.inr hm)
        rw [contains_eq_isSome, hg] at hc
        cases hc
      simp only [Option.map_none, Option.getD_none, if_neg hn]
      split_ifs <;> rfl

-- Of a resource that was there before, only the edges are edited.
theorem get?_redirect_of_get? {other : Url} {resource : Resource}
    (h : graph.get? other = some resource) :
    (graph.redirect url next).result.graph.get? other = some { resource with
      dependencies := if other = url then next else resource.dependencies
      dependents := (graph.redirect url next).result.graph.dependentsOf other } := by
  rw [dependentsOf_redirect, dependentsOf_of_get? h, graph_redirect, get?_mapResources,
    get?_relisted_of_get? h, Option.map_some]
  split_ifs <;> rfl

theorem dependenciesOf_redirect (hc : graph.contains url = true) (other : Url) :
    (graph.redirect url next).result.graph.dependenciesOf other =
      if other = url then next else graph.dependenciesOf other := by
  rw [graph_redirect, dependenciesOf_mapResources (fun key resource => by split_ifs <;> rfl),
    relisted, dependenciesOf_foldl_register, dependenciesOf, get?_modify]
  split
  · subst other
    rw [contains_eq_isSome] at hc
    obtain ⟨resource, hr⟩ := Option.isSome_iff_exists.mp hc
    rw [hr]
    rfl
  · rfl

end Redirect

section Declare

variable {graph : Graph} {url : Url} {declaration : Declaration}

theorem graph_declare_of_none (h : declaration.dependencies = none) :
    (graph.declare url declaration).result.graph =
      (graph.register url).modify url (·.declare declaration) := by
  simp only [declare, h]
  rfl

theorem result_declare_of_some {urls : List Url} (h : declaration.dependencies = some urls) :
    (graph.declare url declaration).result =
      (((graph.register url).modify url (·.declare declaration)).redirect url
        (.ofList urls)).result := by
  simp only [declare, h]
  rfl

theorem contains_self_declared :
    ((graph.register url).modify url (·.declare declaration)).contains url = true := by
  simp

theorem dependenciesOf_declared (other : Url) :
    ((graph.register url).modify url (·.declare declaration)).dependenciesOf other =
      graph.dependenciesOf other := by
  rw [dependenciesOf_modify, dependenciesOf_register]
  exact fun _ => rfl

theorem dependentsOf_declared (other : Url) :
    ((graph.register url).modify url (·.declare declaration)).dependentsOf other =
      graph.dependentsOf other := by
  rw [dependentsOf_modify, dependentsOf_register]
  exact fun _ => rfl

theorem dependenciesOf_declare (other : Url) :
    (graph.declare url declaration).result.graph.dependenciesOf other =
      if other = url then
        (declaration.dependencies.map UrlSet.ofList).getD (graph.dependenciesOf url)
      else graph.dependenciesOf other := by
  cases h : declaration.dependencies with
  | none =>
      rw [graph_declare_of_none h, dependenciesOf_declared]
      split
      · subst other
        rfl
      · rfl
  | some urls =>
      rw [result_declare_of_some h, dependenciesOf_redirect contains_self_declared,
        dependenciesOf_declared]
      rfl

theorem dependentsOf_declare_of_none (h : declaration.dependencies = none) (other : Url) :
    (graph.declare url declaration).result.graph.dependentsOf other = graph.dependentsOf other := by
  rw [graph_declare_of_none h, dependentsOf_declared]

theorem dependentsOf_declare_of_some {urls : List Url}
    (h : declaration.dependencies = some urls) (other : Url) :
    (graph.declare url declaration).result.graph.dependentsOf other =
      if other ∈ (graph.dependenciesOf url).without (.ofList urls) then
        (graph.dependentsOf other).erase url
      else if other ∈ (UrlSet.ofList urls).without (graph.dependenciesOf url) then
        (graph.dependentsOf other).insert url
      else graph.dependentsOf other := by
  rw [result_declare_of_some h, dependentsOf_redirect, dependenciesOf_declared,
    dependentsOf_declared]

theorem get?_declare_of_ne {other : Url} {resource : Resource} (hne : other ≠ url)
    (h : graph.get? other = some resource) :
    (graph.declare url declaration).result.graph.get? other = some { resource with
      dependents := (graph.declare url declaration).result.graph.dependentsOf other } := by
  have hkept : ((graph.register url).modify url (·.declare declaration)).get? other =
      some resource := by
    rw [get?_modify, if_neg hne, get?_register, if_neg hne, h]
  cases hd : declaration.dependencies with
  | none =>
      rw [graph_declare_of_none hd, dependentsOf_of_get? hkept]
      exact hkept
  | some urls =>
      rw [result_declare_of_some hd, get?_redirect_of_get? hkept, if_neg hne]

theorem get?_declare_self :
    (graph.declare url declaration).result.graph.get? url =
      some { ((graph.get? url).getD (.fresh graph.nextId url)).declare declaration with
        dependencies :=
          (declaration.dependencies.map UrlSet.ofList).getD (graph.dependenciesOf url)
        dependents := (graph.declare url declaration).result.graph.dependentsOf url } := by
  have hdeclared : ((graph.register url).modify url (·.declare declaration)).get? url =
      some (((graph.get? url).getD (.fresh graph.nextId url)).declare declaration) := by
    rw [get?_modify, if_pos rfl, get?_register, if_pos rfl, Option.map_some]
  cases hd : declaration.dependencies with
  | none =>
      have hdependencies : (((graph.get? url).getD (.fresh graph.nextId url)).declare
          declaration).dependencies = graph.dependenciesOf url := by
        cases hg : graph.get? url with
        | none => simp [dependenciesOf, hg, Resource.declare, Resource.fresh]
        | some resource => simp [dependenciesOf, hg, Resource.declare]
      rw [graph_declare_of_none hd, dependentsOf_of_get? hdeclared, Option.map_none,
        Option.getD_none, ← hdependencies]
      exact hdeclared
  | some urls =>
      rw [result_declare_of_some hd, get?_redirect_of_get? hdeclared, if_pos rfl]
      rfl

end Declare

section Remove

variable {graph : Graph} {url : Url}

theorem dependencies_sever (gone : Resource) (url key : Url) (other : Resource) :
    (sever gone url key other).dependencies =
      if key ∈ gone.dependents then other.dependencies.erase url else other.dependencies := by
  unfold sever
  split_ifs <;> rfl

theorem dependents_sever (gone : Resource) (url key : Url) (other : Resource) :
    (sever gone url key other).dependents =
      if key ∈ gone.dependencies then other.dependents.erase url else other.dependents := by
  unfold sever
  split_ifs <;> rfl

theorem dependenciesOf_remove (graph : Graph) (url other : Url) :
    (graph.remove url).result.graph.dependenciesOf other =
      if other = url then ∅
      else if other ∈ graph.dependentsOf url then (graph.dependenciesOf other).erase url
      else graph.dependenciesOf other := by
  cases h : graph.get? url with
  | none =>
      rw [remove_of_none h]
      by_cases ho : other = url
      · subst other
        simp [dependenciesOf, h]
      · simp [ho, dependentsOf, h, UrlSet.mem_def]
  | some resource =>
      rw [dependenciesOf, get?_remove h, dependentsOf_of_get? h]
      by_cases ho : other = url
      · simp [ho]
      · simp only [if_neg ho, dependenciesOf]
        cases graph.get? other with
        | none => split_ifs <;> rfl
        | some _ => simp [dependencies_sever]

theorem dependentsOf_remove (graph : Graph) (url other : Url) :
    (graph.remove url).result.graph.dependentsOf other =
      if other = url then ∅
      else if other ∈ graph.dependenciesOf url then (graph.dependentsOf other).erase url
      else graph.dependentsOf other := by
  cases h : graph.get? url with
  | none =>
      rw [remove_of_none h]
      by_cases ho : other = url
      · subst other
        simp [dependentsOf, h]
      · simp [ho, dependenciesOf, h, UrlSet.mem_def]
  | some resource =>
      rw [dependentsOf, get?_remove h, dependenciesOf_of_get? h]
      by_cases ho : other = url
      · simp [ho]
      · simp only [if_neg ho, dependentsOf]
        cases graph.get? other with
        | none => split_ifs <;> rfl
        | some _ => simp [dependents_sever]

end Remove

end LiveReload.Graph
