import LiveReload.Graph.Search
import LiveReload.Proofs.Graph.WellFormed

namespace LiveReload

namespace Search

@[simp] theorem dangling_andThen (first : Search) (next : Unit → Search) :
    (first.andThen next).dangling = first.dangling ++
      if first.found.isOk then (next ()).dangling else [] := by
  unfold andThen
  cases h : first.found with
  | error obstacle => simp [Except.isOk, Except.toBool]
  | ok boundaries => rfl

theorem dangling_each_eq_nil {visit : Url → Search} {urls : List Url}
    (h : ∀ url ∈ urls, (visit url).dangling = []) : (each visit urls).dangling = [] := by
  induction urls with
  | nil => rfl
  | cons url urls ih =>
      have hrest := ih fun other ho => h other (List.mem_cons_of_mem _ ho)
      rw [each, dangling_andThen, h url List.mem_cons_self, hrest]
      split <;> rfl

end Search

namespace Graph

-- What the search does about one of the URLs that depend on `resource`.
def visit (graph : Graph) (path : List Url) (resource : Resource) (url : Url) : Search :=
  match graph.get? url with
  | none => .missing resource.url url
  | some dependent =>
    if dependent.declines then .blocked (.declining dependent.url)
    else if dependent.accepts resource.url then .boundary ⟨dependent.url, resource.url⟩
    else if dependent.url ∈ path then .blocked (.cycle dependent.url)
    else graph.explore (dependent.url :: path) dependent

variable {graph : Graph}

theorem verdictAt_of_get? {url : Url} {resource : Resource} (h : graph.get? url = some resource) :
    graph.verdictAt url = .ok (graph.verdictOf resource) := by
  simp only [verdictAt, verdictAtLogged, h]
  rfl

theorem verdictAt_of_none {url : Url} (h : graph.get? url = none) :
    graph.verdictAt url = .error ⟨url⟩ := by
  simp only [verdictAt, verdictAtLogged, h]
  rfl

theorem exists_verdictAt {url : Url} (h : graph.contains url = true) :
    ∃ verdict, graph.verdictAt url = .ok verdict := by
  obtain ⟨resource, hr⟩ := Option.isSome_iff_exists.mp h
  exact ⟨_, verdictAt_of_get? hr⟩

theorem contains_of_verdictAt {url : Url} {verdict : Verdict}
    (hv : graph.verdictAt url = .ok verdict) : graph.contains url = true := by
  cases hr : graph.get? url with
  | none =>
      rw [verdictAt_of_none hr] at hv
      cases hv
  | some resource => rw [contains_eq_isSome, hr, Option.isSome_some]

-- What was just declared is registered, so its verdict is known.
theorem exists_verdictAt_declare (graph : Graph) (url : Url) (declaration : Declaration) :
    ∃ verdict, (graph.declare url declaration).result.graph.verdictAt url = .ok verdict :=
  ⟨_, verdictAt_of_get? get?_declare_self⟩

theorem verdictOf_of_declines {resource : Resource} (h : resource.declines = true) :
    graph.verdictOf resource = .declined .selfDeclines (some resource.url) := by
  rw [verdictOf, verdictOfLogged, if_pos h]

theorem verdictOf_of_willing {resource : Resource} (h : resource.declines = false) :
    graph.verdictOf resource = (graph.explore [resource.url] resource).verdict resource := by
  rw [verdictOf, verdictOfLogged, h, if_neg Bool.false_ne_true]

theorem explore_of_selfAccepts {path : List Url} {resource : Resource}
    (h : resource.selfAccepts = true) :
    graph.explore path resource = .boundary ⟨resource.url, resource.url⟩ := by
  rw [explore, if_pos h]

theorem explore_of_not_selfAccepts {path : List Url} {resource : Resource}
    (h : ¬resource.selfAccepts = true) :
    graph.explore path resource =
      Search.each (graph.visit path resource) resource.dependents.toList := by
  rw [explore, if_neg h]
  congr 1
  funext url
  unfold visit
  split
  · rename_i hg
    rw [hg]
  · rename_i dependent hg
    rw [hg]
    rfl

theorem WellFormed.contains_of_mem_dependents (h : graph.WellFormed) {url other : Url}
    {resource : Resource} (hr : graph.get? url = some resource)
    (ho : other ∈ resource.dependents) : graph.contains other = true := by
  have hd : url ∈ graph.dependenciesOf other := by
    rw [h.mirrored, dependentsOf_of_get? hr]
    exact ho
  obtain ⟨source, hs, -⟩ := mem_dependenciesOf.mp hd
  rw [contains_eq_isSome, hs]
  rfl

theorem WellFormed.dangling_explore (h : graph.WellFormed) (path : List Url) {url : Url}
    {resource : Resource} (hr : graph.get? url = some resource) :
    (graph.explore path resource).dangling = [] := by
  induction path, resource using explore.induct graph generalizing url with
  | case1 path resource hs =>
      rw [explore_of_selfAccepts hs]
      rfl
  | case2 path resource hs ih =>
      rw [explore_of_not_selfAccepts hs]
      apply Search.dangling_each_eq_nil
      intro other ho
      have hc := h.contains_of_mem_dependents hr ho
      rw [contains_eq_isSome] at hc
      obtain ⟨dependent, hd⟩ := Option.isSome_iff_exists.mp hc
      rw [visit, hd]
      dsimp only
      split_ifs with _ _ hp
      · rfl
      · rfl
      · rfl
      · exact ih other dependent hd hp hd

end Graph

end LiveReload
