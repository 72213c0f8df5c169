import LiveReload.Proofs.Graph.Exploration
import Mathlib.Logic.Relation

namespace LiveReload

namespace Search

-- What the result of a search names.
def urls (search : Search) : List Url :=
  match search.found with
  | .error obstacle => [obstacle.url]
  | .ok boundaries => boundaries.flatMap fun boundary => [boundary.url, boundary.accepted]

variable {inside : Url → Prop}

theorem forall_urls_andThen {first : Search} {next : Unit → Search}
    (hfirst : ∀ url ∈ first.urls, inside url) (hnext : ∀ url ∈ (next ()).urls, inside url) :
    ∀ url ∈ (first.andThen next).urls, inside url := by
  unfold urls at *
  rw [found_andThen]
  cases hf : first.found with
  | error obstacle =>
      rw [hf] at hfirst
      exact hfirst
  | ok boundaries =>
      rw [hf] at hfirst
      cases hn : (next ()).found with
      | error obstacle =>
          rw [hn] at hnext
          exact hnext
      | ok rest =>
          rw [hn] at hnext
          intro url hu
          change url ∈ (boundaries ++ rest).flatMap _ at hu
          rw [List.flatMap_append, List.mem_append] at hu
          exact hu.elim (hfirst url) (hnext url)

theorem forall_urls_each {visit : Url → Search} {urls : List Url}
    (h : ∀ dependent ∈ urls, ∀ url ∈ (visit dependent).urls, inside url) :
    ∀ url ∈ (each visit urls).urls, inside url := by
  induction urls with
  | nil => exact fun _ hu => nomatch hu
  | cons first rest ih =>
      apply forall_urls_andThen
      · exact h first List.mem_cons_self
      · exact ih fun dependent hd => h dependent (List.mem_cons_of_mem first hd)

end Search

-- What a verdict names.
def Verdict.urls : Verdict → List Url
  | accepted boundaries => boundaries.flatMap fun boundary => [boundary.url, boundary.accepted]
  | declined _ declinedBy => declinedBy.toList

theorem Search.urls_verdict (search : Search) (root : Resource) :
    (search.verdict root).urls = search.urls ∨ (search.verdict root).urls = [root.url] := by
  unfold verdict urls
  cases search.found with
  | error obstacle => exact .inl rfl
  | ok boundaries =>
      cases boundaries with
      | nil => exact .inr rfl
      | cons first rest => exact .inl rfl

namespace Graph

-- Going from a URL to one that depends on it never leads out.
def IsUpward (graph : Graph) (inside : Url → Prop) : Prop :=
  ∀ url dependent, inside url → dependent ∈ graph.dependentsOf url → inside dependent

def Above (graph : Graph) : Url → Url → Prop :=
  Relation.ReflTransGen fun url dependent => dependent ∈ graph.dependentsOf url

variable {graph : Graph} {inside : Url → Prop} {url other : Url} {resource : Resource}

theorem isUpward_above (graph : Graph) (url : Url) : graph.IsUpward (graph.Above url) :=
  fun _ _ ha hd => ha.tail hd

-- What is above a URL is the least of the sets that do not lead out and have the URL in them.
theorem IsUpward.of_above (h : graph.IsUpward inside) (hu : inside url)
    (ha : graph.Above url other) : inside other := by
  induction ha with
  | refl => exact hu
  | tail _ hd ih => exact h _ _ ih hd

theorem mem_dependentsOf_of_get? (hr : graph.get? url = some resource) {dependent : Url}
    (hd : dependent ∈ resource.dependents.toList) : dependent ∈ graph.dependentsOf url := by
  rw [dependentsOf_of_get? hr]
  exact hd

theorem IsUpward.forall_urls_explore (h : graph.IsUpward inside) (hk : graph.Keyed)
    {path : List Url} (hr : graph.get? url = some resource) (hu : inside url) :
    ∀ named ∈ (graph.explore path resource).urls, inside named := by
  induction path, resource using explore.induct graph generalizing url with
  | case1 path resource hs =>
      have hurl := hk url resource hr
      rw [explore_of_selfAccepts hs]
      simp [Search.urls, Search.boundary, hurl, hu]
  | case2 path resource hs ih =>
      have hurl := hk url resource hr
      rw [explore_of_not_selfAccepts hs]
      apply Search.forall_urls_each
      intro dependent hd
      have hin : inside dependent := h url dependent hu (mem_dependentsOf_of_get? hr hd)
      unfold visit
      cases hg : graph.get? dependent with
      | none =>
          intro _ hn
          cases hn
      | some next =>
          have hnext := hk dependent next hg
          dsimp only
          split_ifs with _ _ hp
          · simp [Search.urls, Search.blocked, Obstacle.url, hnext, hin]
          · simp [Search.urls, Search.boundary, hnext, hin, hurl, hu]
          · simp [Search.urls, Search.blocked, Obstacle.url, hnext, hin]
          · exact ih dependent next hg hp hg hin

theorem IsUpward.forall_urls_verdictAt (h : graph.IsUpward inside) (hk : graph.Keyed)
    (hu : inside url) {verdict : Verdict} (hv : graph.verdictAt url = .ok verdict) :
    ∀ named ∈ verdict.urls, inside named := by
  cases hr : graph.get? url with
  | none =>
      rw [verdictAt_of_none hr] at hv
      cases hv
  | some resource =>
      have hself : inside resource.url := (hk url resource hr).symm ▸ hu
      rw [verdictAt_of_get? hr, Except.ok.injEq] at hv
      subst hv
      cases hd : resource.declines with
      | true =>
          rw [verdictOf_of_declines hd]
          exact List.forall_mem_singleton.mpr hself
      | false =>
          rw [verdictOf_of_willing hd]
          rcases Search.urls_verdict (graph.explore [resource.url] resource) resource with he | he
          · rw [he]
            exact h.forall_urls_explore hk hr hu
          · rw [he]
            exact List.forall_mem_singleton.mpr hself

end Graph

end LiveReload
