import LiveReload.Graph
import LiveReload.LogRecord

namespace LiveReload.Graph

structure Change where
  graph : Graph
  -- Resources that lost their last dependent, in the order of the edges that went. They stay
  -- registered.
  orphaned : List Url

def registrations (graph : Graph) (url : Url) : List LogRecord :=
  if graph.contains url then [] else [.registering url]

def registerLogged (graph : Graph) (url : Url) : Logged Graph :=
  ⟨graph.register url, graph.registrations url⟩

def putLogged (graph : Graph) (url : Url) (resource : Resource) : Logged Graph :=
  ⟨graph.put url resource, graph.registrations url⟩

def dependenciesOf (graph : Graph) (url : Url) : UrlSet :=
  ((graph.get? url).map Resource.dependencies).getD ∅

-- Gives the registered `url` the dependencies `next`. Targets that were listed before keep their
-- back-edge and with it their order of dependents.
def redirect (graph : Graph) (url : Url) (next : UrlSet) : Logged Change :=
  let previous := graph.dependenciesOf url
  let dropped := previous.without next
  let added := next.without previous
  let listed := graph.modify url fun resource => { resource with dependencies := next }
  let edited := (added.foldl register listed).mapResources fun key resource =>
    if key ∈ dropped then resource.removeDependent url
    else if key ∈ added then resource.addDependent url
    else resource
  let orphaned := dropped.filter edited.isUnused
  ⟨⟨edited, orphaned⟩, added.flatMap graph.registrations ++
    [.reconciledEdges url added.length dropped.length orphaned.length]⟩

-- Takes in what a parse of `url` declares, registering `url` and its dependencies as needed.
def declare (graph : Graph) (url : Url) (declaration : Declaration) : Logged Change := do
  let registered ← graph.registerLogged url
  let declared := registered.modify url (·.declare declaration)
  match declaration.dependencies with
  | none => pure ⟨declared, []⟩
  | some urls => declared.redirect url (.ofList urls)

-- What is left of `other`, registered under `key`, when `gone` leaves `url`.
def sever (gone : Resource) (url key : Url) (other : Resource) : Resource :=
  let other := if key ∈ gone.dependencies then other.removeDependent url else other
  if key ∈ gone.dependents then other.removeDependency url else other

-- Takes `url` out of the graph, with every edge that touches it.
def remove (graph : Graph) (url : Url) : Logged Change :=
  match graph.get? url with
  | none => pure ⟨graph, []⟩
  | some resource =>
    let rest : Graph := { graph with resources := graph.resources.erase url }
    let edited := rest.mapResources (sever resource url)
    let orphaned := resource.dependencies.toList.filter edited.isUnused
    ⟨⟨edited, orphaned⟩, [.removedResource url orphaned.length]⟩

theorem dependenciesOf_of_get? {graph : Graph} {url : Url} {resource : Resource}
    (h : graph.get? url = some resource) : graph.dependenciesOf url = resource.dependencies := by
  simp [dependenciesOf, h]

theorem remove_of_none {graph : Graph} {url : Url} (h : graph.get? url = none) :
    (graph.remove url).result = ⟨graph, []⟩ := by
  simp [remove, h]

theorem get?_remove {graph : Graph} {url : Url} {resource : Resource}
    (h : graph.get? url = some resource) (other : Url) :
    (graph.remove url).result.graph.get? other =
      if other = url then none else (graph.get? other).map (sever resource url other) := by
  simp only [remove, h, get?_mapResources]
  rw [Graph.get?, Table.get?_erase]
  split <;> rfl

end LiveReload.Graph
