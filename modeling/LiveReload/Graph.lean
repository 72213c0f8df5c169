import LiveReload.Table
import LiveReload.Resource

namespace LiveReload

-- Resources are looked up by the URL they are registered under and listed in the order of their
-- registration.
structure Graph where
  resources : Table Resource
  -- Every resource ever made in this graph has a smaller identity.
  nextId : Nat

namespace Graph

def empty : Graph := ⟨∅, 0⟩

instance : EmptyCollection Graph := ⟨empty⟩

instance : Inhabited Graph := ⟨empty⟩

def get? (graph : Graph) (url : Url) : Option Resource := graph.resources.get? url

def contains (graph : Graph) (url : Url) : Bool := graph.resources.contains url

def size (graph : Graph) : Nat := graph.resources.size

def nodes (graph : Graph) : List Resource := graph.resources.values

def unused (graph : Graph) : List Url :=
  (graph.nodes.filter Resource.isUnused).map Resource.url

-- Whether `url` is registered and nothing references it.
def isUnused (graph : Graph) (url : Url) : Bool := (graph.get? url).any Resource.isUnused

-- A resource of this graph's making that is registered nowhere yet.
def detached (graph : Graph) (url : Url) : Resource × Graph :=
  (.fresh graph.nextId url, { graph with nextId := graph.nextId + 1 })

def register (graph : Graph) (url : Url) : Graph :=
  if graph.contains url then graph
  else
    let (resource, graph) := graph.detached url
    { graph with resources := graph.resources.insert url resource }

theorem register_of_contains {graph : Graph} {url : Url} (h : graph.contains url = true) :
    graph.register url = graph := by
  simp [register, h]

theorem get?_register (graph : Graph) (url other : Url) :
    (graph.register url).get? other =
      if other = url then some ((graph.get? url).getD (.fresh graph.nextId url))
      else graph.get? other := by
  unfold register
  split
  · rename_i h
    split
    · subst other
      obtain ⟨resource, hr⟩ := Option.isSome_iff_exists.1 h
      simp only [get?, hr, Option.getD_some]
    · rfl
  · rename_i h
    simp only [get?, detached, Table.get?_insert]
    split
    · cases hg : graph.resources.get? url with
      | none => rfl
      | some _ => simp [contains, Table.contains, hg] at h
    · rfl

-- Overwrites whatever is registered under `url` by `resource`, whose own URL may be another.
def put (graph : Graph) (url : Url) (resource : Resource) : Graph :=
  let graph := graph.register url
  { graph with resources := graph.resources.insert url resource }

theorem get?_put (graph : Graph) (url : Url) (resource : Resource) (other : Url) :
    (graph.put url resource).get? other =
      if other = url then some resource else graph.get? other := by
  simp only [put, get?, Table.get?_insert]
  split
  · rfl
  · rename_i h
    exact (get?_register graph url other).trans (if_neg h)

def mapResources (graph : Graph) (f : Url → Resource → Resource) : Graph :=
  { graph with resources := graph.resources.mapWithKey f }

@[simp] theorem get?_mapResources (graph : Graph) (f : Url → Resource → Resource) (url : Url) :
    (graph.mapResources f).get? url = (graph.get? url).map (f url) :=
  Table.get?_mapWithKey _ _ _

def modify (graph : Graph) (url : Url) (f : Resource → Resource) : Graph :=
  { graph with resources := graph.resources.modify url f }

theorem get?_modify (graph : Graph) (url : Url) (f : Resource → Resource) (other : Url) :
    (graph.modify url f).get? other =
      if other = url then (graph.get? other).map f else graph.get? other :=
  Table.get?_modify _ _ _ _

end Graph

end LiveReload
