import LiveReload.Graph
import LiveReload.LogRecord

namespace LiveReload

-- What ends a search, however many boundaries it has found.
inductive Obstacle where
  | declining (url : Url)
  | cycle (url : Url)
deriving DecidableEq

namespace Obstacle

def url : Obstacle → Url
  | declining url => url
  | cycle url => url

def reason : Obstacle → DeclineReason
  | declining _ => .dependentDeclines
  | cycle _ => .circularDependency

end Obstacle

structure Search where
  found : Except Obstacle (List Boundary)
  -- Dependents met that are not registered, each with the URL of the resource that lists it.
  dangling : List (Url × Url)

namespace Search

-- A path that runs out of dependents counts for nothing.
def deadEnd : Search := ⟨.ok [], []⟩

def boundary (boundary : Boundary) : Search := ⟨.ok [boundary], []⟩

def blocked (obstacle : Obstacle) : Search := ⟨.error obstacle, []⟩

def missing (url dependent : Url) : Search := ⟨.ok [], [(url, dependent)]⟩

-- Goes on only if nothing ended the search so far.
def andThen (first : Search) (next : Unit → Search) : Search :=
  match first.found with
  | .error _ => first
  | .ok boundaries =>
    let rest := next ()
    ⟨rest.found.map (boundaries ++ ·), first.dangling ++ rest.dangling⟩

-- Only the changed resource itself, `root`, is ever reported as having nothing to accept its update.
def verdict (root : Resource) (search : Search) : Verdict :=
  match search.found with
  | .error obstacle => .declined obstacle.reason (some obstacle.url)
  | .ok [] =>
    .declined (if root.isUnused then .noImporter else .nothingAccepts) (some root.url)
  | .ok boundaries => .accepted boundaries

@[simp] theorem found_andThen (first : Search) (next : Unit → Search) :
    (first.andThen next).found =
      first.found.bind fun boundaries => (next ()).found.map (boundaries ++ ·) := by
  unfold andThen
  cases h : first.found with
  | error obstacle => exact h
  | ok boundaries => rfl

def each (visit : Url → Search) : List Url → Search
  | [] => deadEnd
  | url :: urls => (visit url).andThen fun _ => each visit urls

end Search

-- The closing record of a propagation from `url`.
def Verdict.record (url : Url) : Verdict → LogRecord
  | accepted boundaries => .updateAccepted url boundaries.length
  | declined reason declinedBy => .updateDeclined url reason declinedBy

namespace Graph

-- How many registered resources are not on `path`.
def offPath (graph : Graph) (path : List Url) : Nat :=
  graph.nodes.countP fun resource => resource.url ∉ path

theorem offPath_cons_lt {graph : Graph} {path : List Url} {resource : Resource}
    (hr : resource ∈ graph.nodes) (hp : resource.url ∉ path) :
    graph.offPath (resource.url :: path) < graph.offPath path := by
  unfold offPath
  generalize graph.nodes = nodes at hr
  induction nodes with
  | nil => simp at hr
  | cons head tail ih =>
      have hle : tail.countP (fun other => other.url ∉ resource.url :: path) ≤
          tail.countP (fun other => other.url ∉ path) :=
        List.countP_mono_left fun other _ h => by simp_all
      simp only [List.countP_cons]
      rcases List.mem_cons.1 hr with rfl | ht
      · simp [hp] at hle ⊢
        omega
      · have hlt := ih ht
        by_cases hh : head.url ∈ path
        · simp [hh] at hlt ⊢
          omega
        · by_cases he : head.url = resource.url <;> simp [hh, he] at hlt ⊢ <;> omega

-- No set of visited resources is kept, only the path: a resource reached along two paths is
-- searched twice and its boundaries are found twice. The search ends because a path never holds a URL
-- twice.
-- Searches from `resource`, the first of `path`. The tests come in this order: a dependent that
-- declines, one that accepts the update, one that is on the path.
def explore (graph : Graph) (path : List Url) (resource : Resource) : Search :=
  if resource.selfAccepts then .boundary ⟨resource.url, resource.url⟩
  else
    Search.each (fun url =>
      match _h : graph.get? url with
      | none => .missing resource.url url
      | some dependent =>
        if dependent.declines then .blocked (.declining dependent.url)
        else if dependent.accepts resource.url then .boundary ⟨dependent.url, resource.url⟩
        else if _h : dependent.url ∈ path then .blocked (.cycle dependent.url)
        else graph.explore (dependent.url :: path) dependent)
      resource.dependents.toList
termination_by graph.offPath path
decreasing_by exact offPath_cons_lt (Table.mem_values_of_get? ‹_›) ‹_›

-- A resource that declines does so even if it accepts its own updates.
def verdictOfLogged (graph : Graph) (resource : Resource) : Logged Verdict :=
  if resource.declines then
    let verdict : Verdict := .declined .selfDeclines (some resource.url)
    ⟨verdict, [verdict.record resource.url]⟩
  else
    let search := graph.explore [resource.url] resource
    let verdict := search.verdict resource
    ⟨verdict, search.dangling.map (fun edge => .danglingDependent edge.1 edge.2) ++
      [verdict.record resource.url]⟩

def verdictOf (graph : Graph) (resource : Resource) : Verdict :=
  (graph.verdictOfLogged resource).result

def verdictAtLogged (graph : Graph) (url : Url) : Logged (Except UnknownResource Verdict) :=
  match graph.get? url with
  | none => pure (.error ⟨url⟩)
  | some resource => .ok <$> graph.verdictOfLogged resource

def verdictAt (graph : Graph) (url : Url) : Except UnknownResource Verdict :=
  (graph.verdictAtLogged url).result

end Graph

end LiveReload
