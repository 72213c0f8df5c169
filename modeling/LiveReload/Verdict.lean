import LiveReload.UrlSet

namespace LiveReload

-- `url` is re-applied, because it accepts updates of `accepted` (itself, when it accepts its own).
structure Boundary where
  url : Url
  accepted : Url
deriving DecidableEq

inductive DeclineReason where
  | selfDeclines
  | dependentDeclines
  | circularDependency
  | noImporter
  | nothingAccepts
  | prunedDeclines
deriving DecidableEq

namespace DeclineReason

def all : List DeclineReason :=
  [selfDeclines, dependentDeclines, circularDependency, noImporter, nothingAccepts, prunedDeclines]

-- The sentence shown to the user of the page.
def text : DeclineReason → String
  | selfDeclines => "file declines hot reload"
  | dependentDeclines => "a dependent file declines hot reload"
  | circularDependency => "circular dependency"
  | noImporter => "no importer"
  | nothingAccepts => "nothing calls accept() while propagating update"
  | prunedDeclines => "a pruned file declines hot reload"

end DeclineReason

-- Boundaries stand in the order in which they were reached; one reached twice stands twice.
inductive Verdict where
  | accepted (boundaries : List Boundary)
  | declined (reason : DeclineReason) (declinedBy : Option Url)
deriving DecidableEq

def Verdict.isAccepted : Verdict → Bool
  | accepted _ => true
  | declined _ _ => false

-- A question about a URL that no resource is registered under.
structure UnknownResource where
  url : Url
deriving DecidableEq

def UnknownResource.message (fault : UnknownResource) : String :=
  "unknown resource: " ++ fault.url

end LiveReload
