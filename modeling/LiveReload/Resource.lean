import LiveReload.UrlSet

namespace LiveReload

structure Resource where
  -- Tells a resource from another that is registered under the same URL later on.
  id : Nat
  url : Url
  kind : String
  dependencies : UrlSet
  dependents : UrlSet
  declines : Bool
  selfAccepts : Bool
  accepted : UrlSet
deriving DecidableEq

-- What a parse says about a resource. What it leaves out stays as it was.
structure Declaration where
  kind : Option String := none
  dependencies : Option (List Url) := none
  declines : Option Bool := none
  selfAccepts : Option Bool := none
  accepted : Option (List Url) := none
deriving DecidableEq

namespace Declaration

def withKind (declaration : Declaration) (kind : String) : Declaration :=
  { declaration with kind := some kind }

def withDependencies (declaration : Declaration) (urls : List Url) : Declaration :=
  { declaration with dependencies := some urls }

def withDeclines (declaration : Declaration) (declines : Bool) : Declaration :=
  { declaration with declines := some declines }

def withSelfAccepts (declaration : Declaration) (selfAccepts : Bool) : Declaration :=
  { declaration with selfAccepts := some selfAccepts }

def withAccepted (declaration : Declaration) (urls : List Url) : Declaration :=
  { declaration with accepted := some urls }

end Declaration

namespace Resource

-- Nothing is known of a resource before it is first parsed.
def fresh (id : Nat) (url : Url) : Resource where
  id := id
  url := url
  kind := ""
  dependencies := ∅
  dependents := ∅
  declines := false
  selfAccepts := false
  accepted := ∅

def isUnused (resource : Resource) : Bool := resource.dependents.isEmpty

def accepts (resource : Resource) (dependency : Url) : Bool := dependency ∈ resource.accepted

-- Edges are not part of this: they concern both ends.
def declare (resource : Resource) (declaration : Declaration) : Resource :=
  { resource with
    kind := declaration.kind.getD resource.kind
    declines := declaration.declines.getD resource.declines
    selfAccepts := declaration.selfAccepts.getD resource.selfAccepts
    accepted := (declaration.accepted.map UrlSet.ofList).getD resource.accepted }

def addDependent (resource : Resource) (url : Url) : Resource :=
  { resource with dependents := resource.dependents.insert url }

def removeDependent (resource : Resource) (url : Url) : Resource :=
  { resource with dependents := resource.dependents.erase url }

def removeDependency (resource : Resource) (url : Url) : Resource :=
  { resource with dependencies := resource.dependencies.erase url }

end Resource

end LiveReload
