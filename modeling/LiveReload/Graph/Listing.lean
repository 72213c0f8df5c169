import LiveReload.Graph
import LiveReload.Json.Printer

namespace LiveReload

structure ResourceView where
  kind : String
  dependencies : List Url
  dependents : List Url
deriving DecidableEq

def Resource.view (resource : Resource) : ResourceView where
  kind := resource.kind
  dependencies := resource.dependencies.toList
  dependents := resource.dependents.toList

def Graph.listing (graph : Graph) : List (Url × ResourceView) :=
  graph.resources.entries.map fun entry => (entry.1, entry.2.view)

namespace Listing

def newline (indent : Nat) : List Char := '\n' :: List.replicate (2 * indent) ' '

-- Each item has a line of its own. An empty block has no lines.
def block (opening closing : Char) (indent : Nat) (items : List (List Char)) : List Char :=
  if items.isEmpty then [opening, closing]
  else opening :: Json.separated (items.map (newline (indent + 1) ++ ·)) ++
    newline indent ++ [closing]

def member (name : String) (value : List Char) : List Char :=
  Json.printText name ++ ':' :: ' ' :: value

def printUrls (indent : Nat) (urls : List Url) : List Char :=
  block '[' ']' indent (urls.map Json.printText)

def printView (indent : Nat) (view : ResourceView) : List Char :=
  block '\x7b' '\x7d' indent [
    member "type" (Json.printText view.kind),
    member "dependencies" (printUrls (indent + 1) view.dependencies),
    member "dependents" (printUrls (indent + 1) view.dependents)]

def print (views : List (Url × ResourceView)) : String :=
  .ofList (block '\x7b' '\x7d' 0 (views.map fun entry => member entry.1 (printView 1 entry.2)))

end Listing

end LiveReload
