import LiveReload.UrlSet

namespace LiveReload

inductive FileEvent.Kind where
  | added
  | modified
  | removed
deriving DecidableEq

namespace FileEvent.Kind

def all : List FileEvent.Kind := [added, modified, removed]

def name : FileEvent.Kind → String
  | added => "added"
  | modified => "modified"
  | removed => "removed"

end FileEvent.Kind

structure FileEvent where
  url : Url
  kind : FileEvent.Kind
deriving DecidableEq

def FileEvent.modified (url : Url) : FileEvent := ⟨url, .modified⟩

end LiveReload
