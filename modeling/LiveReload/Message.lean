import LiveReload.UrlSet

namespace LiveReload

-- One resource to re-apply in place, or to drop if the kind is `Instruction.pruneKind`.
structure Instruction where
  kind : String
  boundary : String
  accepted : String
deriving DecidableEq

def Instruction.pruneKind : String := "prune"

inductive Message where
  | fullReload (cause reason : String) (declinedBy : Option String)
  | hotReload (cause : String) (updates : List Instruction)
deriving DecidableEq

namespace Message

inductive Kind where
  | fullReload
  | hotReload
deriving DecidableEq

def Kind.all : List Kind := [fullReload, hotReload]

def Kind.name : Kind → String
  | fullReload => "full_reload"
  | hotReload => "hot_reload"

def kind : Message → Kind
  | fullReload .. => .fullReload
  | hotReload .. => .hotReload

def cause : Message → String
  | fullReload cause _ _ => cause
  | hotReload cause _ => cause

def updates : Message → List Instruction
  | fullReload .. => []
  | hotReload _ updates => updates

def isFullReload (message : Message) : Bool := message.kind = .fullReload

end Message

end LiveReload
