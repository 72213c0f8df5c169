import LiveReload.Message
import LiveReload.Graph.Search

namespace LiveReload

-- What follows `lead` in `chars`, if `chars` starts with it.
def dropLead? : List Char → List Char → Option (List Char)
  | [], chars => some chars
  | _ :: _, [] => none
  | l :: lead, c :: chars => if l = c then dropLead? lead chars else none

-- Clients see URLs relative to the project's root; those outside of it are kept as they are.
def Url.relativeTo (root url : Url) : String :=
  match dropLead? root.toList url.toList with
  | some rest => .ofList rest
  | none => url

namespace Message

-- A boundary that is registered nowhere is announced without a kind.
def ofVerdict (root : Url) (graph : Graph) (cause : String) : Verdict → Message
  | .declined reason declinedBy =>
    .fullReload cause reason.text (declinedBy.map (Url.relativeTo root))
  | .accepted boundaries =>
    .hotReload cause <| boundaries.map fun boundary =>
      { kind := ((graph.get? boundary.url).map Resource.kind).getD ""
        boundary := Url.relativeTo root boundary.url
        accepted := Url.relativeTo root boundary.accepted }

-- Adds an instruction to drop each of `orphans`, which `url` no longer references. One of them that
-- declines hot reload makes it a full reload; a full reload stays one.
def addOrphans (root : Url) (graph : Graph) (url : Url) (orphans : List Url) : Message → Message
  | fullReload cause reason declinedBy => fullReload cause reason declinedBy
  | hotReload cause updates =>
    match orphans.find? fun other => (graph.get? other).any Resource.declines with
    | some other => ofVerdict root graph cause (.declined .prunedDeclines (some other))
    | none =>
      hotReload cause <| updates ++ orphans.map fun other =>
        { kind := Instruction.pruneKind
          boundary := Url.relativeTo root other
          accepted := Url.relativeTo root url }

def changeCause (root : Url) (event : FileEvent) : String :=
  Url.relativeTo root event.url ++ " " ++ event.kind.name

def orphanCause (root : Url) (orphans : List Url) : String :=
  "following files are no longer referenced: " ++
    ", ".intercalate (orphans.map (Url.relativeTo root))

-- Announces that `url` stopped referencing `orphans`: who takes updates of `url` copes with that too.
def ofOrphans (root : Url) (graph : Graph) (url : Url) (orphans : List Url) :
    Logged (Except UnknownResource (Option Message)) :=
  if orphans.isEmpty then pure (.ok none)
  else do
    match ← graph.verdictAtLogged url with
    | .error fault => pure (.error fault)
    | .ok verdict =>
      let cause := orphanCause root orphans
      if verdict.isAccepted then
        pure (.ok (some (addOrphans root graph url orphans (hotReload cause []))))
      else pure (.ok (some (ofVerdict root graph cause verdict)))

end Message

end LiveReload
