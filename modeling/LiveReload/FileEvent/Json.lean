import LiveReload.FileEvent
import LiveReload.Json.Choice
import LiveReload.Json.Record

namespace LiveReload.FileEvent

open Wire (Problem Value)

def Kind.choices : List (String × Kind) := Kind.all.map fun kind => (kind.name, kind)

-- Needs the same as the text: a name, or a map with the name for its only key.
def Kind.ofValue : Value → Except Problem Kind
  | .text name => Json.pick choices name
  | .map entries =>
    match entries with
    | [(.text name, value)] =>
      match Json.pick choices name, value with
      | .error problem, _ => .error problem
      | .ok kind, .null => .ok kind
      | .ok _, value => .error (.invalidType value.found "unit")
    | _ => .error (.invalidValue .map "map with a single key")
  | value => .error (.invalidType value.found "string or map")

structure Draft where
  url : Option Url := none
  kind : Option Kind := none

def schema : Json.Schema Draft FileEvent where
  name := "struct FileEvent"
  fields := [
    ⟨"url", Json.Reader.string.map fun url draft => { draft with url := some url }⟩,
    ⟨"event", (Json.Reader.choice Kind.choices).map fun kind draft => { draft with kind := some kind }⟩]
  start := {}
  openEnded := false
  finish draft := do
    let url ← Wire.required "url" draft.url
    let kind ← Wire.required "event" draft.kind
    pure ⟨url, kind⟩

def ofJson (text : String) : Except Json.Fault FileEvent := schema.reader.readAll text

end LiveReload.FileEvent
