import LiveReload.Config
import LiveReload.Json.Choice
import LiveReload.Json.Record

namespace LiveReload

def WireFormat.reader : Json.Reader WireFormat :=
  .choice (WireFormat.all.map fun format => (format.name, format))

namespace Config

inductive LoadFault where
  | json (fault : Json.Fault)
  | config (fault : ConfigFault)

-- Every setting has a default, in an array as in an object.
def schema : Json.Schema Config Config where
  name := "struct HotReloadConfig"
  fields := [
    ⟨"rootUrl", Json.Reader.string.map fun url config => { config with rootUrl := url }⟩,
    ⟨"wireFormat", WireFormat.reader.map fun format config => { config with wireFormat := format }⟩,
    ⟨"channelCapacity",
      Json.Reader.word64.map fun capacity config => { config with channelCapacity := capacity }⟩,
    ⟨"pruneNotifications",
      Json.Reader.bool.map fun on config => { config with pruneNotifications := on }⟩]
  start := {}
  openEnded := true
  finish := .ok

def ofJson (text : String) : Except LoadFault Config :=
  match schema.reader.readAll text with
  | .error fault => .error (.json fault)
  | .ok config =>
    match config.validate with
    | .error fault => .error (.config fault)
    | .ok () => .ok config

-- What a user is told of a problem in the settings.
def problemMessage (problem : Wire.Problem) : String :=
  "failed to parse config: " ++ problem.message

end Config

end LiveReload
