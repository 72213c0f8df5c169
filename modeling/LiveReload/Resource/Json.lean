import LiveReload.Resource
import LiveReload.Json.Record

namespace LiveReload.Declaration

open Json (Reader)

-- Null says as little as an absent field.
def schema : Json.Schema Declaration Declaration where
  name := "struct ResourceUpdate"
  fields := [
    ⟨"type", Reader.string.optional.map fun kind declared => { declared with kind := kind }⟩,
    ⟨"dependencyUrls", (Reader.listOf Reader.string).optional.map fun urls declared =>
      { declared with dependencies := urls }⟩,
    ⟨"declinesHotUpdate", Reader.bool.optional.map fun declines declared =>
      { declared with declines := declines }⟩,
    ⟨"selfAcceptsUpdate", Reader.bool.optional.map fun accepts declared =>
      { declared with selfAccepts := accepts }⟩,
    ⟨"acceptedDependencyUrls", (Reader.listOf Reader.string).optional.map fun urls declared =>
      { declared with accepted := urls }⟩]
  start := {}
  openEnded := false
  finish := .ok

def ofJson (text : String) : Except Json.Fault Declaration := schema.reader.readAll text

end LiveReload.Declaration
