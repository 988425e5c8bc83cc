import Conduit.Match.Build
import Conduit.Match.Parse

/-!
# The match stage

A match is read, narrows the candidates, is checked against the schema, and is built into a
native query.
-/

namespace Conduit.Match

def compile (ctx : Context) (value : Json) : Compile StageOutput := do
  let v ← Journaled.of (parse ctx value)
  let root := Trail.root ctx v
  match root with
  | [] => throw (Fault.unknownMatchValue.at "")
  | frame :: _ =>
    let models ← Journaled.of frame.models.get
    let properties ← frame.properties.get
    let findings ← validate ctx root v
    let query ← build ctx root v findings
    return { json := single StageKind.match.key query
             models
             properties
             placeholderNames := v.placeholderNames
             indexKeys := query.queryKeys [] }

end Conduit.Match
