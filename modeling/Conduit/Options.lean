import Conduit.Json.Decode
import Conduit.Json.Reader
import Conduit.Limits

/-!
# Options

What a caller may choose about a compilation.
-/

namespace Conduit

structure Options where
  object : String := ""
  /-- Whether a stage that nothing can satisfy is an error. -/
  strict : Bool := true
  relaxLimits : Bool := false
  /-- Whether `{{name}}` placeholders are recognised. -/
  withVariables : Bool := false
  /-- The restricted match operators the caller may use; `*` stands for all. -/
  allowedRestrictedOps : List String := []
  /-- The conditions every index branch starts from. -/
  baseFind : Fields := []
  currentLocale : String := "en_US"
  /-- Whether every matched property counts as indexed. -/
  unindexed : Bool := false
  /-- Whether the pipeline never uses an index. -/
  skipIndexChecks : Bool := false
  allowSystemAccess : Bool := false
  /-- The collection whose native indexes count. -/
  collection : String := "contexts"
  /-- Internal stages in front of the caller's pipeline, free of access checks. -/
  preMatch : Option Json := none
  preSort : Option Json := none

namespace Options

def ofObject (object : String) : Options := { object := object }

def limits (o : Options) : Limits := .of o.relaxLimits

def allowsOperator (o : Options) (op : String) : Bool :=
  o.allowedRestrictedOps.any fun allowed => allowed == "*" || allowed == op

def decode : Json → Decode.Result Options :=
  Decode.record "CompilerOptions"
    [.opt "object" Decode.string fun a o => { o with object := a },
     .opt "strict" Decode.bool fun a o => { o with strict := a },
     .opt "relaxLimits" Decode.bool fun a o => { o with relaxLimits := a },
     .opt "withVariables" Decode.bool fun a o => { o with withVariables := a },
     .opt "allowedRestrictedMatchOps" (Decode.list Decode.string) fun a o =>
       { o with allowedRestrictedOps := a },
     .opt "baseFind" Decode.fields fun a o => { o with baseFind := a },
     .opt "currentLocale" Decode.string fun a o => { o with currentLocale := a },
     .opt "unindexed" Decode.bool fun a o => { o with unindexed := a },
     .opt "skipIndexChecks" Decode.bool fun a o => { o with skipIndexChecks := a },
     .opt "allowSystemAccess" Decode.bool fun a o => { o with allowSystemAccess := a },
     .opt "collection" Decode.string fun a o => { o with collection := a },
     .opt "preMatch" (Decode.optional .ok) fun a o => { o with preMatch := a },
     .opt "preSort" (Decode.optional .ok) fun a o => { o with preSort := a }] {}

def toJson (o : Options) : Json :=
  .obj
    [("object", .str o.object),
     ("strict", .bool o.strict),
     ("relaxLimits", .bool o.relaxLimits),
     ("withVariables", .bool o.withVariables),
     ("allowedRestrictedMatchOps", .arr (o.allowedRestrictedOps.map .str)),
     ("baseFind", .obj o.baseFind),
     ("currentLocale", .str o.currentLocale),
     ("unindexed", .bool o.unindexed),
     ("skipIndexChecks", .bool o.skipIndexChecks),
     ("allowSystemAccess", .bool o.allowSystemAccess),
     ("collection", .str o.collection),
     ("preMatch", o.preMatch.getD .null),
     ("preSort", o.preSort.getD .null)]

def repeatsField : Json → Bool
  | .obj fs => ((toJson {}).obj?.getD []).any fun f => (fs.filter fun g => g.1 == f.1).length > 1
  | _ => false

/-- Options from the text of their document, which names each field at most once. -/
def ofText? (s : String) : Option Options := do
  let v ← Json.written? s
  if repeatsField v then none else (decode v.merged).toOption

end Options

end Conduit
