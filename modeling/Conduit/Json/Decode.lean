import Conduit.Binary64.Decimal
import Conduit.Json
import Conduit.Text.Quoted

/-!
# Reading records from documents

A record is an object with known fields, or an array that lists the fields in order.  Fields
are read in the order of the document and the first failure is the answer; fields that are
missing are noticed at the end, in the order of the record.
-/

namespace Conduit

/-- Why a document is not the record that was asked for. -/
inductive DecodeError where
  | missingField (name : String)
  | wrongType (found : Json) (expected : String)
  | unknownVariant (name : String) (variants : List String)
  | wrongLength (length : Nat) (expected : String)
  | severalKeys

namespace DecodeError

def describe : Json → String
  | .null => "null"
  | .bool b => "boolean `" ++ toString b ++ "`"
  | .int n => "integer `" ++ toString n ++ "`"
  | .double x => "floating point `" ++ x.plainText ++ "`"
  | .str s => "string " ++ Text.shown s
  | .arr _ => "sequence"
  | .obj _ => "map"

def ticked (s : String) : String := "`" ++ s ++ "`"

def alternatives : List String → String
  | [a] => ticked a
  | [a, b] => ticked a ++ " or " ++ ticked b
  | names => "one of " ++ ", ".intercalate (names.map ticked)

def message : DecodeError → String
  | missingField name => "missing field " ++ ticked name
  | wrongType found expected => "invalid type: " ++ describe found ++ ", expected " ++ expected
  | unknownVariant name variants =>
    "unknown variant " ++ ticked name ++ ", expected " ++ alternatives variants
  | wrongLength length expected =>
    "invalid length " ++ toString length ++ ", expected " ++ expected
  | severalKeys => "invalid value: map, expected map with a single key"

end DecodeError

namespace Decode

abbrev Result (α : Type) := Except DecodeError α

def string : Json → Result String
  | .str s => .ok s
  | v => .error (.wrongType v "a string")

def bool : Json → Result Bool
  | .bool b => .ok b
  | v => .error (.wrongType v "a boolean")

def fields : Json → Result Fields
  | .obj fs => .ok fs
  | v => .error (.wrongType v "a map")

def list {α : Type} (item : Json → Result α) : Json → Result (List α)
  | .arr items => items.mapM item
  | v => .error (.wrongType v "a sequence")

def optional {α : Type} (item : Json → Result α) : Json → Result (Option α)
  | .null => .ok none
  | v => (item v).map some

def named {α : Type} (variants : List (String × α)) (name : String) : Result α :=
  match variants.find? (fun v => v.1 == name) with
  | some v => .ok v.2
  | none => .error (.unknownVariant name (variants.map Prod.fst))

def identifier {α : Type} (variants : List (String × α)) : Json → Result α
  | .str s => named variants s
  | v => .error (.wrongType v "variant identifier")

/-- One of the named values: its name, or an object that maps the name to null. -/
def variant {α : Type} (variants : List (String × α)) : Json → Result α
  | .str s => named variants s
  | .obj [(key, v)] => do
    let a ← named variants key
    match v with
    | .null => return a
    | _ => .error (.wrongType v "unit")
  | .obj _ => .error .severalKeys
  | v => .error (.wrongType v "string or map")

structure Field (σ : Type) where
  name : String
  required : Bool
  store : Json → σ → Result σ

def Field.opt {σ α : Type} (name : String) (read : Json → Result α) (set : α → σ → σ) : Field σ :=
  ⟨name, false, fun v s => (read v).map fun a => set a s⟩

def Field.req {σ α : Type} (name : String) (read : Json → Result α) (set : α → σ → σ) : Field σ :=
  ⟨name, true, fun v s => (read v).map fun a => set a s⟩

def positional {σ : Type} (expected : String) : Nat → List (Field σ) → List Json → σ → Result σ
  | _, [], [], s => .ok s
  | n, [], _ :: rest, _ => .error (.wrongLength (n + rest.length + 1) "fewer elements in array")
  | n, f :: fs, [], s =>
    if f.required then .error (.wrongLength n expected) else positional expected (n + 1) fs [] s
  | n, f :: fs, v :: rest, s => do
    let s ← f.store v s
    positional expected (n + 1) fs rest s

def storeAll {σ : Type} (known : List (Field σ)) : Fields → σ → Result σ
  | [], s => .ok s
  | (key, v) :: rest, s =>
    match known.find? (fun f => f.name == key) with
    | none => storeAll known rest s
    | some f => do
      let s ← f.store v s
      storeAll known rest s

def record {σ : Type} (typeName : String) (known : List (Field σ)) (start : σ) : Json → Result σ
  | .obj fs => do
    let s ← storeAll known fs start
    match known.find? (fun f => f.required && !Fields.contains fs f.name) with
    | some f => .error (.missingField f.name)
    | none => return s
  | .arr items =>
    let n := known.length
    let expected := "struct " ++ typeName ++ " with " ++ toString n ++
      (if n = 1 then " element" else " elements")
    positional expected 0 known items start
  | v => .error (.wrongType v ("struct " ++ typeName))

end Decode

end Conduit
