import Conduit.Fault
import Conduit.Instant
import Conduit.Json.Number
import Conduit.Json.Printer
import Conduit.Pattern
import Conduit.Schema.Node

/-!
# Casting literals

A literal in a query is cast to the form in which the values of a property are stored.  Dates
are stored as `$date` documents and identifiers as `$oid` documents.  Null and patterns stand
for themselves whatever the type.
-/

namespace Conduit

/-- The instant a literal stands for: a time stamp or date, milliseconds, or a `$date`
document around one. -/
def Instant.ofJson? : Json → Option Instant
  | .str s => Instant.read? s
  | .int n => if inInt64 n then Instant.ofMillis? n else none
  | .obj [(key, v)] => if key = "$date" then ofJson? v else none
  | _ => none

def Instant.toJson (t : Instant) : Json := .obj [("$date", .str t.text)]

def isObjectId (s : String) : Bool := s.toList.length == 24 && s.toList.all Regex.isHexDigit

def objectIdHex? : Json → Option String
  | .str s => if isObjectId s then some (String.ofList (s.toList.map Char.toLower)) else none
  | .obj [(key, .str s)] =>
    if key = "$oid" ∧ isObjectId s then some (String.ofList (s.toList.map Char.toLower)) else none
  | _ => none

namespace Cast

def toString? : Json → Option Json
  | .str s => some (.str s)
  | .bool b => some (.str (Json.scalarText (.bool b)))
  | .int n => some (.str (Json.scalarText (.int n)))
  | .double x => some (.str (Json.scalarText (.double x)))
  | _ => none

def toNumber? : Json → Option Json
  | .int n => some (.int n)
  | .double x => some (.double x)
  | .bool b => some (.int (if b then 1 else 0))
  | .str s =>
    let s := Text.trim s
    match readInt64? s with
    | some n => some (.int n)
    | none =>
      match Quantity.read? s with
      | some (.finite x) => some (.double x)
      | _ => none
  | _ => none

def toBoolean? : Json → Option Json
  | .bool b => some (.bool b)
  | .str s =>
    if s = "true" then some (.bool true) else if s = "false" then some (.bool false) else none
  | .int n => some (.bool (n != 0))
  | .double x => some (.bool !x.isZero)
  | _ => none

def toDate? (v : Json) : Option Json := (Instant.ofJson? v).map Instant.toJson

def toObjectId? (v : Json) : Option Json :=
  (objectIdHex? v).map fun hex => .obj [("$oid", .str hex)]

/-- The stored form of a literal in a property of this type. -/
def to? : PropertyType → Json → Option Json
  | .string, v => toString? v
  | .number, v => toNumber? v
  | .boolean, v => toBoolean? v
  | .date, v => toDate? v
  | .objectId, v | .reference, v => toObjectId? v
  | _, v => some v

end Cast

/-- The form of a literal in a query on a property of this type. -/
def castForQuery (type : PropertyType) (v : Json) (path : String) : Except CompileError Json :=
  if v.isNull || (Pattern.ofJson? v).isSome then .ok v
  else match Cast.to? type v with
    | some w => .ok w
    | none => .error ((Fault.castFailed type v.text).at path)

end Conduit
