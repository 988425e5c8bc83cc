import Conduit.Binary64.Decimal
import Conduit.Json
import Conduit.Text.Quoted
import Std.Data.TreeSet

/-!
# Documents as text
-/

namespace Conduit.Json

def scalarText : Json → String
  | .null => "null"
  | .bool true => "true"
  | .bool false => "false"
  | .int n => toString n
  | .double x => x.text
  | .str s => Text.quoted s
  | _ => ""

mutual

def text : Json → String
  | .arr items => "[" ++ ",".intercalate (itemTexts items) ++ "]"
  | .obj fields => "\x7b" ++ ",".intercalate (fieldTexts fields) ++ "\x7d"
  | v => scalarText v

def itemTexts : List Json → List String
  | [] => []
  | v :: rest => text v :: itemTexts rest

def fieldTexts : Fields → List String
  | [] => []
  | (k, v) :: rest => (Text.quoted k ++ ":" ++ text v) :: fieldTexts rest

end

def margin (level : Nat) : String := String.ofList ('\n' :: List.replicate (2 * level) ' ')

mutual

def prettyAt (level : Nat) : Json → String
  | .arr [] => "[]"
  | .obj [] => "\x7b\x7d"
  | .arr items =>
    "[" ++ ",".intercalate (prettyItems (level + 1) items) ++ margin level ++ "]"
  | .obj fields =>
    "\x7b" ++ ",".intercalate (prettyFields (level + 1) fields) ++ margin level ++ "\x7d"
  | v => scalarText v

def prettyItems (level : Nat) : List Json → List String
  | [] => []
  | v :: rest => (margin level ++ prettyAt level v) :: prettyItems level rest

def prettyFields (level : Nat) : Fields → List String
  | [] => []
  | (k, v) :: rest =>
    (margin level ++ Text.quoted k ++ ": " ++ prettyAt level v) :: prettyFields level rest

end

def pretty (v : Json) : String := prettyAt 0 v

mutual

/-- A text in which the fields of every object stand in the order of their keys. -/
def canonical : Json → String
  | .arr items => "[" ++ ",".intercalate (canonicalItems items) ++ "]"
  | .obj fields =>
    let pairs := (canonicalFields fields).mergeSort fun a b => a.1 ≤ b.1
    "\x7b" ++ ",".intercalate (pairs.map fun p => Text.shown p.1 ++ ":" ++ p.2) ++ "\x7d"
  | v => scalarText v

def canonicalItems : List Json → List String
  | [] => []
  | v :: rest => canonical v :: canonicalItems rest

def canonicalFields : Fields → List (String × String)
  | [] => []
  | (k, v) :: rest => (k, canonical v) :: canonicalFields rest

end

/-- Equality up to the order of fields. -/
def sameAs (a b : Json) : Bool := canonical a == canonical b

/-- The first of each value whose canonical text has not been seen. -/
def distinctFrom (seen : Std.TreeSet String) : List Json → List Json
  | [] => []
  | v :: rest =>
    let key := v.canonical
    if seen.contains key then distinctFrom seen rest
    else v :: distinctFrom (seen.insert key) rest

def distinct (vs : List Json) : List Json := distinctFrom ∅ vs

end Conduit.Json
