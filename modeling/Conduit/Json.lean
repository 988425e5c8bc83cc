import Conduit.Binary64

/-!
# Documents

A document is what JSON text says: null, a truth value, an integer of 64 bits, a double, a
string, an array, or an object whose fields stand in the order they were first written.
Integers and doubles are different values, so `1` is not `1.0`.

Fields are a list of pairs.  The operations below keep one pair for each key:
-/

namespace Conduit

inductive Json where
  | null
  | bool (b : Bool)
  | int (n : Int)
  | double (x : Binary64)
  | str (s : String)
  | arr (items : List Json)
  | obj (fields : List (String × Json))
deriving Inhabited

abbrev Fields := List (String × Json)

namespace Fields

def get? : Fields → String → Option Json
  | [], _ => none
  | (k, v) :: rest, key => if k = key then some v else get? rest key

def contains (fs : Fields) (key : String) : Bool := fs.any fun f => f.1 == key

def keys (fs : Fields) : List String := fs.map Prod.fst

/-- The fields with `key` set to `v`: in place if it is there, else at the end. -/
def insert : Fields → String → Json → Fields
  | [], key, v => [(key, v)]
  | (k, w) :: rest, key, v => if k = key then (k, v) :: rest else (k, w) :: insert rest key v

def extend (fs new : Fields) : Fields := new.foldl (fun acc f => insert acc f.1 f.2) fs

/-- The fields without `key`; the last field takes its place. -/
def erase (fs : Fields) (key : String) : Fields :=
  match fs.span (fun f => f.1 != key) with
  | (_, []) => fs
  | (front, _ :: rest) =>
    match rest.getLast? with
    | none => front
    | some last => front ++ last :: rest.dropLast

def insertNew (fs : Fields) (key : String) (v : Json) : Fields :=
  if contains fs key then fs else insert fs key v

end Fields

namespace Json

/-- A double in a document; a value that no double has is written as null. -/
def ofDouble? : Option Binary64 → Json
  | some x => .double x
  | none => .null

def str? : Json → Option String
  | .str s => some s
  | _ => none

def bool? : Json → Option Bool
  | .bool b => some b
  | _ => none

def arr? : Json → Option (List Json)
  | .arr items => some items
  | _ => none

def obj? : Json → Option Fields
  | .obj fields => some fields
  | _ => none

def isArr : Json → Bool
  | .arr _ => true
  | _ => false

def isObj : Json → Bool
  | .obj _ => true
  | _ => false

def isStr : Json → Bool
  | .str _ => true
  | _ => false

def isNull : Json → Bool
  | .null => true
  | _ => false

def field? : Json → String → Option Json
  | .obj fields, key => Fields.get? fields key
  | _, _ => none

mutual

/-- Equality with the order of fields. -/
def beq : Json → Json → Bool
  | .null, .null => true
  | .bool a, .bool b => a == b
  | .int a, .int b => a == b
  | .double a, .double b => a == b
  | .str a, .str b => a == b
  | .arr xs, .arr ys => beqItems xs ys
  | .obj fs, .obj gs => beqFields fs gs
  | _, _ => false

def beqItems : List Json → List Json → Bool
  | [], [] => true
  | x :: xs, y :: ys => beq x y && beqItems xs ys
  | _, _ => false

def beqFields : Fields → Fields → Bool
  | [], [] => true
  | (k, v) :: fs, (l, w) :: gs => k == l && beq v w && beqFields fs gs
  | _, _ => false

end

instance : BEq Json := ⟨beq⟩

mutual

def depth : Json → Nat
  | .arr items => depthItems items + 1
  | .obj fields => depthFields fields + 1
  | _ => 0

def depthItems : List Json → Nat
  | [] => 0
  | v :: rest => max (depth v) (depthItems rest)

def depthFields : Fields → Nat
  | [] => 0
  | (_, v) :: rest => max (depth v) (depthFields rest)

end

end Json

end Conduit
