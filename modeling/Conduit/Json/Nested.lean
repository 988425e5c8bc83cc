import Conduit.Json.Number
import Conduit.Path

/-!
# Dotted and nested fields

A dotted key stands for fields inside fields.
-/

namespace Conduit

/-- The value with `w` at the end of a path.  What stands on the way and is no object gives way
to one. -/
def Json.setNested : List String → Json → Json → Json
  | [], v, _ => v
  | [key], v, w => .obj (Fields.insert (v.obj?.getD []) key w)
  | key :: rest, v, w =>
    let fs := v.obj?.getD []
    .obj (Fields.insert fs key (setNested rest ((Fields.get? fs key).getD (.obj [])) w))

namespace Fields

def expand (fs : Fields) : Fields :=
  ((fs.foldl (fun doc f => Json.setNested (Path.segments f.1) doc f.2) (.obj [])).obj?).getD []

def isPlain (fs : Fields) : Bool := !fs.isEmpty && !fs.any fun f => Path.isOperator f.1

mutual

/-- The pairs of paths and values below a path, in order. -/
def leaves (path : String) : Json → Fields
  | .obj fs => if isPlain fs then leavesOf path fs else [(path, .obj fs)]
  | v => [(path, v)]

def leavesOf (path : String) : Fields → Fields
  | [] => []
  | (key, v) :: rest => leaves (Path.child path key) v ++ leavesOf path rest

end

def flatten (fs : Fields) : Fields := extend [] (leavesOf "" fs)

/-- The fields without the inclusions below another inclusion. -/
def collapse (fs : Fields) : Fields :=
  let included := keys (fs.filter fun f => f.2.isInclusion)
  fs.filter fun f => !f.2.isInclusion || !included.any fun parent => Path.isBelow parent f.1

end Fields

namespace Json

def addKey (found : List String) (key : String) : List String :=
  if found.contains key then found else found ++ [key]

mutual

/-- The fields that a query names, after those already found.  Lists below operators are
searched; the values of fields are not. -/
def queryKeys : Json → List String → List String
  | .obj fs, found => queryKeysFields fs found
  | .arr items, found => queryKeysItems items found
  | _, found => found

def queryKeysItems : List Json → List String → List String
  | [], found => found
  | v :: rest, found => queryKeysItems rest (queryKeys v found)

def queryKeysFields : Fields → List String → List String
  | [], found => found
  | (key, .arr items) :: rest, found =>
    if Path.isOperator key then queryKeysFields rest (queryKeysItems items found)
    else queryKeysFields rest (addKey found key)
  | (key, _) :: rest, found =>
    queryKeysFields rest (if Path.isOperator key then found else addKey found key)

end

end Json

end Conduit
