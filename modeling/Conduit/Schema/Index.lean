import Conduit.Json.Decode

/-!
# Native indexes
-/

namespace Conduit

structure IndexDefinition where
  name : String := ""
  fields : List String := []
  unique : Bool := false
deriving DecidableEq

namespace IndexDefinition

def isCompound (d : IndexDefinition) : Bool := d.fields.length > 1

def decode : Json → Decode.Result IndexDefinition :=
  Decode.record "IndexDefinition"
    [.req "name" Decode.string fun a d => { d with name := a },
     .req "fields" (Decode.list Decode.string) fun a d => { d with fields := a },
     .opt "unique" Decode.bool fun a d => { d with unique := a }] {}

end IndexDefinition

/-- A prefix tree over key sequences. -/
inductive IndexTree where
  | node (children : List (String × IndexTree))

namespace IndexTree

def empty : IndexTree := .node []

def children : IndexTree → List (String × IndexTree)
  | .node cs => cs

def isEmpty (t : IndexTree) : Bool := t.children.isEmpty

def child (t : IndexTree) (field : String) : IndexTree := (t.children.lookup field).getD empty

/-- The children with the branch below `field` set to `branch`. -/
def setChild (field : String) (branch : IndexTree) :
    List (String × IndexTree) → List (String × IndexTree)
  | [] => [(field, branch)]
  | c :: rest =>
    if c.1 = field then (field, branch) :: rest else c :: setChild field branch rest

def add : List String → IndexTree → IndexTree
  | [], t => t
  | field :: rest, t => .node (setChild field (add rest (t.child field)) t.children)

def ofIndexes (indexes : List IndexDefinition) : IndexTree :=
  indexes.foldl (fun t d => add d.fields t) empty

/-- A search below a node: from the positions of the keys used so far and the paths found so far, to
the paths found in the end. -/
abbrev Search := List Nat → List String → List String

/-- What a search does with one of its keys: an unused one that leads to a branch is found, if it is
asked for, and the branch is searched with the keys that are left. -/
def visit (checks : List String) (branches : List (String × Search)) (used : List Nat)
    (found : List String) (key : String × Nat) : List String :=
  if key.2 ∈ used then found
  else match branches.lookup key.1 with
    | some search =>
      search (key.2 :: used) (if key.1 ∈ checks then found.insert key.1 else found)
    | none => found

mutual

/-- The search for `checks` along `keys`; it ends early once as much is found as is asked for. -/
def find (keys checks : List String) : IndexTree → Search
  | .node children => fun used found =>
    if found.length = checks.length then found
    else keys.zipIdx.foldl (visit checks (findBelow keys checks children) used) found

def findBelow (keys checks : List String) : List (String × IndexTree) → List (String × Search)
  | [] => []
  | (field, branch) :: rest => (field, find keys checks branch) :: findBelow keys checks rest

end

/-- Those of `checks` that a query with these keys can reach. -/
def covered (t : IndexTree) (keys checks : List String) : List String := find keys checks t [] []

end IndexTree

end Conduit
