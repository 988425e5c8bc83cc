import Conduit.Fault
import Conduit.Json.Printer

/-!
# Index entries

While a match is built, every condition on a leaf is also entered into a second query that has
the logical shape of the first one and names the keys of indexes.  Each branch of it starts from
the base conditions, so that a planner always sees a usable prefix.

A leaf that is stored under several keys enters all of them under one marker; finishing turns
each marker into an `$or` with one branch for each key.
-/

namespace Conduit

/-- A step from the top of the entries to the branch of a leaf. -/
inductive IndexStep where
  /-- Into `$and`, which also stands for `$elemMatch` and `$all`. -/
  | and
  /-- Into `$or`, which has this many branches. -/
  | or (width : Nat)
  /-- To a branch. -/
  | position (p : Nat)
deriving DecidableEq

structure IndexQuery where
  query : Fields
  /-- Whether a leaf had several keys. -/
  hasBranches : Bool
  /-- Whether there are keys of custom index slots. -/
  slotted : Bool
  /-- Whether an `$or` was dropped because one of its branches had no entries. -/
  pruned : Bool

structure IndexEntries where
  root : Fields
  baseFind : Fields

namespace IndexEntries

/-- The key that marks a leaf with several keys. -/
def marker : String := "$branching_multi_keys"

/-- The key of a custom index slot; unique and geographic slots keep their value one level
down. -/
def slotKey (slot : String) : String :=
  if slot.startsWith "u" || slot.startsWith "g" then "idx.d." ++ slot ++ ".v" else "idx.d." ++ slot

/-- The slot that a key goes below, as in `idx.d.u1` for `idx.d.u1.v`. -/
def compoundSlot? (key : String) : Option String :=
  match key.toList with
  | 'i' :: 'd' :: 'x' :: '.' :: 'd' :: '.' :: letter :: rest =>
    let digits := rest.takeWhile Char.isDigit
    if (letter == 'g' || letter == 'u' || letter == 'i') && !digits.isEmpty &&
        (rest.drop digits.length).head? == some '.' then
      some ("idx.d." ++ String.ofList (letter :: digits))
    else none
  | _ => none

/-- A key below a slot also demands that the slot is there, for a planner to pick the compound
index. -/
def addCompound (fs : Fields) (key : String) : Fields :=
  match compoundSlot? key with
  | some slot => Fields.insert fs slot (.obj [("$exists", .bool true)])
  | none => fs

def new (baseFind : Fields) : IndexEntries := ⟨[], baseFind⟩

def isEmpty (e : IndexEntries) : Bool := e.root.isEmpty

/-! ## Entering leaves -/

/-- Adds one key to a branch.  Base conditions give way, two objects are merged, and equal values
are entered once. -/
def addPair (base : Fields) (fixCompound : Bool) (fs : Fields) (key : String) (v : Json) :
    Fields × Option Fault :=
  let fresh :=
    let fs := Fields.insert fs key v
    (if fixCompound then addCompound fs key else fs, none)
  if Fields.contains base key then fresh
  else match Fields.get? fs key, v with
    | none, _ => fresh
    | some (.obj current), .obj new =>
      (Fields.insert fs key (.obj (Fields.extend current new)), none)
    | some (.obj _), _ => (fs, some .complexIndexedExpression)
    | some _, .obj _ => (fs, some .complexIndexedExpression)
    | some current, v => (fs, if current.sameAs v then none else some .doubleIndexedExpression)

/-- Adds keys to a branch, up to the first that does not fit. -/
def addPairs (base : Fields) (fixCompound : Bool) :
    List (String × Json) → Fields → Fields × Option Fault
  | [], fs => (fs, none)
  | (key, v) :: rest, fs =>
    match addPair base fixCompound fs key v with
    | (fs, none) => addPairs base fixCompound rest fs
    | (fs, some f) => (fs, some f)

def addLeaf (base : Fields) (pairs : List (String × Json)) (fs : Fields) : Fields × Option Fault :=
  if pairs.length ≤ 1 then addPairs base true pairs fs
  else match (Fields.get? fs marker).getD (.obj []) with
    | .obj markers =>
      let (markers, f) := addPairs base false pairs markers
      (Fields.insert fs marker (.obj markers), f)
    | _ => (fs, some .complexIndexedExpression)

/-- The item at a position, and nulls in front of it where there were none. -/
def padTo (p : Nat) (items : List Json) : List Json :=
  items ++ List.replicate (p + 1 - items.length) .null

/-- Follows the steps to a branch, making what is missing, and changes the branch. -/
def insertAt (base : Fields) (leaf : Fields → Fields × Option Fault) :
    List IndexStep → Json → Json × Option Fault
  | [], .obj fs =>
    let (fs, f) := leaf fs
    (.obj fs, f)
  | .and :: rest, .obj fs =>
    let (v, f) := insertAt base leaf rest ((Fields.get? fs "$and").getD (.arr []))
    (.obj (Fields.insert fs "$and" v), f)
  | .or width :: rest, .obj fs =>
    let (v, f) := insertAt base leaf rest
      ((Fields.get? fs "$or").getD (.arr (List.replicate width .null)))
    (.obj (Fields.insert fs "$or" v), f)
  | .position p :: rest, .arr items =>
    let items := padTo p items
    let branch := match items[p]? with
      | some .null | none => .obj base
      | some v => v
    let (v, f) := insertAt base leaf rest branch
    (.arr (items.set p v), f)
  | _, v => (v, some .complexIndexedExpression)

/-- Enters the keys of one leaf.  What was entered before a fault stays. -/
def insert (e : IndexEntries) (steps : List IndexStep) (pairs : List (String × Json)) :
    IndexEntries × Option Fault :=
  let root :=
    if steps.isEmpty && pairs.length ≤ 1 then
      e.baseFind.foldl (fun fs b => Fields.insertNew fs b.1 b.2) e.root
    else e.root
  match insertAt e.baseFind (addLeaf e.baseFind pairs) steps (.obj root) with
  | (.obj root, f) => ({ e with root }, f)
  | (_, f) => (e, f)

/-! ## Finishing -/

/-- Without an `$or` that lacks a branch and without the gaps of an `$and`. -/
def pruneObject (fs : Fields) : Fields × Bool :=
  let (fs, pruned) := match Fields.get? fs "$or" with
    | some (.arr items) =>
      if items.any Json.isNull then (Fields.erase fs "$or", true) else (fs, false)
    | _ => (fs, false)
  match Fields.get? fs "$and" with
  | some (.arr items) =>
    let kept := items.filter fun v => !v.isNull
    (if kept.isEmpty then Fields.erase fs "$and" else Fields.insert fs "$and" (.arr kept), pruned)
  | _ => (fs, pruned)

mutual

/-- An `$or` that lacks a branch would narrow the query, so it is dropped. -/
def prune : Json → Json × Bool
  | .obj fs =>
    let (fs, below) := pruneFields fs
    let (fs, here) := pruneObject fs
    (.obj fs, below || here)
  | .arr items =>
    let (items, below) := pruneItems items
    (.arr items, below)
  | v => (v, false)

def pruneItems : List Json → List Json × Bool
  | [] => ([], false)
  | v :: rest =>
    let (v, a) := prune v
    let (rest, b) := pruneItems rest
    (v :: rest, a || b)

def pruneFields : Fields → Fields × Bool
  | [] => ([], false)
  | (k, v) :: rest =>
    let (v, a) := prune v
    let (rest, b) := pruneFields rest
    ((k, v) :: rest, a || b)

end

/-- The marker of an object as an `$or` with one branch for each key.  An `$or` beside it goes
into every branch. -/
def expandObject (base fs : Fields) : Fields × Bool :=
  match Fields.get? fs marker with
  | some (.obj markers) =>
    let fs := Fields.erase fs marker
    let (base, fs) := match Fields.get? fs "$or" with
      | some v => (Fields.insert base "$or" v, Fields.erase fs "$or")
      | none => (base, fs)
    let branches := markers.map fun m =>
      Json.obj (addCompound (Fields.insert base m.1 m.2) m.1)
    (Fields.insert fs "$or" (.arr branches), true)
  | some _ => (Fields.erase fs marker, false)
  | none => (fs, false)

mutual

def expand (base : Fields) : Json → Json × Bool
  | .obj fs =>
    let (fs, below) := expandFields base fs
    let (fs, here) := expandObject base fs
    (.obj fs, below || here)
  | .arr items =>
    let (items, below) := expandItems base items
    (.arr items, below)
  | v => (v, false)

def expandItems (base : Fields) : List Json → List Json × Bool
  | [] => ([], false)
  | v :: rest =>
    let (v, a) := expand base v
    let (rest, b) := expandItems base rest
    (v :: rest, a || b)

def expandFields (base : Fields) : Fields → Fields × Bool
  | [] => ([], false)
  | (k, v) :: rest =>
    let (v, a) := expand base v
    let (rest, b) := expandFields base rest
    ((k, v) :: rest, a || b)

end

mutual

def hasSlotKeys : Json → Bool
  | .obj fs => hasSlotFields fs
  | .arr items => hasSlotItems items
  | _ => false

def hasSlotItems : List Json → Bool
  | [] => false
  | v :: rest => hasSlotKeys v || hasSlotItems rest

def hasSlotFields : Fields → Bool
  | [] => false
  | (k, v) :: rest => k.startsWith "idx." || hasSlotKeys v || hasSlotFields rest

end

def finish (e : IndexEntries) : Option IndexQuery :=
  let (root, pruned) := prune (.obj e.root)
  let (root, hasBranches) := expand e.baseFind root
  match root with
  | .obj [] => none
  | .obj query => some ⟨query, hasBranches, hasSlotKeys (.obj query), pruned⟩
  | _ => none

end IndexEntries

end Conduit
