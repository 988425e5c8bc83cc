import Conduit.Json.Decode

/-!
# Access

Levels of access, from the lowest to the highest, and the entries a property may carry that ask
for more than the level of the whole pipeline.
-/

namespace Conduit

/-- Levels of access, lowest first. -/
inductive AccessLevel where
  | none
  | everyone
  | connected
  | read
  | share
  | update
  | delete
  | script
  | system
deriving DecidableEq, Inhabited

namespace AccessLevel

def rank : AccessLevel → Nat
  | none => 0
  | everyone => 1
  | connected => 2
  | read => 3
  | share => 4
  | update => 5
  | delete => 6
  | script => 7
  | system => 8

instance : LE AccessLevel := ⟨fun a b => a.rank ≤ b.rank⟩
instance : LT AccessLevel := ⟨fun a b => a.rank < b.rank⟩
instance (a b : AccessLevel) : Decidable (a ≤ b) := inferInstanceAs (Decidable (a.rank ≤ b.rank))
instance (a b : AccessLevel) : Decidable (a < b) := inferInstanceAs (Decidable (a.rank < b.rank))

def max (a b : AccessLevel) : AccessLevel := if a < b then b else a

def name : AccessLevel → String
  | none => "none"
  | everyone => "public"
  | connected => "connected"
  | read => "read"
  | share => "share"
  | update => "update"
  | delete => "delete"
  | script => "script"
  | system => "system"

def all : List AccessLevel :=
  [none, everyone, connected, read, share, update, delete, script, system]

def decode (v : Json) : Decode.Result AccessLevel :=
  Decode.variant (all.map fun level => (level.name, level)) v

end AccessLevel

inductive Acl where
  /-- The caller needs this level. -/
  | targeted (level : AccessLevel)
  /-- Access depends on the document that is read. -/
  | untargeted
deriving DecidableEq

namespace Acl

def kinds : List (String × Bool) := [("targeted", true), ("nonTargeted", false)]

/-- The level that belongs to a kind; entries without a target have none. -/
def withLevel (targeted : Bool) (level : Json) : Decode.Result Acl :=
  if targeted then (AccessLevel.decode level).map .targeted
  else match level with
    | .null => .ok untargeted
    | v => .error (.wrongType v "unit variant NodeAcl::NonTargeted")

def decode : Json → Decode.Result Acl
  | .obj fs => do
    let kind ← match Fields.get? fs "kind" with
      | some kind => Decode.variant kinds kind
      | none => .error (.missingField "kind")
    match Fields.get? fs "level" with
    | some level => withLevel kind level
    | none => if kind then .error (.missingField "level") else return untargeted
  | .arr [] => .error (.wrongLength 0 "adjacently tagged enum NodeAcl")
  | .arr [kind] => do
    let _ ← Decode.identifier kinds kind
    .error (.wrongLength 1 "adjacently tagged enum NodeAcl")
  | .arr (kind :: level :: rest) => do
    let kind ← Decode.identifier kinds kind
    let acl ← withLevel kind level
    if rest.isEmpty then return acl
    else .error (.wrongLength (rest.length + 2) "fewer elements in array")
  | v => .error (.wrongType v "adjacently tagged enum NodeAcl")

def toJson : Acl → Json
  | targeted level => .obj [("kind", .str "targeted"), ("level", .str level.name)]
  | untargeted => .obj [("kind", .str "nonTargeted")]

end Acl

inductive Policy where
  | allowAll
  | principal (level : AccessLevel)
deriving DecidableEq

def Policy.grants : Policy → AccessLevel → Bool
  | allowAll, _ => true
  | principal level, required => required ≤ level

end Conduit
