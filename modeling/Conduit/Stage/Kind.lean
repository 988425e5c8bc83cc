/-!
# Kinds of stages
-/

namespace Conduit

inductive StageKind where
  | match
  | sort
  | group
  | project
  | addFields
  | limit
  | skip
  | unwind
deriving DecidableEq

namespace StageKind

def key : StageKind → String
  | .match => "$match"
  | .sort => "$sort"
  | .group => "$group"
  | .project => "$project"
  | .addFields => "$addFields"
  | .limit => "$limit"
  | .skip => "$skip"
  | .unwind => "$unwind"

def all : List StageKind := [.match, .sort, .group, .project, .addFields, .limit, .skip, .unwind]

def ofKey? (key : String) : Option StageKind := all.find? fun k => k.key == key

def isIndexable : StageKind → Bool
  | .match | .sort => true
  | _ => false

/-- Whether a plain query can do the work of the stage. -/
def isQueryCompatible : StageKind → Bool
  | .match | .sort | .limit | .skip => true
  | _ => false

/-- Whether the stage gives documents another shape. -/
def isProjection : StageKind → Bool
  | .group | .project | .addFields => true
  | _ => false

end StageKind

end Conduit
