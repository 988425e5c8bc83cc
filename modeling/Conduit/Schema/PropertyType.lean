/-!
# Types of properties
-/

namespace Conduit

inductive PropertyType where
  | string
  | number
  | boolean
  | date
  | objectId
  | reference
  | geometry
  | any
  | document
  | set
  | list
  | unknown
deriving DecidableEq, Inhabited

namespace PropertyType

def name : PropertyType → String
  | string => "String"
  | number => "Number"
  | boolean => "Boolean"
  | date => "Date"
  | objectId => "ObjectId"
  | reference => "Reference"
  | geometry => "Geometry"
  | any => "Any"
  | document => "Document"
  | set => "Set"
  | list => "List"
  | unknown => "Unknown"

def all : List PropertyType :=
  [string, number, boolean, date, objectId, reference, geometry, any, document, set, list, unknown]

def ofName? (s : String) : Option PropertyType := all.find? fun t => t.name == s

/-- Types whose values are not made of other values. -/
def isPrimitive : PropertyType → Bool
  | string | number | boolean | date | objectId => true
  | _ => false

def publicName (t : PropertyType) (array : Bool) : String :=
  if array then t.name ++ "[]" else t.name

/-- Types about which nothing is known. -/
def isVague : PropertyType → Bool
  | unknown | any => true
  | _ => false

end PropertyType

end Conduit
