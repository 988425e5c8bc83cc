import Conduit.Access
import Conduit.Schema.Index

/-!
# Schema documents

What a schema document declares: objects with properties and types, properties that hold
documents or sets of documents, and the indexes of each collection.
-/

namespace Conduit

/-- What a property declares apart from the properties inside it. -/
structure PropertyTraits where
  name : String := ""
  /-- The type as written; it may be no known type. -/
  type : String := ""
  array : Bool := false
  indexed : Bool := false
  slot : Option String := none
  nativeIndex : Bool := false
  localized : Bool := false
  fixedLocale : Option String := none
  isVirtual : Bool := false
  reader : Bool := false
  groupReader : Bool := false
  readable : Option Bool := none
  readAccess : Option AccessLevel := none
  acl : Option Acl := none
  expandable : Bool := false
  dependencies : List String := []
  discriminatorKey : Option String := none
deriving DecidableEq

/-- A declared property, with the properties of a document or the documents of a set. -/
structure PropertyDefinition where
  traits : PropertyTraits := {}
  properties : List PropertyDefinition := []
  /-- The documents of a set: their names and properties. -/
  documents : List (String × List PropertyDefinition) := []

structure TypeDefinition where
  name : String := ""
  properties : List PropertyDefinition := []

structure ObjectDefinition where
  name : String := ""
  properties : List PropertyDefinition := []
  types : List TypeDefinition := []

structure SchemaDefinition where
  objects : List ObjectDefinition := []
  indexes : List (String × List IndexDefinition) := []

namespace PropertyDefinition

def traitField {α : Type} (name : String) (read : Json → Decode.Result α)
    (set : α → PropertyTraits → PropertyTraits) : Decode.Field PropertyDefinition :=
  .opt name read fun a d => { d with traits := set a d.traits }

/-- The fields of a property, given the reader of the properties inside it. -/
def fields (inner : Json → Decode.Result PropertyDefinition) :
    List (Decode.Field PropertyDefinition) :=
  [.req "name" Decode.string fun a d => { d with traits := { d.traits with name := a } },
   .req "type" Decode.string fun a d => { d with traits := { d.traits with type := a } },
   traitField "array" Decode.bool fun a t => { t with array := a },
   traitField "indexed" Decode.bool fun a t => { t with indexed := a },
   traitField "slot" (Decode.optional Decode.string) fun a t => { t with slot := a },
   traitField "nativeIndex" Decode.bool fun a t => { t with nativeIndex := a },
   traitField "localized" Decode.bool fun a t => { t with localized := a },
   traitField "fixedLocale" (Decode.optional Decode.string) fun a t => { t with fixedLocale := a },
   traitField "virtual" Decode.bool fun a t => { t with isVirtual := a },
   traitField "reader" Decode.bool fun a t => { t with reader := a },
   traitField "groupReader" Decode.bool fun a t => { t with groupReader := a },
   traitField "readable" (Decode.optional Decode.bool) fun a t => { t with readable := a },
   traitField "readAccess" (Decode.optional AccessLevel.decode) fun a t =>
     { t with readAccess := a },
   traitField "acl" (Decode.optional Acl.decode) fun a t => { t with acl := a },
   traitField "expandable" Decode.bool fun a t => { t with expandable := a },
   traitField "dependencies" (Decode.list Decode.string) fun a t => { t with dependencies := a },
   .opt "properties" (Decode.list inner) fun a d => { d with properties := a },
   .opt "documents" (Decode.list (Decode.record "DocumentDef"
       [.req "name" Decode.string fun a d => (a, d.2),
        .opt "properties" (Decode.list inner) fun a d => (d.1, a)] ("", []))) fun a d =>
     { d with documents := a },
   traitField "discriminatorKey" (Decode.optional Decode.string) fun a t =>
     { t with discriminatorKey := a }]

def decodeWithin : Nat → Json → Decode.Result PropertyDefinition
  | 0, v => Decode.record "PropertyDef" (fields fun v => .error (.wrongType v "a property")) {} v
  | depth + 1, v => Decode.record "PropertyDef" (fields (decodeWithin depth)) {} v

def decode (v : Json) : Decode.Result PropertyDefinition := decodeWithin v.depth v

def builtin (name type : String) : PropertyDefinition :=
  { traits := { name := name, type := type, nativeIndex := true } }

end PropertyDefinition

namespace SchemaDefinition

def decodeIndexes (v : Json) : Decode.Result (List (String × List IndexDefinition)) := do
  let fs ← Decode.fields v
  fs.mapM fun f => return (f.1, ← Decode.list IndexDefinition.decode f.2)

def decode : Json → Decode.Result SchemaDefinition :=
  let properties := Decode.list PropertyDefinition.decode
  let type := Decode.record "TypeDef"
    [.req "name" Decode.string fun a (d : TypeDefinition) => { d with name := a },
     .opt "properties" properties fun a d => { d with properties := a }] {}
  let object := Decode.record "ObjectDef"
    [.req "name" Decode.string fun a (d : ObjectDefinition) => { d with name := a },
     .opt "properties" properties fun a d => { d with properties := a },
     .opt "types" (Decode.list type) fun a d => { d with types := a }] {}
  Decode.record "SchemaDocument"
    [.opt "objects" (Decode.list object) fun a d => { d with objects := a },
     .opt "indexes" decodeIndexes fun a d => { d with indexes := a }] {}

end SchemaDefinition

end Conduit
