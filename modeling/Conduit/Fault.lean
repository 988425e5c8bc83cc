import Conduit.Limits
import Conduit.Path
import Conduit.Schema.PropertyType

/-!
# Faults

Every reason for which a schema or a pipeline is refused, and the wording of each.
-/

namespace Conduit

inductive FaultKind where
  | invalidArgument
  | accessDenied
  | notFound
  | unsupported
  | conflict
  | schema
  | json
deriving DecidableEq

def FaultKind.name : FaultKind → String
  | invalidArgument => "invalid_argument"
  | accessDenied => "access_denied"
  | notFound => "not_found"
  | unsupported => "unsupported"
  | conflict => "conflict"
  | schema => "schema"
  | json => "json"

inductive Fault where
  -- the value or the place of an operator
  | primitiveExpected (op : String)
  | propertyPathExpected (op : String)
  | objectExpected (op : String)
  | parentNotProperty (op : String)
  | parentNotPropertyOrAll (op : String)
  | upstreamNotProperty (op : String)
  | arrayRequired (op : String)
  | valueListExpected (op : String)
  | valueListTooLong (op : String)
  | logicalMisplaced (op : String)
  | conditionsNotArray (op : String)
  | conditionsEmpty (op : String)
  | conditionsTooMany (op : String)
  | conditionNotObject (op : String)
  | arraySize (op : String) (size : Nat)
  | arrayTooShort (op : String) (size : Nat)
  | arrayLength (op : String) (min max : Nat)
  | patternLength (shown : String)
  | patternInvalid (pattern : String)
  | unknownOperator (op : String)
  | restrictedOperator (op : String)
  -- the shape of a stage or an expression
  | stageNotJson (stage : String)
  | stageNotObject (stage : String)
  | tooDeep
  | expressionNotObject
  | expressionEmpty
  | tooManyKeys
  | fieldNotProperty (key : String)
  -- access and candidates
  | propertyNotFound
  | untargetedAcl
  | inaccessible (qualifiedPath : String)
  | pathsDiffer
  | arraySettingsDiffer
  | objectNotFound (object : String)
  | noCandidates (path : String)
  -- pipelines
  | pipelineNotJson
  | pipelineNotArray
  | tooManyStages
  | itemNotJson (position : Nat)
  | itemNotObject (position : Nat)
  | itemNotSingleKey (position : Nat)
  | unknownStage (key : String)
  | emptyStage (key : String) (position : Nat)
  -- matching
  | exactMatching
  | unknownMatchValue
  | typeAliasExpected (op aliases : String)
  | booleanExpected (op : String)
  | sizeExpected
  | allNotArray
  | allTooLong
  | allHoldsArray
  | allNotElemMatch
  | allMixed
  | centerExpected
  | radiusExpected
  | unreconciledMatch
  | patternNotOnString (qualifiedPath : String)
  | matchNotConcrete (qualifiedPath : String)
  | matchNotPrimitive (publicType : String)
  | matchMixesReferences
  | discriminatorNotSimple (field : String)
  | objectNotSimple (op : String)
  | notAnArray (op : String)
  | nameExpected (field expected : String)
  | objectNotCandidate
  | nullTypeWithoutTypes
  | typeNotCandidate
  | labelNotSimple (label : String)
  | propertyNotSimple (op : String)
  | setNameExpected
  | noMatchCandidates (shown : String) (position : Nat)
  | severalTypedProperties
  | patternCastsDiffer
  | localizedMix
  | matchNotIndexed (qualifiedPath : String)
  | complexIndexedExpression
  | doubleIndexedExpression
  | castFailed (type : PropertyType) (value : String)
  -- sorting
  | sortDirection
  | noSortCandidates
  | unreconciledSort
  | sortArray
  | sortNotConcrete (qualifiedPath : String)
  | sortNotPrimitive
  | sortIndexMissing (qualifiedPath : String)
  | sortSlotsDiffer
  | sortMixesNative
  | sortMixesReferences
  | sortNotIndexed (qualifiedPath : String)
  -- output expressions
  | noOutputField (stage : String)
  | operatorsMixed
  | outputFieldName
  | outputFieldValue
  | arrayUnsupported
  | aggregationVariable
  | groupLiteral
  | literalExpected (op what : String)
  | dateToStringPart (what : String)
  | expandPaths
  | expandValue
  | renamesBuiltin
  | renamesProperty
  | projectNotConcrete (key qualifiedPath : String)
  | selectNotConcrete (key qualifiedPaths : String)
  | anyProperty (qualifiedPath : String)
  | ambiguousAcl
  | hiddenValues
  | amalgamatedReader (key qualifiedPath : String)
  | expandNotLast (stage : String) (position : Nat)
  | expandDenied (qualifiedPaths : String)
  | expandNeedsArguments
  | expandNotReference
  | inputType (key expected found : String)
  | inputNotArray (key : String)
  | inputIsArray (key : String)
  | severalDates
  | addType (found : String)
  | subtractTypes (left right : String)
  | topLevelOperator
  | idNotIncluded
  | dependencyExcluded
  -- grouping
  | groupWithoutId
  | groupOnlyNull
  | groupFieldName
  | groupId
  | accumulatorExpected
  -- unwinding
  | unwindNotSingle
  | unwindKey
  | unwindName (name : String)
  | unwindNotName
  | noUnwindCandidates
  | unreconciledUnwind
  | unwindNotConcrete (qualifiedPath : String)
  -- limits and skips
  | outOfRange (name : String) (min : Nat) (max : Option Int)
  -- schemas
  | schemaDocument (message : String)
  | objectName (name : String)
  | duplicateObject (name : String)
  | builtinConflict (object property : String)
  | typeName (name : String)
  | redefined (object type property : String)
  | propertyName (name : String)
  | unknownType (type property : String)
  | documentName (name : String)
  | indexSlot (slot qualifiedPath : String)
  | notJson
deriving DecidableEq

namespace Fault

def kind : Fault → FaultKind
  | restrictedOperator _ | inaccessible _ | projectNotConcrete .. | selectNotConcrete ..
  | amalgamatedReader .. => .accessDenied
  | propertyNotFound | objectNotFound _ => .notFound
  | untargetedAcl | pathsDiffer | arraySettingsDiffer | exactMatching | severalTypedProperties
  | arrayUnsupported | aggregationVariable | expandPaths | expandValue | ambiguousAcl
  | hiddenValues | expandNotLast .. | expandDenied _ | expandNeedsArguments
  | expandNotReference => .unsupported
  | complexIndexedExpression | doubleIndexedExpression => .conflict
  | schemaDocument _ | objectName _ | duplicateObject _ | builtinConflict .. | typeName _
  | redefined .. | propertyName _ | unknownType .. | documentName _ | indexSlot .. => .schema
  | notJson => .json
  | _ => .invalidArgument

def schemaReason : Fault → String
  | schemaDocument message => "Invalid schema document: " ++ message
  | objectName name => "Invalid object name: " ++ name
  | duplicateObject name => "Duplicate object: " ++ name
  | builtinConflict object property =>
    "Property " ++ object ++ "." ++ property ++ " conflicts with a built-in property"
  | typeName name => "Invalid type name: " ++ name
  | redefined object type property =>
    "Property " ++ object ++ "#" ++ type ++ "." ++ property ++ " is already defined by the object"
  | propertyName name => "Invalid property name: " ++ name
  | unknownType type property => "Unknown type " ++ type ++ " for property " ++ property
  | documentName name => "Invalid document name: " ++ name
  | indexSlot slot qualifiedPath => "Invalid index slot " ++ slot ++ " for " ++ qualifiedPath
  | _ => ""

def operatorReason : Fault → String
  | primitiveExpected op => "Operator " ++ op ++ " expects a primitive value for property."
  | propertyPathExpected op => "Operator " ++ op ++ " expects a valid property path."
  | objectExpected op => "Operator " ++ op ++ " expects an object."
  | parentNotProperty op => "Operator " ++ op ++ " must have a property as a direct parent."
  | parentNotPropertyOrAll op =>
    "Operator " ++ op ++ " must have a property or $elemMatch as a direct parent."
  | upstreamNotProperty op =>
    "Operator " ++ op ++ " must be applied to a property or within $all or $elemMatch expressions."
  | arrayRequired op => op ++ " requires an array."
  | valueListExpected op => "Operator " ++ op ++ " expects an array of values for property."
  | valueListTooLong op =>
    "Operator " ++ op ++ " expects an array with a maximum of " ++ toString Limits.maxInElements ++
      " values."
  | logicalMisplaced op => "Operator " ++ op ++ " can only be nested within $and/$or/$elemMatch."
  | conditionsNotArray op => "Operator " ++ op ++ " value must be an array."
  | conditionsEmpty op => "Operator " ++ op ++ " must contain at least 1 element."
  | conditionsTooMany op =>
    "Maximum " ++ op ++ " count (" ++ toString Limits.maxConditions ++ ") exceeded."
  | conditionNotObject op => "Operator " ++ op ++ " elements must be objects."
  | arraySize op size => op ++ " requires an array with exactly " ++ toString size ++ " elements."
  | arrayTooShort op size =>
    op ++ " requires an array with at least " ++ toString size ++ " elements."
  | arrayLength op min max =>
    op ++ " requires an array with " ++ toString min ++ " to " ++ toString max ++ " elements."
  | patternLength shown =>
    "Pattern (" ++ shown ++ ") for $regex must be a string between 1 and " ++
      toString Limits.maxPatternLength ++ " characters."
  | patternInvalid pattern => "Invalid operator $regex pattern: " ++ pattern
  | unknownOperator op | restrictedOperator op => "Invalid operator " ++ op
  | _ => ""

def shapeReason : Fault → String
  | stageNotJson stage => "Invalid " ++ stage ++ " JSON format"
  | stageNotObject stage => "Object expected for " ++ stage ++ " expression"
  | tooDeep => "Maximum query depth (" ++ toString Limits.maxDepth ++ ") exceeded"
  | expressionNotObject => "Object expected for expression"
  | expressionEmpty => "expression requires at least one field or operator"
  | tooManyKeys => "Maximum expression keys (" ++ toString Limits.maxKeys ++ ") exceeded"
  | fieldNotProperty key => "Invalid field name: (" ++ key ++ ")"
  | propertyNotFound => "Property not found."
  | untargetedAcl =>
    "Operation is not available for properties with custom non-targeted acl entries."
  | inaccessible qualifiedPath => "inaccessibleProperty: " ++ qualifiedPath
  | pathsDiffer => "property intersections can only be made on identical paths"
  | arraySettingsDiffer => "mismatched property array setting in unsupported"
  | objectNotFound object => "Object not found: " ++ object
  | noCandidates path => "strict: there are no properties that could match " ++ path
  | pipelineNotJson => "Invalid pipeline JSON format"
  | pipelineNotArray => "Array expected for pipeline"
  | tooManyStages =>
    "Invalid pipeline. Maximum stages (" ++ toString Limits.maxStages ++ ") exceeded"
  | itemNotJson i => "Invalid pipeline stage (" ++ toString i ++ ") JSON format"
  | itemNotObject i => "Object expected for pipeline stage (" ++ toString i ++ ")"
  | itemNotSingleKey i => "stage (" ++ toString i ++ ") requires a single key"
  | unknownStage key => "\"" ++ key ++ "\" is not a valid pipeline stage."
  | emptyStage key i => "Empty " ++ key ++ " pipeline stage (" ++ toString i ++ ")"
  | outOfRange name min (some max) =>
    name ++ " query option must be an integer between " ++ toString min ++ " and " ++
      toString max ++ ", inclusive"
  | outOfRange name min none =>
    name ++ " query option must be an integer greater than or equal to " ++ toString min
  | _ => ""

def matchReason : Fault → String
  | exactMatching => "Exact matching on objects and arrays is not supported."
  | unknownMatchValue => "Unknown match value type."
  | typeAliasExpected op aliases => "Operator " ++ op ++ " expects one of " ++ aliases
  | booleanExpected op => "Operator " ++ op ++ " expects a boolean"
  | sizeExpected => "Operator $size expects an integer value >= 0."
  | allNotArray => "Operator $all expects an array of values for property."
  | allTooLong =>
    "Operator $all expects an array with a maximum of " ++ toString Limits.maxAllElements ++
      " values."
  | allHoldsArray => "Operator $all value cannot be an array"
  | allNotElemMatch => "Operator $all expects $elemMatch values for property."
  | allMixed =>
    "Operator $all value must either be all primitives or all $elemMatch objects, but not some " ++
      "of both."
  | centerExpected =>
    "Operator $within.$center must be an array of 2 elements with valid lng and lat values"
  | radiusExpected => "Operator $within.$radius must be a value in kilometers >= 0"
  | unreconciledMatch => "Cannot match by unreconciled field."
  | patternNotOnString qualifiedPath =>
    "$regex can only occur against strings. A matched property is not compatible (" ++
      qualifiedPath ++ ")."
  | matchNotConcrete qualifiedPath =>
    "Matching cannot occur on properties not backed by concrete data (" ++ qualifiedPath ++ ")"
  | matchNotPrimitive publicType =>
    "Matches can only occur on primitives. A matched property is not compatible (" ++ publicType ++
      "). Try narrowing the search to an object, type, or set which contains only primitives."
  | matchMixesReferences =>
    "Matching cannot occur on a reference when mixed with other types. Consider matching by the " ++
      "reference _id or creating a common field that holds the referenced _id as an ObjectId."
  | discriminatorNotSimple field =>
    "$match " ++ field ++ " property must be a simple value or an expression"
  | objectNotSimple op => op ++ " object property must be a simple value."
  | notAnArray op => op ++ " property expects an array"
  | nameExpected field expected => "$match " ++ field ++ " property must be " ++ expected
  | objectNotCandidate => "strict: the object does exist in the list of candidates."
  | nullTypeWithoutTypes =>
    "strict: null type cannot be used where there are no typed candidate objects."
  | typeNotCandidate => "strict: the type does not exist in the list of candidate objects."
  | labelNotSimple label => label ++ " must be a simple value or an expression"
  | propertyNotSimple op => op ++ " property must be a simple value."
  | setNameExpected => "$match discriminator property must be a string or regexp"
  | noMatchCandidates shown position =>
    "strict: there are no properties that could match " ++ shown ++ " in $match stage " ++
      toString position
  | severalTypedProperties =>
    "Query expressions against multiple typed properties are not supported."
  | patternCastsDiffer => "$regex cannot match against non-string properties."
  | localizedMix =>
    "Localized properties cannot be mixed with none localized properties on $elemMatch"
  | matchNotIndexed qualifiedPath =>
    "Matches can only occur on indexed properties. " ++ qualifiedPath ++
      " is either not indexed or is missing a preceding index key."
  | complexIndexedExpression => "complex indexed expression could not be resolved."
  | doubleIndexedExpression => "double indexed expression could not be resolved."
  | castFailed type value => "Cast to " ++ type.name ++ " failed for value " ++ value
  | _ => ""

def sortReason : Fault → String
  | sortDirection => "Sort value must be 1 for ascending, or -1 for descending order"
  | noSortCandidates => "strict: there are no properties that could be sorted."
  | unreconciledSort => "Cannot sort by unreconciled field."
  | sortArray => "Array sorting is unsupported."
  | sortNotConcrete qualifiedPath =>
    "Sorting cannot occur on properties not backed by concrete data (" ++ qualifiedPath ++ ")"
  | sortNotPrimitive => "Sorting can only occur on primitive values"
  | sortIndexMissing qualifiedPath => "Sort failed to load index for " ++ qualifiedPath
  | sortSlotsDiffer => "Sorting cannot occur across similarly named custom properties."
  | sortMixesNative => "Native properties can only sorted when they are all indexed."
  | sortMixesReferences =>
    "Sorting cannot occur on a reference when mixed with other types. Consider sorting by the " ++
      "reference _id or creating a common field that holds the referenced _id as an indexed " ++
      "ObjectId."
  | sortNotIndexed qualifiedPath =>
    "Sorting can only occur on indexed properties. " ++ qualifiedPath ++
      " is either not indexed or is missing a preceding index key."
  | unwindNotSingle => "Unwinding must consist of a single path component"
  | unwindKey => "Invalid unwind property."
  | unwindName name => "Invalid $unwind property name: (" ++ name ++ ")"
  | unwindNotName => "$unwind property must be a property name"
  | noUnwindCandidates => "strict: there are no properties that could be unwound."
  | unreconciledUnwind => "Cannot unwind by unreconciled field."
  | unwindNotConcrete qualifiedPath =>
    "Unwinding cannot occur on properties not backed by concrete data (" ++ qualifiedPath ++ ")"
  | _ => ""

def expressionReason : Fault → String
  | noOutputField stage => stage ++ " stage requires at least one output field"
  | operatorsMixed => "operator expressions cannot mix field names with operators"
  | outputFieldName => "pipeline expression field names must match " ++ Path.fieldNamePattern
  | outputFieldValue =>
    "pipeline field values must be inclusions (1 or true), property projections (c_field), or " ++
      "expressions (\x7b$sum: \"c_value\"\x7d)."
  | arrayUnsupported => "array values are unsupported here."
  | aggregationVariable => "pipeline aggregation variables are unsupported."
  | groupLiteral =>
    "property inclusions and literal values are not allowed here. try wrapping your value in a " ++
      "$literal."
  | literalExpected op what => op ++ " expects " ++ what ++ " value."
  | dateToStringPart what => "$dateToString " ++ what ++ " must be a string."
  | expandPaths => "$expand as an array expects an array or string properties"
  | expandValue => "$expand expects 1/true, and array of paths, or a projection object."
  | renamesBuiltin => "Cannot rename built-in fields."
  | renamesProperty => "Cannot rename existing property fields."
  | projectNotConcrete key qualifiedPath =>
    "\"" ++ key ++ "\" cannot project on a property not backed by concrete data (" ++
      qualifiedPath ++ ")"
  | selectNotConcrete key qualifiedPaths =>
    "\"" ++ key ++ "\" cannot select on a property not backed by concrete data (" ++
      qualifiedPaths ++ "). try matching the property out of projection candidacy."
  | anyProperty qualifiedPath =>
    "Any type property " ++ qualifiedPath ++ " cannot be used in this expression."
  | ambiguousAcl =>
    "Property may not be used due to ambiguous access control list combining in projection."
  | hiddenValues =>
    "Property may contain hidden or inaccessible values, so cannot be used in the projection. " ++
      "try projecting individual constituent properties."
  | amalgamatedReader key qualifiedPath =>
    "\"" ++ key ++ "\" cannot select on a property " ++ qualifiedPath ++
      " not backed by concrete data inside of a property amalgamation."
  | expandNotLast stage position =>
    "$expand must appear in the last transformational stage (" ++ stage ++ " " ++
      toString position ++ ")"
  | expandDenied qualifiedPaths => "Expansion not allowed for " ++ qualifiedPaths
  | expandNeedsArguments =>
    "Using $expand with a Reference[] or List requires an object property with list arguments " ++
      "(pipeline, limit, etc...)"
  | expandNotReference =>
    "$expand cannot be applied to References and Reference[] (List properties)"
  | inputType key expected found =>
    "\"" ++ key ++ "\" expression expected input to be \"" ++ expected ++ "\" but got \"" ++
      found ++ "\""
  | inputNotArray key => "\"" ++ key ++ "\" expression is expecting an array."
  | inputIsArray key => "\"" ++ key ++ "\" expression is not expecting an array."
  | severalDates => "$add expression only supports a single date value."
  | addType found => "$add expected a Number or Date but got a \"" ++ found ++ "\""
  | subtractTypes left right =>
    "$subtract expects Date/Date, Number/Number or Date/Number but got \"" ++ left ++ "/" ++
      right ++ "\""
  | topLevelOperator => "pipeline expressions do not support operators at the top level."
  | idNotIncluded => "pipeline expression _id field can only be 1 or true."
  | dependencyExcluded => "A required dependency has been excluded or renamed."
  | groupWithoutId => "$group expression must contain an _id field"
  | groupOnlyNull => "Group component requires at least one expression when grouping by null"
  | groupFieldName => "Top-level group fields must match " ++ Path.fieldNamePattern
  | groupId => "Invalid group _id. Object expected."
  | accumulatorExpected =>
    "Group accumulator expression requires a single supported accumulator property"
  | _ => ""

def reason (f : Fault) : String :=
  match f.kind with
  | .schema => "Schema error: " ++ schemaReason f
  | .json => "JSON error"
  | _ => operatorReason f ++ shapeReason f ++ matchReason f ++ sortReason f ++ expressionReason f

end Fault

structure CompileError where
  fault : Fault
  path : String
deriving DecidableEq

/-- The wording of an error: the reason, with the path in parentheses if there is one. -/
def CompileError.message (e : CompileError) : String :=
  if e.path.isEmpty then e.fault.reason else e.fault.reason ++ " (" ++ e.path ++ ")"

def Fault.at (f : Fault) (path : String) : CompileError := ⟨f, path⟩

end Conduit
