/-!
# Dotted paths

A path is a string of segments between dots.  Operators (segments that start with `$`) and
array positions (segments of digits) may stand in the path of a condition, but not in the path
of the property it is about.
-/

namespace Conduit.Path

/-- The pieces of a text between occurrences of `sep`; there is always one. -/
def splitAt (sep : Char) : List Char → List (List Char)
  | [] => [[]]
  | c :: rest =>
    if c = sep then [] :: splitAt sep rest
    else match splitAt sep rest with
      | [] => [[c]]
      | piece :: pieces => (c :: piece) :: pieces

def segments (path : String) : List String := (splitAt '.' path.toList).map String.ofList

def join (parts : List String) : String := ".".intercalate parts

/-- The path of `name` below `parent`; the empty parent is the document itself. -/
def child (parent name : String) : String :=
  if parent.isEmpty then name else parent ++ "." ++ name

def isOperator (key : String) : Bool := key.startsWith "$"

def isPosition (segment : String) : Bool := segment.toList.all Char.isDigit

def namesProperty (segment : String) : Bool :=
  !segment.isEmpty && !isOperator segment && !isPosition segment

/-- The property a path is about: its segments without operators and positions. -/
def property (path : String) : String := join ((segments path).filter namesProperty)

def last (path : String) : String := (segments path).getLast?.getD path

def isNameChar (c : Char) : Bool := c.isAlphanum || c == '-' || c == '_'

def isFieldName (s : String) : Bool :=
  let cs := s.toList
  1 ≤ cs.length && cs.length ≤ 40 && cs.all isNameChar

def isFieldPath (s : String) : Bool := (segments s).all isFieldName

def fieldNamePattern : String := "^[a-zA-Z0-9-_]\x7b1,40\x7d$"

/-- A name that a stage may give instead of an object. -/
def isShorthand (allowDots : Bool) (s : String) : Bool :=
  !s.isEmpty && s.toList.all fun c => c.isAlphanum || c == '_' || (allowDots && c == '.')

/-- Whether `path` continues `parent` with at least a dot. -/
def isBelow (parent path : String) : Bool := (parent.toList ++ ['.']).isPrefixOf path.toList

/-- The name inside a placeholder: up to a hundred name characters and dots between double
braces. -/
def variableName? (s : String) : Option String :=
  match s.toList with
  | '\x7b' :: '\x7b' :: rest =>
    match rest.reverse with
    | '\x7d' :: '\x7d' :: body =>
      if 1 ≤ body.length && body.length ≤ 100 && body.all (fun c => isNameChar c || c == '.') then
        some (String.ofList body.reverse)
      else none
    | _ => none
  | _ => none

def placeholder (name : String) : String := "\x7b\x7b" ++ name ++ "\x7d\x7d"

end Conduit.Path
