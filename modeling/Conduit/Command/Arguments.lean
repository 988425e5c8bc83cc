/-!
# Command-line arguments

What a command line asks for.  Options have two dashes and may have their value attached by an
equals sign; no option is given twice; after two dashes alone everything is an operand.
-/

namespace Conduit.Command

structure CompileArguments where
  /-- The file of the pipeline, or a dash for the input. -/
  pipeline : String
  schema : String
  object : Option String := none
  options : Option String := none
  lenient : Bool := false
  relaxLimits : Bool := false
  withVariables : Bool := false
  locale : Option String := none
  skipIndexChecks : Bool := false
  principal : Option String := none
  full : Bool := false

inductive Request where
  | version
  | help
  | compile (args : CompileArguments)
  | objects (schema : String)

structure Invocation where
  request : Request
  logLevel : Option String := none

/-- The options of a command, and how many operands it takes. -/
structure Shape where
  texts : List String := []
  /-- Options with a file name for value, which is not empty. -/
  files : List String := []
  flags : List String := []
  operands : Nat := 0

structure Draft where
  values : List (String × String) := []
  flags : List String := []
  operands : List String := []

namespace Draft

def value? (d : Draft) (name : String) : Option String :=
  (d.values.find? fun v => v.1 == name).map Prod.snd

def hasFlag (d : Draft) (name : String) : Bool := d.flags.contains name

end Draft

inductive Reading where
  | complete (d : Draft)
  | help
  | version
  | misuse

def splitOption (arg : String) : String × Option String :=
  let cs := arg.toList.drop 2
  let name := String.ofList (cs.takeWhile (· != '='))
  match cs.dropWhile (· != '=') with
  | [] => (name, none)
  | _ :: value => (name, some (String.ofList value))

def isDash (arg : String) : Bool := arg.startsWith "-"

/-- Whether an argument can be the value of the option before it. -/
def isValue (arg : String) : Bool := !isDash arg || arg == "-"

namespace Shape

def take? (s : Shape) (name value : String) (d : Draft) : Option Draft :=
  if (d.value? name).isSome ∨ (s.files.contains name ∧ value.isEmpty) then none
  else some { d with values := d.values ++ [(name, value)] }

def takesValue (s : Shape) (name : String) : Bool := s.texts.contains name || s.files.contains name

/-- Takes an operand, which is not empty. -/
def operand? (s : Shape) (arg : String) (d : Draft) : Option Draft :=
  if d.operands.length < s.operands ∧ !arg.isEmpty then
    some { d with operands := d.operands ++ [arg] }
  else none

/-- The operands after two dashes. -/
def readOperands (s : Shape) : List String → Draft → Reading
  | [], d => .complete d
  | arg :: rest, d =>
    match s.operand? arg d with
    | some d => readOperands s rest d
    | none => .misuse

def read (s : Shape) : List String → Draft → Reading
  | [], d => .complete d
  | arg :: rest, d =>
    if arg = "--" then s.readOperands rest d
    else if arg.startsWith "--" then
      match splitOption arg with
      | (name, some value) =>
        if s.takesValue name then
          match s.take? name value d with
          | some d => read s rest d
          | none => .misuse
        else .misuse
      | (name, none) =>
        if s.takesValue name then
          match rest with
          | value :: rest =>
            if isValue value then
              match s.take? name value d with
              | some d => read s rest d
              | none => .misuse
            else .misuse
          | [] => .misuse
        else if s.flags.contains name ∧ !d.hasFlag name then
          read s rest { d with flags := d.flags ++ [name] }
        else if name = "help" then .help
        else .misuse
    else if isValue arg then
      match s.operand? arg d with
      | some d => read s rest d
      | none => .misuse
    else if arg.startsWith "-h" then .help
    else .misuse

end Shape

def compileShape : Shape :=
  { texts := ["object", "locale", "principal", "log-level"]
    files := ["schema", "options"]
    flags := ["lenient", "relax-limits", "variables", "skip-index-checks", "full"]
    operands := 1 }

def objectsShape : Shape := { texts := ["log-level"], files := ["schema"] }

def compileRequest? (d : Draft) : Option Request := do
  let schema ← d.value? "schema"
  let pipeline ← d.operands.head?
  return .compile
    { pipeline
      schema
      object := d.value? "object"
      options := d.value? "options"
      lenient := d.hasFlag "lenient"
      relaxLimits := d.hasFlag "relax-limits"
      withVariables := d.hasFlag "variables"
      locale := d.value? "locale"
      skipIndexChecks := d.hasFlag "skip-index-checks"
      principal := d.value? "principal"
      full := d.hasFlag "full" }

def objectsRequest? (d : Draft) : Option Request := do return .objects (← d.value? "schema")

/-- The invocation of a command with these arguments.  A level of logging behind the command
wins over one in front of it. -/
def invocation? (s : Shape) (request? : Draft → Option Request) (level : Option String)
    (args : List String) : Option Invocation := do
  match s.read args {} with
  | .complete d => return { request := ← request? d, logLevel := (d.value? "log-level").or level }
  | .help => return { request := .help }
  | .version | .misuse => none

def isTopic : List String → Bool
  | [] => true
  | [name] => name == "compile" || name == "objects" || name == "help"
  | _ => false

def command? (name : String) (args : List String) (level : Option String) : Option Invocation :=
  if name = "compile" then invocation? compileShape compileRequest? level args
  else if name = "objects" then invocation? objectsShape objectsRequest? level args
  else if name = "help" ∧ isTopic args then some { request := .help }
  else none

/-- The request of a command line, after a level of logging that has been read. -/
def parseFrom (level : Option String) : List String → Option Invocation
  | [] => none
  | arg :: rest =>
    if arg.startsWith "--" then
      match splitOption arg with
      | ("log-level", some value) => if level.isNone then parseFrom (some value) rest else none
      | ("log-level", none) =>
        match rest with
        | value :: rest =>
          if level.isNone ∧ isValue value then parseFrom (some value) rest else none
        | [] => none
      | ("version", none) => some { request := .version }
      | ("help", none) => some { request := .help }
      | _ => none
    else if isValue arg then command? arg rest level
    else if arg.startsWith "-V" then some { request := .version }
    else if arg.startsWith "-h" then some { request := .help }
    else none

def parse (args : List String) : Option Invocation := parseFrom none args

end Conduit.Command
