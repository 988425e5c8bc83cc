import Conduit.Command.Arguments
import Conduit.Pipeline
import Conduit.Schema.Load

/-!
# The command

Compiles a pipeline from a file or the input against a schema, or lists the objects of a schema.
-/

namespace Conduit.Command

structure Surroundings where
  file? : String → Option String
  input : String := ""
  logSetting : Option String := none

structure Report where
  code : Nat := 0
  output : String := ""
  log : List LogLine := []
  error : Option String := none

structure Run where
  result : Except String String
  events : List Event := []

def Request.files : Request → List String
  | .compile args => args.options.toList ++ [args.schema] ++
    (if args.pipeline = "-" then [] else [args.pipeline])
  | .objects schema => [schema]
  | _ => []

def Request.readsInput : Request → Bool
  | .compile args => args.pipeline == "-"
  | _ => false

/-! ## Options -/

def fileOptions (s : Surroundings) (path : String) : Except String Options :=
  match s.file? path with
  | none => .error ("Failed to read options: " ++ path)
  | some text =>
    match Options.ofText? text with
    | some o => .ok o
    | none => .error ("Invalid options JSON in: " ++ path)

def CompileArguments.apply (args : CompileArguments) (o : Options) : Options :=
  { o with
    object := args.object.getD o.object
    strict := o.strict && !args.lenient
    relaxLimits := o.relaxLimits || args.relaxLimits
    withVariables := o.withVariables || args.withVariables
    currentLocale := args.locale.getD o.currentLocale
    skipIndexChecks := o.skipIndexChecks || args.skipIndexChecks }

/-- The policy of a caller with the named level, in any case. -/
def policyOf : Option String → Except String Policy
  | none => .ok .allowAll
  | some name =>
    match AccessLevel.decode (.str (String.ofList (name.toList.map Char.toLower))) with
    | .ok level => .ok (.principal level)
    | .error _ => .error ("Unknown access level: " ++ name)

def settle (s : Surroundings) (args : CompileArguments) : Except String (Options × Policy) := do
  let o ← match args.options with
    | some path => fileOptions s path
    | none => pure {}
  let o := args.apply o
  let policy ← policyOf args.principal
  if o.object.isEmpty then throw "--object (or \"object\" in --options) is required"
  return (o, policy)

/-! ## Requests -/

def fileCatalog (s : Surroundings) (path : String) : Except String Catalog :=
  match s.file? path with
  | none => .error ("Failed to read schema: " ++ path)
  | some text =>
    match Catalog.loadText text with
    | .ok c => .ok c
    | .error _ => .error ("Invalid schema in: " ++ path)

def pipelineText (s : Surroundings) (path : String) : Except String String :=
  if path = "-" then .ok s.input
  else match s.file? path with
    | some text => .ok text
    | none => .error ("Failed to read pipeline: " ++ path)

def fullReport (p : CompiledPipeline) : Json :=
  .obj
    [("pipeline", p.json),
     ("requiredAccess", .str p.requiredAccess.name),
     ("variables", .arr (p.placeholderNames.map .str)),
     ("expansions", .arr (p.expansions.map fun e =>
       .obj [("path", .str e.path), ("arguments", e.arguments)])),
     ("usesIndex", .bool p.usesIndex),
     ("canBeCalledAsQuery", .bool p.isQuery)]

def loaded (c : Catalog) : Event := .schemaLoaded c.objects.length c.models.size c.nodes.size

def compileWith (s : Surroundings) (args : CompileArguments) (o : Options) (policy : Policy)
    (c : Catalog) : Run :=
  match pipelineText s args.pipeline with
  | .error message => { result := .error message, events := [loaded c] }
  | .ok text =>
    let setting : Pipeline.Setting :=
      { catalog := c, options := o, policy, indexes := c.collectionIndexes }
    let run := Pipeline.compile setting (.str text)
    let events := loaded c :: run.journal
    match run.result with
    | .error e => { result := .error (e.fault.kind.name ++ ": " ++ e.message), events }
    | .ok p =>
      let answer := if args.full then fullReport p else p.json
      { result := .ok (answer.pretty ++ "\n"), events }

def compile (s : Surroundings) (args : CompileArguments) : Run :=
  match settle s args with
  | .error message => { result := .error message }
  | .ok (o, policy) =>
    match fileCatalog s args.schema with
    | .error message => { result := .error message }
    | .ok c => compileWith s args o policy c

def objects (s : Surroundings) (path : String) : Run :=
  match fileCatalog s path with
  | .error message => { result := .error message }
  | .ok c =>
    { result := .ok (String.join (c.objectNames.map fun name => name ++ "\n"))
      events := [loaded c] }

def version : String := "queryforge 0.1.0"

def usage : String := "Usage: queryforge [--log-level <LEVEL>] <compile|objects> [ARGUMENTS]"

def perform (s : Surroundings) : Request → Run
  | .version => { result := .ok (version ++ "\n") }
  | .help => { result := .ok (usage ++ "\n") }
  | .compile args => compile s args
  | .objects schema => objects s schema

/-! ## Reports -/

def report (shown : LogLevel) (r : Run) : Report :=
  let log := (Event.lines r.events).filter fun l => l.level.isShown shown
  match r.result with
  | .ok output => { output := output, log := log }
  | .error message => { code := 1, log, error := some message }

def environmentLevel (s : Surroundings) : LogLevel := (s.logSetting.bind LogLevel.read?).getD .warn

def runInvocation (s : Surroundings) (i : Invocation) : Report :=
  match i.logLevel with
  | none => report (environmentLevel s) (perform s i.request)
  | some name =>
    match LogLevel.read? name with
    | some level => report level (perform s i.request)
    | none => { code := 1, error := some ("Unknown log level: " ++ name) }

/-- Carries out a command line.  One that makes no sense ends with code two. -/
def run (s : Surroundings) (args : List String) : Report :=
  match parse args with
  | some i => runInvocation s i
  | none => { code := 2, error := some usage }

end Conduit.Command
