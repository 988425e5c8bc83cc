import Conduit.Access
import Conduit.Journal
import Conduit.Log
import Conduit.Match.IndexEntries
import Conduit.Stage.Kind

/-!
# Events

What happens while a pipeline is compiled, as far as anyone may want to know: the levels of
access it needs and the decisions it takes.
-/

namespace Conduit

inductive Event where
  | schemaLoaded (objects models nodes : Nat)
  | stageStarted (kind : StageKind) (position : Nat)
  /-- A property of this level is read. -/
  | needs (kind : StageKind) (position : Nat) (level : AccessLevel)
  | authorized (kind : StageKind) (position : Nat) (qualifiedPath : String)
  /-- What happened while the candidates of one component were found.  Later searches for the
  same candidates find them ready. -/
  | once (address : List Nat) (events : List Event)
  | narrowed (path : String) (nodes : Nat)
  | entered (path : String) (steps : List IndexStep)
  | branched (path : String) (keys : Nat)
  | indexed (position : Nat) (query : IndexQuery) (complete : Bool)
  | matchCoverage (covered checks : List String)
  | sortCoverage (covered checks : List String)
  | output (kind : StageKind) (path type : String)
  | projected (kind : StageKind) (position fields : Nat)
  | pipelineCompiled (stages : Nat) (object : String) (access : AccessLevel)

abbrev Compile (α : Type) := Journaled Event α

namespace Event

mutual

/-- The highest level of access among `level` and those of the events. -/
def accessFrom : List Event → AccessLevel → AccessLevel
  | [], level => level
  | e :: rest, level => accessFrom rest (e.accessOf level)

def accessOf : Event → AccessLevel → AccessLevel
  | .needs _ _ needed, level => level.max needed
  | .once _ events, level => accessFrom events level
  | _, level => level

end

/-! ## The log -/

def stepText : IndexStep → String
  | .and => "And"
  | .or width => "Or(" ++ toString width ++ ")"
  | .position p => "Position(" ++ toString p ++ ")"

def listText (items : List String) : String := "[" ++ ", ".intercalate items ++ "]"

def setText (items : List String) : String := "\x7b" ++ ", ".intercalate items ++ "\x7d"

def boolText (b : Bool) : String := if b then "true" else "false"

def coverageText (covered checks : List String) : String :=
  setText (covered.map Text.shown) ++ " of " ++ listText (checks.map Text.shown)

structure LogState where
  access : AccessLevel := .none
  found : List (List Nat) := []

def target (part : String) : String := "queryforge_core::" ++ part

mutual

def linesOf : Event → LogState → List LogLine × LogState
  | .schemaLoaded objects models nodes, s =>
    ([⟨.debug, target "schema::loader", "Loaded schema with " ++ toString objects ++ " objects, " ++
      toString models ++ " models and " ++ toString nodes ++ " nodes"⟩], s)
  | .stageStarted kind position, _ =>
    ([⟨.debug, target "stage", "compiling " ++ kind.key ++ " stage " ++ toString position⟩], {})
  | .needs kind position level, s =>
    if s.access < level then
      ([⟨.debug, target "stage", kind.key ++ " stage " ++ toString position ++
        " raised required access to " ++ level.name⟩], { s with access := level })
    else ([], s)
  | .authorized kind position qualifiedPath, s =>
    ([⟨.trace, target "stage", "authorized " ++ qualifiedPath ++ " in " ++ kind.key ++ " stage " ++
      toString position⟩], s)
  | .once address events, s =>
    if s.found.contains address then ([], s)
    else
      let (lines, s) := linesFrom events s
      (lines, { s with found := address :: s.found })
  | .narrowed path nodes, s =>
    ([⟨.trace, target "stage::matching::narrowing", "$match property " ++ path ++
      " resolved to " ++ toString nodes ++ " nodes"⟩], s)
  | .entered path steps, s =>
    ([⟨.trace, target "stage::matching::build", "index entries for " ++ path ++ " at " ++
      listText (steps.map stepText)⟩], s)
  | .branched path keys, s =>
    ([⟨.trace, target "stage::matching::index_entries", "branching index entry at " ++ path ++
      " across " ++ toString keys ++ " slots"⟩], s)
  | .indexed position query complete, s =>
    ([⟨.debug, target "stage::matching::build", "$match stage " ++ toString position ++
      " index: branches=" ++ boolText query.hasBranches ++ " slotted=" ++ boolText query.slotted ++
      " pruned=" ++ boolText query.pruned ++ " complete=" ++ boolText complete⟩], s)
  | .matchCoverage covered checks, s =>
    ([⟨.trace, target "stage::matching::build", "native index coverage " ++
      coverageText covered checks⟩], s)
  | .sortCoverage covered checks, s =>
    ([⟨.trace, target "stage::sort", "sort index coverage " ++ coverageText covered checks⟩], s)
  | .output kind path type, s =>
    ([⟨.trace, target "stage::expression::generate", kind.key ++ " output " ++ path ++ " is " ++
      type⟩], s)
  | .projected kind position fields, s =>
    ([⟨.debug, target "pipeline", kind.key ++ " stage " ++ toString position ++ " projects " ++
      toString fields ++ " fields"⟩], s)
  | .pipelineCompiled stages object access, s =>
    ([⟨.info, target "pipeline", "compiled " ++ toString stages ++ " stage pipeline on " ++
      object ++ " (required access " ++ access.name ++ ")"⟩], s)

def linesFrom : List Event → LogState → List LogLine × LogState
  | [], s => ([], s)
  | e :: rest, s =>
    let (first, s) := linesOf e s
    let (more, s) := linesFrom rest s
    (first ++ more, s)

end

def lines (events : List Event) : List LogLine := (linesFrom events {}).1

end Event

def requiredAccess (events : List Event) : AccessLevel := Event.accessFrom events .none

end Conduit
