import Conduit.Fault
import Conduit.Schema.Node

/-!
# Candidates

A candidate property is a path with the nodes that may realise it.  Conditions that must all
hold intersect candidates, alternatives unite them; order follows first appearance.
-/

namespace Conduit

/-- A path and the nodes that may realise it. -/
structure Candidate where
  path : String
  nodes : List NodeId
  /-- Whether its values are arrays where the pipeline has changed that; none as stored. -/
  isArray : Option Bool := none
deriving DecidableEq

namespace Candidate

def sameNodes (a : Candidate) (nodes : List NodeId) : Bool :=
  a.nodes.length == nodes.length && nodes.all a.nodes.contains

/-- Two candidates can be combined when they agree on the path and on being arrays. -/
def checkCompatible (a b : Candidate) : Except CompileError Unit := do
  if a.path ≠ b.path then throw (Fault.pathsDiffer.at a.path)
  if a.isArray ≠ b.isArray then throw (Fault.arraySettingsDiffer.at a.path)

def inter (a b : Candidate) : Except CompileError Candidate := do
  checkCompatible a b
  if a.sameNodes b.nodes then return a
  return { a with nodes := a.nodes.filter b.nodes.contains }

def union (a b : Candidate) : Except CompileError Candidate := do
  checkCompatible a b
  if a.sameNodes b.nodes then return a
  return { a with
    nodes := b.nodes.foldl (fun ns n => if ns.contains n then ns else ns ++ [n]) a.nodes }

def find? (cs : List Candidate) (path : String) : Option Candidate :=
  cs.find? fun c => c.path == path

/-- Adds a candidate: combined with the one of its path, or at the end. -/
def mergeOne (combine : Candidate → Candidate → Except CompileError Candidate)
    (new : Candidate) : List Candidate → Except CompileError (List Candidate)
  | [] => .ok [new]
  | c :: rest =>
    if c.path = new.path then return (← combine c new) :: rest
    else return c :: (← mergeOne combine new rest)

def merge (combine : Candidate → Candidate → Except CompileError Candidate)
    (groups : List (List Candidate)) : Except CompileError (List Candidate) :=
  groups.flatten.foldlM (fun acc c => mergeOne combine c acc) []

/-- The nodes that every list allows for a path it has. -/
def mergeInter : List (List Candidate) → Except CompileError (List Candidate) := merge inter

/-- The nodes that some list allows. -/
def mergeUnion : List (List Candidate) → Except CompileError (List Candidate) := merge union

end Candidate

def intersectModels : List (List ModelId) → List ModelId
  | [] => []
  | first :: rest => rest.foldl (fun acc group => acc.filter group.contains) first

/-- The models of any list, in order of first appearance. -/
def unionModels (groups : List (List ModelId)) : List ModelId :=
  groups.flatten.foldl (fun acc m => if acc.contains m then acc else acc ++ [m]) []

end Conduit
