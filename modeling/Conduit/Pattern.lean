import Conduit.Json
import Conduit.Pattern.Matching
import Conduit.Pattern.Meaning
import Conduit.Pattern.Parser
import Conduit.Pattern.Size

/-!
# Patterns in queries

A pattern is written `/body/flags` and kept in documents as a `$regex` with its `$options`.

Compiled patterns are kept for the process under a key that does not tell where the body ends, so
that a literal may be found there that is no regular expression.  A context holds what was kept when
its stage began; a pattern that is matched is compiled on its own.
-/

namespace Conduit

/-- The regular expression of a text, unless it is nested too deep or too big. -/
def Regex.parse? (text : String) : Option Regex := do
  let t ← Term.parse? text
  if t.depth > Term.depthLimit then none
  let (r, _) ← t.meaning? {}
  if r.fits then some r else none

structure Pattern where
  body : String
  options : String
deriving DecidableEq

namespace Pattern

/-- The regular expression of a pattern; flags that change nothing about matching are dropped. -/
def regex? (p : Pattern) : Option Regex :=
  let flags := String.ofList (p.options.toList.filter fun c =>
    c == 'i' || c == 'm' || c == 's' || c == 'x')
  Regex.parse? (if flags.isEmpty then p.body else "(?" ++ flags ++ ")" ++ p.body)

def key (p : Pattern) : String := p.body ++ ":" ++ p.options

/-- Compiled patterns by their keys, the last used first. -/
abbrev Cache := List (String × Regex)

def Cache.capacity : Nat := 100

/-- The regular expression that is kept under the key of a pattern, or else its own, which is kept
from now on. -/
def Cache.compile (cache : Cache) (p : Pattern) : Option Regex × Cache :=
  match cache.lookup p.key with
  | some r => (some r, (p.key, r) :: cache.filter (·.1 != p.key))
  | none => match p.regex? with
    | some r => (some r, ((p.key, r) :: cache).take capacity)
    | none => (none, cache)

/-- What is kept once these patterns were compiled one after another. -/
def Cache.after (before : List Pattern) : Cache :=
  before.foldl (fun cache p => (cache.compile p).2) []

/-- A body between two slashes and flags in small letters, whatever they say. -/
def split? (literal : String) : Option Pattern :=
  match literal.toList with
  | '/' :: rest =>
    let options := rest.reverse.takeWhile (· != '/')
    match rest.reverse.dropWhile (· != '/') with
    | '/' :: body =>
      if options.all (fun c => 'a' ≤ c && c ≤ 'z') && !body.contains '\n' then
        some ⟨String.ofList body.reverse, String.ofList options.reverse⟩
      else none
    | _ => none
  | _ => none

def Cache.parse? (cache : Cache) (literal : String) : Option Pattern := do
  let p ← split? literal
  if (cache.compile p).1.isSome then some p else none

/-- A pattern from its literal, with nothing compiled before. -/
def parse? : String → Option Pattern := Cache.parse? []

def ofJson? : Json → Option Pattern
  | .obj fs =>
    if fs.length ≤ 2 then
      match Fields.get? fs "$regex", Fields.get? fs "$options" with
      | some (.str body), some (.str options) => some ⟨body, options⟩
      | some (.str body), none => some ⟨body, ""⟩
      | _, _ => none
    else none
  | _ => none

def toJson (p : Pattern) : Json := .obj [("$regex", .str p.body), ("$options", .str p.options)]

/-- Whether some part of the text matches; what is no regular expression matches nothing. -/
def isMatch (p : Pattern) (text : String) : Bool := p.regex?.any fun r => r.isMatch text

end Pattern

end Conduit
