import Conduit.Binary64.Decimal
import Conduit.Pattern.Property
import Conduit.Pattern.Term
import Conduit.Text.Blank

/-!
# The notation of regular expressions

`Term.parse?` reads a pattern: alternatives, repetitions (a following `?` changes which match is
preferred), groups, flags, sets with their operations, and escapes.  Look-around, references back
to groups and unknown escapes of letters are refused.

In a spaced pattern, blanks and comments between the parts count for nothing.
-/

namespace Conduit.Regex

/-! ## What counts -/

def dropSpace : Bool → List Char → List Char
  | _, [] => []
  | true, c :: rest => dropSpace (c != '\n') rest
  | false, c :: rest =>
    if Text.isBlank c then dropSpace false rest
    else if c = '#' then dropSpace true rest
    else c :: rest

def next (spaced : Bool) (cs : List Char) : List Char :=
  if spaced then dropSpace false cs else cs

/-- The longest run of characters of a kind, with what does not count between them left out. -/
def run (spaced : Bool) (kind : Char → Bool) : Bool → List Char → List Char × List Char
  | _, [] => ([], [])
  | true, c :: rest => run spaced kind (c != '\n') rest
  | false, c :: rest =>
    if spaced && Text.isBlank c then run spaced kind false rest
    else if spaced && c = '#' then run spaced kind true rest
    else if kind c then
      let (cs, tail) := run spaced kind false rest
      (c :: cs, tail)
    else ([], c :: rest)

/-- The character that decides whether a hyphen makes a range: the next one that is not blank.
A sign that opens a comment is passed over, but not its text. -/
def peek (spaced : Bool) (cs : List Char) : Option Char :=
  if !spaced then cs.head?
  else
    let cs' := match cs.dropWhile Text.isBlank with
      | '#' :: rest => rest.dropWhile Text.isBlank
      | rest => rest
    cs'.head?.or cs.head?

def after? : List Char → List Char → Option (List Char)
  | [], cs => some cs
  | p :: ps, c :: cs => if p = c then after? ps cs else none
  | _ :: _, [] => none

def braced (spaced : Bool) (cs : List Char) : Option (List Char × List Char) :=
  let (body, rest) := run spaced (· != '\x7d') false cs
  (after? ['\x7d'] rest).map fun rest => (body, rest)

/-! ## Escapes -/

inductive Atom where
  | literal (c : Char) (byte : Bool)
  | set (s : SetTerm)
  | anchor (a : Anchor)

namespace Atom

def term : Atom → Term
  | literal c byte => .literal c byte
  | set s => .set s
  | anchor a => .anchor a

def item? : Atom → Option SetTerm
  | literal c _ => some (.range c c)
  | set s => some s
  | anchor _ => none

def char? : Atom → Option Char
  | literal c _ => some c
  | _ => none

end Atom

def isHexDigit (c : Char) : Bool :=
  c.isDigit || ('a' ≤ c && c ≤ 'f') || ('A' ≤ c && c ≤ 'F')

def hexValue (c : Char) : Nat :=
  if c.isDigit then c.toNat - '0'.toNat
  else if 'a' ≤ c then c.toNat - 'a'.toNat + 10
  else c.toNat - 'A'.toNat + 10

def charOf? (ds : List Char) : Option Char :=
  let n := ds.foldl (fun n c => n * 16 + hexValue c) 0
  if !ds.isEmpty && ds.all isHexDigit && n.isValidChar then some (Char.ofNat n) else none

/-- `n` characters, with what does not count before each left out. -/
def takeCounting (spaced : Bool) : Nat → List Char → Option (List Char × List Char)
  | 0, cs => some ([], cs)
  | n + 1, cs =>
    match next spaced cs with
    | [] => none
    | c :: rest => (takeCounting spaced n rest).map fun r => (c :: r.1, r.2)

/-- A character by its code point: a fixed number of digits, or any number between braces. -/
def hexEscape (spaced : Bool) (digits : Nat) (cs : List Char) : Option (Atom × List Char) := do
  match next spaced cs with
  | '\x7b' :: rest =>
    let (ds, rest) ← braced spaced rest
    return (.literal (← charOf? ds) false, rest)
  | cs =>
    let (ds, rest) ← takeCounting spaced digits cs
    return (.literal (← charOf? ds) (digits = 2), rest)

/-- The set of a property: one letter, or a name between braces. -/
def propertySet (spaced negated : Bool) (cs : List Char) : Option (Atom × List Char) := do
  let (name, rest) ← match next spaced cs with
    | '\x7b' :: rest => braced spaced rest
    | c :: rest => if c = '\\' then none else some ([c], rest)
    | [] => none
  let (s, opposite) ← (PropertyName.parse name).set?
  return (.set (.property s (negated != opposite)), rest)

def edgeNames : List (String × WordEdge) :=
  [("start", .start), ("end", .stop), ("start-half", .startHalf), ("end-half", .stopHalf)]

def isEdgeLetter (c : Char) : Bool := c.isAlpha || c == '-'

/-- A word boundary, which may be followed by the name of its kind.  Braces around anything but
a name are a repetition. -/
def boundary (spaced : Bool) (cs : List Char) : Option (Atom × List Char) :=
  let plain := some (Atom.anchor (.word .boundary), cs)
  match cs with
  | '\x7b' :: rest =>
    match next spaced rest with
    | [] => none
    | c :: tail =>
      if !isEdgeLetter c then plain
      else
        let (name, tail) := run spaced isEdgeLetter false (c :: tail)
        match after? ['\x7d'] tail, edgeNames.lookup (String.ofList name) with
        | some tail, some edge => some (.anchor (.word edge), tail)
        | _, _ => none
  | _ => plain

/-- Signs that may be escaped: every one in ASCII but the angles. -/
def isEscapable (c : Char) : Bool :=
  c.toNat < 128 && !c.isAlphanum && c != '<' && c != '>'

def escape (spaced : Bool) : List Char → Option (Atom × List Char)
  | [] => none
  | c :: rest =>
    let plain (code : Nat) := some (Atom.literal (Char.ofNat code) false, rest)
    let short (s : ShortSet) := some (Atom.set (.short s c.isUpper), rest)
    let anchor (a : Anchor) := some (Atom.anchor a, rest)
    if isEscapable c then plain c.toNat
    else match c with
      | 'd' | 'D' => short .digit
      | 's' | 'S' => short .blank
      | 'w' | 'W' => short .word
      | 'x' => hexEscape spaced 2 rest
      | 'u' => hexEscape spaced 4 rest
      | 'U' => hexEscape spaced 8 rest
      | 'p' => propertySet spaced false rest
      | 'P' => propertySet spaced true rest
      | 'a' => plain 7
      | 't' => plain 9
      | 'n' => plain 10
      | 'v' => plain 11
      | 'f' => plain 12
      | 'r' => plain 13
      | 'A' => anchor .startText
      | 'z' => anchor .endText
      | 'b' => boundary spaced rest
      | 'B' => anchor (.word .notBoundary)
      | '<' => anchor (.word .start)
      | '>' => anchor (.word .stop)
      | _ => none

def atom (spaced : Bool) : List Char → Option (Atom × List Char)
  | '\\' :: rest => escape spaced rest
  | c :: rest => some (.literal c false, rest)
  | [] => none

/-! ## Sets between brackets -/

def asciiSets : List (String × CharSet) :=
  let lower := CharSet.range 'a' 'z'
  let upper := CharSet.range 'A' 'Z'
  let number := CharSet.range '0' '9'
  [("alnum", .unions [lower, upper, number]), ("alpha", .union lower upper),
   ("ascii", .range (Char.ofNat 0) (Char.ofNat 127)),
   ("blank", .unions [.single '\t', .single ' ']),
   ("cntrl", .union (.range (Char.ofNat 0) (Char.ofNat 31)) (.single (Char.ofNat 127))),
   ("digit", number), ("graph", .range '!' '~'), ("lower", lower), ("print", .range ' ' '~'),
   ("punct", .unions [.range '!' '/', .range ':' '@', .range '[' '\x60', .range '\x7b' '~']),
   ("space", .unions [.range '\t' '\r', .single ' ']), ("upper", upper),
   ("word", .unions [lower, upper, number, .single '_']),
   ("xdigit", .unions [number, .range 'a' 'f', .range 'A' 'F'])]

/-- A named set of ASCII, after the opening bracket. -/
def asciiSet : List Char → Option (SetTerm × List Char)
  | ':' :: rest => do
    let (negated, rest) := match rest with
      | '^' :: tail => (true, tail)
      | _ => (false, rest)
    let name := rest.takeWhile (· != ':')
    let tail ← after? [':', ']'] (rest.drop name.length)
    return (.ascii (← asciiSets.lookup (String.ofList name)) negated, tail)
  | _ => none

def setRange (spaced : Bool) (cs : List Char) : Option (SetTerm × List Char) := do
  let (first, cs) ← atom spaced cs
  match next spaced cs with
  | [] => none
  | '-' :: rest =>
    if [some ']', some '-'].contains (peek spaced rest) then return (← first.item?, '-' :: rest)
    else
      let (last, rest) ← atom spaced (next spaced rest)
      let low ← first.char?
      let high ← last.char?
      if low ≤ high then return (.range low high, rest) else none
  | cs => return (← first.item?, cs)

/-- What was read of a set so far: the operand and operation on the left, and the items, the last
one first. -/
structure SetSoFar where
  left : Option (SetTerm × SetOp) := none
  items : List SetTerm := []

namespace SetSoFar

def add (s : SetSoFar) (item : SetTerm) : SetSoFar := { s with items := item :: s.items }

def term (s : SetSoFar) : SetTerm :=
  let items := SetTerm.ofItems s.items.reverse
  match s.left with
  | some (a, o) => .op o a items
  | none => items

def operator (s : SetSoFar) (o : SetOp) : SetSoFar := { left := some (s.term, o) }

end SetSoFar

/-- How a set starts after its opening bracket: whether it is negated, and the characters that
stand for themselves there, which are hyphens or else a closing bracket. -/
def setStart (spaced : Bool) (cs : List Char) : Bool × SetSoFar × List Char :=
  let (negated, cs) := match next spaced cs with
    | '^' :: tail => (true, tail)
    | rest => (false, rest)
  let (hyphens, cs) := run spaced (· == '-') false cs
  match hyphens, cs with
  | [], ']' :: rest => (negated, { items := [.range ']' ']'] }, rest)
  | _, _ => (negated, { items := hyphens.map fun c => .range c c }, cs)

/-- The rest of a set, up to its closing bracket.  `fuel` bounds the number of steps. -/
def setBody (spaced : Bool) : Nat → Bool → SetSoFar → List Char → Option (SetTerm × List Char)
  | 0, _, _, _ => none
  | fuel + 1, negated, s, cs =>
    match next spaced cs with
    | [] => none
    | ']' :: rest => some (.bracket s.term negated, rest)
    | '[' :: rest =>
      match asciiSet rest with
      | some (item, rest) => setBody spaced fuel negated (s.add item) rest
      | none =>
        let (inner, start, rest) := setStart spaced rest
        match setBody spaced fuel inner start rest with
        | some (item, rest) => setBody spaced fuel negated (s.add item) rest
        | none => none
    | '&' :: '&' :: rest => setBody spaced fuel negated (s.operator .inter) rest
    | '-' :: '-' :: rest => setBody spaced fuel negated (s.operator .diff) rest
    | '~' :: '~' :: rest => setBody spaced fuel negated (s.operator .symmDiff) rest
    | cs =>
      match setRange spaced cs with
      | some (item, rest) => setBody spaced fuel negated (s.add item) rest
      | none => none

def bracketSet (spaced : Bool) (fuel : Nat) (cs : List Char) : Option (SetTerm × List Char) :=
  let (negated, start, rest) := setStart spaced cs
  setBody spaced fuel negated start rest

/-! ## Repetitions -/

def count (spaced : Bool) (cs : List Char) : Option (Nat × List Char) :=
  let (ds, rest) := run spaced Char.isDigit false (cs.dropWhile Text.isBlank)
  let n := digitsValue ds
  if ds.isEmpty || 1 <<< 32 ≤ n then none
  else some (n, next spaced (rest.dropWhile Text.isBlank))

def counted (spaced : Bool) (cs : List Char) : Option ((Nat × Option Nat) × List Char) := do
  let (low, cs) ← count spaced (next spaced cs)
  match cs with
  | '\x7d' :: rest => return ((low, some low), rest)
  | ',' :: rest =>
    match next spaced rest with
    | '\x7d' :: rest => return ((low, none), rest)
    | rest =>
      let (high, rest) ← count spaced rest
      let rest ← after? ['\x7d'] rest
      if low ≤ high then return ((low, some high), rest) else none
  | _ => none

/-- Whether a repetition prefers more, and what follows. -/
def greed : List Char → Bool × List Char
  | '?' :: rest => (false, rest)
  | cs => (true, cs)

/-! ## Groups and alternatives -/

def flag? : Char → Option Flag
  | 'i' => some .ignoreCase
  | 'm' => some .multiLine
  | 's' => some .dotAll
  | 'U' => some .swapGreed
  | 'u' => some .unicode
  | 'R' => some .returns
  | 'x' => some .spaced
  | _ => none

/-- The flags up to a colon or a closing parenthesis; each may stand once. -/
def readFlags : List Char → Bool → List Char → Option (FlagChanges × List Char)
  | _, _, [] => none
  | seen, on, c :: rest =>
    if c = ':' || c = ')' then
      if seen.head? = some '-' then none else some ([], c :: rest)
    else if seen.contains c then none
    else if c = '-' then readFlags (c :: seen) false rest
    else match flag? c with
      | some flag => (readFlags (c :: seen) on rest).map fun r => ((flag, on) :: r.1, r.2)
      | none => none

def isNameStart (c : Char) : Bool := c == '_' || Text.Property.alphabetic.has c

def isNameRest (c : Char) : Bool :=
  isNameStart c || Text.hasCategory "N" c || c == '.' || c == '[' || c == ']'

def groupName (cs : List Char) : Option (List Char × List Char) := do
  let name := cs.takeWhile (· != '>')
  let rest ← after? ['>'] (cs.drop name.length)
  match name with
  | c :: tail => if isNameStart c && tail.all isNameRest then return (name, rest) else none
  | [] => none

inductive Opening where
  /-- A group with a number, and a name if it has one. -/
  | capture (name : Option (List Char))
  | group (changes : FlagChanges)
  | flags (changes : FlagChanges)

def opening (spaced : Bool) (cs : List Char) : Option (Opening × List Char) := do
  match next spaced cs with
  | '?' :: 'P' :: '<' :: rest | '?' :: '<' :: rest =>
    let (name, rest) ← groupName rest
    return (.capture (some name), rest)
  | '?' :: rest =>
    let (changes, tail) ← readFlags [] true rest
    match tail with
    | ':' :: rest => return (.group changes, rest)
    | _ :: rest => if changes.isEmpty then none else return (.flags changes, rest)
    | [] => none
  | rest => return (.capture none, rest)

/-- Whether a pattern is spaced after some changes of flags. -/
def stillSpaced (spaced : Bool) (changes : FlagChanges) : Bool :=
  (changes.lookup .spaced).getD spaced

/-- The groups met so far: how many have a number, and the names. -/
structure Groups where
  count : Nat := 0
  names : List (List Char) := []

def Groups.add? (g : Groups) (name : Option (List Char)) : Option Groups :=
  match name with
  | some n => if g.names.contains n then none else some ⟨g.count + 1, n :: g.names⟩
  | none => some { g with count := g.count + 1 }

def primitive (spaced : Bool) : List Char → Option (Term × List Char)
  | '.' :: rest => some (.dot, rest)
  | '^' :: rest => some (.anchor .startLine, rest)
  | '$' :: rest => some (.anchor .endLine, rest)
  | cs => (atom spaced cs).map fun (a, rest) => (a.term, rest)

/-- The parts of one alternative with the last one, which stands first, repeated. -/
def repeatLast (low : Nat) (high : Option Nat) (greedy : Bool) : List Term → Option (List Term)
  | [] | .empty :: _ | .flags _ :: _ => none
  | t :: parts => some (.repeated t low high greedy :: parts)

/-- The alternatives with one more, from its parts.  The last one stands first in both lists. -/
def close (done parts : List Term) : List Term := Term.ofSequence parts.reverse :: done

/-- Alternatives up to the end or a closing parenthesis.  `fuel` bounds the number of steps. -/
def body : Nat → Bool → List Term → List Term → Groups → List Char →
    Option (Term × Groups × List Char)
  | 0, _, _, _, _, _ => none
  | fuel + 1, spaced, done, parts, groups, cs =>
    let add (t : Term) (groups : Groups) (rest : List Char) :=
      body fuel spaced done (t :: parts) groups rest
    let again (low : Nat) (high : Option Nat) (rest : List Char) :=
      let (greedy, rest) := greed rest
      match repeatLast low high greedy parts with
      | some parts => body fuel spaced done parts groups rest
      | none => none
    match next spaced cs with
    | [] => some (.ofAlternatives (close done parts).reverse, groups, [])
    | ')' :: rest => some (.ofAlternatives (close done parts).reverse, groups, ')' :: rest)
    | '|' :: rest => body fuel spaced (close done parts) [] groups rest
    | '(' :: rest =>
      match opening spaced rest with
      | none => none
      | some (.flags changes, rest) =>
        body fuel (stillSpaced spaced changes) done (.flags changes :: parts) groups rest
      | some (.group changes, rest) =>
        match body fuel (stillSpaced spaced changes) [] [] groups rest with
        | some (t, groups, ')' :: rest) => add (.group changes t) groups rest
        | _ => none
      | some (.capture name, rest) =>
        match groups.add? name with
        | none => none
        | some inner =>
          match body fuel spaced [] [] inner rest with
          | some (t, groups, ')' :: rest) => add (.capture inner.count t) groups rest
          | _ => none
    | '[' :: rest =>
      match bracketSet spaced fuel rest with
      | some (s, rest) => add (.set s) groups rest
      | none => none
    | '?' :: rest => again 0 (some 1) rest
    | '*' :: rest => again 0 none rest
    | '+' :: rest => again 1 none rest
    | '\x7b' :: rest =>
      match counted spaced rest with
      | some ((low, high), rest) => again low high (next spaced rest)
      | none => none
    | cs =>
      match primitive spaced cs with
      | some (t, rest) => add t groups rest
      | none => none

def Term.parse? (pattern : String) : Option Term :=
  let cs := pattern.toList
  match body (cs.length + 1) false [] [] {} cs with
  | some (t, _, []) => some t
  | _ => none

end Conduit.Regex
