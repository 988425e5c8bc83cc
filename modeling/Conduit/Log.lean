import Conduit.Text.Blank

/-!
# Logs

A log is a list of lines with a level and the part of the compiler they come from.  What is
shown of it depends on the level asked for.
-/

namespace Conduit

/-- Levels of logging, the quietest first. -/
inductive LogLevel where
  | off
  | error
  | warn
  | info
  | debug
  | trace
deriving DecidableEq, Inhabited

namespace LogLevel

def rank : LogLevel → Nat
  | off => 0
  | error => 1
  | warn => 2
  | info => 3
  | debug => 4
  | trace => 5

def name : LogLevel → String
  | off => "OFF"
  | error => "ERROR"
  | warn => "WARN"
  | info => "INFO"
  | debug => "DEBUG"
  | trace => "TRACE"

/-- The capital form of a character, as far as names of levels can tell: of the characters
outside ASCII, the dotless i, the long s and two ligatures have capitals among the letters. -/
def capital (c : Char) : List Char :=
  if c.toNat = 0x131 then ['I']
  else if c.toNat = 0x17F then ['S']
  else if c.toNat = 0xFB00 then ['F', 'F']
  else [c.toUpper]

def words : List (String × LogLevel) :=
  [("OFF", off), ("NONE", off), ("ERROR", error), ("WARN", warn), ("WARNING", warn),
   ("INFO", info), ("DEBUG", debug), ("TRACE", trace)]

/-- A level by one of its words, in any case and with blanks around it. -/
def read? (s : String) : Option LogLevel :=
  let word := String.ofList ((Text.trim s).toList.flatMap capital)
  (words.find? fun w => w.1 == word).map Prod.snd

def isShown (level shown : LogLevel) : Bool := level != off && level.rank ≤ shown.rank

end LogLevel

structure LogLine where
  level : LogLevel
  target : String
  message : String
deriving DecidableEq

def LogLine.text (l : LogLine) : String :=
  "[" ++ l.level.name ++ "] " ++ l.target ++ ": " ++ l.message

end Conduit
