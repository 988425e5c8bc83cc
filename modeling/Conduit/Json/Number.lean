import Conduit.Binary64.Decimal
import Conduit.Json
import Conduit.Text.Blank

/-!
# Numbers in documents
-/

namespace Conduit.Json

def isNumber : Json → Bool
  | .int _ | .double _ => true
  | _ => false

def double? : Json → Option Binary64
  | .int n => some (.ofInt n)
  | .double x => some x
  | _ => none

def isInteger : Json → Bool
  | .int _ => true
  | .double x => x.isIntegral
  | _ => false

/-- The value of a number without a fraction, or the nearest integer of 64 bits. -/
def integer? : Json → Option Int
  | .int n => some (clampInt64 n)
  | .double x => if x.isIntegral then some (clampInt64 x.truncate) else none
  | _ => none

def isNumeric : Json → Bool
  | .str s => (Quantity.read? (Text.trim s)).isSome
  | v => v.isNumber

/-- One or true. -/
def isInclusion (v : Json) : Bool :=
  match v with
  | .bool b => b
  | v => v.integer? == some 1

def isTruthy : Json → Bool
  | .null => false
  | .bool b => b
  | .int n => n != 0
  | .double x => !x.isZero
  | .str s => !s.isEmpty
  | _ => true

end Conduit.Json
