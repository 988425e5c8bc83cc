import Conduit.Json

/-!
# Built expressions

What an expression is built into.  A replacement stands for the whole of the expression around
it.
-/

namespace Conduit

inductive Built where
  | value (v : Json)
  | replace (b : Built)

namespace Built

def isReplacement : Built → Bool
  | .replace _ => true
  | .value _ => false

/-- The value under all layers of replacement. -/
def unwrap : Built → Json
  | .value v => v
  | .replace b => b.unwrap

/-- Adds the fields of a built object to an expression.  If one of the keys is taken, the whole
object goes into `$and`, so that no condition is lost. -/
def merge (into object : Fields) : Fields :=
  if object.any fun f => Fields.contains into f.1 then
    match Fields.get? into "$and" with
    | none => Fields.insert into "$and" (.arr [.obj object])
    | some (.arr items) => Fields.insert into "$and" (.arr (items ++ [.obj object]))
    | some _ => into
  else Fields.extend into object

end Built

end Conduit
