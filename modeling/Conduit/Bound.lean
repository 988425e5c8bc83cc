import Conduit.Json.Number
import Conduit.Stage.Context

/-!
# The limit and skip stages

Both hold one integer in a range, which may be given as text or left open by a placeholder.
-/

namespace Conduit.Bound

/-- What the stage calls its number, with the least and the greatest value. -/
def range (ctx : Context) : String × Nat × Option Int :=
  if ctx.kind = .limit then ("limit", 1, ctx.limits.limit) else ("skip", 0, ctx.limits.skip)

def numberOf? : Json → Option Int
  | .str s => do (← Json.read? s).integer?
  | v => v.integer?

def isWithin (min : Nat) (max : Option Int) (n : Int) : Bool := min ≤ n && max.all fun m => n ≤ m

def compile (ctx : Context) (value : Json) : Compile StageOutput := do
  let key := ctx.kind.key
  match ctx.placeholder? value with
  | some name =>
    return { ctx.passThrough (.obj [(key, .str (Path.placeholder name))]) with
             placeholderNames := [name] }
  | none =>
    let (name, min, max) := range ctx
    match (numberOf? value).filter (isWithin min max) with
    | some n => return ctx.passThrough (.obj [(key, .int n)])
    | none => throw ((Fault.outOfRange name min max).at key)

end Conduit.Bound
