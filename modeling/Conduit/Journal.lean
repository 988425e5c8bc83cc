import Conduit.Fault

/-!
# Journaled results

A result together with what was noted on the way to it.  The notes up to a failure are kept.
The results alone follow the laws of `Except`:

    (x >>= f).result = x.result >>= fun a => (f a).result
-/

namespace Conduit

/-- A result and the notes made before it. -/
structure Journaled (ν α : Type) where
  result : Except CompileError α
  journal : List ν

namespace Journaled

variable {ν μ α β : Type}

def ok (a : α) : Journaled ν α := ⟨.ok a, []⟩

def fail (e : CompileError) : Journaled ν α := ⟨.error e, []⟩

def bind (x : Journaled ν α) (f : α → Journaled ν β) : Journaled ν β :=
  match x.result with
  | .ok a =>
    let y := f a
    ⟨y.result, x.journal ++ y.journal⟩
  | .error e => ⟨.error e, x.journal⟩

instance : Monad (Journaled ν) where
  pure := ok
  bind := bind

instance : MonadExceptOf CompileError (Journaled ν) where
  throw := fail
  tryCatch x handler :=
    match x.result with
    | .ok _ => x
    | .error e =>
      let y := handler e
      ⟨y.result, x.journal ++ y.journal⟩

def note (n : ν) : Journaled ν Unit := ⟨.ok (), [n]⟩

def of (x : Except CompileError α) : Journaled ν α := ⟨x, []⟩

def mapNotes (f : List ν → List μ) (x : Journaled ν α) : Journaled μ α := ⟨x.result, f x.journal⟩

end Journaled

end Conduit
