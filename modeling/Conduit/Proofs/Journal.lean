import Conduit.Stage.Event
import Mathlib.Tactic.Lemma

/-!
# Runs that succeed

A journaled computation that succeeds is a pair of a value and its notes.  The lemmas here take
such a run apart, one bind at a time (`bind_ok_iff`).

What a run needs of access is the highest level among its notes, so that a part of a run never
needs more than the whole (`requiredAccess_append`).
-/

namespace Conduit

/-- Whether a fault says that candidates cannot be merged. -/
def Fault.isMerge : Fault → Bool
  | .pathsDiffer | .arraySettingsDiffer => true
  | _ => false

namespace Journaled

variable {ν α β : Type} {x : Journaled ν α} {f : α → Journaled ν β} {b : β} {notes : List ν} {a : α}

@[simp] lemma pure_eq (a : α) : (pure a : Journaled ν α) = ⟨.ok a, []⟩ := rfl

@[simp] lemma throw_eq (e : CompileError) : (throw e : Journaled ν α) = ⟨.error e, []⟩ := rfl

@[simp] lemma note_eq (n : ν) : (note n : Journaled ν Unit) = ⟨.ok (), [n]⟩ := rfl

@[simp] lemma of_eq (x : Except CompileError α) : (of x : Journaled ν α) = ⟨x, []⟩ := rfl

lemma ok_bind (a : α) (m : List ν) (f : α → Journaled ν β) :
    (⟨.ok a, m⟩ : Journaled ν α) >>= f = ⟨(f a).result, m ++ (f a).journal⟩ := rfl

lemma error_bind (e : CompileError) (m : List ν) (f : α → Journaled ν β) :
    (⟨.error e, m⟩ : Journaled ν α) >>= f = ⟨.error e, m⟩ := rfl

/-- **A bind succeeds when both parts do**, and its notes are theirs in order. -/
lemma bind_ok_iff : x >>= f = ⟨.ok b, notes⟩ ↔
      ∃ a m n, x = ⟨.ok a, m⟩ ∧ f a = ⟨.ok b, n⟩ ∧ notes = m ++ n := by
  obtain ⟨r, m⟩ := x
  cases r with
  | error e => simp [error_bind]
  | ok a =>
    rw [ok_bind]
    constructor
    · intro h
      injection h with hr hn
      exact ⟨a, m, (f a).journal, rfl, by rw [← hr], hn.symm⟩
    · rintro ⟨a', m', n, hx, hf, rfl⟩
      injection hx with hr hm
      cases hr
      subst hm
      rw [hf]

lemma bind_assoc {γ : Type} (x : Journaled ν α) (f : α → Journaled ν β) (g : β → Journaled ν γ) :
    x >>= f >>= g = x >>= fun a => f a >>= g := by
  obtain ⟨r, m⟩ := x
  cases r with
  | error e => rfl
  | ok a =>
    simp only [ok_bind]
    obtain ⟨r', n⟩ := f a
    cases r' with
    | error e => rfl
    | ok b => simp only [ok_bind, List.append_assoc]

lemma guard_ok_iff {c : Prop} [Decidable c] {e : CompileError} {y : Journaled ν β} :
    (if c then (throw e : Journaled ν α) >>= f else y) = ⟨.ok b, notes⟩ ↔
      ¬c ∧ y = ⟨.ok b, notes⟩ := by
  by_cases hc : c <;> simp [hc, error_bind]

lemma mapNotes_ok_iff {μ : Type} {f : List ν → List μ} {notes : List μ} :
    mapNotes f x = ⟨.ok a, notes⟩ ↔ ∃ m, x = ⟨.ok a, m⟩ ∧ notes = f m := by
  obtain ⟨r, m⟩ := x
  simp only [mapNotes, Journaled.mk.injEq]
  constructor
  · rintro ⟨rfl, rfl⟩
    exact ⟨m, ⟨rfl, rfl⟩, rfl⟩
  · rintro ⟨m', ⟨rfl, rfl⟩, rfl⟩
    exact ⟨rfl, rfl⟩

lemma eq_ok_of_result (h : x.result = .ok a) : x = ⟨.ok a, x.journal⟩ := by
  rw [← h]

end Journaled

variable {ε α β ν : Type}

lemma except_bind_ok_iff {x : Except ε α} {f : α → Except ε β} {b : β} :
    x >>= f = .ok b ↔ ∃ a, x = .ok a ∧ f a = .ok b := by
  cases x with
  | error e => simp [bind, Except.bind]
  | ok a => simp [bind, Except.bind]

lemma Journaled.result_bind (x : Journaled ν α) (f : α → Journaled ν β) :
    (x >>= f).result = x.result >>= fun a => (f a).result := by
  obtain ⟨r, m⟩ := x
  cases r <;> rfl

lemma Journaled.result_bind_ok_iff {x : Journaled ν α} {f : α → Journaled ν β} {b : β} :
    (x >>= f).result = .ok b ↔ ∃ a, x.result = .ok a ∧ (f a).result = .ok b := by
  rw [Journaled.result_bind, except_bind_ok_iff]

lemma exists_eq_ok {x : Except ε α} (h : x.isOk = true) : ∃ a, x = .ok a := by
  cases x with
  | error e => cases h
  | ok a => exact ⟨a, rfl⟩

/-- A run that can be evaluated, with what its result satisfies. -/
lemma exists_eq_ok_and {x : Except ε α} {P : α → Prop} [DecidablePred P]
    (h : x.toOption.any (fun a => decide (P a)) = true) : ∃ a, x = .ok a ∧ P a := by
  cases x with
  | error e => cases h
  | ok a => exact ⟨a, rfl, of_decide_eq_true h⟩

lemma eq_ok_of_mem {x : Except ε α} {a : α} (h : a ∈ x.toOption) : x = .ok a := by
  cases x with
  | error e => cases h
  | ok b => exact congrArg _ (Option.some.inj h)

lemma eq_ok_getD {x : Except ε α} (h : x.isOk = true) (a : α) : x = .ok (x.toOption.getD a) := by
  obtain ⟨b, rfl⟩ := exists_eq_ok h
  rfl

lemma exists_of_mapM {f : α → Except CompileError β} {xs : List α} {ys : List β}
    (h : xs.mapM f = .ok ys) {x : α} (hx : x ∈ xs) : ∃ y ∈ ys, f x = .ok y := by
  induction xs generalizing ys with
  | nil => cases hx
  | cons z rest ih =>
    simp only [List.mapM_cons, except_bind_ok_iff] at h
    obtain ⟨y, hy, tail, htail, ⟨⟩⟩ := h
    rcases List.mem_cons.1 hx with rfl | hx
    · exact ⟨y, List.mem_cons_self, hy⟩
    · obtain ⟨u, hu, hfx⟩ := ih htail hx
      exact ⟨u, List.mem_cons_of_mem _ hu, hfx⟩

lemma except_map_ok_iff {x : Except CompileError α} {f : α → β} {b : β} :
    x.map f = .ok b ↔ ∃ a, x = .ok a ∧ f a = b := by
  cases x <;> simp [Except.map]

lemma except_functor_map_ok_iff {x : Except CompileError α} {f : α → β} {b : β} :
    f <$> x = .ok b ↔ ∃ a, x = .ok a ∧ f a = b := except_map_ok_iff

lemma except_guard_ok_iff {c : Prop} [Decidable c] {e : ε} {f : α → Except ε β} {y : Except ε β}
    {b : β} : (if c then (throw e : Except ε α) >>= f else y) = .ok b ↔ ¬c ∧ y = .ok b := by
  by_cases hc : c
  · simp only [hc, if_true, not_true_eq_false, false_and, iff_false]
    exact nofun
  · simp [hc]

/-! ## Levels of access -/

namespace AccessLevel

variable {a b : AccessLevel}

lemma le_iff : a ≤ b ↔ a.rank ≤ b.rank := Iff.rfl

protected lemma le_refl (a : AccessLevel) : a ≤ a := Nat.le_refl _

protected lemma le_trans {a b c : AccessLevel} (hab : a ≤ b) (hbc : b ≤ c) : a ≤ c :=
  Nat.le_trans hab hbc

lemma rank_inj (h : a.rank = b.rank) : a = b := by
  revert h
  cases a <;> cases b <;> decide

lemma rank_max (a b : AccessLevel) : (a.max b).rank = Nat.max a.rank b.rank := by
  unfold AccessLevel.max
  split
  · next h => exact (Nat.max_eq_right (Nat.le_of_lt h)).symm
  · next h => exact (Nat.max_eq_left (Nat.le_of_not_lt h)).symm

lemma le_max_left (a b : AccessLevel) : a ≤ a.max b := by
  rw [le_iff, rank_max]
  exact Nat.le_max_left _ _

lemma le_max_right (a b : AccessLevel) : b ≤ a.max b := by
  rw [le_iff, rank_max]
  exact Nat.le_max_right _ _

lemma max_assoc (a b c : AccessLevel) : (a.max b).max c = a.max (b.max c) := by
  apply rank_inj
  simp only [rank_max]
  exact Nat.max_assoc _ _ _

@[simp] lemma none_max (a : AccessLevel) : AccessLevel.none.max a = a := by
  apply rank_inj
  rw [rank_max]
  exact Nat.max_eq_right (Nat.zero_le _)

@[simp] lemma max_none (a : AccessLevel) : a.max AccessLevel.none = a := by
  apply rank_inj
  rw [rank_max]
  exact Nat.max_eq_left (Nat.zero_le _)

end AccessLevel

/-! ## What a journal needs -/

namespace Event

mutual

lemma accessFrom_eq_max : ∀ (events : List Event) (level : AccessLevel),
    accessFrom events level = level.max (accessFrom events .none)
  | [], level => by simp [accessFrom]
  | e :: rest, level => by
    rw [accessFrom, accessFrom, accessFrom_eq_max rest, accessFrom_eq_max rest (e.accessOf .none),
      accessOf_eq_max e level, AccessLevel.max_assoc]

lemma accessOf_eq_max : ∀ (e : Event) (level : AccessLevel),
    e.accessOf level = level.max (e.accessOf .none)
  | .needs _ _ needed, level => by simp [accessOf]
  | .once _ events, level => by
    exact accessFrom_eq_max events level
  | .schemaLoaded .., level | .stageStarted .., level | .authorized .., level
  | .narrowed .., level | .entered .., level | .branched .., level | .indexed .., level
  | .matchCoverage .., level | .sortCoverage .., level | .output .., level
  | .projected .., level | .pipelineCompiled .., level => by simp [accessOf]

end

lemma accessFrom_append (xs ys : List Event) (level : AccessLevel) :
    accessFrom (xs ++ ys) level = accessFrom ys (accessFrom xs level) := by
  induction xs generalizing level with
  | nil => rfl
  | cons x xs ih => simp only [List.cons_append, accessFrom, ih]

end Event

/-- **What two journals need together** is the higher of what each needs. -/
lemma requiredAccess_append (xs ys : List Event) :
    requiredAccess (xs ++ ys) = (requiredAccess xs).max (requiredAccess ys) := by
  unfold requiredAccess
  rw [Event.accessFrom_append, Event.accessFrom_eq_max ys]

lemma requiredAccess_le_append_left (xs ys : List Event) :
    requiredAccess xs ≤ requiredAccess (xs ++ ys) := by
  rw [requiredAccess_append]
  exact AccessLevel.le_max_left _ _

lemma requiredAccess_le_append_right (xs ys : List Event) :
    requiredAccess ys ≤ requiredAccess (xs ++ ys) := by
  rw [requiredAccess_append]
  exact AccessLevel.le_max_right _ _

/-- **A part of a journal needs no more than the whole.** -/
lemma requiredAccess_mono {xs ys : List Event} (h : xs <:+: ys) :
    requiredAccess xs ≤ requiredAccess ys := by
  obtain ⟨front, back, rfl⟩ := h
  exact AccessLevel.le_trans (requiredAccess_le_append_right front xs)
    (requiredAccess_le_append_left (front ++ xs) back)

lemma requiredAccess_needs (kind : StageKind) (position : Nat) (level : AccessLevel) :
    requiredAccess [.needs kind position level] = level := by
  simp [requiredAccess, Event.accessFrom, Event.accessOf]

end Conduit
