import Conduit.Json.Printer
import Conduit.Proofs.DoubleText
import Conduit.Proofs.Fields
import Mathlib.Data.List.Sort
import Std.Data.String.ToInt

/-!
# Canonical texts

Two documents have one canonical text exactly if they differ in the order of keys at most
(`canonical_eq_iff`).  One way, sorted fields with distinct keys are one list.  The other way, a
text is read back: every value ends before the comma or bracket behind it, so that values written one
after the other can be told apart (`rearranged_of_canonical`).
-/

namespace Conduit

open List

/-! ## Strings between quotes -/

namespace Text

variable {x y : List Char} {c d : Char} {s t : String}

/-- A way of writing the characters of a string between quotes: by a letter behind a backslash, by
a number behind `\u`, or as they are. -/
structure Escaping (f : Char → List Char) where
  letters : List (Char × Char)
  Numbered : Char → Prop
  number : Char → List Char
  cases (c : Char) : (∃ l, (c, l) ∈ letters ∧ f c = ['\\', l]) ∨
    (Numbered c ∧ f c = '\\' :: 'u' :: number c) ∨ f c = [c] ∧ c ≠ '"' ∧ c ≠ '\\'
  letters_inj : ∀ p ∈ letters, p.2 ≠ 'u' ∧ ∀ q ∈ letters, p.2 = q.2 → p = q
  number_inj {c d : Char} {x y : List Char} (hc : Numbered c) (hd : Numbered d)
    (h : number c ++ x = number d ++ y) : c = d ∧ x = y

namespace Escaping

variable {f : Char → List Char} (e : Escaping f)

include e

lemma append_inj (h : f c ++ x = f d ++ y) : c = d ∧ x = y := by
  rcases e.cases c with ⟨l, hl, hc⟩ | ⟨hcode, hc⟩ | ⟨hc, -, hne⟩ <;>
    rcases e.cases d with ⟨m, hm, hd⟩ | ⟨hcode', hd⟩ | ⟨hd, -, hne'⟩ <;>
    simp only [hc, hd, cons_append, nil_append, cons.injEq, true_and] at h
  · exact ⟨(Prod.mk.inj ((e.letters_inj _ hl).2 _ hm h.1)).1, h.2⟩
  · exact absurd h.1 (e.letters_inj _ hl).1
  · exact absurd h.1.symm hne'
  · exact absurd h.1.symm (e.letters_inj _ hm).1
  · exact e.number_inj hcode hcode' h
  · exact absurd h.1.symm hne'
  · exact absurd h.1 hne
  · exact absurd h.1 hne
  · exact h

lemma ne_quote : f c ++ x ≠ '"' :: y := by
  rcases e.cases c with ⟨l, -, hc⟩ | ⟨-, hc⟩ | ⟨hc, hne, -⟩
  · simp [hc]
  · simp [hc]
  · simp [hc, hne]

/-- A string ends at its quote, and can be read off what stands before it. -/
lemma flatMap_inj (cs ds : List Char) (h : cs.flatMap f ++ '"' :: x = ds.flatMap f ++ '"' :: y) :
    cs = ds ∧ x = y := by
  induction cs generalizing ds with
  | nil =>
    cases ds with
    | nil => exact ⟨rfl, (cons.inj h).2⟩
    | cons d ds =>
      rw [flatMap_cons, append_assoc] at h
      exact absurd h.symm e.ne_quote
  | cons c cs ih =>
    cases ds with
    | nil =>
      rw [flatMap_cons, append_assoc] at h
      exact absurd h e.ne_quote
    | cons d ds =>
      rw [flatMap_cons, flatMap_cons, append_assoc, append_assoc] at h
      obtain ⟨rfl, hrest⟩ := e.append_inj h
      exact (ih ds hrest).imp_left (congrArg _)

end Escaping

lemma hexDigits_ne (n : Nat) : '\x7d' ∉ hexDigits n := by
  have hdigit : ∀ d, '\x7d' ≠ Nat.digitChar d := fun d => (Nat.digitChar_ne _ rfl).symm
  induction n using Nat.strong_induction_on with
  | _ n ih =>
    rw [hexDigits, Nat.toDigits_eq_if (by norm_num)]
    split
    · exact fun h => hdigit n (mem_singleton.1 h)
    · rw [mem_append, mem_singleton, not_or]
      exact ⟨ih (n / 16) (by omega), hdigit (n % 16)⟩

lemma hexDigits_injective : Function.Injective hexDigits := by
  have hdigit : ∀ d < 16, ∀ e < 16, Nat.digitChar d = Nat.digitChar e → d = e := by decide
  intro n
  induction n using Nat.strong_induction_on with
  | _ n ih =>
    intro m h
    rw [hexDigits, hexDigits, Nat.toDigits_eq_if (n := n) (by norm_num),
      Nat.toDigits_eq_if (n := m) (by norm_num)] at h
    split_ifs at h with hn hm hm
    · exact hdigit n hn m hm (by simpa using h)
    · exact absurd (congrArg length h) (by simp [Nat.toDigits_ne_nil])
    · exact absurd (congrArg length h) (by simp [Nat.toDigits_ne_nil])
    · obtain ⟨hfront, hlast⟩ := List.append_inj' h rfl
      have hquot := ih (n / 16) (by omega) hfront
      have hrest := hdigit (n % 16) (by omega) (m % 16) (by omega) (by simpa using hlast)
      omega

/-- What goes on to the first character of another kind is told from what follows. -/
lemma append_inj_of_head {p : Char → Prop} [DecidablePred p] {u v : List Char}
    (hu : ∀ c ∈ u, p c) (hv : ∀ c ∈ v, p c) (hx : ∀ c ∈ x.head?, ¬p c) (hy : ∀ c ∈ y.head?, ¬p c)
    (h : u ++ x = v ++ y) : u = v ∧ x = y := by
  have htake : ∀ {u x : List Char}, (∀ c ∈ u, p c) → (∀ c ∈ x.head?, ¬p c) →
      (u ++ x).takeWhile (p ·) = u := by
    intro u x hu hx
    rw [takeWhile_append_of_pos (by simpa using hu)]
    cases x with
    | nil => simp
    | cons c x => simp [hx c rfl]
  obtain rfl : u = v := by rw [← htake hu hx, h, htake hv hy]
  exact ⟨rfl, append_cancel_left h⟩

def shownEscaping : Escaping escapeShown where
  letters := [('"', '"'), ('\\', '\\'), ('\n', 'n'), ('\r', 'r'), ('\t', 't'), (Char.ofNat 0, '0')]
  Numbered _ := True
  number c := '\x7b' :: (hexDigits c.toNat ++ ['\x7d'])
  cases c := by
    unfold escapeShown
    split_ifs with hquote hslash hn hr ht hzero
    · exact .inl ⟨'"', by simp [hquote], rfl⟩
    · exact .inl ⟨'\\', by simp [hslash], rfl⟩
    · exact .inl ⟨'n', by simp [hn], rfl⟩
    · exact .inl ⟨'r', by simp [hr], rfl⟩
    · exact .inl ⟨'t', by simp [ht], rfl⟩
    · refine .inl ⟨'0', ?_, rfl⟩
      rw [← Char.ofNat_toNat c, hzero]
      decide
    · exact .inr (.inl ⟨trivial, rfl⟩)
    · exact .inr (.inr ⟨rfl, hquote, hslash⟩)
  letters_inj := by decide
  number_inj {c d x y} _ _ h := by
    have hdigits : ∀ n, ∀ e ∈ hexDigits n, e ≠ '\x7d' := fun n e he heq => hexDigits_ne n (heq ▸ he)
    simp only [cons_append, append_assoc, nil_append, cons.injEq, true_and] at h
    obtain ⟨hsame, hrest⟩ := append_inj_of_head (hdigits _) (hdigits _) (by simp) (by simp) h
    exact ⟨Char.toNat_inj.1 (hexDigits_injective hsame), (cons.inj hrest).2⟩

/-- Control characters have numbers of four digits. -/
def controlNumber (c : Char) : List Char :=
  replicate (4 - (hexDigits c.toNat).length) '0' ++ hexDigits c.toNat

lemma controlNumber_inj : ∀ n < 32, (controlNumber (Char.ofNat n)).length = 4 ∧
    ∀ m < 32, controlNumber (Char.ofNat n) = controlNumber (Char.ofNat m) → n = m := by
  decide +kernel

def quotedEscaping : Escaping escape where
  letters := [('"', '"'), ('\\', '\\'), (Char.ofNat 8, 'b'), (Char.ofNat 12, 'f'), ('\n', 'n'),
    ('\r', 'r'), ('\t', 't')]
  Numbered c := c.toNat < 32
  number := controlNumber
  cases c := by
    unfold escape
    split_ifs with hquote hslash hb hf hn hr ht hcontrol
    · exact .inl ⟨'"', by simp [hquote], rfl⟩
    · exact .inl ⟨'\\', by simp [hslash], rfl⟩
    · refine .inl ⟨'b', ?_, rfl⟩
      rw [← Char.ofNat_toNat c, hb]
      decide
    · refine .inl ⟨'f', ?_, rfl⟩
      rw [← Char.ofNat_toNat c, hf]
      decide
    · exact .inl ⟨'n', by simp [hn], rfl⟩
    · exact .inl ⟨'r', by simp [hr], rfl⟩
    · exact .inl ⟨'t', by simp [ht], rfl⟩
    · exact .inr (.inl ⟨hcontrol, rfl⟩)
    · exact .inr (.inr ⟨rfl, hquote, hslash⟩)
  letters_inj := by decide
  number_inj {c d x y} hc hd h := by
    rw [← Char.ofNat_toNat c, ← Char.ofNat_toNat d] at h ⊢
    obtain ⟨hlength, hinj⟩ := controlNumber_inj _ hc
    obtain ⟨hsame, hrest⟩ := List.append_inj h (hlength.trans (controlNumber_inj _ hd).1.symm)
    exact ⟨congrArg _ (hinj _ hd hsame), hrest⟩

lemma toList_quoted (s : String) :
    (quoted s).toList = '"' :: (s.toList.flatMap escape ++ ['"']) := by
  simp only [quoted, String.toList_ofList]

lemma toList_shown (s : String) :
    (shown s).toList = '"' :: (s.toList.flatMap escapeShown ++ ['"']) := by
  simp only [shown, String.toList_ofList]

lemma quoted_append_inj (h : (quoted s).toList ++ x = (quoted t).toList ++ y) : s = t ∧ x = y := by
  simp only [toList_quoted, cons_append, append_assoc, nil_append, cons.injEq, true_and] at h
  exact (quotedEscaping.flatMap_inj _ _ h).imp_left String.toList_inj.1

lemma shown_append_inj (h : (shown s).toList ++ x = (shown t).toList ++ y) : s = t ∧ x = y := by
  simp only [toList_shown, cons_append, append_assoc, nil_append, cons.injEq, true_and] at h
  exact (shownEscaping.flatMap_inj _ _ h).imp_left String.toList_inj.1

end Text

/-! ## Words -/

lemma Binary64.text_split (x : Binary64) : ∃ ds c rest, x.text.toList = ds ++ c :: rest ∧
    (∀ d ∈ ds, d.isDigit = true ∨ d = '-') ∧ (c = '.' ∨ c = 'e') ∧
    ∀ d ∈ rest, d.isDigit = true ∨ d ∈ ['-', '+', 'e'] := by
  obtain ⟨ds, c, rest, hsplit, hds, hc⟩ := x.unsignedText_split
  refine ⟨(if x.negative then ['-'] else []) ++ ds, c, rest, ?_,
    forall_mem_append.2 ⟨?_, fun d hd => .inl (hds d hd)⟩, hc⟩
  · rw [toList_text, hsplit]
    split <;> simp
  · split <;> simp

namespace Json

variable {x y : List Char} {v w : Json} {fs gs : Fields} {α : Type} {close : Char}

/-- What is written without brackets and quotes. -/
def isWord : Json → Bool
  | .null | .bool _ | .int _ | .double _ => true
  | _ => false

lemma mem_toList_int (n : Int) : ∀ c ∈ (toString n).toList, c.isDigit = true ∨ c = '-' := by
  have hdigits : ∀ (m : Nat), ∀ c ∈ m.repr.toList, c.isDigit = true := by
    intro m c hc
    rw [Nat.toList_repr] at hc
    exact Nat.isDigit_of_mem_toDigits (by norm_num) (by norm_num) hc
  intro c hc
  rw [show toString n = n.repr from rfl, Int.repr_eq_if] at hc
  split at hc
  · exact .inl (hdigits _ c hc)
  · rw [String.toList_append, mem_append] at hc
    rcases hc with hc | hc
    · exact .inr (by simpa using hc)
    · exact .inl (hdigits _ c hc)

/-- The first character that is neither a digit nor a sign tells the kinds of words apart. -/
def mark (cs : List Char) : Option Char := cs.find? fun c => !(c.isDigit || c == '-')

/-- The marks of words of one kind. -/
def marks : Json → List (Option Char)
  | .null => [some 'n']
  | .bool b => [some (if b then 't' else 'f')]
  | .double _ => [some '.', some 'e']
  | _ => [none]

lemma mark_append {ds rest : List Char} (h : ∀ c ∈ ds, c.isDigit = true ∨ c = '-') :
    mark (ds ++ rest) = mark rest := by
  have hnone : ds.find? (fun c => !(c.isDigit || c == '-')) = none := by
    rw [find?_eq_none]
    intro c hc
    rcases h c hc with hdigit | rfl
    · simp [hdigit]
    · decide
  rw [mark, find?_append, hnone, Option.none_or, mark]

section

variable (hv : isWord v = true)

include hv

lemma mark_canonical : mark v.canonical.toList ∈ marks v := by
  cases v with
  | null => decide
  | bool b => cases b <;> decide
  | int n =>
    have hmark := @mark_append _ [] (mem_toList_int n)
    rw [append_nil] at hmark
    exact mem_singleton.2 hmark
  | double x =>
    obtain ⟨ds, c, rest, htext, hds, hc, -⟩ := x.text_split
    show mark x.text.toList ∈ _
    rw [htext, mark_append hds]
    rcases hc with rfl | rfl
    · exact mem_cons_self
    · exact mem_cons_of_mem _ mem_cons_self
  | _ => cases hv

lemma word_injective (hw : isWord w = true) (h : v.canonical = w.canonical) : v = w := by
  have hmark := mark_canonical hv
  rw [h] at hmark
  have hmark' := mark_canonical hw
  generalize mark w.canonical.toList = m at hmark hmark'
  cases v <;> cases w <;> simp only [isWord, Bool.false_eq_true] at hv hw
  case null.null => rfl
  case bool.bool b c => cases b <;> cases c <;> simp_all [marks]
  case int.int n k => exact congrArg Json.int (Int.repr_injective h)
  case double.double a b => exact congrArg Json.double (Binary64.text_injective h)
  all_goals grind [marks]

/-! ## Values one after the other -/

/-- What stands around values. -/
def brackets : List Char := [',', ']', '\x7d', '"', '[', '\x7b']

/-- What follows a value, if anything, is no part of a word. -/
def Ends (x : List Char) : Prop := ∀ c ∈ x.head?, ¬c ∉ brackets

/-- What a value starts with, if that is one of them. -/
def opening : Json → Option Char
  | .str _ => some '"'
  | .arr _ => some '['
  | .obj _ => some '\x7b'
  | _ => none

lemma word_chars : ∀ c ∈ v.canonical.toList, c ∉ brackets := by
  have hnumber : ∀ c : Char, c.isDigit = true ∨ c ∈ ['-', '+', 'e'] → c ∉ brackets := by
    intro c hc hmem
    simp only [brackets, mem_cons, not_mem_nil, or_false] at hmem
    rcases hmem with rfl | rfl | rfl | rfl | rfl | rfl <;> exact absurd hc (by decide)
  have hsigned : ∀ c : Char, c.isDigit = true ∨ c = '-' → c ∉ brackets :=
    fun c hc => hnumber c (hc.imp_right fun h => by rw [h]; decide)
  cases v with
  | null => simp [canonical, scalarText, brackets]
  | bool b => cases b <;> simp [canonical, scalarText, brackets]
  | int n => exact fun c hc => hsigned c (mem_toList_int n c hc)
  | double x =>
    obtain ⟨ds, d, rest, htext, hds, hd, hrest⟩ := x.text_split
    show ∀ c ∈ x.text.toList, _
    rw [htext]
    refine forall_mem_append.2 ⟨fun c hc => hsigned c (hds c hc), forall_mem_cons.2
      ⟨?_, fun c hc => hnumber c (hrest c hc)⟩⟩
    rcases hd with rfl | rfl <;> decide
  | _ => cases hv

lemma word_ne_nil : v.canonical.toList ≠ [] := by
  intro hnil
  cases v with
  | int n =>
    change n.repr.toList = [] at hnil
    rw [Int.repr_eq_if] at hnil
    split at hnil <;> simp [Nat.repr_eq_ofList_toDigits, Nat.toDigits_ne_nil] at hnil
  | double x =>
    have hmark := mark_canonical (v := .double x) rfl
    rw [hnil] at hmark
    simp [mark, marks] at hmark
  | null => cases hnil
  | bool b => cases b <;> cases hnil
  | _ => cases hv

end

/-- A field as it stands in a canonical text. -/
def fieldText (f : String × Json) : List Char :=
  (Text.shown f.1).toList ++ ':' :: f.2.canonical.toList

/-- The fields of an object in the order of their keys. -/
def sortedFields (fs : Fields) : Fields := fs.mergeSort fun f g => f.1 ≤ g.1

lemma canonicalItems_eq (vs : List Json) : canonicalItems vs = vs.map canonical := by
  induction vs with
  | nil => rfl
  | cons v rest ih => rw [canonicalItems, ih, map_cons]

lemma canonicalFields_eq (fs : Fields) :
    canonicalFields fs = fs.map fun f => (f.1, f.2.canonical) := by
  induction fs with
  | nil => rfl
  | cons f rest ih => rw [canonicalFields, ih, map_cons]

lemma toList_canonical_arr (vs : List Json) : (canonical (.arr vs)).toList =
    '[' :: ([','].intercalate (vs.map fun v => v.canonical.toList) ++ [']']) := by
  simp [canonical, canonicalItems_eq, Function.comp_def]

lemma toList_canonical_obj (fs : Fields) : (canonical (.obj fs)).toList =
    '\x7b' :: ([','].intercalate ((sortedFields fs).map fieldText) ++ ['\x7d']) := by
  have hsort : (canonicalFields fs).mergeSort (fun a b => a.1 ≤ b.1) =
      (sortedFields fs).map fun f => (f.1, f.2.canonical) := by
    rw [canonicalFields_eq, sortedFields, map_mergeSort]
    exact fun _ _ _ _ => rfl
  simp only [canonical, hsort, String.toList_append, String.toList_intercalate, map_map]
  simp [Function.comp_def]
  rfl

lemma opening_word (hv : isWord v = true) : v.opening = none := by
  cases v <;> first | rfl | cases hv

/-- A value starts with its own bracket or quote, or with no bracket at all. -/
lemma canonical_opens (v : Json) : ∃ c cs, v.canonical.toList = c :: cs ∧
    c ∉ [',', ']', '\x7d'] ∧ v.opening = if c ∈ brackets then some c else none := by
  have hword : isWord v = true → ∃ c cs, v.canonical.toList = c :: cs ∧
      c ∉ [',', ']', '\x7d'] ∧ v.opening = if c ∈ brackets then some c else none := by
    intro hv
    obtain ⟨c, cs, hcs⟩ := exists_cons_of_ne_nil (word_ne_nil hv)
    have hc := word_chars hv c (hcs ▸ mem_cons_self)
    refine ⟨c, cs, hcs, fun h => hc ?_, by rw [if_neg hc, opening_word hv]⟩
    exact (show [',', ']', '\x7d'] ⊆ brackets by decide) h
  cases v with
  | str s => exact ⟨'"', _, Text.toList_quoted s, by decide, rfl⟩
  | arr vs => exact ⟨'[', _, toList_canonical_arr vs, by decide, rfl⟩
  | obj fs => exact ⟨'\x7b', _, toList_canonical_obj fs, by decide, rfl⟩
  | _ => exact hword rfl

lemma opening_eq (h : v.canonical.toList ++ x = w.canonical.toList ++ y) :
    v.opening = w.opening := by
  obtain ⟨c, cs, hv, -, hc⟩ := canonical_opens v
  obtain ⟨d, ds, hw, -, hd⟩ := canonical_opens w
  rw [hv, hw] at h
  rw [hc, hd, (cons.inj h).1]

lemma cons_intercalate {ts : List (List Char)} (h : ts ≠ []) :
    ',' :: [','].intercalate ts = ts.flatMap (',' :: ·) := by
  induction ts with
  | nil => exact absurd rfl h
  | cons t rest ih =>
    cases rest with
    | nil => simp [intercalate]
    | cons u rest =>
      rw [intercalate_cons_cons, append_assoc, singleton_append, ih (cons_ne_nil u rest)]
      rfl

lemma flatMap_comma_inj {p : α → List Char} {R : α → α → Prop} {as bs : List α}
    (hclose : close ∈ [']', '\x7d'])
    (hp : ∀ a ∈ as, ∀ b ∈ bs, ∀ x y, Ends x → Ends y → p a ++ x = p b ++ y → R a b ∧ x = y)
    (h : as.flatMap (',' :: p ·) ++ close :: x = bs.flatMap (',' :: p ·) ++ close :: y) :
    Forall₂ R as bs ∧ x = y := by
  have hcomma : close ≠ ',' := by
    rintro rfl
    exact absurd hclose (by decide)
  have hends : ∀ (cs : List α) (z : List Char), Ends (cs.flatMap (',' :: p ·) ++ close :: z) := by
    intro cs z
    cases cs with
    | nil =>
      rintro c ⟨⟩
      rcases mem_pair.1 hclose with rfl | rfl <;> decide
    | cons c cs =>
      rintro d ⟨⟩
      decide
  induction as generalizing bs with
  | nil =>
    cases bs with
    | nil => exact ⟨.nil, (cons.inj h).2⟩
    | cons b bs => exact absurd (cons.inj h).1 hcomma
  | cons a as ih =>
    cases bs with
    | nil => exact absurd (cons.inj h).1.symm hcomma
    | cons b bs =>
      simp only [flatMap_cons, cons_append, append_assoc, cons.injEq, true_and] at h
      obtain ⟨hab, h⟩ := hp a mem_cons_self b mem_cons_self _ _ (hends as x) (hends bs y) h
      exact (ih (fun a ha b hb => hp a (mem_cons_of_mem _ ha) b (mem_cons_of_mem _ hb)) h).imp_left
        (.cons hab)

lemma intercalate_inj {p : α → List Char} {R : α → α → Prop} {as bs : List α}
    (hclose : close ∈ [']', '\x7d'])
    (hp : ∀ a ∈ as, ∀ b ∈ bs, ∀ x y, Ends x → Ends y → p a ++ x = p b ++ y → R a b ∧ x = y)
    (hopen : ∀ a, ∃ c cs, p a = c :: cs ∧ c ∉ [',', ']', '\x7d'])
    (h : [','].intercalate (as.map p) ++ close :: x = [','].intercalate (bs.map p) ++ close :: y) :
    Forall₂ R as bs ∧ x = y := by
  have hempty : ∀ (c : α) (cs : List α) (z z' : List Char),
      close :: z ≠ [','].intercalate ((c :: cs).map p) ++ close :: z' := by
    intro c cs z z' h
    obtain ⟨d, ds, hc, hd⟩ := hopen c
    have h := congrArg (',' :: ·) h
    rw [← cons_append, cons_intercalate (by simp), map_cons, flatMap_cons, hc] at h
    injection h with _ h
    injection h with h _
    exact hd (h ▸ mem_cons_of_mem _ hclose)
  cases as with
  | nil =>
    cases bs with
    | nil => exact ⟨.nil, (cons.inj h).2⟩
    | cons b bs => exact absurd h (hempty b bs x y)
  | cons a as =>
    cases bs with
    | nil => exact absurd h.symm (hempty a as y x)
    | cons b bs =>
      refine flatMap_comma_inj hclose hp ?_
      have h := congrArg (',' :: ·) h
      simpa only [← cons_append, cons_intercalate (by simp : (a :: as).map p ≠ []),
        cons_intercalate (by simp : (b :: bs).map p ≠ []), flatMap_map] using h

/-! ## Equality up to the order of keys -/

/-- No object, at any depth, has a key twice. -/
inductive UniqueKeys : Json → Prop
  | word {v : Json} (h : isWord v = true) : UniqueKeys v
  | str (s : String) : UniqueKeys (.str s)
  | arr {vs : List Json} (h : ∀ v ∈ vs, UniqueKeys v) : UniqueKeys (.arr vs)
  | obj {fs : Fields} (hkeys : (Fields.keys fs).Nodup) (h : ∀ f ∈ fs, UniqueKeys f.2) :
      UniqueKeys (.obj fs)

lemma UniqueKeys.items {vs : List Json} (h : UniqueKeys (.arr vs)) : ∀ v ∈ vs, UniqueKeys v := by
  cases h with
  | word h => cases h
  | arr h => exact h

lemma UniqueKeys.fields (h : UniqueKeys (.obj fs)) :
    (Fields.keys fs).Nodup ∧ ∀ f ∈ fs, UniqueKeys f.2 := by
  cases h with
  | word h => cases h
  | obj hkeys h => exact ⟨hkeys, h⟩

/-- The documents are equal if the order of keys is ignored at every level: objects have the same
keys, with equal values in this sense. -/
inductive Rearranged : Json → Json → Prop
  | refl (v : Json) : Rearranged v v
  | arr {vs ws : List Json} (hlength : vs.length = ws.length)
      (h : ∀ p ∈ vs.zip ws, Rearranged p.1 p.2) : Rearranged (.arr vs) (.arr ws)
  | obj {fs gs : Fields} (hkeys : ∀ key, key ∈ Fields.keys fs ↔ key ∈ Fields.keys gs)
      (h : ∀ key v w, Fields.get? fs key = some v → Fields.get? gs key = some w →
        Rearranged v w) : Rearranged (.obj fs) (.obj gs)

lemma sortedFields_perm (fs : Fields) : sortedFields fs ~ fs := mergeSort_perm ..

lemma rearranged_obj (hfs : (Fields.keys fs).Nodup)
    (h : Forall₂ (fun f g => f.1 = g.1 ∧ Rearranged f.2 g.2) (sortedFields fs) (sortedFields gs)) :
    Rearranged (.obj fs) (.obj gs) := by
  have hkeys : ∀ fs : Fields, Fields.keys (sortedFields fs) ~ Fields.keys fs :=
    fun fs => (sortedFields_perm fs).map Prod.fst
  have hsame : Fields.keys (sortedFields fs) = Fields.keys (sortedFields gs) :=
    map_eq_of_forall₂ (h.imp fun _ _ h => h.1)
  refine .obj (fun key => ?_) fun key v w hv hw => ?_
  · rw [← (hkeys fs).mem_iff, hsame, (hkeys gs).mem_iff]
  · obtain ⟨f, hf, hkey, hvalue⟩ :=
      exists_mem_left h ((sortedFields_perm gs).mem_iff.2 (Fields.mem_of_get? hw))
    dsimp only at hkey
    rw [← hkey, (Fields.get?_eq_some_iff hfs).2 ((sortedFields_perm fs).mem_iff.1 hf)] at hv
    cases hv
    exact hvalue

/-- **A canonical text says what it is the text of**, whatever follows the value. -/
lemma rearranged_of_canonical (hv : UniqueKeys v) (hw : UniqueKeys w) (hx : Ends x) (hy : Ends y)
    (h : v.canonical.toList ++ x = w.canonical.toList ++ y) : Rearranged v w ∧ x = y := by
  induction hv generalizing w x y with
  | word hv =>
    have hopening := opening_eq h
    rw [opening_word hv] at hopening
    cases hw with
    | word hw =>
      obtain ⟨htext, hxy⟩ := Text.append_inj_of_head (word_chars hv) (word_chars hw) hx hy h
      exact ⟨word_injective hv hw (String.toList_inj.1 htext) ▸ .refl _, hxy⟩
    | _ => cases hopening
  | str s =>
    have hopening := opening_eq h
    cases w with
    | str t =>
      obtain ⟨rfl, hxy⟩ := Text.quoted_append_inj h
      exact ⟨.refl _, hxy⟩
    | _ => cases hopening
  | arr _ ih =>
    have hopening := opening_eq h
    cases w with
    | arr ws =>
      simp only [toList_canonical_arr, cons_append, append_assoc, nil_append, cons.injEq,
        true_and] at h
      have hopen : ∀ v : Json, ∃ c cs, v.canonical.toList = c :: cs ∧ c ∉ [',', ']', '\x7d'] :=
        fun v => (canonical_opens v).imp fun _ => .imp fun _ => .imp_right And.left
      obtain ⟨hitems, hxy⟩ := intercalate_inj (by decide)
        (fun v hv u hu x y hx hy h => ih v hv (hw.items u hu) hx hy h) hopen h
      obtain ⟨hlength, hzip⟩ := forall₂_iff_zip.1 hitems
      exact ⟨.arr hlength fun p hp => hzip hp, hxy⟩
    | _ => cases hopening
  | @obj fs hkeys _ ih =>
    have hopening := opening_eq h
    cases w with
    | obj gs =>
      have hgs := hw.fields.2
      simp only [toList_canonical_obj, cons_append, append_assoc, nil_append, cons.injEq,
        true_and] at h
      have hopen : ∀ f, ∃ c cs, fieldText f = c :: cs ∧ c ∉ [',', ']', '\x7d'] := fun f =>
        ⟨'"', _, by rw [fieldText, Text.toList_shown, cons_append], by decide⟩
      have hfield : ∀ f ∈ sortedFields fs, ∀ g ∈ sortedFields gs, ∀ x y, Ends x → Ends y →
          fieldText f ++ x = fieldText g ++ y → (f.1 = g.1 ∧ Rearranged f.2 g.2) ∧ x = y := by
        intro f hf g hg x y hx hy h
        simp only [fieldText, append_assoc, cons_append] at h
        obtain ⟨hkey, h⟩ := Text.shown_append_inj h
        obtain ⟨hvalue, hxy⟩ := ih f ((sortedFields_perm _).mem_iff.1 hf)
          (hgs g ((sortedFields_perm _).mem_iff.1 hg)) hx hy (cons.inj h).2
        exact ⟨⟨hkey, hvalue⟩, hxy⟩
      obtain ⟨hfields, hxy⟩ := intercalate_inj (by decide) hfield hopen h
      exact ⟨rearranged_obj hkeys hfields, hxy⟩
    | _ => cases hopening

/-- Sorted by keys that are distinct, lists with the same members are one list. -/
lemma mergeSort_eq {ps qs : List (String × String)} (hps : (ps.map Prod.fst).Nodup)
    (hqs : (qs.map Prod.fst).Nodup) (h : ∀ p, p ∈ ps ↔ p ∈ qs) :
    ps.mergeSort (fun a b => a.1 ≤ b.1) = qs.mergeSort fun a b => a.1 ≤ b.1 := by
  have hsorted : ∀ l : List (String × String),
      (l.mergeSort fun a b => a.1 ≤ b.1).Pairwise fun a b => a.1 ≤ b.1 := by
    intro l
    refine (pairwise_mergeSort (fun a b c => ?_) (fun a b => ?_) l).imp of_decide_eq_true
    · simpa using String.le_trans
    · simpa using String.le_total a.1 b.1
  have hperm : ps ~ qs := (perm_ext_iff_of_nodup (.of_map _ hps) (.of_map _ hqs)).2 h
  refine Perm.eq_of_pairwise (fun a b ha hb hab hba => ?_) (hsorted ps) (hsorted qs)
    ((mergeSort_perm ..).trans (hperm.trans (mergeSort_perm ..).symm))
  exact inj_on_of_nodup_map hqs ((h a).1 ((mergeSort_perm ..).mem_iff.1 ha))
    ((mergeSort_perm ..).mem_iff.1 hb) (String.le_antisymm hab hba)

lemma mem_canonicalFields (hfs : (Fields.keys fs).Nodup) (hgs : (Fields.keys gs).Nodup)
    (hkeys : ∀ key, key ∈ Fields.keys fs → key ∈ Fields.keys gs)
    (hvalues : ∀ key v w, Fields.get? fs key = some v → Fields.get? gs key = some w →
      v.canonical = w.canonical) {p : String × String} (hp : p ∈ canonicalFields fs) :
    p ∈ canonicalFields gs := by
  rw [canonicalFields_eq] at hp ⊢
  obtain ⟨f, hf, rfl⟩ := mem_map.1 hp
  obtain ⟨w, hw⟩ := Fields.mem_keys.1 (hkeys f.1 (mem_map_of_mem hf))
  have hvalue := hvalues f.1 f.2 w ((Fields.get?_eq_some_iff hfs).2 hf)
    ((Fields.get?_eq_some_iff hgs).2 hw)
  exact mem_map.2 ⟨(f.1, w), hw, by rw [hvalue]⟩

lemma canonical_eq_of_rearranged (h : Rearranged v w) (hv : UniqueKeys v) (hw : UniqueKeys w) :
    v.canonical = w.canonical := by
  induction h with
  | refl => rfl
  | @arr vs ws hlength _ ih =>
    have hitems : Forall₂ (fun v w => v.canonical = w.canonical) vs ws :=
      forall₂_iff_zip.2 ⟨hlength, fun hp =>
        ih _ hp (hv.items _ (of_mem_zip hp).1) (hw.items _ (of_mem_zip hp).2)⟩
    have hmap : vs.map canonical = ws.map canonical := map_eq_of_forall₂ hitems
    rw [canonical, canonical, canonicalItems_eq, canonicalItems_eq, hmap]
  | @obj fs gs hkeys _ ih =>
    obtain ⟨hfs, hvs⟩ := hv.fields
    obtain ⟨hgs, hws⟩ := hw.fields
    have hvalues : ∀ key v w, Fields.get? fs key = some v → Fields.get? gs key = some w →
        v.canonical = w.canonical := fun key v w hv hw =>
      ih key v w hv hw (hvs _ (Fields.mem_of_get? hv)) (hws _ (Fields.mem_of_get? hw))
    have hnodup : ∀ {fs : Fields}, (Fields.keys fs).Nodup →
        ((canonicalFields fs).map Prod.fst).Nodup := by
      intro fs hfs
      rwa [canonicalFields_eq, map_map]
    rw [canonical, canonical, mergeSort_eq (hnodup hfs) (hnodup hgs) fun p =>
      ⟨mem_canonicalFields hfs hgs (fun key => (hkeys key).1) hvalues,
        mem_canonicalFields hgs hfs (fun key => (hkeys key).2)
          fun key v w hv hw => (hvalues key w v hw hv).symm⟩]

/-- **Canonical texts are equal exactly if the documents are, up to the order of keys.** -/
theorem canonical_eq_iff (hv : UniqueKeys v) (hw : UniqueKeys w) :
    sameAs v w = true ↔ Rearranged v w := by
  rw [sameAs, beq_iff_eq]
  constructor
  · intro h
    exact (rearranged_of_canonical hv hw (x := []) (y := []) (by simp [Ends]) (by simp [Ends])
      (by rw [h])).1
  · intro h
    exact canonical_eq_of_rearranged h hv hw

/-- A list beside a zero, in both orders. -/
theorem list_and_zero_exchanged :
    let list : Json := .arr [.null, .str "x\"y"]
    let zero : Json := .double (.zero true)
    sameAs (.obj [("b", list), ("a", zero)]) (.obj [("a", zero), ("b", list)]) = true ∧
      Rearranged (.obj [("b", list), ("a", zero)]) (.obj [("a", zero), ("b", list)]) := by
  intro list zero
  have hlist : UniqueKeys list := .arr (by simp [UniqueKeys.word (v := .null) rfl, UniqueKeys.str])
  have hzero : UniqueKeys zero := .word rfl
  have hv : UniqueKeys (.obj [("b", list), ("a", zero)]) :=
    .obj (by decide) (by simp [hlist, hzero])
  have hw : UniqueKeys (.obj [("a", zero), ("b", list)]) :=
    .obj (by decide) (by simp [hlist, hzero])
  have hsame : Rearranged (.obj [("b", list), ("a", zero)]) (.obj [("a", zero), ("b", list)]) := by
    refine .obj (fun key => by simp [Fields.keys, or_comm]) fun key v w hv hw => ?_
    simp only [Fields.get?] at hv hw
    split_ifs at hv hw <;> grind [Rearranged.refl]
  exact ⟨(canonical_eq_iff hv hw).2 hsame, hsame⟩

end Json

end Conduit
