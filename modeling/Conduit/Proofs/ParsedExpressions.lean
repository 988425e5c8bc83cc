import Conduit.Group
import Conduit.Project
import Conduit.Proofs.MatchGrammar

/-!
# What parsing an expression vets

A parsed expression has no dollar sign in front of a string of the user, except in the formats and
time zones of dates, which are parsed as they are.  And no object that is read on the way is empty,
too wide or too deep.  Both are said of every form of expression at once (`parseFields_vetted`).
-/

namespace Conduit

open List

/-! ## Evaluated strings -/

namespace Json

mutual

/-- The strings in value position that are no part of a literal. -/
def evaluated : Json → List String
  | .str s => [s]
  | .arr items => evaluatedItems items
  | .obj fs => evaluatedFields fs
  | _ => []

def evaluatedItems : List Json → List String
  | [] => []
  | v :: rest => evaluated v ++ evaluatedItems rest

def evaluatedFields : Fields → List String
  | [] => []
  | (key, v) :: rest => (if key = "$literal" then [] else evaluated v) ++ evaluatedFields rest

end

variable {s : String} {v : Json}

lemma mem_evaluatedItems {items : List Json} :
    s ∈ evaluatedItems items ↔ ∃ v ∈ items, s ∈ evaluated v := by
  induction items with
  | nil => simp [evaluatedItems]
  | cons v rest ih => simp [evaluatedItems, ih]

lemma mem_evaluatedFields {fs : Fields} :
    s ∈ evaluatedFields fs ↔ ∃ f ∈ fs, f.1 ≠ "$literal" ∧ s ∈ evaluated f.2 := by
  induction fs with
  | nil => simp [evaluatedFields]
  | cons f rest ih =>
    by_cases hkey : f.1 = "$literal" <;> simp [evaluatedFields, ih, hkey]

lemma evaluated_single {key : String} (h : s ∈ evaluated (.obj [(key, v)])) : s ∈ evaluated v := by
  obtain ⟨f, hf, -, hs⟩ := mem_evaluatedFields.1 h
  rw [mem_singleton.1 hf] at hs
  exact hs

lemma evaluated_of_scalar (harr : v.isArr = false) (hobj : v.isObj = false)
    (hstr : ∀ s, v ≠ .str s) : evaluated v = [] := by
  cases v with
  | str s => exact absurd rfl (hstr s)
  | arr items => cases harr
  | obj fs => cases hobj
  | _ => rfl

end Json

open Json

/-! ## Bounds -/

/-- The limits in force, which values are opened, and how long a list may be, by the key. -/
structure Caps where
  limits : Limits
  opens : String → Bool
  list : String → Nat → Bool := fun _ _ => true

namespace Caps

variable {caps : Caps} {d : Nat} {key : String}

mutual

/-- Whether a value keeps the bounds, with `d` keys around it. -/
def holds (caps : Caps) (d : Nat) (key : String) : Json → Bool
  | .obj fs =>
    !caps.opens key || (!fs.isEmpty && !Limits.exceeds caps.limits.keys fs.length &&
      !Limits.exceeds caps.limits.depth d && holdsBelow caps (d + 1) fs)
  | .arr items => caps.list key items.length && (!caps.opens key || holdsAmong caps d key items)
  | _ => true

def holdsBelow (caps : Caps) (d : Nat) : Fields → Bool
  | [] => true
  | (key, v) :: rest => holds caps d key v && holdsBelow caps d rest

def holdsAmong (caps : Caps) (d : Nat) (key : String) : List Json → Bool
  | [] => true
  | v :: rest => holds caps d key v && holdsAmong caps d key rest

end

lemma holdsBelow_iff {fs : Fields} :
    caps.holdsBelow d fs = true ↔ ∀ f ∈ fs, caps.holds d f.1 f.2 = true := by
  induction fs with
  | nil => simp [holdsBelow]
  | cons f rest ih => simp [holdsBelow, ih]

lemma holdsAmong_iff {items : List Json} :
    caps.holdsAmong d key items = true ↔ ∀ v ∈ items, caps.holds d key v = true := by
  induction items with
  | nil => simp [holdsAmong]
  | cons v rest ih => simp [holdsAmong, ih]

lemma holds_scalar {v : Json} (harr : v.isArr = false) (hobj : v.isObj = false) :
    caps.holds d key v = true := by
  cases v <;> first | rfl | contradiction

end Caps

lemma Caps.holds_object {caps : Caps} {site : Site} {fs gs : Fields}
    (h : checkExpression caps.limits site (.obj fs) = .ok gs)
    (hbelow : caps.holdsBelow (site.depth + 1) fs = true) :
    caps.holds site.depth site.key (.obj fs) = true := by
  obtain ⟨heq, hne, hdepth, hkeys⟩ := checkExpression_ok_iff.1 h
  cases heq
  simp [holds, hne, hdepth, hkeys, hbelow]

/-! ## Strings of parsed expressions -/

namespace Expression

/-- Whether the value of a key is emitted as a literal, or not at all. -/
def isProtected (key : String) : Bool := match ExprOp.ofKey? key with
  | some op => op.shape == .literal || op.shape == .expand
  | none => false

mutual

/-- The strings of a parsed value that are emitted as they are. -/
def ownTexts : Operand → List String
  | .simple v | .raw v => evaluated v
  | .property _ => []
  | .variable name => [Path.placeholder name]
  | .array elements => ownTextsAmong elements
  | .expression cs => ownTextsBelow cs

def ownTextsAmong : List Operand → List String
  | [] => []
  | v :: rest => ownTexts v ++ ownTextsAmong rest

def ownTextsBelow : Children → List String
  | [] => []
  | (key, v) :: rest => (if isProtected key then [] else ownTexts v) ++ ownTextsBelow rest

end

/-- The formats and time zones among the parts of a date from this position on. -/
def textParts (position : Nat) : List Operand → List String
  | [] => []
  | v :: rest => (if position = 1 then [] else ownTexts v) ++ textParts (position + 1) rest

mutual

/-- The formats and time zones of the dates in a parsed value. -/
def dateTexts : Operand → List String
  | .array elements => dateTextsAmong elements
  | .expression cs => dateTextsBelow cs
  | _ => []

def dateTextsAmong : List Operand → List String
  | [] => []
  | v :: rest => dateTexts v ++ dateTextsAmong rest

def dateTextsBelow : Children → List String
  | [] => []
  | (key, v) :: rest =>
    (if key = ExprOp.dateToString.key then textParts 0 v.elements else []) ++ dateTexts v ++
      dateTextsBelow rest

end

/-- Of these strings only those of dates begin with a dollar sign. -/
def Quoted (texts dates : List String) : Prop := ∀ s ∈ texts, s.startsWith "$" = true → s ∈ dates

variable {dates xs ds es : List String}

lemma quoted_nil : Quoted [] dates := nofun

lemma quoted_singleton {s : String} (h : s.startsWith "$" = false) : Quoted [s] dates := by
  intro t ht hdollar
  rw [mem_singleton.1 ht, h] at hdollar
  cases hdollar

lemma Quoted.append {ys : List String} (hx : Quoted xs ds) (hy : Quoted ys es) :
    Quoted (xs ++ ys) (ds ++ es) := by
  intro s hs hdollar
  rcases mem_append.1 hs with hs | hs
  · exact mem_append_left _ (hx s hs hdollar)
  · exact mem_append_right _ (hy s hs hdollar)

lemma Quoted.mono (h : Quoted xs ds) (hsub : ds ⊆ es) : Quoted xs es :=
  fun s hs hdollar => hsub (h s hs hdollar)

lemma Quoted.below {v : Operand} (h : Quoted (ownTexts v) (dateTexts v)) (key : String) :
    Quoted (ownTextsBelow [(key, v)]) (dateTextsBelow [(key, v)]) := by
  rw [ownTextsBelow, dateTextsBelow]
  refine .append ?_ quoted_nil
  split
  · exact quoted_nil
  · exact h.mono (subset_append_right _ _)

lemma quoted_protected {key : String} (h : isProtected key = true) (v : Operand)
    (dates : List String) : Quoted (ownTextsBelow [(key, v)]) dates := by
  rw [ownTextsBelow, if_pos h]
  exact quoted_nil

end Expression

/-! ### Dates begin with a year -/

lemma Instant.padded_isDigit {width n : Nat} {c : Char} (h : c ∈ (padded width n).toList) :
    c.isDigit = true := by
  rw [padded, String.toList_ofList, mem_append] at h
  rcases h with h | h
  · rw [eq_of_mem_replicate h]
    rfl
  · exact Nat.isDigit_of_mem_toDigits (by decide) (by decide) h

lemma Instant.exists_padded (width n : Nat) :
    ∃ c rest, (padded width n).toList = c :: rest ∧ c.isDigit = true := by
  have hne : (padded width n).toList ≠ [] := by
    rw [padded, String.toList_ofList]
    exact fun h => Nat.toDigits_ne_nil (append_eq_nil_iff.1 h).2
  obtain ⟨c, rest, hcs⟩ := exists_cons_of_ne_nil hne
  exact ⟨c, rest, hcs, padded_isDigit (hcs ▸ mem_cons_self)⟩

lemma Instant.text_startsWith (t : Instant) : t.text.startsWith "$" = false := by
  rw [Bool.eq_false_iff, ne_eq, String.startsWith_string_iff]
  have hyear : ∀ year : Int, ∃ c rest, (yearText year).toList = c :: rest ∧ c ≠ '$' := by
    intro year
    unfold yearText
    split
    · obtain ⟨c, rest, hcs, hdigit⟩ := exists_padded 4 year.toNat
      exact ⟨c, rest, hcs, fun hc => by rw [hc] at hdigit; cases hdigit⟩
    · split
      · exact ⟨'-', (padded 4 year.natAbs).toList, by simp, by decide⟩
      · exact ⟨'+', (padded 4 year.natAbs).toList, by simp, by decide⟩
  obtain ⟨c, rest, hcs, hne⟩ := hyear (dateFromDays (t.seconds / 86400)).1
  rw [text]
  simp only [String.toList_append, hcs, cons_append]
  exact fun h => hne (cons_prefix_cons.1 h).1.symm

namespace Expression

lemma placeholder_startsWith (name : String) : (Path.placeholder name).startsWith "$" = false := by
  rw [Bool.eq_false_iff, ne_eq, String.startsWith_string_iff, Path.placeholder]
  simp only [String.toList_append]
  exact fun h => absurd (cons_prefix_cons.1 h).1 (by decide)

/-! ## Parsing -/

variable {ctx : Context} {dates : List String} {path key : String} {o : Operand} {v : Json}
  {op : ExprOp} {site : Site}

lemma stringArgument_quoted {s : String} (h : stringArgument path s = .ok o) :
    Quoted (ownTexts o) dates := by
  unfold stringArgument at h
  split at h
  · cases h
  · split at h
    · cases h
      exact quoted_nil
    · next hdollar =>
      split at h
      · cases h
        exact quoted_nil
      · cases h
        exact quoted_singleton (by simpa using hdollar)

lemma scalarArgument_quoted (harr : v.isArr = false) (hobj : v.isObj = false)
    (h : scalarArgument ctx path v = .ok o) : Quoted (ownTexts o) dates := by
  unfold scalarArgument at h
  split at h
  · next name _ =>
    cases h
    exact quoted_singleton (placeholder_startsWith name)
  · exact stringArgument_quoted h
  · next hstr _ =>
    cases h
    rw [ownTexts, evaluated_of_scalar harr hobj hstr]
    exact quoted_nil

lemma dateArgument_quoted (harr : v.isArr = false) (hobj : v.isObj = false)
    (h : dateArgument ctx path v = .ok o) : Quoted (ownTexts o) dates := by
  unfold dateArgument at h
  split at h
  · next t _ =>
    cases h
    exact quoted_singleton t.text_startsWith
  · exact scalarArgument_quoted harr hobj h

lemma scalarField_quoted (harr : v.isArr = false) (hobj : v.isObj = false)
    (h : scalarField ctx site v = .ok o) : Quoted (ownTexts o) dates := by
  have hplain : (∀ s, v ≠ .str s) → Quoted (ownTexts (.simple v)) dates := by
    intro hstr
    rw [ownTexts, evaluated_of_scalar harr hobj hstr]
    exact quoted_nil
  simp only [scalarField] at h
  split at h
  · next name _ =>
    cases h
    exact quoted_singleton (placeholder_startsWith name)
  · split at h
    · cases h
    · split at h
      · cases h
        exact quoted_nil
      · cases h
  · next hstr _ =>
    split at h
    · split at h
      · cases h
        exact quoted_nil
      · cases h
    · split at h
      · cases h
        exact hplain hstr
      · cases h

lemma checkOperator_ofKey? (h : checkOperator ctx site v = .ok op) :
    ExprOp.ofKey? site.key = some op := by
  simp only [checkOperator, except_bind_ok_iff] at h
  obtain ⟨op', hop, _, -, h⟩ := h
  cases h
  unfold operatorAt at hop
  split at hop
  · next hkey =>
    split at hop
    · cases hop
    · cases hop
      exact hkey
  · cases hop

/-- One more part of a date; formats and time zones are strings of their own, whatever they begin
with. -/
lemma quoted_part {position : Nat} {first : Operand} {more : List Operand}
    (hfirst : position = 1 → Quoted (ownTexts first) (dateTexts first))
    (hmore : Quoted (ownTextsAmong more) (textParts (position + 1) more ++ dateTextsAmong more)) :
    Quoted (ownTextsAmong (first :: more))
      (textParts position (first :: more) ++ dateTextsAmong (first :: more)) := by
  have hhead : Quoted (ownTexts first)
      ((if position = 1 then [] else ownTexts first) ++ dateTexts first) := by
    split
    · next hposition => exact hfirst hposition
    · exact fun s hs _ => mem_append_left _ hs
  rw [ownTextsAmong, textParts, dateTextsAmong]
  refine (hhead.append hmore).mono fun s hs => ?_
  simp only [mem_append] at hs ⊢
  tauto

lemma eq_dateToString (h : op.shape = .dateToString) : op = .dateToString := by
  revert h
  cases op <;> decide

lemma ofKey?_key (h : ExprOp.ofKey? key = some op) : op.key = key := by
  simpa using List.find?_some h

/-- What an operator takes as it is is not opened. -/
def caps (limits : Limits) : Caps where
  limits
  opens key := !isProtected key

lemma protected_vetted (h : isProtected key = true) (d : Nat) (o : Operand) (v : Json) :
    Quoted (ownTextsBelow [(key, o)]) dates ∧ (caps ctx.limits).holds d key v = true := by
  refine ⟨quoted_protected h o _, ?_⟩
  cases v <;> simp [Caps.holds, h, caps]

lemma holds_items {d : Nat} {items : List Json}
    (h : (caps ctx.limits).holdsAmong d key items = true) :
    (caps ctx.limits).holds d key (.arr items) = true := by
  rw [Caps.holds, h, Bool.or_true]
  rfl

/-- A field that is left out is skipped; otherwise it is read as an operator or a field. -/
lemma parseFields_cons {rest : Fields} {cs : Children}
    (h : parseFields ctx site ((key, v) :: rest) = .ok cs) :
    (isLeftOut v = true ∧ parseFields ctx site rest = .ok cs) ∨
      ∃ first more, cs = (key, first) :: more ∧ parseFields ctx site rest = .ok more ∧
        (parseOperator ctx (site.child key) v = .ok first ∨
          parseField ctx (site.child key) v = .ok first) := by
  rw [parseFields] at h
  split at h
  · next hleft =>
    simp only [Bool.and_eq_true] at hleft
    exact .inl ⟨hleft.1.2, h⟩
  · split at h
    all_goals
      simp only [except_bind_ok_iff] at h
      obtain ⟨first, hfirst, more, hmore, h⟩ := h
      cases h
      refine .inr ⟨first, more, rfl, hmore, ?_⟩
    · exact .inl hfirst
    · exact .inr hfirst

mutual

lemma parseFields_vetted : ∀ (fs : Fields) (site : Site) (cs : Children),
    parseFields ctx site fs = .ok cs → Quoted (ownTextsBelow cs) (dateTextsBelow cs) ∧
      (caps ctx.limits).holdsBelow (site.depth + 1) fs = true
  | [], _, _, h => by
    cases h
    exact ⟨quoted_nil, rfl⟩
  | (key, v) :: rest, site, cs, h => by
    rw [Caps.holdsBelow, Bool.and_eq_true]
    rcases parseFields_cons h with ⟨hleft, h⟩ | ⟨first, more, rfl, hmore, hfirst⟩
    · refine (parseFields_vetted rest site cs h).imp_right fun hheld => ⟨?_, hheld⟩
      cases v <;> first | rfl | nomatch hleft
    · obtain ⟨hquoted, hheld⟩ :
          Quoted (ownTextsBelow [(key, first)]) (dateTextsBelow [(key, first)]) ∧
            (caps ctx.limits).holds (site.depth + 1) key v = true := by
        rcases hfirst with hfirst | hfirst
        · exact parseOperator_vetted v (site.child key) first hfirst
        · exact (parseField_vetted v (site.child key) first hfirst).imp_left (·.below key)
      obtain ⟨hrest, hbelow⟩ := parseFields_vetted rest site more hmore
      have hboth := hquoted.append hrest
      exact ⟨by simpa [ownTextsBelow, dateTextsBelow] using hboth, hheld, hbelow⟩

lemma parseField_vetted : ∀ (v : Json) (site : Site) (o : Operand), parseField ctx site v = .ok o →
    Quoted (ownTexts o) (dateTexts o) ∧ (caps ctx.limits).holds site.depth site.key v = true
  | .obj fs, site, o, h => by
    simp only [parseField, except_bind_ok_iff] at h
    obtain ⟨_, -, _, hchecked, _, -, cs, hcs, h⟩ := h
    cases h
    exact (parseFields_vetted fs site cs hcs).imp_right (Caps.holds_object hchecked)
  | .arr _, site, o, h => by
    simp only [parseField, except_bind_ok_iff] at h
    obtain ⟨_, -, h⟩ := h
    cases h
  | .null, site, o, h | .bool _, site, o, h | .int _, site, o, h | .double _, site, o, h
  | .str _, site, o, h => by
    simp only [parseField, except_bind_ok_iff] at h
    obtain ⟨_, -, h⟩ := h
    exact ⟨scalarField_quoted rfl rfl h, rfl⟩

lemma parseOperator_vetted : ∀ (v : Json) (site : Site) (o : Operand),
    parseOperator ctx site v = .ok o →
      Quoted (ownTextsBelow [(site.key, o)]) (dateTextsBelow [(site.key, o)]) ∧
        (caps ctx.limits).holds site.depth site.key v = true
  | .obj fs, site, o, h => by
    simp only [parseOperator, except_bind_ok_iff] at h
    obtain ⟨op, hop, h⟩ := h
    have hkey := checkOperator_ofKey? hop
    split at h
    iterate 2
      · next hshape => exact protected_vetted (by simp [isProtected, hkey, hshape]) _ o _
    · next hshape =>
      -- A date as text is given as a list.
      cases eq_dateToString hshape
      simp only [checkOperator, operatorAt, hkey] at hop
      cases hop
    · simp only [except_bind_ok_iff, except_guard_ok_iff] at h
      obtain ⟨-, _, hchecked, _, -, cs, hcs, h⟩ := h
      obtain ⟨hquoted, hbelow⟩ := parseFields_vetted fs site cs hcs
      cases h
      refine ⟨?_, Caps.holds_object hchecked hbelow⟩
      split
      · exact @Quoted.below (.array [.expression cs]) (hquoted.append quoted_nil) site.key
      · exact @Quoted.below (.expression cs) hquoted site.key
  | .arr items, site, o, h => by
    simp only [parseOperator, except_bind_ok_iff] at h
    obtain ⟨op, hop, h⟩ := h
    have hkey := checkOperator_ofKey? hop
    split at h
    iterate 2
      · next hshape => exact protected_vetted (by simp [isProtected, hkey, hshape]) _ o _
    · next hshape =>
      simp only [except_bind_ok_iff] at h
      obtain ⟨parts, hparts, h⟩ := h
      cases h
      have hdate : site.key = ExprOp.dateToString.key := by
        rw [← ofKey?_key hkey, eq_dateToString hshape]
      obtain ⟨hquoted, hheld⟩ := parseDateParts_vetted items site 0 parts hparts
      rw [ownTextsBelow, dateTextsBelow, if_pos hdate]
      refine ⟨.append ?_ quoted_nil, holds_items hheld⟩
      split
      · exact quoted_nil
      · exact hquoted
    iterate 2
      · simp only [except_bind_ok_iff] at h
        obtain ⟨elements, helements, h⟩ := h
        cases h
        obtain ⟨hquoted, hheld⟩ := parseItems_vetted items site elements helements
        exact ⟨@Quoted.below (.array elements) hquoted site.key, holds_items hheld⟩
    · cases h
    · cases h
  | .null, site, o, h | .bool _, site, o, h | .int _, site, o, h | .double _, site, o, h
  | .str _, site, o, h => by
    refine ⟨?_, rfl⟩
    simp only [parseOperator, except_bind_ok_iff] at h
    obtain ⟨op, hop, h⟩ := h
    have hkey := checkOperator_ofKey? hop
    split at h
    · next name _ =>
      cases h
      exact @Quoted.below (.variable name) (quoted_singleton (placeholder_startsWith name)) site.key
    · split at h
      iterate 2
        · next hshape => exact quoted_protected (by simp [isProtected, hkey, hshape]) o _
      · cases h
        exact @Quoted.below (.array []) quoted_nil site.key
      · exact .below (dateArgument_quoted rfl rfl h) site.key
      iterate 2
        · exact .below (scalarArgument_quoted rfl rfl h) site.key
      · split at h
        · simp only [except_bind_ok_iff] at h
          obtain ⟨first, hfirst, h⟩ := h
          cases h
          exact @Quoted.below (.array [first])
            ((scalarArgument_quoted rfl rfl hfirst).append quoted_nil) site.key
        · cases h

lemma parseItems_vetted : ∀ (items : List Json) (site : Site) (elements : List Operand),
    parseItems ctx site items = .ok elements →
      Quoted (ownTextsAmong elements) (dateTextsAmong elements) ∧
        (caps ctx.limits).holdsAmong site.depth site.key items = true
  | [], _, _, h => by
    cases h
    exact ⟨quoted_nil, rfl⟩
  | v :: rest, site, elements, h => by
    rw [Caps.holdsAmong, Bool.and_eq_true]
    cases v with
    | arr inner =>
      simp only [parseItems, except_bind_ok_iff] at h
      obtain ⟨first, hfirst, more, hmore, h⟩ := h
      cases h
      obtain ⟨hquoted, hheld⟩ := parseItems_vetted inner site first hfirst
      exact (parseItems_vetted rest site more hmore).imp hquoted.append (⟨holds_items hheld, ·⟩)
    | obj fs =>
      simp only [parseItems, except_bind_ok_iff] at h
      obtain ⟨_, hchecked, _, -, first, hfirst, more, hmore, h⟩ := h
      cases h
      obtain ⟨hquoted, hbelow⟩ := parseFields_vetted fs site first hfirst
      exact (parseItems_vetted rest site more hmore).imp hquoted.append
        (⟨Caps.holds_object hchecked hbelow, ·⟩)
    | _ =>
      simp only [parseItems, except_bind_ok_iff] at h
      obtain ⟨first, hfirst, more, hmore, h⟩ := h
      cases h
      exact (parseItems_vetted rest site more hmore).imp
        (scalarArgument_quoted rfl rfl hfirst).append (⟨rfl, ·⟩)

lemma parseDateParts_vetted : ∀ (items : List Json) (site : Site) (position : Nat)
    (parts : List Operand), parseDateParts ctx site position items = .ok parts →
      Quoted (ownTextsAmong parts) (textParts position parts ++ dateTextsAmong parts) ∧
        (caps ctx.limits).holdsAmong site.depth site.key items = true
  | [], _, _, _, h => by
    cases h
    exact ⟨quoted_nil, rfl⟩
  | v :: rest, site, position, parts, h => by
    rw [Caps.holdsAmong, Bool.and_eq_true]
    cases v with
    | obj fs =>
      simp only [parseDateParts] at h
      split at h
      · simp only [except_bind_ok_iff] at h
        obtain ⟨_, hchecked, _, -, cs, hcs, first, hfirst, more, hmore, h⟩ := h
        cases h
        cases hfirst
        obtain ⟨hquoted, hbelow⟩ := parseFields_vetted fs site cs hcs
        exact (parseDateParts_vetted rest site (position + 1) more hmore).imp
          (quoted_part fun _ => hquoted) (⟨Caps.holds_object hchecked hbelow, ·⟩)
      · obtain ⟨_, hfirst, -⟩ := except_bind_ok_iff.1 h
        cases hfirst
    | arr inner =>
      simp only [parseDateParts] at h
      split at h
      · cases h
      · obtain ⟨_, hfirst, -⟩ := except_bind_ok_iff.1 h
        cases hfirst
    | _ =>
      simp only [parseDateParts] at h
      split at h
      all_goals
        next hposition =>
        simp only [except_bind_ok_iff] at h
        obtain ⟨first, hfirst, more, hmore, h⟩ := h
        cases h
        refine (parseDateParts_vetted rest site (position + 1) more hmore).imp
          (quoted_part fun h => ?_) (⟨rfl, ·⟩)
        first | exact dateArgument_quoted rfl rfl hfirst | exact absurd h hposition

end

lemma parseArgument_vetted (h : parseArgument ctx site v = .ok o) :
    Quoted (ownTexts o) (dateTexts o) ∧ (caps ctx.limits).holds site.depth site.key v = true := by
  cases v with
  | obj fs =>
    simp only [parseArgument, except_bind_ok_iff] at h
    obtain ⟨_, hchecked, _, -, cs, hcs, h⟩ := h
    cases h
    exact (parseFields_vetted fs site cs hcs).imp_right (Caps.holds_object hchecked)
  | arr items => cases h
  | _ =>
    simp only [parseArgument] at h
    exact ⟨scalarArgument_quoted rfl rfl h, rfl⟩

lemma keys_parseFields (h : parseFields ctx site fs = .ok cs) : ∀ c ∈ cs, ∃ v, (c.1, v) ∈ fs := by
  induction fs generalizing cs with
  | nil =>
    cases h
    exact nofun
  | cons f rest ih =>
    obtain ⟨key, v⟩ := f
    have hmore : ∀ {more}, parseFields ctx site rest = .ok more →
        ∀ c ∈ more, ∃ w, (c.1, w) ∈ (key, v) :: rest := by
      intro more hmore c hc
      obtain ⟨w, hw⟩ := ih hmore c hc
      exact ⟨w, mem_cons_of_mem _ hw⟩
    rcases parseFields_cons h with ⟨-, h⟩ | ⟨first, more, rfl, hrest, -⟩
    · exact hmore h
    · rw [forall_mem_cons]
      exact ⟨⟨v, mem_cons_self⟩, hmore hrest⟩

end Expression

open Expression

variable {ctx : Context} {site : Site} {v value : Json} {o : Operand} {fs : Fields} {cs : Children}

lemma Group.parseAccumulator_vetted (h : parseAccumulator ctx site v = .ok o) :
    Quoted (ownTexts o) (dateTexts o) ∧ (caps ctx.limits).holds site.depth site.key v = true := by
  unfold parseAccumulator at h
  split at h
  · split at h
    · cases h
    · simp only [except_bind_ok_iff] at h
      obtain ⟨_, hchecked, _, -, arg, harg, h⟩ := h
      cases h
      refine (parseArgument_vetted harg).imp (·.below _) fun hheld => ?_
      exact Caps.holds_object hchecked (Caps.holdsBelow_iff.2 (forall_mem_singleton.2 hheld))
  · cases h

lemma Group.parseAll_vetted (h : parseAll ctx site fs = .ok cs) :
    Quoted (ownTextsBelow cs) (dateTextsBelow cs) ∧
      (caps ctx.limits).holdsBelow (site.depth + 1) fs = true := by
  induction fs generalizing cs with
  | nil =>
    cases h
    exact ⟨quoted_nil, rfl⟩
  | cons f rest ih =>
    obtain ⟨key, v⟩ := f
    simp only [parseAll, except_guard_ok_iff] at h
    obtain ⟨-, h⟩ := h
    have hparts : ∃ first more, (Quoted (ownTexts first) (dateTexts first) ∧
        (caps ctx.limits).holds (site.depth + 1) key v = true) ∧
        parseAll ctx site rest = .ok more ∧ cs = (key, first) :: more := by
      split at h
      all_goals
        simp only [except_bind_ok_iff] at h
        obtain ⟨first, hfirst, more, hmore, h⟩ := h
        cases h
        refine ⟨first, more, ?_, hmore, rfl⟩
      · cases v with
        | null =>
          cases hfirst
          exact ⟨quoted_nil, rfl⟩
        | str | obj =>
          simp only [parseKey] at hfirst
          exact parseArgument_vetted hfirst
        | _ => cases hfirst
      · exact parseAccumulator_vetted hfirst
    obtain ⟨first, more, ⟨hquoted, hheld⟩, hmore, rfl⟩ := hparts
    obtain ⟨hrest, hbelow⟩ := ih hmore
    have hboth := (hquoted.below key).append hrest
    rw [Caps.holdsBelow, hheld, hbelow]
    exact ⟨by simpa [ownTextsBelow, dateTextsBelow] using hboth, rfl⟩

lemma Project.withId_cases {gs : Fields} (h : withId fs = .ok gs) :
    gs = fs ∨ gs = ("_id", .int 1) :: fs := by
  unfold withId at h
  split at h
  · split at h <;> cases h
    exact .inl rfl
  · cases h
    exact .inr rfl

/-- A parsed projection is an object of fields, in which only dates bring in dollar signs. -/
lemma Project.parse_vetted (h : Project.parse ctx value = .ok o) :
    ∃ fs, fieldsOf ctx.kind value = .ok fs ∧
      checkExpression ctx.limits (.root ctx.kind.key) (.obj fs) = .ok fs ∧
      (caps ctx.limits).holdsBelow 1 fs = true ∧ Quoted (ownTextsBelow o.children) (dateTexts o) ∧
      ∀ c ∈ o.children, Path.isOperator c.1 = false := by
  simp only [Project.parse, except_bind_ok_iff] at h
  obtain ⟨fs, hfs, gs, hchecked, h⟩ := h
  have heq := (checkExpression_ok_iff.1 hchecked).1
  cases heq
  refine ⟨fs, hfs, hchecked, ?_⟩
  split at h
  · cases h
  · next hnone =>
    simp only [except_bind_ok_iff] at h
    obtain ⟨_, -, h⟩ := h
    have hparts : ∃ hs cs, (hs = fs ∨ hs = ("_id", .int 1) :: fs) ∧
        parseFields ctx (Site.root ctx.kind.key) hs = .ok cs ∧ o = .expression cs := by
      split at h
      all_goals
        simp only [except_bind_ok_iff] at h
        obtain ⟨hs, hid, cs, hcs, h⟩ := h
        cases h
      · exact ⟨hs, cs, withId_cases hid, hcs, rfl⟩
      · cases hid
        exact ⟨fs, cs, .inl rfl, hcs, rfl⟩
    obtain ⟨hs, cs, hmem, hcs, rfl⟩ := hparts
    obtain ⟨hquoted, hheld⟩ := parseFields_vetted hs _ cs hcs
    have hfields : ∀ f ∈ fs, Path.isOperator f.1 = false := fun f hf => by
      simpa using List.find?_eq_none.1 hnone f hf
    refine ⟨?_, hquoted, fun c hc => ?_⟩
    · rcases hmem with rfl | rfl <;> exact hheld
    · obtain ⟨w, hw⟩ := keys_parseFields hcs c hc
      rcases hmem with rfl | rfl
      · exact hfields _ hw
      · rcases mem_cons.1 hw with hid | hw
        · rw [(Prod.mk.inj hid).1]
          decide +kernel
        · exact hfields _ hw

end Conduit
