import Conduit.Proofs.MatchConditions

/-!
# Where patterns come from

A pattern in a match that was read comes from a `$regex` of the match: below a field, or in a list
of values.  There it was a literal of bounded length that is a regular expression, or a document of
the form in which patterns are kept.

A document of this form is taken as it is.  Such a pattern may be any text, and with a colon in its
options it may be kept under the key of a literal, which then passes for a regular expression
(`kept_form_unchecked`).  Without such colons, what was compiled before changes nothing.
-/

namespace Conduit

open List

namespace Operand

mutual

/-- The patterns in a value that was read. -/
def patterns : Operand → List Pattern
  | .simple v => (Pattern.ofJson? v).toList
  | .array elements => patternsAmong elements
  | .expression cs => patternsBelow cs
  | _ => []

def patternsAmong : List Operand → List Pattern
  | [] => []
  | v :: rest => v.patterns ++ patternsAmong rest

def patternsBelow : Children → List Pattern
  | [] => []
  | (_, v) :: rest => v.patterns ++ patternsBelow rest

end

variable {p : Pattern}

lemma mem_patternsAmong {elements : List Operand} :
    p ∈ patternsAmong elements ↔ ∃ e ∈ elements, p ∈ e.patterns := by
  induction elements with
  | nil => simp [patternsAmong]
  | cons e rest ih => simp [patternsAmong, ih]

lemma mem_patternsBelow {cs : Children} : p ∈ patternsBelow cs ↔ ∃ c ∈ cs, p ∈ c.2.patterns := by
  induction cs with
  | nil => simp [patternsBelow]
  | cons c rest ih => simp [patternsBelow, ih]

end Operand

/-- A value stands somewhere below a key. -/
inductive Json.Has (key : String) (v : Json) : Json → Prop
  | field {fs : Fields} : (key, v) ∈ fs → Has key v (.obj fs)
  | inside {fs : Fields} {f : String × Json} : f ∈ fs → Has key v f.2 → Has key v (.obj fs)
  | element {items : List Json} {w : Json} : w ∈ items → Has key v w → Has key v (.arr items)

lemma Json.Has.of_mem {key : String} {v : Json} {f : String × Json} {fs : Fields}
    (h : Has key v (.obj [f])) (hf : f ∈ fs) : Has key v (.obj fs) := by
  cases h with
  | field hmem => exact .field (mem_singleton.1 hmem ▸ hf)
  | inside hmem hinside => exact .inside (mem_singleton.1 hmem ▸ hf) hinside

/-! ## What was compiled before -/

namespace Pattern

variable {p q : Pattern} {before : List Pattern} {cache : Cache}

/-- What is kept is what one of the patterns means whose key it has. -/
def Cache.Holds (before : List Pattern) (cache : Cache) : Prop :=
  ∀ e ∈ cache, ∃ q ∈ before, q.key = e.1 ∧ q.regex? = some e.2

lemma Cache.Holds.lookup {key : String} {r : Regex} (h : Holds before cache)
    (hr : cache.lookup key = some r) : ∃ q ∈ before, q.key = key ∧ q.regex? = some r := by
  obtain ⟨_, _, rfl, -⟩ := lookup_eq_some_iff.1 hr
  exact h _ (mem_append_right _ mem_cons_self)

lemma Cache.Holds.compile (h : Holds before cache) (hp : p ∈ before) :
    Holds before (cache.compile p).2 := by
  unfold Cache.compile
  split
  · next hr => exact forall_mem_cons.2 ⟨h.lookup hr, fun e he => h e (mem_filter.1 he).1⟩
  · split
    · next r hr =>
      intro e he
      rcases mem_cons.1 (mem_of_mem_take he) with rfl | he
      · exact ⟨p, hp, rfl, hr⟩
      · exact h e he
    · exact h

lemma Cache.holds_after (before : List Pattern) : Holds before (after before) := by
  have hrun : ∀ ps ⊆ before, ∀ cache, Holds before cache →
      Holds before (ps.foldl (fun cache p => (cache.compile p).2) cache) := by
    intro ps
    induction ps with
    | nil => exact fun _ cache h => h
    | cons p ps ih =>
      intro hps cache h
      obtain ⟨hp, hps⟩ := cons_subset.1 hps
      exact ih hps _ (h.compile hp)
  exact hrun before (List.Subset.refl _) [] nofun

/-- Where options have no colon, a key tells the pattern. -/
lemma key_injective (hp : ':' ∉ p.options.toList) (hq : ':' ∉ q.options.toList)
    (h : p.key = q.key) : p = q := by
  have hlists := congrArg String.toList h
  simp only [key, String.toList_append, append_assoc] at hlists
  have hsame : p.body.toList = q.body.toList ∧ p.options.toList = q.options.toList := by
    rcases append_eq_append_iff.1 hlists with ⟨l, hbody, hrest⟩ | ⟨l, hbody, hrest⟩
    all_goals
      rcases l with _ | ⟨c, l⟩
      · simp_all
      · exact absurd (show ':' ∈ _ by grind) ‹_›
  cases p
  cases q
  simpa [String.toList_inj] using hsame

lemma options_of_split? {s : String} (h : split? s = some p) : ':' ∉ p.options.toList := by
  unfold split? at h
  split at h
  · dsimp only at h
    split at h
    · split at h
      · next hall =>
        cases h
        intro hcolon
        have hsmall := all_eq_true.1 (Bool.and_eq_true_iff.1 hall).1 ':' (by simpa using hcolon)
        cases hsmall
      · cases h
    · cases h
  · cases h

/-- **A literal that passes is a regular expression, or has the key of a pattern with a colon in
its options.** -/
lemma Cache.compile_literal {s : String} (hs : split? s = some p)
    (h : ((after before).compile p).1.isSome = true) : p.regex?.isSome = true ∨
      ∃ q ∈ before, ':' ∈ q.options.toList ∧ q.key = p.key ∧ q.regex?.isSome = true := by
  unfold Cache.compile at h
  split at h
  · next r hr =>
    obtain ⟨q, hq, hkey, hregex⟩ := (holds_after before).lookup hr
    by_cases hcolon : ':' ∈ q.options.toList
    · exact .inr ⟨q, hq, hcolon, hkey, by simp [hregex]⟩
    · rw [← key_injective hcolon (options_of_split? hs) hkey]
      exact .inl (by simp [hregex])
  · split at h
    · next hregex => exact .inl (by simp [hregex])
    · cases h

/-- **Without colons in options, what was compiled before changes nothing.** -/
lemma Cache.parse?_after (hbefore : ∀ q ∈ before, ':' ∉ q.options.toList) (s : String) :
    (after before).parse? s = Pattern.parse? s := by
  rw [Pattern.parse?, Cache.parse?, Cache.parse?]
  refine Option.bind_congr fun p hs => ?_
  have hsame : ((after before).compile p).1.isSome = (compile [] p).1.isSome := by
    have hliteral := @Cache.compile_literal p before s hs
    unfold Cache.compile at hliteral ⊢
    grind
  rw [hsame]

end Pattern

/-! ## Sources -/

/-- A pattern is checked where it is a literal, and taken as it is where it is a document. -/
lemma Pattern.validate_cases {cache : Cache} {v : Json} {limits : Limits} {path : String}
    {p : Pattern} (h : cache.validate v limits path = .ok p) :
    ofJson? v = some p ∨ ∃ s, v = .str s ∧ s ≠ "" ∧
      Limits.exceeds limits.patternLength s.length = false ∧ split? s = some p ∧
      (cache.compile p).1.isSome = true := by
  unfold Cache.validate at h
  split at h
  · next hkept =>
    cases h
    exact .inl hkept
  · cases v with
    | str s =>
      dsimp only at h
      split at h
      · next hlength =>
        simp only [Json.isStr, Bool.true_and, Bool.and_eq_true, Bool.not_eq_true'] at hlength
        split at h
        · next hparse =>
          cases h
          simp only [Cache.parse?, Option.bind_eq_bind, Option.bind_eq_some_iff,
            Option.ite_none_right_eq_some] at hparse
          obtain ⟨_, hsplit, hregex, ⟨⟩⟩ := hparse
          exact .inr ⟨s, rfl, by simpa using hlength.1, hlength.2, hsplit, hregex⟩
        · cases h
      · cases h
    | _ => cases h

lemma Pattern.ofJson?_of_scalar {v : Json} (h : v.isObj = false) : ofJson? v = none := by
  cases v with
  | obj fs => cases h
  | _ => rfl

namespace Match

variable {ctx : Context} {site : Site} {v w : Json} {op : MatchOp} {o : Operand}

/-- The patterns of a value that was read have their sources in a document. -/
def Sourced (ctx : Context) (v : Json) (o : Operand) : Prop :=
  ∀ p ∈ o.patterns, ∃ source path, Json.Has "$regex" source v ∧
    ctx.patterns.validate source ctx.limits path = .ok p

lemma sourced_simple (h : Pattern.ofJson? w = none) : Sourced ctx v (.simple w) := by
  intro p hp
  rw [Operand.patterns, h] at hp
  cases hp

lemma sourced_variable {name : String} : Sourced ctx v (.variable name) := by
  rintro p ⟨⟩

lemma sourced_pattern {path : String} {p : Pattern}
    (h : ctx.patterns.validate w ctx.limits path = .ok p) (hv : Json.Has "$regex" w v) :
    Sourced ctx v (.simple p.toJson) := by
  intro q hq
  rw [mem_singleton.1 hq]
  exact ⟨w, path, hv, h⟩

lemma sourced_array {elements : List Operand} (h : ∀ e ∈ elements, Sourced ctx v e) :
    Sourced ctx v (.array elements) := by
  intro p hp
  obtain ⟨e, he, hp⟩ := Operand.mem_patternsAmong.1 hp
  exact h e he p hp

lemma sourced_simpleOrVariable (h : w.isObj = false) : Sourced ctx v (simpleOrVariable ctx w) := by
  unfold simpleOrVariable
  split
  · exact sourced_variable
  · exact sourced_simple (Pattern.ofJson?_of_scalar h)

lemma ofJson?_of_compared (h : Rule.isStructured v = false ∨ Rule.isEmptyStructure v = true) :
    Pattern.ofJson? v = none := by
  rcases h with h | h
  · cases v with
    | obj _ => cases h
    | _ => rfl
  · unfold Rule.isEmptyStructure at h
    split at h
    · rfl
    · rfl
    · cases h

lemma ReadsLeaf.sourced (hop : site.matchOp? = some op) (h : ReadsLeaf ctx site op v o) :
    Sourced ctx (.obj [(site.key, v)]) o := by
  cases h with
  | scalar _ _ hobj => exact sourced_simple (Pattern.ofJson?_of_scalar hobj)
  | compared _ hv => exact sourced_simple (ofJson?_of_compared hv)
  | circle hw =>
    obtain ⟨lng, lat, radius, rfl, -⟩ := circle_ok hw
    exact sourced_simple rfl
  | pattern hp =>
    have hkey : "$regex" = site.key := MatchOp.key_of_ofKey? hop
    exact sourced_pattern hp (hkey ▸ .field mem_cons_self)
  | values _ _ helements =>
    refine sourced_array (forall_mem_right helements fun item hitem e he => ?_)
    cases he with
    | pattern hp =>
      exact sourced_pattern hp (.inside mem_cons_self (.element hitem (.field mem_cons_self)))
    | placeholder => exact sourced_variable
    | scalar _ hobj => exact sourced_simple (Pattern.ofJson?_of_scalar hobj)

lemma ReadsObject.sourced {fs : Fields} {cs : Children}
    (h : ReadsObject ctx (fun s w o => Sourced ctx (.obj [(s.key, w)]) o) site fs cs) :
    Sourced ctx (.obj fs) (.expression cs) := by
  have hcs : ∀ c ∈ cs, Sourced ctx (.obj fs) c.2 := by
    refine forall_mem_right h.fields fun f hf c hc p hp => ?_
    obtain ⟨source, path, hsource, hpattern⟩ := hc.2 p hp
    exact ⟨source, path, hsource.of_mem hf, hpattern⟩
  intro p hp
  obtain ⟨c, hc, hp⟩ := Operand.mem_patternsBelow.1 hp
  exact hcs c hc p hp

/-- By every rule, the patterns have their sources in what is read. -/
lemma Reads.sourced (h : Reads ctx (fun s w o => Sourced ctx (.obj [(s.key, w)]) o) site v o) :
    Sourced ctx (.obj [(site.key, v)]) o := by
  -- sources stay where an object or a list is put around them
  have hbelow : ∀ {w : Json} {o : Operand}, (∀ source, Json.Has "$regex" source w →
      Json.Has "$regex" source v) → Sourced ctx w o → Sourced ctx (.obj [(site.key, v)]) o := by
    intro w o hmono ho p hp
    obtain ⟨source, path, hsource, hpattern⟩ := ho p hp
    exact ⟨source, path, .inside mem_cons_self (hmono source hsource), hpattern⟩
  cases h with
  | literal _ _ _ hobj => exact sourced_simpleOrVariable hobj
  | operators _ _ _ hfs => exact hbelow (fun _ h => h) hfs.sourced
  | placeholder => exact sourced_variable
  | conditions _ _ helements =>
    refine sourced_array (forall_mem_right helements fun item hitem e he => ?_)
    cases he with
    | placeholder => exact sourced_variable
    | object hfs => exact hbelow (fun _ h => .element hitem h) hfs.sourced
  | all _ _ helements =>
    refine sourced_array (forall_mem_right helements fun item hitem e he => ?_)
    cases he with
    | literal _ hobj => exact sourced_simpleOrVariable hobj
    | object hfs => exact hbelow (fun _ h => .element hitem h) hfs.sourced
  | elemMatch _ hfs => exact hbelow (fun _ h => h) hfs.sourced
  | leaf hop hleaf => exact hleaf.sourced (checkOperator_ok hop).1

/-- **Patterns come from a `$regex`.**  Under the standard limits, a pattern of a match that was read
is the value of a `$regex` in it: either a literal `/body/flags` of 1 to 255 characters, or a
document that already has the form in which patterns are kept.  A literal is a regular expression
unless a pattern with a colon in its options was compiled before under its key. -/
theorem patterns_have_sources {value : Json} {p : Pattern} {before : List Pattern}
    (hlimits : ctx.options.relaxLimits = false) (hbefore : ctx.patterns = .after before)
    (h : parse ctx value = .ok o) (hp : p ∈ o.patterns) :
    ∃ fs source, stageObject .match value = .ok fs ∧ Json.Has "$regex" source (.obj fs) ∧
      ((∃ s, source = .str s ∧ 1 ≤ s.length ∧ s.length ≤ 255 ∧ Pattern.split? s = some p ∧
        (p.regex?.isSome = true ∨ ∃ q ∈ before, ':' ∈ q.options.toList ∧ q.key = p.key ∧
          q.regex?.isSome = true)) ∨ Pattern.ofJson? source = some p) := by
  obtain ⟨fs, cs, hfs, rfl, hcs⟩ := parse_object (fun _ _ _ => Reads.sourced) h
  obtain ⟨source, path, hsource, hpattern⟩ := hcs.sourced p hp
  refine ⟨fs, source, hfs, hsource, (Pattern.validate_cases hpattern).symm.imp_left ?_⟩
  rintro ⟨s, hs, hne, hlength, hsplit, hcompiled⟩
  rw [hbefore] at hcompiled
  refine ⟨s, hs, ?_, ?_, hsplit, Pattern.Cache.compile_literal hsplit hcompiled⟩
  · rw [Nat.one_le_iff_ne_zero]
    exact fun h => hne (String.length_eq_zero_iff.1 h)
  · simpa [Context.limits, Options.limits, Limits.of, hlimits, Limits.standard, Limits.exceeds,
      Limits.maxPatternLength] using hlength

/-- A match on any object. -/
def plainContext : Context where
  catalog := {}
  options := { object := "c_a" }
  indexes := fun _ => []
  kind := .match

/-- A name, by a pattern in a list. -/
def listedPattern : Json :=
  .obj [("c_name", .obj [("$in", .arr [.str "b", .obj [("$regex", .str "/a/")]])])]

/-- A pattern that was read from a list comes from the literal in it. -/
theorem listed_pattern_source :
    let p : Pattern := ⟨"a", ""⟩
    ∃ o fs source, parse plainContext listedPattern = .ok o ∧ p ∈ o.patterns ∧
      stageObject .match listedPattern = .ok fs ∧ Json.Has "$regex" source (.obj fs) ∧
      ((∃ s, source = .str s ∧ 1 ≤ s.length ∧ s.length ≤ 255 ∧ Pattern.split? s = some p ∧
        p.regex?.isSome = true) ∨ Pattern.ofJson? source = some p) := by
  intro p
  obtain ⟨o, hparse, hp⟩ : ∃ o, parse plainContext listedPattern = .ok o ∧ p ∈ o.patterns :=
    exists_eq_ok_and (by decide +kernel)
  obtain ⟨fs, source, hfs, hhas, hsource⟩ := @patterns_have_sources _ _ _ _ [] rfl rfl hparse hp
  exact ⟨o, fs, source, hparse, hp, hfs, hhas, by simpa using hsource⟩

/-- **A pattern in its kept form is not checked**: this one is no regular expression.  Nor is a
literal that has its key, once such a pattern was compiled. -/
theorem kept_form_unchecked :
    let regex (v : Json) : Json := .obj [("c_name", .obj [("$regex", v)])]
    let p : Pattern := ⟨"(", ""⟩
    let q : Pattern := ⟨"c_cat:(", ""⟩
    (∃ o, parse plainContext (regex (.obj [("$regex", .str "(")])) = .ok o ∧
      p ∈ o.patterns ∧ p.regex?.isSome = false) ∧
    ∃ o, parse { plainContext with patterns := .after [⟨"c_cat", "(:"⟩] }
        (regex (.str "/c_cat:(/")) = .ok o ∧ q ∈ o.patterns ∧ q.regex?.isSome = false :=
  ⟨exists_eq_ok_and (by decide +kernel), exists_eq_ok_and (by decide +kernel)⟩

end Match

end Conduit
