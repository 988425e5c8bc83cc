import Conduit.Proofs.Clauses

/-!
# What the index query of clauses means

The entries of clauses make an object in which each clause can be found again: a field under its
key, an element of a logical operator at its position.  A field demands of each leaf what was
entered for its last node (`meets_of_clauses`, `clauses_of_meets`).
-/

namespace Conduit.Match

open List Clause

open IndexEntries Fields Json

/-! ## One leaf -/

/-- The keys of a comparison below a field. -/
def comparisonKeys : MatchOp → List String
  | .pattern => ["$regex", "$options"]
  | .oneOf => ["$in"]
  | .noneOf => ["$nin"]
  | .within => ["$geoWithin"]
  | op => [op.key]

/-- Whether a literal stands for itself and absorbs itself. -/
def isPlain : Json → Bool
  | .obj [(key, _)] => !Document.isQueryOperator key
  | .obj _ => false
  | _ => true

/-- The keys that give index queries their shape. -/
def treeKeys : List String := ["$and", "$or", marker]

/-- What is entered for a leaf is in order: a literal is the same for every node, a pattern is
one, and nothing brings in keys of the tree. -/
structure Settled (ctx : Context) (leaf : LeafAt) : Prop where
  literal : leaf.1.site.matchOp? = none →
    ∃ w, isPlain w = true ∧ ∀ casts ∈ leafCasts ctx leaf, casts = [w]
  pattern : leaf.1.site.matchOp? = some .pattern →
    ∃ p : Pattern, ∀ casts ∈ leafCasts ctx leaf, casts = [p.toJson]
  free : ∀ v ∈ leafEntries ctx leaf, mentions treeKeys v = false

variable {ctx : Context} {d : Document} {base : Fields}

variable {op : MatchOp} {v : Json} {k key : String} {fs start : Fields} {leaf : LeafAt}
  {leaves : List LeafAt} {last : Option Json} {top : Bool} {cs : List Clause}
  {s : IndexStep} {p : Nat} {elements : List (List Clause)}

lemma comparison_obj {vs : List Json} (hpattern : op = .pattern → ∃ p : Pattern, vs = [p.toJson]) :
    ∃ fs, comparison (some op) vs = .obj fs ∧ keys fs = comparisonKeys op := by
  cases op with
  | pattern =>
    obtain ⟨p, rfl⟩ := hpattern rfl
    exact ⟨_, rfl, rfl⟩
  | _ => exact ⟨_, rfl, rfl⟩

lemma comparisonKeys_nodup (op : MatchOp) : (comparisonKeys op).Nodup := by
  cases op <;> decide

lemma find?_comparisonKeys (op : MatchOp) : ∀ k ∈ comparisonKeys op,
    MatchOp.every.find? (fun op => (comparisonKeys op).contains k) = some op := by
  cases op <;> decide

lemma comparisonKeys_disjoint {op' : MatchOp} (h : k ∈ comparisonKeys op)
    (h' : k ∈ comparisonKeys op') : op = op' :=
  Option.some.inj ((find?_comparisonKeys op k h).symm.trans (find?_comparisonKeys op' k h'))

lemma exists_isQueryOperator (op : MatchOp) :
    ∃ k ∈ comparisonKeys op, Document.isQueryOperator k = true := by
  cases op
  all_goals exact ⟨_, mem_cons_self, by decide⟩

lemma holdsOperators_of_mem {fs : Fields} {op : MatchOp}
    (h : ∀ k ∈ comparisonKeys op, k ∈ keys fs) : Document.holdsOperators fs = true := by
  obtain ⟨k, hk, hop⟩ := exists_isQueryOperator op
  obtain ⟨v, hv⟩ := mem_keys.1 (h k hk)
  exact any_eq_true.2 ⟨(k, v), hv, hop⟩

/-- An object of operators demands what each of them is looked up to. -/
lemma meetsValue_operators (hfs : (keys fs).Nodup) (hop : Document.holdsOperators fs = true)
    (vs : Set Json) :
    d.meetsValue vs (.obj fs) ↔ ∀ k v, get? fs k = some v → d.meetsOperator vs k v := by
  rw [Document.meetsValue, if_pos hop]
  constructor
  · intro h k v hv
    exact h (k, v) (mem_of_get? hv)
  · intro h f hf
    exact h f.1 f.2 ((get?_eq_some_iff hfs).2 hf)

/-! ## The operators of a field -/

lemma lastOf_same_keys {ks : List String} {gs : List Fields} (h : ∀ g ∈ gs, keys g = ks)
    (k : String) : lastOf k gs = gs.getLast?.bind fun g => get? g k := by
  induction gs using reverseRecOn with
  | nil => rfl
  | append_singleton gs g ih =>
    have hkeys := ih fun x hx => h x (by simp [hx])
    rw [lastOf_append_singleton, getLast?_concat, Option.bind_some, hkeys]
    cases hg : get? g k with
    | some v => rfl
    | none =>
      rw [Option.none_or, Option.bind_eq_none_iff]
      intro x hx
      rw [get?_eq_none_iff] at hg ⊢
      rw [h x (by simp [mem_of_getLast? hx])]
      rwa [h g (by simp)] at hg

lemma lastOf_append (k : String) (xs ys : List Fields) :
    lastOf k (xs ++ ys) = (lastOf k ys).or (lastOf k xs) := by
  induction ys using reverseRecOn with
  | nil => simp [lastOf]
  | append_singleton ys y ih =>
    rw [← append_assoc, lastOf_append_singleton, ih, lastOf_append_singleton, Option.or_assoc]

/-- The objects that are entered for a leaf with an operator. -/
def pieces (ctx : Context) (leaf : LeafAt) : List Fields :=
  (leafEntries ctx leaf).map fun v => v.obj?.getD []

lemma pieces_spec (hleaf : Settled ctx leaf) (hop : leaf.1.site.matchOp? = some op) :
    leafEntries ctx leaf = (pieces ctx leaf).map .obj ∧
      ∀ g ∈ pieces ctx leaf, keys g = comparisonKeys op := by
  have hobj : ∀ casts ∈ leafCasts ctx leaf,
      ∃ fs, comparison (some op) casts = .obj fs ∧ keys fs = comparisonKeys op := by
    intro casts hcasts
    refine comparison_obj fun hpattern => ?_
    obtain ⟨p, hp⟩ := hleaf.pattern (hpattern ▸ hop)
    exact ⟨p, hp casts hcasts⟩
  constructor
  · rw [pieces, map_map]
    refine ((map_congr_left fun v hv => ?_).trans (map_id _)).symm
    obtain ⟨casts, hcasts, rfl⟩ := mem_map.1 hv
    obtain ⟨fs, hfs, -⟩ := hobj casts hcasts
    rw [hop, hfs]
    rfl
  · intro g hg
    obtain ⟨v, hv, rfl⟩ := mem_map.1 hg
    obtain ⟨casts, hcasts, rfl⟩ := mem_map.1 hv
    obtain ⟨fs, hfs, hkeys⟩ := hobj casts hcasts
    rw [hop, hfs]
    exact hkeys

/-- A field is compared with one literal, or meets operators that differ. -/
def LeavesApart (leaves : List LeafAt) : Prop :=
  (∃ leaf, leaves = [leaf] ∧ leaf.1.site.matchOp? = none) ∨
    (∀ leaf ∈ leaves, leaf.1.site.matchOp?.isSome) ∧
      (leaves.map fun leaf => leaf.1.site.matchOp?).Nodup

/-- What a leaf demands as its last node has it. -/
def IndexSat (ctx : Context) (d : Document) (key : String) (leaf : LeafAt) : Prop :=
  ∀ casts ∈ (leafCasts ctx leaf).getLast?,
    d.meetsValue (d.values key) (comparison leaf.1.site.matchOp? casts)

/-- What is looked up in the merged operators of a field comes from the last node of one leaf. -/
lemma lastOf_pieces (hleaves : ∀ leaf ∈ leaves, Settled ctx leaf)
    (hsome : ∀ leaf ∈ leaves, leaf.1.site.matchOp?.isSome)
    (hnodup : (leaves.map fun leaf => leaf.1.site.matchOp?).Nodup) :
    lastOf k (leaves.flatMap (pieces ctx)) = some v ↔
      ∃ leaf ∈ leaves, ∃ g ∈ (pieces ctx leaf).getLast?, get? g k = some v := by
  induction leaves generalizing v with
  | nil => simp [lastOf]
  | cons leaf rest ih =>
    obtain ⟨op, hop⟩ := Option.isSome_iff_exists.1 (hsome leaf mem_cons_self)
    obtain ⟨hnot, hrest⟩ := nodup_cons.1 hnodup
    have hkeys := (pieces_spec (hleaves leaf mem_cons_self) hop).2
    have ih := fun {u : Json} => ih (v := u) (fun x hx => hleaves x (mem_cons_of_mem _ hx))
      (fun x hx => hsome x (mem_cons_of_mem _ hx)) hrest
    have hhead : ∀ {v}, lastOf k (pieces ctx leaf) = some v ↔
        ∃ g ∈ (pieces ctx leaf).getLast?, get? g k = some v := by
      intro v
      rw [lastOf_same_keys hkeys, Option.bind_eq_some_iff]
      rfl
    have hmem : ∀ {x op g v}, Settled ctx x → x.1.site.matchOp? = some op →
        g ∈ (pieces ctx x).getLast? → get? g k = some v → k ∈ comparisonKeys op := by
      intro x op g v hx hop hg hv
      rw [← (pieces_spec hx hop).2 g (mem_of_getLast? hg)]
      exact mem_keys.2 ⟨v, mem_of_get? hv⟩
    rw [flatMap_cons, lastOf_append, exists_mem_cons_iff, ← ih, ← hhead]
    cases hlast : lastOf k (rest.flatMap (pieces ctx)) with
    | none => simp
    | some w =>
      -- a key that a later leaf has is not one of this leaf
      have hother : lastOf k (pieces ctx leaf) = none := by
        by_contra hne
        obtain ⟨u, hu⟩ := Option.ne_none_iff_exists'.1 hne
        obtain ⟨g, hg, hgu⟩ := hhead.1 hu
        obtain ⟨x, hx, g', hg', hgw⟩ := ih.1 hlast
        obtain ⟨op', hop'⟩ := Option.isSome_iff_exists.1 (hsome x (mem_cons_of_mem _ hx))
        have hk := hmem (hleaves leaf mem_cons_self) hop hg hgu
        have hk' := hmem (hleaves x (mem_cons_of_mem _ hx)) hop' hg' hgw
        cases comparisonKeys_disjoint hk hk'
        exact hnot (mem_map.2 ⟨x, hx, hop'.trans hop.symm⟩)
      simp [hother]

/-- A leaf with an operator demands each key of what was entered for its last node. -/
lemma indexSat_iff (hleaf : Settled ctx leaf) (hop : leaf.1.site.matchOp? = some op) :
    IndexSat ctx d key leaf ↔ ∀ g ∈ (pieces ctx leaf).getLast?, ∀ k v, get? g k = some v →
        d.meetsOperator (d.values key) k v := by
  obtain ⟨hentries, hkeys⟩ := pieces_spec hleaf hop
  have hsat : IndexSat ctx d key leaf ↔
      ∀ v ∈ (leafEntries ctx leaf).getLast?, d.meetsValue (d.values key) v := by
    rw [leafEntries, getLast?_map]
    simp [IndexSat]
  have hpiece : ∀ g ∈ (pieces ctx leaf).getLast?, d.meetsValue (d.values key) (.obj g) ↔
      ∀ k v, get? g k = some v → d.meetsOperator (d.values key) k v := by
    intro g hg
    have hg := hkeys g (mem_of_getLast? hg)
    exact meetsValue_operators (hg ▸ comparisonKeys_nodup op)
      (holdsOperators_of_mem fun k hk => hg ▸ hk) _
  rw [hsat, hentries, getLast?_map]
  constructor
  · intro h g hg
    exact (hpiece g hg).1 (h _ (Option.mem_map_of_mem _ hg))
  · intro h v hv
    obtain ⟨g, hg, rfl⟩ := Option.mem_map.1 hv
    exact (hpiece g hg).2 (h g hg)

lemma extend_self_of_isPlain {w : Json} (h : isPlain w = true) (fs : Fields) (hw : w = .obj fs) :
    extend fs fs = fs := by
  subst hw
  match fs with
  | [] => rfl
  | [(key, v)] => simp [extend, Fields.insert]
  | f :: g :: rest => simp [isPlain] at h

/-- What a key holds that demands of each leaf what its last node has. -/
def Content (ctx : Context) (key : String) (leaves : List LeafAt) (v : Json) : Prop :=
  mentions treeKeys v = false ∧ ∀ d : Document,
    d.meetsValue (d.values key) v ↔ ∀ leaf ∈ leaves, IndexSat ctx d key leaf

lemma content_of_base {start : Option Json} (hleaf : Settled ctx leaf)
    (hc : contains base key = true) (hne : leafEntries ctx leaf ≠ [])
    (h : mergedAll base key start (leafEntries ctx leaf) = some last) :
    ∃ v, last = some v ∧ Content ctx key [leaf] v := by
  have hlast := mergedAll_base hc hne h
  obtain ⟨v, hv⟩ := Option.ne_none_iff_exists'.1 (getLast?_eq_none_iff.not.2 hne)
  refine ⟨v, hlast.trans hv, hleaf.free v (mem_of_getLast? hv), fun d => ?_⟩
  rw [leafEntries, getLast?_map] at hv
  obtain ⟨casts, hcasts, rfl⟩ := Option.map_eq_some_iff.1 hv
  simp [IndexSat, hcasts]

lemma content_of_literal (hleaf : Settled ctx leaf) (hop : leaf.1.site.matchOp? = none)
    (hc : contains base key = false) (hne : leafEntries ctx leaf ≠ [])
    (h : mergedAll base key none (leafEntries ctx leaf) = some last) :
    ∃ v, last = some v ∧ Content ctx key [leaf] v := by
  obtain ⟨w, hplain, hw⟩ := hleaf.literal hop
  have hentries : ∀ v ∈ leafEntries ctx leaf, v = w := by
    intro v hv
    obtain ⟨casts, hcasts, rfl⟩ := mem_map.1 hv
    rw [hop, hw casts hcasts]
    rfl
  obtain ⟨v, hv⟩ := exists_mem_of_ne_nil _ hne
  refine ⟨w, mergedAll_same hc (extend_self_of_isPlain hplain) hentries hne h,
    hentries v hv ▸ hleaf.free v hv, fun d => ?_⟩
  have hcasts : leafCasts ctx leaf ≠ [] := fun hnil => hne (by simp [leafEntries, hnil])
  obtain ⟨casts, hlast⟩ := Option.ne_none_iff_exists'.1 (getLast?_eq_none_iff.not.2 hcasts)
  have hw := hw casts (mem_of_getLast? hlast)
  simp [IndexSat, hlast, hw, hop, comparison]

lemma content_of_operators (hleaves : ∀ leaf ∈ leaves, Settled ctx leaf)
    (hsome : ∀ leaf ∈ leaves, leaf.1.site.matchOp?.isSome)
    (hnodup : (leaves.map fun leaf => leaf.1.site.matchOp?).Nodup)
    (hc : contains base key = false) (hne : leaves.flatMap (leafEntries ctx) ≠ [])
    (h : mergedAll base key none (leaves.flatMap (leafEntries ctx)) = some last) :
    ∃ v, last = some v ∧ Content ctx key leaves v := by
  have hspec : ∀ leaf ∈ leaves, ∃ op, leaf.1.site.matchOp? = some op ∧
      leafEntries ctx leaf = (pieces ctx leaf).map .obj ∧
      ∀ g ∈ pieces ctx leaf, keys g = comparisonKeys op := by
    intro leaf hleaf
    obtain ⟨op, hop⟩ := Option.isSome_iff_exists.1 (hsome leaf hleaf)
    exact ⟨op, hop, pieces_spec (hleaves leaf hleaf) hop⟩
  have hpieces : leaves.flatMap (leafEntries ctx) = (leaves.flatMap (pieces ctx)).map .obj := by
    rw [map_flatMap]
    refine flatMap_congr fun leaf hleaf => ?_
    obtain ⟨op, -, hentries, -⟩ := hspec leaf hleaf
    exact hentries
  have hdistinct : ∀ g ∈ leaves.flatMap (pieces ctx), (keys g).Nodup := by
    intro g hg
    obtain ⟨leaf, hleaf, hg⟩ := mem_flatMap.1 hg
    obtain ⟨op, -, -, hkeys⟩ := hspec leaf hleaf
    exact hkeys g hg ▸ comparisonKeys_nodup op
  rw [hpieces] at hne h
  obtain ⟨fs, rfl, hfs, hget⟩ := mergedAll_objects hc hdistinct (by simpa using hne) h
  have hlookup : ∀ {k v}, get? fs k = some v ↔ ∃ leaf ∈ leaves,
      ∃ g ∈ (pieces ctx leaf).getLast?, get? g k = some v := by
    intro k v
    rw [hget]
    exact lastOf_pieces hleaves hsome hnodup
  have hop : Document.holdsOperators fs = true := by
    obtain ⟨g, hg⟩ := exists_mem_of_ne_nil _ (map_eq_nil_iff.not.1 hne)
    obtain ⟨leaf, hleaf, hg⟩ := mem_flatMap.1 hg
    obtain ⟨op, -, -, hkeys⟩ := hspec leaf hleaf
    obtain ⟨last, hlast⟩ := Option.ne_none_iff_exists'.1
      (getLast?_eq_none_iff.not.2 (ne_nil_of_mem hg))
    have hkeys := hkeys last (mem_of_getLast? hlast)
    refine @holdsOperators_of_mem fs op fun k hk => ?_
    obtain ⟨v, hv⟩ := exists_get? (hkeys ▸ hk)
    exact mem_keys.2 ⟨v, mem_of_get? (hlookup.2 ⟨leaf, hleaf, last, hlast, hv⟩)⟩
  refine ⟨.obj fs, rfl, mentions_obj.2 fun f hf => ?_, fun d => ?_⟩
  · obtain ⟨leaf, hleaf, g, hg, hf⟩ := hlookup.1 ((get?_eq_some_iff hfs).2 hf)
    obtain ⟨op, -, hentries, -⟩ := hspec leaf hleaf
    have hfree := (hleaves leaf hleaf).free (.obj g) (by
      rw [hentries]
      exact mem_map_of_mem (mem_of_getLast? hg))
    exact mentions_obj.1 hfree f (mem_of_get? hf)
  · rw [meetsValue_operators hfs hop]
    constructor
    · intro h leaf hleaf
      obtain ⟨op, hop, -⟩ := hspec leaf hleaf
      rw [indexSat_iff (hleaves leaf hleaf) hop]
      exact fun g hg k v hv => h k v (hlookup.2 ⟨leaf, hleaf, g, hg, hv⟩)
    · intro h k v hv
      obtain ⟨leaf, hleaf, g, hg, hv⟩ := hlookup.1 hv
      obtain ⟨op, hop, -⟩ := hspec leaf hleaf
      exact (indexSat_iff (hleaves leaf hleaf) hop).1 (h leaf hleaf) g hg k v hv

/-- **What a field holds**: what was entered for the last node of each of its leaves. -/
lemma field_content {start : Option Json} (hleaves : ∀ leaf ∈ leaves, Settled ctx leaf)
    (hapart : LeavesApart leaves) (hbase : contains base key = true → leaves.length = 1)
    (hstart : contains base key = false → start = none)
    (hne : leaves.flatMap (leafEntries ctx) ≠ [])
    (h : mergedAll base key start (leaves.flatMap (leafEntries ctx)) = some last) :
    ∃ v, last = some v ∧ Content ctx key leaves v := by
  cases hc : contains base key with
  | true =>
    obtain ⟨leaf, rfl⟩ := length_eq_one_iff.1 (hbase hc)
    rw [flatMap_singleton] at hne h
    exact content_of_base (hleaves leaf (by simp)) hc hne h
  | false =>
    obtain rfl := hstart hc
    rcases hapart with ⟨leaf, rfl, hop⟩ | ⟨hsome, hnodup⟩
    · rw [flatMap_singleton] at hne h
      exact content_of_literal (hleaves leaf (by simp)) hop hc hne h
    · exact content_of_operators hleaves hsome hnodup hc hne h

/-! ## Objects of clauses -/

/-- A field whose entries can be told apart from all others.  Only at the top may it take the
place of a base condition, and then with one leaf. -/
structure SoundField (ctx : Context) (base : Fields) (top : Bool) (key : String)
    (leaves : List LeafAt) : Prop where
  named : Path.isOperator key = false
  slotless : compoundSlot? key = none
  settled : ∀ leaf ∈ leaves, Settled ctx leaf
  apart : LeavesApart leaves
  base : contains base key = true → top = true ∧ leaves.length = 1

/-- Clauses whose entries never meet those of another clause. -/
inductive Sound (ctx : Context) (base : Fields) : Bool → List Clause → Prop where
  | mk {top : Bool} {cs : List Clause} (apart : Clause.Apart ctx cs)
      (fields : ∀ key leaves, .field key leaves ∈ cs → SoundField ctx base top key leaves)
      (logics : ∀ isOr elements, .logic isOr elements ∈ cs → ∀ e ∈ elements,
        Sound ctx base false e) : Sound ctx base top cs

/-- Base conditions: keys that occur once and name fields, with values that hold no keys of the
tree. -/
structure SoundBase (base : Fields) : Prop where
  nodup : (keys base).Nodup
  named : ∀ f ∈ base, Path.isOperator f.1 = false
  free : ∀ f ∈ base, mentions treeKeys f.2 = false

lemma isOperator_of_mem_treeKeys (h : k ∈ treeKeys) : Path.isOperator k = true := by
  revert k
  decide +kernel

lemma ne_of_named (hkey : Path.isOperator key = false) (hk : k ∈ treeKeys) : key ≠ k := by
  rintro rfl
  rw [isOperator_of_mem_treeKeys hk] at hkey
  cases hkey

lemma SoundBase.get?_eq_none (hbase : SoundBase base) (hk : k ∈ treeKeys) : get? base k = none := by
  rw [get?_eq_none_iff, Fields.mem_keys]
  rintro ⟨v, hv⟩
  exact ne_of_named (hbase.named (k, v) hv) hk rfl

/-- An entry whose key names a field outside of custom slots. -/
def SoundEntry (e : Entry) : Prop :=
  Path.isOperator e.2.1 = false ∧ compoundSlot? e.2.1 = none ∧ mentions treeKeys e.2.2 = false

lemma Clause.mem_entriesAmong {e : Entry} (he : e ∈ entriesAmong ctx s p elements) :
    ∃ cs ∈ elements, ∃ x ∈ entriesAll ctx cs, e.2 = x.2 := by
  induction elements generalizing p with
  | nil => cases he
  | cons cs rest ih =>
    rcases mem_append.1 he with he | he
    · obtain ⟨x, hx, rfl⟩ := mem_map.1 he
      exact ⟨cs, mem_cons_self, x, hx, rfl⟩
    · obtain ⟨cs', hcs', x, hx, heq⟩ := ih he
      exact ⟨cs', mem_cons_of_mem _ hcs', x, hx, heq⟩

lemma entries_sound (hsound : Sound ctx base top cs) : ∀ e ∈ entriesAll ctx cs, SoundEntry e := by
  induction cs using induction generalizing top
  next cs ih =>
  intro e he
  obtain ⟨-, hfields, hlogics⟩ := hsound
  rw [entriesAll_eq] at he
  obtain ⟨c, hc, he⟩ := mem_flatMap.1 he
  cases c with
  | field key leaves =>
    have hfield := hfields key leaves hc
    rw [entries_field] at he
    obtain ⟨v, hv, rfl⟩ := mem_map.1 he
    obtain ⟨leaf, hleaf, hv⟩ := mem_flatMap.1 hv
    exact ⟨hfield.named, hfield.slotless, (hfield.settled leaf hleaf).free v hv⟩
  | logic isOr elements =>
    obtain ⟨e', he', x, hx, heq⟩ := mem_entriesAmong he
    have hx := ih isOr elements hc e' he' (hlogics isOr elements hc e' he') x hx
    unfold SoundEntry
    rw [heq]
    exact hx

/-- Leaves entered into an object, which holds nothing at the top and base conditions in a branch. -/
structure Run {α : Type} [Leaf α] (base start : Fields) (entries : List (Placed α)) (fs : Fields) :
    Prop where
  sound : SoundBase base
  slotless : Slotless entries
  named : ∀ e ∈ entries, ∀ kv ∈ Leaf.pairs e.2, Path.isOperator kv.1 = false
  starts : start = [] ∨ start = base
  enters : enterAll base start entries = some fs

namespace Run

variable {α : Type} [Leaf α] {entries : List (Placed α)} (h : Run base start entries fs)

include h

lemma avoids (hk : k ∈ treeKeys) : Avoids k entries :=
  fun e he kv hkv => ne_of_named (h.named e he kv hkv) hk

lemma get?_start (k : String) : get? start k = none ∨ get? start k = get? base k := by
  rcases h.starts with rfl | rfl
  · exact .inl rfl
  · exact .inr rfl

lemma get?_start_eq_none (hk : k ∈ treeKeys) : get? start k = none := by
  rcases h.get?_start k with hget | hget
  · exact hget
  · rw [hget, h.sound.get?_eq_none hk]

lemma nodup : (keys fs).Nodup := by
  refine nodup_enterAll ?_ h.enters
  rcases h.starts with rfl | rfl
  · exact nodup_nil
  · exact h.sound.nodup

lemma branches (hk : k ∈ ["$and", "$or"]) : Branches base k entries (get? fs k) := by
  have hkey : k ∈ treeKeys ∧ k ≠ marker := by
    revert k
    decide +kernel
  exact enterAll_branches h.slotless (h.sound.get?_eq_none hkey.1) hkey.2 (h.avoids hkey.1)
    (h.get?_start_eq_none hkey.1) h.enters

lemma width {width : Nat} {items : List Json} (hwidth : HasWidth width entries)
    (hitems : get? fs "$or" = some (.arr items)) : items.length = width := by
  have hor : ("$or" : String) ∈ treeKeys := by simp [treeKeys]
  exact enterAll_width h.slotless (h.sound.get?_eq_none hor) (h.avoids hor) hwidth
    (h.get?_start_eq_none hor) h.enters hitems

end Run

lemma Sound.run (hsound : Sound ctx base top cs) (hbase : SoundBase base)
    (hstart : start = [] ∨ start = base)
    (hrun : enterAll base start (entriesAll ctx cs) = some fs) :
    Run base start (entriesAll ctx cs) fs where
  sound := hbase
  slotless e he kv hkv := by
    rw [mem_singleton.1 hkv]
    exact (entries_sound hsound e he).2.1
  named e he kv hkv := by
    rw [mem_singleton.1 hkv]
    exact (entries_sound hsound e he).1
  starts := hstart
  enters := hrun

section

variable {top : Bool} {cs : List Clause} {start fs : Fields} (hsound : Sound ctx base top cs)
  (hrun : Run base start (entriesAll ctx cs) fs) {elements : List (List Clause)}

include hsound hrun

/-- **A field is found under its key.** -/
lemma run_field (hmem : .field key leaves ∈ cs) (hne : leaves.flatMap (leafEntries ctx) ≠ []) :
    ∃ v, get? fs key = some v ∧ Content ctx key leaves v := by
  obtain ⟨hapart, hfields, -⟩ := hsound
  have hfield := hfields key leaves hmem
  have hentries : (field key leaves).entries ctx ≠ [] := by
    rw [entries_field]
    simpa using hne
  have hvalues : valuesAt key (entriesAll ctx cs) = leaves.flatMap (leafEntries ctx) := by
    have hpick := filterMap_entriesAll (fun c hc => valuesAt_of_key_ne hc) hapart hmem rfl hentries
    exact hpick.trans ((valuesAt_field key key leaves).trans (if_pos rfl))
  have hmerged := enterAll_values hrun.slotless (ne_of_named hfield.named (by simp [treeKeys]))
    (ne_of_named hfield.named (by simp [treeKeys])) (hvalues ▸ hne) hrun.enters
  rw [hvalues] at hmerged
  refine field_content hfield.settled hfield.apart (fun hc => (hfield.base hc).2) (fun hc => ?_) hne
    hmerged
  rcases hrun.get?_start key with h | h
  · exact h
  · rw [h]
    exact contains_eq_false_iff.1 hc

lemma run_key (hand : k ≠ "$and") (hor : k ≠ "$or") (hv : get? fs k = some v) :
    (∃ leaves, .field k leaves ∈ cs ∧ Content ctx k leaves v) ∨ get? base k = some v := by
  by_cases hvalues : valuesAt k (entriesAll ctx cs) = []
  · right
    rw [enterAll_untouched hrun.slotless hand hor hvalues hrun.enters] at hv
    rcases hrun.get?_start k with h | h
    · rw [h, Option.none_or] at hv
      split at hv
      · exact hv
      · cases hv
    · rw [h, Option.or_self, ite_self] at hv
      exact hv
  · left
    obtain ⟨c, hc, hkey, hne⟩ :=
      exists_of_filterMap_ne_nil (fun c hc => valuesAt_of_key_ne hc) hvalues
    cases c with
    | field key leaves =>
      obtain rfl : key = k := hkey
      rw [entries_field] at hne
      obtain ⟨w, hw, hcontent⟩ := run_field hsound hrun hc (by simpa using hne)
      rw [hv] at hw
      cases hw
      exact ⟨leaves, hc, hcontent⟩
    | logic isOr elements =>
      cases isOr
      · exact absurd hkey.symm hand
      · exact absurd hkey.symm hor

lemma exists_logic (isOr : Bool) (hv : get? fs (if isOr then "$or" else "$and") = some v) :
    ∃ elements, .logic isOr elements ∈ cs ∧ (logic isOr elements).entries ctx ≠ [] := by
  have hbranches := hrun.branches (k := if isOr then "$or" else "$and") (by cases isOr <;> simp)
  rw [hv] at hbranches
  obtain ⟨-, -, ⟨p, hp⟩, -⟩ := hbranches
  obtain ⟨c, hc, hkey, hne⟩ := exists_of_filterMap_ne_nil (fun c hc => inBranch_of_key_ne hc p) hp
  obtain ⟨-, hfields, -⟩ := hsound
  cases c with
  | field key leaves =>
    have hnamed := (hfields key leaves hc).named
    refine absurd hkey (ne_of_named hnamed ?_)
    cases isOr <;> simp [treeKeys]
  | logic isOr' elements =>
    cases isOr <;> cases isOr'
    · exact ⟨elements, hc, hne⟩
    · exact absurd hkey (by simp [key])
    · exact absurd hkey (by simp [key])
    · exact ⟨elements, hc, hne⟩

/-- **The elements of a logical operator are found at their positions.** -/
lemma run_logic {isOr : Bool} (hmem : .logic isOr elements ∈ cs)
    (hne : (logic isOr elements).entries ctx ≠ []) :
    ∃ items, get? fs (logic isOr elements).key = some (.arr items) ∧
      ∀ p, Branch base (entriesAll ctx (elements.getD p [])) items[p]? := by
  have hbranches := hrun.branches (k := (logic isOr elements).key) (by cases isOr <;> simp [key])
  obtain ⟨hapart, -, -⟩ := hsound
  have hpick : ∀ p, inBranch (logic isOr elements).key p (entriesAll ctx cs) =
      entriesAll ctx (elements.getD p []) := fun p =>
    (filterMap_entriesAll (fun c hc => inBranch_of_key_ne hc p) hapart hmem rfl
      hne).trans (inBranch_logic isOr elements p)
  cases hget : get? fs (logic isOr elements).key with
  | none =>
    rw [hget] at hbranches
    obtain ⟨p, hp⟩ := exists_inBranch_logic hne
    exact absurd ((hpick p).symm.trans (hbranches p)) hp
  | some v =>
    rw [hget] at hbranches
    obtain ⟨items, rfl, -, hitems⟩ := hbranches
    exact ⟨items, rfl, fun p => hpick p ▸ hitems p⟩

lemma run_width {items : List Json} (hmem : .logic true elements ∈ cs)
    (hne : (logic true elements).entries ctx ≠ []) (hitems : get? fs "$or" = some (.arr items)) :
    items.length = elements.length := by
  refine hrun.width ?_ hitems
  obtain ⟨hapart, -, -⟩ := hsound
  intro e he w rest hsteps
  rw [entriesAll_eq] at he
  obtain ⟨c, hc, he⟩ := mem_flatMap.1 he
  have hce := ne_nil_of_mem he
  cases c with
  | field key leaves =>
    rw [entries_field] at he
    obtain ⟨v, -, rfl⟩ := mem_map.1 he
    cases hsteps
  | logic isOr elements' =>
    obtain ⟨q, rest', hq, -, hlt⟩ := entriesAmong_steps he
    rw [hq] at hsteps
    cases isOr with
    | false => cases hsteps
    | true =>
      -- two clauses with entries under `$or` are one
      cases hapart.eq hc hmem hce hne rfl
      cases hsteps
      refine ⟨rfl, fun p tail hp => ?_⟩
      cases hp
      omega

end

lemma prune_of_free (h : mentions treeKeys v = false) : prune v = (v, false) :=
  prune_eq_self v (mentions_mono (by simp [treeKeys]) v h)

lemma meets_prune_clauses (hsound : Sound ctx base top cs)
    (hrun : Run base start (entriesAll ctx cs) fs) : d.meets (prune (.obj fs)).1 ↔
      (∀ k v, k ≠ "$and" → k ≠ "$or" → get? fs k = some v → d.meetsKey k v) ∧
      (∀ items, get? fs "$and" = some (.arr items) →
        ∀ v ∈ items, v.isNull = false → d.meets (prune v).1) ∧
      (∀ items, get? fs "$or" = some (.arr items) → items.any isNull = false →
        ∃ v ∈ items, d.meets (prune v).1) := by
  have hlists : ∀ k ∈ ["$and", "$or"], ∀ v, get? fs k = some v → ∃ items, v = .arr items := by
    intro k hk v hv
    have hbranches := hrun.branches hk
    rw [hv] at hbranches
    obtain ⟨items, rfl, -⟩ := hbranches
    exact ⟨items, rfl⟩
  rw [meets_prune hrun.nodup hlists]
  refine and_congr_left fun _ => ?_
  have hfree : ∀ k v, k ≠ "$and" → k ≠ "$or" → get? fs k = some v → (prune v).1 = v := by
    intro k v hand hor hv
    rcases run_key hsound hrun hand hor hv with ⟨leaves, -, hcontent⟩ | hv
    · rw [prune_of_free hcontent.1]
    · rw [prune_of_free (hrun.sound.free _ (mem_of_get? hv))]
  refine forall₂_congr fun k v => forall₃_congr fun hand hor hv => ?_
  rw [hfree k v hand hor hv]

/-- **The index query demands no more than its clauses and the base conditions.** -/
lemma meets_of_clauses (hmeets : ∀ k v, get? base k = some v → d.meetsKey k v)
    (hsound : Sound ctx base top cs) (hrun : Run base start (entriesAll ctx cs) fs)
    (hholds : Clause.HoldsAll (IndexSat ctx d) cs) : d.meets (prune (.obj fs)).1 := by
  induction cs using induction generalizing top start fs
  next cs ih =>
  rw [holdsAll_iff] at hholds
  obtain ⟨-, -, hlogics⟩ := id hsound
  -- what an element makes of the base conditions is met when its clauses hold
  have helement : ∀ {isOr elements e gs}, .logic isOr elements ∈ cs → e ∈ elements →
      enterAll base base (entriesAll ctx e) = some gs →
      Clause.HoldsAll (IndexSat ctx d) e → d.meets (prune (.obj gs)).1 :=
    fun {isOr elements e gs} hmem he hgs =>
      have hsound := hlogics isOr elements hmem e he
      ih isOr elements hmem e he hsound (hsound.run hrun.sound (.inr rfl) hgs)
  rw [meets_prune_clauses hsound hrun]
  refine ⟨fun k v hand hor hv => ?_, fun items hitems v hv hnull => ?_, fun items hitems hnull => ?_⟩
  · rcases run_key hsound hrun hand hor hv with ⟨leaves, hmem, hcontent⟩ | hv
    · rw [Document.meetsKey_field hand hor, hcontent.2]
      exact hholds _ hmem
    · exact hmeets k v hv
  · obtain ⟨elements, hmem, hne⟩ := exists_logic hsound hrun false hitems
    obtain ⟨items', hitems', hbranch⟩ := run_logic hsound hrun hmem hne
    cases hitems.symm.trans hitems'
    obtain ⟨p, hp⟩ := getElem?_of_mem hv
    rcases Branch.cases_some (hp ▸ hbranch p) with ⟨-, rfl⟩ | ⟨hentered, gs, rfl, hgs⟩
    · cases hnull
    · have he := getD_mem_of_entries_ne hentered
      exact helement hmem he hgs (holds_and.1 (hholds _ hmem) _ he)
  · obtain ⟨elements, hmem, hne⟩ := exists_logic hsound hrun true hitems
    obtain ⟨items', hitems', hbranch⟩ := run_logic hsound hrun hmem hne
    cases hitems.symm.trans hitems'
    obtain ⟨e, he, hall⟩ := holds_or.1 (hholds _ hmem)
    obtain ⟨p, hp⟩ := getElem?_of_mem he
    have hlt : p < items.length := by
      rw [run_width hsound hrun hmem hne hitems]
      exact (List.getElem?_eq_some_iff.1 hp).1
    have hbranch := hbranch p
    rw [getD_eq_getElem?_getD, hp, getElem?_eq_getElem hlt] at hbranch
    -- an element without entries would leave a gap
    rcases hbranch.cases_some with ⟨-, hgap⟩ | ⟨-, gs, hgs, hrun'⟩
    · have hany : items.any isNull = true :=
        any_eq_true.2 ⟨items[p], getElem_mem hlt, by rw [hgap]; rfl⟩
      rw [hnull] at hany
      cases hany
    · exact ⟨items[p], getElem_mem hlt, hgs ▸ helement hmem he hrun' hall⟩

/-- Clauses that enter something for each leaf, with no logical operator or element left empty. -/
inductive Full (ctx : Context) : List Clause → Prop where
  | mk {cs : List Clause} (fields : ∀ key leaves, .field key leaves ∈ cs → leaves ≠ [] ∧
        ∀ leaf ∈ leaves, leafCasts ctx leaf ≠ [])
      (nonempty : ∀ isOr elements, .logic isOr elements ∈ cs → elements ≠ [] ∧
        ∀ e ∈ elements, e ≠ [])
      (logics : ∀ isOr elements, .logic isOr elements ∈ cs → ∀ e ∈ elements, Full ctx e) :
      Full ctx cs

lemma entriesAll_ne_nil {c : Clause} (hc : c ∈ cs) (h : c.entries ctx ≠ []) :
    entriesAll ctx cs ≠ [] := by
  rw [entriesAll_eq]
  exact fun hnil => h (flatMap_eq_nil_iff.1 hnil c hc)

lemma entriesAmong_ne_nil {e : List Clause} (he : e ∈ elements) (h : entriesAll ctx e ≠ []) :
    entriesAmong ctx s p elements ≠ [] := by
  induction elements generalizing p with
  | nil => cases he
  | cons x rest ih =>
    rw [entriesAmong]
    rcases mem_cons.1 he with rfl | he
    · simp [h]
    · simp [ih he]

lemma Full.entries_ne_nil (hfull : Full ctx cs) : ∀ c ∈ cs, c.entries ctx ≠ [] := by
  induction cs using induction
  next cs ih =>
  obtain ⟨hfields, hnonempty, hlogics⟩ := hfull
  intro c hc
  cases c with
  | field key leaves =>
    obtain ⟨hne, hcasts⟩ := hfields key leaves hc
    obtain ⟨leaf, hleaf⟩ := exists_mem_of_ne_nil _ hne
    rw [entries_field]
    intro hnil
    have hentries := flatMap_eq_nil_iff.1 (map_eq_nil_iff.1 hnil) leaf hleaf
    exact hcasts leaf hleaf (map_eq_nil_iff.1 hentries)
  | logic isOr elements =>
    obtain ⟨hne, helements⟩ := hnonempty isOr elements hc
    obtain ⟨e, he⟩ := exists_mem_of_ne_nil _ hne
    obtain ⟨x, hx⟩ := exists_mem_of_ne_nil _ (helements e he)
    have hx' := ih isOr elements hc e he (hlogics isOr elements hc e he) x hx
    exact entriesAmong_ne_nil he (entriesAll_ne_nil hx hx')

lemma Full.entriesAll_ne_nil (hfull : Full ctx cs) (hne : cs ≠ []) : entriesAll ctx cs ≠ [] := by
  obtain ⟨c, hc⟩ := exists_mem_of_ne_nil _ hne
  exact Match.entriesAll_ne_nil hc (hfull.entries_ne_nil c hc)

lemma prune_items {items : List Json} (h : (prune (.arr items)).2 = false) :
    ∀ v ∈ items, (prune v).2 = false := by
  rw [prune_arr] at h
  simpa using h

/-- **An index query from which nothing was dropped demands all of its clauses**, if each leaf
was entered. -/
lemma clauses_of_meets (hsound : Sound ctx base top cs) (hfull : Full ctx cs)
    (hrun : Run base start (entriesAll ctx cs) fs) (hpruned : (prune (.obj fs)).2 = false)
    (hmeets : d.meets (prune (.obj fs)).1) : Clause.HoldsAll (IndexSat ctx d) cs := by
  induction cs using induction generalizing top start fs
  next cs ih =>
  obtain ⟨-, hsounds, hlogics⟩ := id hsound
  obtain ⟨-, hnonempty, hfulls⟩ := id hfull
  obtain ⟨hor, hbelow⟩ := prune_unpruned hpruned
  rw [meets_prune_clauses hsound hrun] at hmeets
  obtain ⟨hkeys, hands, hors⟩ := hmeets
  -- the clauses of an element hold when what it makes of the base conditions is met
  have helement : ∀ {isOr elements e gs}, .logic isOr elements ∈ cs → e ∈ elements →
      enterAll base base (entriesAll ctx e) = some gs → (prune (.obj gs)).2 = false →
      d.meets (prune (.obj gs)).1 → Clause.HoldsAll (IndexSat ctx d) e :=
    fun {isOr elements e gs} hmem he hgs =>
      have hsound := hlogics isOr elements hmem e he
      ih isOr elements hmem e he hsound (hfulls isOr elements hmem e he)
        (hsound.run hrun.sound (.inr rfl) hgs)
  rw [holdsAll_iff]
  intro c hc
  have hentries := hfull.entries_ne_nil c hc
  cases c with
  | field key leaves =>
    have hnamed := (hsounds key leaves hc).named
    have hand := ne_of_named hnamed (k := "$and") (by simp [treeKeys])
    have hor := ne_of_named hnamed (k := "$or") (by simp [treeKeys])
    rw [entries_field] at hentries
    obtain ⟨v, hv, hcontent⟩ := run_field hsound hrun hc (by simpa using hentries)
    have hkey := hkeys key v hand hor hv
    rw [Document.meetsKey_field hand hor, hcontent.2] at hkey
    exact hkey
  | logic isOr elements =>
    obtain ⟨items, hitems, hbranch⟩ := run_logic hsound hrun hc hentries
    have hunpruned := prune_items (hbelow _ _ hitems)
    cases isOr with
    | false =>
      rw [holds_and]
      intro e he
      obtain ⟨p, hp⟩ := getElem?_of_mem he
      have hentered : entriesAll ctx e ≠ [] :=
        (hfulls false elements hc e he).entriesAll_ne_nil ((hnonempty false elements hc).2 e he)
      have hbranch := hbranch p
      rw [getD_eq_getElem?_getD, hp] at hbranch
      obtain ⟨gs, hv, hgs⟩ := hbranch.exists_obj hentered
      have hmem := mem_of_getElem? hv
      exact helement hc he hgs (hunpruned _ hmem) (hands items hitems _ hmem rfl)
    | true =>
      rw [holds_or]
      obtain ⟨v, hv, hmeets⟩ := hors items hitems (hor items hitems)
      obtain ⟨p, hp⟩ := getElem?_of_mem hv
      rcases Branch.cases_some (hp ▸ hbranch p) with ⟨-, rfl⟩ | ⟨hentered, gs, rfl, hgs⟩
      · cases hmeets
      · have he := getD_mem_of_entries_ne hentered
        exact ⟨_, he, helement hc he hgs (hunpruned _ hv) hmeets⟩

/-! ## Base conditions -/

/-- A base condition that no field takes the place of is there, in a branch and wherever a leaf
is. -/
lemma run_base (hrun : Run base start (entriesAll ctx cs) fs)
    (hstart : start = base ∨ hasLeaf (entriesAll ctx cs) = true) (hv : get? base k = some v)
    (hk : ∀ leaves, .field k leaves ∉ cs) : get? fs k = some v := by
  have hnamed := hrun.sound.named _ (mem_of_get? hv)
  have hand := ne_of_named hnamed (k := "$and") (by simp [treeKeys])
  have hor := ne_of_named hnamed (k := "$or") (by simp [treeKeys])
  have hvalues : valuesAt k (entriesAll ctx cs) = [] := by
    by_contra hne
    obtain ⟨c, hc, hkey, -⟩ := exists_of_filterMap_ne_nil (fun c hc => valuesAt_of_key_ne hc) hne
    cases c with
    | field key leaves =>
      cases hkey
      exact hk leaves hc
    | logic isOr elements =>
      cases isOr
      · exact hand hkey.symm
      · exact hor hkey.symm
  rw [enterAll_untouched hrun.slotless hand hor hvalues hrun.enters]
  rcases hstart with rfl | hleaf
  · rw [Option.or_self, ite_self, hv]
  · rw [if_pos hleaf, hv]
    rcases hrun.get?_start k with h | h
    · rw [h]
      rfl
    · rw [h, hv]
      rfl

/-- **An index query from which nothing was dropped demands the base conditions**, apart from
those that a field at the top takes the place of. -/
lemma base_of_meets (hsound : Sound ctx base true cs) (hfull : Full ctx cs) (hne : cs ≠ [])
    (hrun : Run base [] (entriesAll ctx cs) fs)
    (hpruned : (prune (.obj fs)).2 = false) (hmeets : d.meets (prune (.obj fs)).1)
    (hv : get? base k = some v) (hk : ∀ leaves, .field k leaves ∉ cs) : d.meetsKey k v := by
  have hnamed := hrun.sound.named _ (mem_of_get? hv)
  have hand := ne_of_named hnamed (k := "$and") (by simp [treeKeys])
  have hor := ne_of_named hnamed (k := "$or") (by simp [treeKeys])
  obtain ⟨-, -, hlogics⟩ := id hsound
  rw [meets_prune_clauses hsound hrun] at hmeets
  obtain ⟨hkeys, hands, hors⟩ := hmeets
  cases hleaf : hasLeaf (entriesAll ctx cs) with
  | true => exact hkeys k v hand hor (run_base hrun (.inr hleaf) hv hk)
  | false =>
    -- without a leaf at the top there is a branch, and each branch starts from the base
    have hbranch : ∀ {isOr elements e gs}, .logic isOr elements ∈ cs → e ∈ elements →
        enterAll base base (entriesAll ctx e) = some gs → d.meets (prune (.obj gs)).1 →
        d.meetsKey k v := by
      intro isOr elements e gs hmem he hgs hmeets
      have hsound := hlogics isOr elements hmem e he
      have hgs := hsound.run hrun.sound (.inr rfl) hgs
      rw [meets_prune_clauses hsound hgs] at hmeets
      refine hmeets.1 k v hand hor (run_base hgs (.inl rfl) hv fun leaves hfield => ?_)
      obtain ⟨-, hfields, -⟩ := hsound
      have hc : contains base k = true := contains_iff.2 (mem_keys.2 ⟨v, mem_of_get? hv⟩)
      cases ((hfields k leaves hfield).base hc).1
    obtain ⟨c, hc⟩ := exists_mem_of_ne_nil _ hne
    have hentries := hfull.entries_ne_nil c hc
    cases c with
    | field key leaves =>
      rw [entries_field] at hentries
      obtain ⟨e, he⟩ := exists_mem_of_ne_nil _ hentries
      have hmem : e ∈ entriesAll ctx cs := by
        rw [entriesAll_eq]
        exact mem_flatMap.2 ⟨_, hc, by rwa [entries_field]⟩
      obtain ⟨w, -, rfl⟩ := mem_map.1 he
      exact absurd rfl (any_eq_false.1 hleaf _ hmem)
    | logic isOr elements =>
      obtain ⟨items, hitems, hbranches⟩ := run_logic hsound hrun hc hentries
      cases isOr with
      | false =>
        obtain ⟨p, hp⟩ := exists_inBranch_logic hentries
        obtain ⟨gs, hw, hgs⟩ := (hbranches p).exists_obj hp
        have hmem := mem_of_getElem? hw
        exact hbranch hc (getD_mem_of_entries_ne hp) hgs (hands items hitems _ hmem rfl)
      | true =>
        obtain ⟨w, hw, hmeets⟩ := hors items hitems ((prune_unpruned hpruned).1 items hitems)
        obtain ⟨p, hp⟩ := getElem?_of_mem hw
        rcases Branch.cases_some (hp ▸ hbranches p) with ⟨-, rfl⟩ | ⟨hentered, gs, rfl, hgs⟩
        · cases hmeets
        · exact hbranch hc (getD_mem_of_entries_ne hentered) hgs hmeets

end Conduit.Match
