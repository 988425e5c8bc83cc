import Conduit.Schema.Index
import Mathlib.Data.List.Nodup
import Mathlib.Data.List.Perm.Subperm

/-!
# The search in the tree of indexes

A search shares what it has found between the branches and ends early once it has found as much as
was asked for.  It finds the paths asked for at the end of a way through the tree that uses each key
at most once (`find_finds`), and the ways through the tree are the beginnings of the indexes
(`mem_covered`).
-/

namespace Conduit.IndexTree

open List

/-- Whether the tree has a way along `fields`. -/
def Holds : List String → IndexTree → Prop
  | [], _ => True
  | field :: rest, .node children =>
    ∃ branch, children.lookup field = some branch ∧ Holds rest branch

/-- A way to `path` uses up keys, none of them more often than it is there. -/
def Reaches (t : IndexTree) (keys : List String) (path : String) : Prop :=
  ∃ fields, Holds (fields ++ [path]) t ∧ fields ++ [path] <+~ keys

/-! ## Building the tree -/

lemma lookup_setChild (field key : String) (branch : IndexTree)
    (children : List (String × IndexTree)) : (setChild field branch children).lookup key =
      if key = field then some branch else children.lookup key := by
  induction children with
  | nil => grind [setChild]
  | cons c rest ih => grind [setChild]

lemma holds_child {children : List (String × IndexTree)} {field : String} {rest l : List String} :
    Holds l ((IndexTree.node children).child field) ∨ l <+: rest ↔
      Holds (field :: l) (.node children) ∨ l <+: rest := by
  cases l with
  | nil => simp [Holds]
  | cons key l =>
    cases h : children.lookup field <;> simp [Holds, child, IndexTree.children, h, empty]

/-- One more index adds its beginnings to the ways through the tree. -/
lemma holds_add (fields : List String) : ∀ (l : List String) (t : IndexTree),
    Holds l (add fields t) ↔ Holds l t ∨ l <+: fields := by
  induction fields with
  | nil =>
    intro l t
    cases l <;> simp [add, Holds]
  | cons field rest ih =>
    rintro l ⟨children⟩
    cases l with
    | nil => simp [Holds]
    | cons key l =>
      by_cases hkey : key = field
      · subst hkey
        rw [prefix_cons_inj, ← holds_child, ← ih]
        simp [add, Holds, lookup_setChild, IndexTree.children]
      · simp [add, Holds, lookup_setChild, IndexTree.children, hkey]

lemma holds_ofIndexes {l : List String} (hl : l ≠ []) (ds : List IndexDefinition) :
    Holds l (ofIndexes ds) ↔ ∃ d ∈ ds, l <+: d.fields := by
  have hfold : ∀ t : IndexTree, Holds l (ds.foldl (fun t d => add d.fields t) t) ↔
      Holds l t ∨ ∃ d ∈ ds, l <+: d.fields := by
    induction ds with
    | nil => simp
    | cons d ds ih =>
      intro t
      rw [foldl_cons, ih, holds_add]
      simp [or_assoc]
  obtain ⟨key, l, rfl⟩ := exists_cons_of_ne_nil hl
  rw [ofIndexes, hfold]
  simp [Holds, empty]

/-! ## The keys that are left -/

/-- The keys whose positions are not used. -/
def unused (keys : List String) (used : List Nat) : List String :=
  (keys.zipIdx.filter (·.2 ∉ used)).map Prod.fst

lemma unused_nil (keys : List String) : unused keys [] = keys := by
  simp [unused]

lemma mem_unused {keys : List String} {used : List Nat} {field : String} :
    field ∈ unused keys used ↔ ∃ key ∈ keys.zipIdx, key.2 ∉ used ∧ key.1 = field := by
  simp [unused, and_assoc]

/-- A key that is used is gone once, whatever else has its name. -/
lemma unused_perm {keys : List String} {used : List Nat} {key : String × Nat}
    (hkey : key ∈ keys.zipIdx) (hfresh : key.2 ∉ used) :
    unused keys used ~ key.1 :: unused keys (key.2 :: used) := by
  have hpositions : (keys.zipIdx.map Prod.snd).Nodup := by
    rw [zipIdx_map_snd]
    exact nodup_range'
  have hnodup := hpositions.of_map
  have herase : (keys.zipIdx.filter (·.2 ∉ used)).erase key =
      keys.zipIdx.filter (·.2 ∉ key.2 :: used) := by
    rw [(hnodup.filter _).erase_eq_filter, filter_filter]
    refine filter_congr fun other hother => ?_
    have hsame : other.2 = key.2 → other = key := inj_on_of_nodup_map hpositions hother hkey
    grind
  rw [unused, unused, ← herase, ← map_cons]
  exact (perm_cons_erase (mem_filter.2 ⟨hkey, decide_eq_true hfresh⟩)).map Prod.fst

/-! ## The search -/

/-- What a search gives: what was found before, and of what is asked for all that `reached` holds
of. -/
structure Finds (checks found : List String) (reached : String → Prop) (out : List String) :
    Prop where
  nodup : out.Nodup
  mem : ∀ path, path ∈ out ↔ path ∈ found ∨ path ∈ checks ∧ reached path

variable {keys checks found : List String} {used : List Nat} {children : List (String × IndexTree)}

/-- Early exit: where as much is found as is asked for, all of it is. -/
lemma Finds.early {reached : String → Prop} (hnodup : found.Nodup) (hsub : found ⊆ checks)
    (hlength : found.length = checks.length) : Finds checks found reached found := by
  have hperm := (hnodup.subperm hsub).perm_of_length_le (Nat.le_of_eq hlength.symm)
  exact ⟨hnodup, fun path => ⟨.inl, Or.rec id fun h => hperm.mem_iff.2 h.1⟩⟩

/-- The search of a tree finds what the tree reaches, whatever was found before. -/
def Searched (keys checks : List String) (t : IndexTree) : Prop :=
  ∀ used found, found.Nodup → found ⊆ checks →
    Finds checks found (t.Reaches (unused keys used)) (find keys checks t used found)

/-- What is reached through one of the keys. -/
def Through (keys : List String) (children : List (String × IndexTree)) (used : List Nat)
    (key : String × Nat) (path : String) : Prop :=
  key.2 ∉ used ∧ ∃ branch, children.lookup key.1 = some branch ∧
    (path = key.1 ∨ branch.Reaches (unused keys (key.2 :: used)) path)

lemma lookup_findBelow (field : String) : (findBelow keys checks children).lookup field =
    (children.lookup field).map (find keys checks) := by
  induction children with
  | nil => rfl
  | cons c rest ih =>
    obtain ⟨name, branch⟩ := c
    cases h : field == name <;> simp [findBelow, lookup_cons, h, ih]

lemma visit_finds (used : List Nat) (hbelow : ∀ field branch, children.lookup field = some branch →
      Searched keys checks branch) (hnodup : found.Nodup) (hsub : found ⊆ checks)
    (key : String × Nat) : Finds checks found (Through keys children used key)
      (visit checks (findBelow keys checks children) used found key) := by
  have hskip (h : ∀ path, ¬Through keys children used key path) :
      Finds checks found (Through keys children used key) found :=
    ⟨hnodup, fun path => ⟨.inl, Or.rec id fun hpath => absurd hpath.2 (h path)⟩⟩
  rw [visit, lookup_findBelow]
  by_cases hused : key.2 ∈ used
  · rw [if_pos hused]
    exact hskip fun path h => h.1 hused
  rw [if_neg hused]
  cases hbranch : children.lookup key.1 with
  | none =>
    refine hskip fun path h => ?_
    obtain ⟨-, branch, hsome, -⟩ := h
    rw [hbranch] at hsome
    cases hsome
  | some branch =>
    have hthrough : ∀ path, Through keys children used key path ↔
        path = key.1 ∨ branch.Reaches (unused keys (key.2 :: used)) path := by
      simp [Through, hused, hbranch]
    have hsearch := hbelow key.1 branch hbranch (key.2 :: used)
    simp only [Option.map_some]
    split
    · next hasked =>
      have hasked' : found.insert key.1 ⊆ checks := by
        intro path hpath
        exact (mem_insert_iff.1 hpath).elim (· ▸ hasked) (@hsub _)
      obtain ⟨hout, hmem⟩ := hsearch _ hnodup.insert hasked'
      refine ⟨hout, fun path => ?_⟩
      rw [hmem, mem_insert_iff, hthrough]
      grind
    · next hother =>
      obtain ⟨hout, hmem⟩ := hsearch found hnodup hsub
      refine ⟨hout, fun path => ?_⟩
      rw [hmem, hthrough]
      grind

/-- The loop over the keys, by induction on those still to come: what one of them adds is there for
the next. -/
lemma foldl_visit_finds (used : List Nat)
    (hbelow : ∀ field branch, children.lookup field = some branch →
      Searched keys checks branch) (entries : List (String × Nat)) {found : List String}
    (hnodup : found.Nodup) (hsub : found ⊆ checks) :
    Finds checks found (fun path => ∃ key ∈ entries, Through keys children used key path)
      (entries.foldl (visit checks (findBelow keys checks children) used) found) := by
  induction entries generalizing found with
  | nil => exact ⟨hnodup, by simp⟩
  | cons key entries ih =>
    obtain ⟨hvisit, hmem⟩ := visit_finds used hbelow hnodup hsub key
    obtain ⟨hout, hrest⟩ := ih hvisit fun path hpath =>
      ((hmem path).1 hpath).elim (@hsub _) And.left
    refine ⟨hout, fun path => ?_⟩
    rw [foldl_cons, hrest, hmem]
    grind

/-- A way through a node begins with one of the keys. -/
lemma reaches_node {path : String} : (IndexTree.node children).Reaches (unused keys used) path ↔
    ∃ key ∈ keys.zipIdx, Through keys children used key path := by
  constructor
  · rintro ⟨_ | ⟨field, fields⟩, ⟨branch, hbranch, hbelow⟩, hfields⟩
    · obtain ⟨key, hkey, hfresh, rfl⟩ := mem_unused.1 (hfields.subset mem_cons_self)
      exact ⟨key, hkey, hfresh, branch, hbranch, .inl rfl⟩
    · obtain ⟨key, hkey, hfresh, rfl⟩ := mem_unused.1 (hfields.subset mem_cons_self)
      have hrest := (hfields.trans (unused_perm hkey hfresh).subperm)
      exact ⟨key, hkey, hfresh, branch, hbranch, .inr ⟨fields, hbelow, (subperm_cons _).1 hrest⟩⟩
  · rintro ⟨key, hkey, hfresh, branch, hbranch, rfl | ⟨fields, hbelow, hfields⟩⟩
    · refine ⟨[], ⟨branch, hbranch, trivial⟩, singleton_subperm_iff.2 ?_⟩
      exact mem_unused.2 ⟨key, hkey, hfresh, rfl⟩
    · exact ⟨key.1 :: fields, ⟨branch, hbranch, hbelow⟩,
        ((subperm_cons _).2 hfields).trans (unused_perm hkey hfresh).symm.subperm⟩

mutual

/-- **A search finds what the tree reaches.**  The induction is on the tree. -/
lemma find_finds (keys checks : List String) : ∀ t, Searched keys checks t
  | .node children => by
    intro used found hnodup hsub
    simp only [find]
    split
    · next hlength => exact .early hnodup hsub hlength
    · obtain ⟨hout, hmem⟩ :=
        foldl_visit_finds used (findBelow_finds keys checks children) keys.zipIdx hnodup hsub
      exact ⟨hout, fun path => by rw [hmem, reaches_node]⟩

lemma findBelow_finds (keys checks : List String) : ∀ (children : List (String × IndexTree)) field
    branch, children.lookup field = some branch → Searched keys checks branch
  | (name, below) :: rest, field, branch, h => by
    rw [lookup_cons] at h
    split at h
    · cases h
      exact find_finds keys checks below
    · exact findBelow_finds keys checks rest field branch h

end

/-- **A path is covered if it is asked for and an index leads to it along keys.** -/
lemma mem_covered {ds : List IndexDefinition} {path : String} :
    path ∈ (ofIndexes ds).covered keys checks ↔ path ∈ checks ∧
      ∃ d ∈ ds, ∃ fields, fields ++ [path] <+: d.fields ∧ fields ++ [path] <+~ keys := by
  rw [covered, (find_finds keys checks _ [] [] nodup_nil (nil_subset _)).mem, unused_nil, Reaches]
  simp only [holds_ofIndexes (concat_ne_nil _ _), not_mem_nil, false_or]
  grind

lemma covered_mono {ds ds' : List IndexDefinition} (h : ds ⊆ ds') (keys checks : List String) :
    (ofIndexes ds).covered keys checks ⊆ (ofIndexes ds').covered keys checks := by
  intro path hpath
  obtain ⟨hcheck, d, hd, hfields⟩ := mem_covered.1 hpath
  exact mem_covered.2 ⟨hcheck, d, h hd, hfields⟩

end Conduit.IndexTree
