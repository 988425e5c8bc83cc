import Conduit.Proofs.Handover
import Conduit.Proofs.LiftedMatch
import Conduit.Proofs.NarrowingFixpoint
import Conduit.Proofs.Places

/-!
# What alternatives leave

An `$or` leaves what one of its branches leaves: a node that is a candidate after a branch alone is
one after the `$or`, as the same node or as the copy that another model has
(`alternatives_keep_nodes`).  This needs the
branches to agree on which discriminators they mention.  A branch that is silent about a
discriminator leaves all documents of a set, but inside `$or` it is judged by what the others say
about it.
-/

namespace Conduit

open List

/-! ## Copies -/

namespace Catalog

/-- Nodes that narrowing does not tell apart. -/
structure Copies (c : Catalog) (m n : NodeId) : Prop where
  isDiscriminator : c.isDiscriminator m = c.isDiscriminator n
  governor? : c.governor? m = c.governor? n
  documentName : c.documentName m = c.documentName n

variable {c : Catalog} {models : List ModelId} {path q : String} {n : NodeId}

lemma Copies.refl (n : NodeId) : c.Copies n n := ⟨rfl, rfl, rfl⟩

lemma mem_qualifiedPaths_foldl : ∀ ids found : List NodeId,
    q ∈ (ids.foldl c.addGathered found).map (fun n => (c.node n).qualifiedPath) ↔
      (q ∈ found.map fun n => (c.node n).qualifiedPath) ∨
        q ∈ ids.map fun n => (c.node n).qualifiedPath
  | [], found => by simp
  | id :: rest, found => by
    rw [foldl_cons, mem_qualifiedPaths_foldl rest, qualifiedPaths_addGathered, map_cons, mem_cons]
    split
    · next hin =>
      constructor
      · exact Or.imp_right .inr
      · rintro (h | rfl | h)
        · exact .inl h
        · exact .inl hin
        · exact .inr h
    · rw [mem_append, mem_singleton, or_assoc]

lemma mem_qualifiedPaths_gatherNodes :
    q ∈ (c.gatherNodes models path).map (fun n => (c.node n).qualifiedPath) ↔
      ∃ m ∈ models, q ∈ (c.findNodes m path).map fun n => (c.node n).qualifiedPath := by
  rw [gatherNodes_eq, mem_qualifiedPaths_foldl]
  simp only [map_nil, not_mem_nil, false_or, mem_map, mem_flatMap]
  constructor
  · rintro ⟨n, ⟨m, hm, hn⟩, rfl⟩
    exact ⟨m, hm, n, hn, rfl⟩
  · rintro ⟨m, hm, n, hn, rfl⟩
    exact ⟨n, ⟨m, hm, hn⟩, rfl⟩

/-- More models have a node for each qualified path that fewer have. -/
lemma exists_gathered {models' : List ModelId} (hmodels : ∀ m ∈ models, m ∈ models')
    (h : n ∈ c.gatherNodes models path) :
    ∃ n' ∈ c.gatherNodes models' path, (c.node n').qualifiedPath = (c.node n).qualifiedPath := by
  obtain ⟨m, hm, hq⟩ := mem_qualifiedPaths_gatherNodes.1 (mem_map_of_mem h)
  exact mem_map.1 (mem_qualifiedPaths_gatherNodes.2 ⟨m, hmodels m hm, hq⟩)

lemma gathered_inj {m : NodeId} (hm : m ∈ c.gatherNodes models path)
    (hn : n ∈ c.gatherNodes models path) (h : (c.node m).qualifiedPath = (c.node n).qualifiedPath) :
    m = n :=
  inj_on_of_nodup_map (nodup_qualifiedPaths_gatherNodes models path) hm hn h

end Catalog

namespace Match

open Candidate (status)

/-! ## Branches -/

lemma admits_copies {c : Catalog} {ps qs : List Candidate} {m n : NodeId} (h : c.Copies m n)
    (hallows : c.discriminatorAllows ps m = true → c.discriminatorAllows qs n = true)
    {demand : Demand} (hadmits : demand.admits c ps m = true) : demand.admits c qs n = true := by
  rw [Demand.admits, h.isDiscriminator, h.documentName] at hadmits
  rw [Demand.admits]
  split at hadmits
  · next hdiscriminator => rwa [if_pos hdiscriminator]
  · next hdiscriminator => rw [if_neg hdiscriminator, hallows hadmits]

lemma discriminatorAllows_nil (c : Catalog) (id : NodeId) : c.discriminatorAllows [] id = true := by
  simp [Catalog.discriminatorAllows_iff, paths]

section

variable {ctx : Context} {models models' : List ModelId} {t u w : Narrowing}
  {once twice once' twice' : List Candidate}
  (hfirst : Realizes ctx models [] t (.ok once)) (hsecond : Realizes ctx models once t (.ok twice))
  (hfirst' : Realizes ctx models' [] w (.ok once'))
  (hsecond' : Realizes ctx models' once' w (.ok twice'))
  (hw : ∀ leaf silent path, w.verdict leaf silent path =
    Junction.disj.join (t.verdict leaf silent path) (u.verdict leaf silent path)) {n : NodeId}

include hfirst hfirst' hw

/-- The first round of alternatives leaves what that of a branch leaves. -/
lemma branch_stays_once {path : String} {m : NodeId} (h : status once path m = some true)
    (hn : n ∈ ctx.catalog.gatherNodes models' path) (hcopies : ctx.catalog.Copies m n) :
    status once' path n = some true := by
  have hverdict := hfirst.status rfl path m
  rw [h] at hverdict
  have hbranch : t.verdict (leafVerdict ctx models' [] path n) (status [] path n) path =
      some true := by
    refine (Narrowing.verdict_mono (fun demand hdemand => ?_) (.inr (.inl rfl)) t).eq_true
      hverdict.symm
    rw [leafVerdict, Bool.and_eq_true] at hdemand ⊢
    exact ⟨contains_iff_mem.2 hn, admits_copies hcopies
      (fun _ => discriminatorAllows_nil _ _) hdemand.2⟩
  rw [hfirst'.status rfl, hw, hbranch, Junction.disj_join_true]

variable (hmodels : ∀ m ∈ models, m ∈ models')
  (hcopies : ∀ path, ∀ m ∈ ctx.catalog.gatherNodes models path,
    ∀ n ∈ ctx.catalog.gatherNodes models' path,
      (ctx.catalog.node n).qualifiedPath = (ctx.catalog.node m).qualifiedPath →
        ctx.catalog.Copies m n)
  {path : String} {m : NodeId} (hgovernor : ∀ governor, ctx.catalog.governor? m = some governor →
    governor ∈ paths once' → governor ∈ paths once)

include hmodels hcopies hgovernor

/-- What the discriminators allow after the first round of a branch, they allow after that of the
alternatives. -/
lemma branch_allowed (hmn : ctx.catalog.Copies m n)
    (h : ctx.catalog.discriminatorAllows once m = true) :
    ctx.catalog.discriminatorAllows once' n = true := by
  rw [Catalog.discriminatorAllows_iff] at h ⊢
  rw [← hmn.governor?, ← hmn.documentName]
  intro governor name hgov hname hmentioned
  obtain ⟨x, hx, hxname⟩ := h governor name hgov hname (hgovernor governor hgov hmentioned)
  have hxin := contains_iff_mem.1 (contains_of_left hfirst hx)
  obtain ⟨y, hy, hxy⟩ := Catalog.exists_gathered hmodels hxin
  have hcopy := hcopies governor x hxin y hy hxy
  exact ⟨y, branch_stays_once hfirst hfirst' hw hx hy hcopy, hcopy.documentName ▸ hxname⟩

include hsecond hsecond'

/-- The second round of alternatives leaves what that of a branch leaves. -/
lemma branch_stays (h : status twice path m = some true)
    (hn : n ∈ ctx.catalog.gatherNodes models' path) (hmn : ctx.catalog.Copies m n) :
    status twice' path n = some true := by
  have hbefore := left_before hfirst hsecond h
  have hafter := branch_stays_once hfirst hfirst' hw hbefore hn hmn
  have hverdict := hsecond.status rfl path m
  rw [h, hbefore] at hverdict
  have hbranch : t.verdict (leafVerdict ctx models' once' path n) (status once' path n) path =
      some true := by
    rw [hafter]
    refine (Narrowing.verdict_mono (fun demand hdemand => ?_) (.inr (.inl rfl)) t).eq_true
      hverdict.symm
    rw [leafVerdict_of_status hbefore] at hdemand
    rw [leafVerdict_of_status hafter]
    exact admits_copies hmn (branch_allowed hfirst hfirst' hw hmodels hcopies hgovernor hmn) hdemand
  rw [hsecond'.status rfl, hw, hbranch, Junction.disj_join_true]

/-- **Alternatives leave what a branch leaves**, if the discriminator that decides is mentioned by
the branch or by none. -/
lemma branch_kept (h : status twice path m = some true) :
    (∃ n ∈ ctx.catalog.gatherNodes models' path,
      (ctx.catalog.node n).qualifiedPath = (ctx.catalog.node m).qualifiedPath ∧
        status twice' path n = some true) ∧
    (m ∈ ctx.catalog.gatherNodes models' path → status twice' path m = some true) := by
  have hstays := fun n => branch_stays hfirst hsecond hfirst' hsecond' hw hmodels hcopies hgovernor
    (n := n) h
  have hin := contains_iff_mem.1 (contains_of_left hfirst (left_before hfirst hsecond h))
  obtain ⟨n, hn, hpath⟩ := Catalog.exists_gathered hmodels hin
  exact ⟨⟨n, hn, hpath, hstays n hn (hcopies path m hin n hn hpath)⟩,
    fun hm => hstays m hm (.refl m)⟩

end

/-- The paths that two rounds leave are those that the formula mentions. -/
lemma mem_paths_twice {ctx : Context} {models : List ModelId} {t : Narrowing}
    {once twice : List Candidate} (hfirst : Realizes ctx models [] t (.ok once))
    (hsecond : Realizes ctx models once t (.ok twice)) (path : String) :
    (path ∈ paths twice ↔ path ∈ paths once) ∧
      (path ∈ paths once ↔ (t.verdict (fun _ => true) none path).isSome = true) := by
  refine ⟨?_, ?_⟩
  · rw [← Candidate.isSome_status 0, ← Candidate.isSome_status 0,
      isSome_status_twice hfirst hsecond]
  · rw [← Candidate.isSome_status 0, hfirst.status rfl]
    exact ⟨Narrowing.isSome_verdict_mono id t, Narrowing.isSome_verdict_mono id t⟩

/-! ## Stages -/

variable {ctx : Context} {fs : Fields} {v : Operand}

/-- The conditions of an object are read at the top as anywhere else. -/
lemma parse_obj (h : parse ctx (.obj fs) = .ok v) :
    ∃ cs, v = .expression cs ∧ parseFields ctx (Site.root StageKind.match.key) fs = .ok cs := by
  simp only [parse, except_bind_ok_iff, parseExpression] at h
  obtain ⟨gs, hgs, _, -, cs, hcs, h⟩ := h
  cases hgs
  cases h
  exact ⟨cs, rfl, hcs⟩

lemma parse_or {a b : Fields} (h : parse ctx (.obj [("$or", .arr [.obj a, .obj b])]) = .ok v) :
    ∃ cs ds, v = .expression [("$or", .array [.expression cs, .expression ds])] ∧
      parseFields ctx ((Site.root StageKind.match.key).child "$or") a = .ok cs ∧
      parseFields ctx ((Site.root StageKind.match.key).child "$or") b = .ok ds := by
  obtain ⟨es, rfl, hes⟩ := parse_obj h
  have hop : Path.isOperator "$or" = true := by decide +kernel
  simp only [parseFields, hop, if_true, parseOperator, except_bind_ok_iff] at hes
  obtain ⟨first, ⟨op, hchecked, hfirst⟩, tail, htail, hes⟩ := hes
  cases htail
  cases hes
  have hor : op = .or := Option.some.inj ((checkOperator_ok hchecked).1.symm.trans (by decide +kernel))
  subst hor
  simp only [parseConditions, Context.placeholder?, parseExpression, except_bind_ok_iff] at hfirst
  obtain ⟨elements, ⟨v, ⟨_, -, cs, hcs, hv⟩, rest, ⟨w, ⟨_, -, ds, hds, hw⟩, rest', hrest', hrest⟩,
    helements⟩, hfirst⟩ := hfirst
  cases hv
  cases hw
  cases hrest'
  cases hrest
  cases helements
  cases hfirst
  exact ⟨cs, ds, rfl, hcs, hds⟩

lemma names_or (stage : String) :
    names ((Site.root stage).child "$or") = names (Site.root stage) := by
  have hsegments : (Path.segments "$or").filter Path.namesProperty = [] := by decide +kernel
  rw [names_child, hsegments, append_nil]

lemma matchOp?_or (s : Site) : (s.child "$or").matchOp? = some .or := by
  have hkey : MatchOp.ofKey? "$or" = some .or := by decide +kernel
  exact hkey

lemma expressionModels_or {stage : String} {cs ds : Children}
    {models found left right : List ModelId} (h : expressionModels ctx (Site.root stage)
      [("$or", .array [.expression cs, .expression ds])] models = .ok found)
    (hleft : expressionModels ctx (Site.root stage) cs models = .ok left)
    (hright : expressionModels ctx (Site.root stage) ds models = .ok right) (m : ModelId) :
    m ∈ found ↔ m ∈ left ∨ m ∈ right := by
  have hsame : ∀ {es gs found}, expressionModels ctx (Site.root stage) es models = .ok found →
      childrenModels ctx ((Site.root stage).child "$or") models es = .ok gs →
      intersectModels gs = found := by
    intro es gs found hfound hgs
    obtain ⟨hs, hhs, rfl⟩ := except_functor_map_ok_iff.1 hfound
    obtain ⟨_, hhs', rfl⟩ := childrenModels_lifts (.refl ctx.checks) (names_or stage) es _ hgs
    rw [Except.ok.inj (hhs'.symm.trans hhs)]
  obtain ⟨groups, hgroups, rfl⟩ := except_functor_map_ok_iff.1 h
  simp only [childrenModels, except_bind_ok_iff, childModels, matchOp?_or,
    except_functor_map_ok_iff, elementsModels] at hgroups
  obtain ⟨_, ⟨_, ⟨gs, hgs, _, ⟨hs, hhs, _, hnil, hrest⟩, hboth⟩, rfl⟩, _, hnil', hgroups⟩ := hgroups
  cases hnil
  cases hrest
  cases hboth
  cases hnil'
  cases hgroups
  rw [hsame hleft hgs, hsame hright hhs, intersectModels, foldl_nil, mem_unionModels]
  simp

lemma verdict_or (stage : String) (cs ds : Children) (leaf : Demand → Bool)
    (silent : Option Bool) (path : String) : (componentNarrowing (Site.root stage)
      (.expression [("$or", .array [.expression cs, .expression ds])])).verdict leaf silent path =
    Junction.disj.join
      ((componentNarrowing (Site.root stage) (.expression cs)).verdict leaf silent path)
      ((componentNarrowing (Site.root stage) (.expression ds)).verdict leaf silent path) := by
  have hbelow : ∀ es, narrowingsBelow ((Site.root stage).child "$or") es =
      narrowingsBelow (Site.root stage) es := fun es => narrowingsBelow_samePlace es (names_or stage)
  simp only [componentNarrowing, narrowingsBelow, narrowing, matchOp?_or, narrowingsAmong, hbelow]
  rw [Narrowing.verdict_joined, map_singleton, Narrowing.verdict_joined]
  simp

/-- The runs that make up a compiled match of an object, where no property is narrowed yet. -/
lemma compile_realizes (hempty : ctx.properties = []) {out : StageOutput}
    (h : (compile ctx (.obj fs)).result = .ok out) : ∃ cs once,
      parse ctx (.obj fs) = .ok (.expression cs) ∧
      expressionModels ctx (Site.root ctx.kind.key) cs ctx.models = .ok out.models ∧
      Realizes ctx out.models [] (componentNarrowing (Site.root ctx.kind.key) (.expression cs))
        (.ok once) ∧
      Realizes ctx out.models once (componentNarrowing (Site.root ctx.kind.key) (.expression cs))
        (.ok out.properties) := by
  obtain ⟨v, once, -, -, hparse, hmodels, honce, htwice, -⟩ := compile_rounds h
  obtain ⟨cs, rfl, -⟩ := parse_obj hparse
  rw [hempty] at honce
  have hround : ∀ {qs}, Candidate.Distinct qs → Realizes ctx out.models qs
      (componentNarrowing (Site.root ctx.kind.key) (.expression cs))
      (componentProperties ctx (Site.root ctx.kind.key) out.models (.expression cs) qs).result :=
    fun hqs => componentProperties_realizes hqs _ _
  have hnil : Candidate.Distinct [] := ⟨nodup_nil, fun _ h => by cases h⟩
  have hdonce := ((hround hnil).clean honce).toDistinct
  exact ⟨cs, once, hparse, hmodels, honce ▸ hround hnil, htwice ▸ hround hdonce⟩

/-- **An `$or` leaves what its branches leave.**  Each of three matches compiles against the same
models, with no property narrowed before: two objects, and the `$or` of both.  The `$or` mentions
the paths that one of them mentions.  A node that one of them alone leaves for a path is left by the
`$or`, or the node stands for it that has its qualified path among the models of the `$or`; this
holds if the path of the discriminator that the node depends on is mentioned by both branches or by
none, and if nodes with one qualified path are copies of each other. -/
theorem alternatives_keep_nodes {ctx : Context} (hempty : ctx.properties = []) {a b : Fields}
    {out outA outB : StageOutput}
    (hor : (compile ctx (.obj [("$or", .arr [.obj a, .obj b])])).result = .ok out)
    (ha : (compile ctx (.obj a)).result = .ok outA) (hb : (compile ctx (.obj b)).result = .ok outB)
    (hcopies : ∀ path, ∀ m ∈ ctx.catalog.gatherNodes outA.models path ++
        ctx.catalog.gatherNodes outB.models path,
      ∀ n ∈ ctx.catalog.gatherNodes out.models path,
        (ctx.catalog.node n).qualifiedPath = (ctx.catalog.node m).qualifiedPath →
          ctx.catalog.Copies m n)
    (path : String) :
    (path ∈ paths out.properties ↔ path ∈ paths outA.properties ∨ path ∈ paths outB.properties) ∧
    ∀ m, status outA.properties path m = some true ∨ status outB.properties path m = some true →
      (∀ governor, ctx.catalog.governor? m = some governor →
        (governor ∈ paths outA.properties ↔ governor ∈ paths outB.properties)) →
      (∃ n ∈ ctx.catalog.gatherNodes out.models path,
        (ctx.catalog.node n).qualifiedPath = (ctx.catalog.node m).qualifiedPath ∧
          status out.properties path n = some true) ∧
      (m ∈ ctx.catalog.gatherNodes out.models path → status out.properties path m = some true) := by
  obtain ⟨cs, onceA, hparseA, hmodelsA, hfirstA, hsecondA⟩ := compile_realizes hempty ha
  obtain ⟨ds, onceB, hparseB, hmodelsB, hfirstB, hsecondB⟩ := compile_realizes hempty hb
  obtain ⟨es, once, hparse, hmodels, hfirst, hsecond⟩ := compile_realizes hempty hor
  -- the branches are read inside `$or` as they are alone
  obtain ⟨cs', ds', hes, hcs, hds⟩ := parse_or hparse
  cases Operand.expression.inj hes
  obtain ⟨_, heq, hcs'⟩ := parse_obj hparseA
  cases heq
  obtain ⟨_, heq, hds'⟩ := parse_obj hparseB
  cases heq
  cases (concur_readsInStep ctx).parseFields trivial a hcs hcs'
  cases (concur_readsInStep ctx).parseFields trivial b hds hds'
  have hsub := expressionModels_or hmodels hmodelsA hmodelsB
  have hw := verdict_or ctx.kind.key cs ds
  have hA := mem_paths_twice hfirstA hsecondA
  have hB := mem_paths_twice hfirstB hsecondB
  have hmentions : ∀ p, p ∈ paths once ↔ p ∈ paths onceA ∨ p ∈ paths onceB := fun p => by
    rw [(mem_paths_twice hfirst hsecond p).2, (hA p).2, (hB p).2, hw, Narrowing.isSome_join,
      Bool.or_eq_true]
  refine ⟨?_, fun m hm hgovernor => ?_⟩
  · rw [(mem_paths_twice hfirst hsecond path).1, hmentions, (hA path).1, (hB path).1]
  rcases hm with hm | hm
  · refine branch_kept hfirstA hsecondA hfirst hsecond hw (fun x hx => (hsub x).2 (.inl hx))
      (fun p x hx => hcopies p x (mem_append_left _ hx)) (fun g hg hgin => ?_) hm
    have hiff := hgovernor g hg
    rw [(hA g).1, (hB g).1] at hiff
    exact ((hmentions g).1 hgin).elim id hiff.2
  · refine branch_kept hfirstB hsecondB hfirst hsecond
      (fun leaf silent p => (hw leaf silent p).trans (Junction.join_comm _ _ _))
      (fun x hx => (hsub x).2 (.inr hx)) (fun p x hx => hcopies p x (mem_append_right _ hx))
      (fun g hg hgin => ?_) hm
    have hiff := hgovernor g hg
    rw [(hA g).1, (hB g).1] at hiff
    exact ((hmentions g).1 hgin).elim hiff.1 id

/-- The shelves, in relaxed mode. -/
def shelfStage : Context :=
  { shelfContext with options := { object := "c_shelf", skipIndexChecks := true } }

def anyShelf (a b : Fields) : Json := .obj [("$or", .arr [.obj a, .obj b])]

def shelfOfA : Fields := [("c_s.name", .str "a"), ("c_s.c_v", .str "5")]

def shelfOfB : Fields := [("c_s.name", .str "b"), ("c_s.c_v", .str "6")]

/-- Either branch leaves the value of its own document, and their `$or` leaves both. -/
theorem shelf_alternatives_keep_both : ∃ out outA outB,
    (compile shelfStage (anyShelf shelfOfA shelfOfB)).result = .ok out ∧
    (compile shelfStage (.obj shelfOfA)).result = .ok outA ∧
    (compile shelfStage (.obj shelfOfB)).result = .ok outB ∧
    status outA.properties "c_s.c_v" 7 = some true ∧
    status outA.properties "c_s.c_v" 10 = some false ∧
    status outB.properties "c_s.c_v" 10 = some true ∧
    status out.properties "c_s.c_v" 7 = some true ∧
    status out.properties "c_s.c_v" 10 = some true := by
  obtain ⟨out, hout, hmodels⟩ : ∃ out,
      (compile shelfStage (anyShelf shelfOfA shelfOfB)).result = .ok out ∧ out.models = [0] :=
    exists_eq_ok_and (by decide +kernel)
  obtain ⟨outA, houtA, hmodelsA, hpathsA, hA7, hA10⟩ : ∃ out,
      (compile shelfStage (.obj shelfOfA)).result = .ok out ∧ out.models = [0] ∧
      paths out.properties = ["c_s.name", "c_s.c_v"] ∧
      status out.properties "c_s.c_v" 7 = some true ∧
      status out.properties "c_s.c_v" 10 = some false :=
    exists_eq_ok_and (by decide +kernel)
  obtain ⟨outB, houtB, hmodelsB, hpathsB, hB10⟩ : ∃ out,
      (compile shelfStage (.obj shelfOfB)).result = .ok out ∧ out.models = [0] ∧
      paths out.properties = ["c_s.name", "c_s.c_v"] ∧
      status out.properties "c_s.c_v" 10 = some true :=
    exists_eq_ok_and (by decide +kernel)
  have hnodes : shelfStage.catalog.gatherNodes [0] "c_s.c_v" = [7, 10] := by decide +kernel
  have hkeep := @alternatives_keep_nodes shelfStage rfl _ _ _ _ _ hout houtA houtB (by
    rw [hmodels, hmodelsA, hmodelsB]
    intro path m hm n hn hpath
    rw [Catalog.gathered_inj hn (by simpa using hm) hpath]
    exact .refl m) "c_s.c_v"
  rw [hpathsA, hpathsB, hmodels, hnodes] at hkeep
  exact ⟨out, outA, outB, hout, houtA, houtB, hA7, hA10, hB10,
    (hkeep.2 7 (.inl hA7) fun _ _ => .rfl).2 (by decide),
    (hkeep.2 10 (.inr hB10) fun _ _ => .rfl).2 (by decide)⟩

/-- A value in a document of any name. -/
def shelfOfAny : Fields := [("c_s.c_v", .str "6")]

/-- **A branch that is silent about a discriminator loses to one that is not.**  The second branch
leaves the values of both documents and says nothing about their names.  The `$or` leaves only the
name and the value of the document that the first branch names. -/
theorem silent_branch_loses_nodes : ∃ out outB,
    (compile shelfStage (anyShelf shelfOfA shelfOfAny)).result = .ok out ∧
    (compile shelfStage (.obj shelfOfA)).result.isOk = true ∧
    (compile shelfStage (.obj shelfOfAny)).result = .ok outB ∧ "c_s.name" ∉ paths outB.properties ∧
    9 ∈ shelfStage.catalog.gatherNodes out.models "c_s.name" ∧
    status out.properties "c_s.name" 9 = some false ∧
    status outB.properties "c_s.c_v" 10 = some true ∧
    status out.properties "c_s.c_v" 10 = some false := by
  obtain ⟨out, hout, hname, hname9, hvalue10⟩ : ∃ out,
      (compile shelfStage (anyShelf shelfOfA shelfOfAny)).result = .ok out ∧
      9 ∈ shelfStage.catalog.gatherNodes out.models "c_s.name" ∧
      status out.properties "c_s.name" 9 = some false ∧
      status out.properties "c_s.c_v" 10 = some false :=
    exists_eq_ok_and (by decide +kernel)
  obtain ⟨outB, houtB, hsilent, hB10⟩ : ∃ out,
      (compile shelfStage (.obj shelfOfAny)).result = .ok out ∧
      "c_s.name" ∉ paths out.properties ∧ status out.properties "c_s.c_v" 10 = some true :=
    exists_eq_ok_and (by decide +kernel)
  exact ⟨out, outB, hout, by decide +kernel, houtB, hsilent, hname, hname9, hB10, hvalue10⟩

end Match

end Conduit
