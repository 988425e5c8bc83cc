import Conduit.Proofs.BlindCatalog
import Conduit.Proofs.Journal

/-!
# Schemas that differ in index data

`SchemaDefinition.blind` erases what a schema says about indexes: the `indexed`, `slot` and
`nativeIndex` traits of its properties, at any depth, and its list of indexes.  Two schemas that
are equal after that load to catalogs that are equal after that (`Catalog.ofDefinition_alike`),
since either catalog is, after that, one function of the common schema (`ofDefinition_blind`).
-/

namespace Conduit

/-! ## What a schema says about indexes -/

/-- The traits of a property without what they say about indexes. -/
def PropertyTraits.blind (t : PropertyTraits) : PropertyTraits :=
  { t with indexed := false, slot := none, nativeIndex := false }

namespace PropertyDefinition

mutual

/-- A declared property without what it says about indexes. -/
def blind : PropertyDefinition → PropertyDefinition
  | ⟨traits, properties, documents⟩ => ⟨traits.blind, blindAll properties, blindDocuments documents⟩

/-- The properties without what they say about indexes. -/
def blindAll : List PropertyDefinition → List PropertyDefinition
  | [] => []
  | p :: rest => blind p :: blindAll rest

/-- The documents of a set without what they say about indexes. -/
def blindDocuments : List (String × List PropertyDefinition) →
    List (String × List PropertyDefinition)
  | [] => []
  | (name, properties) :: rest => (name, blindAll properties) :: blindDocuments rest

end

lemma blindAll_eq_map (ps : List PropertyDefinition) : blindAll ps = ps.map blind := by
  induction ps with
  | nil => rfl
  | cons p rest ih => rw [blindAll, ih, List.map_cons]

lemma name_blind (p : PropertyDefinition) : p.blind.traits.name = p.traits.name := by
  cases p
  rfl

end PropertyDefinition

open PropertyDefinition

/-- A type without what it says about indexes. -/
def TypeDefinition.blind (t : TypeDefinition) : TypeDefinition :=
  { t with properties := blindAll t.properties }

/-- An object without what it says about indexes. -/
def ObjectDefinition.blind (o : ObjectDefinition) : ObjectDefinition :=
  { o with properties := blindAll o.properties, types := o.types.map TypeDefinition.blind }

/-- A schema without what it says about indexes. -/
def SchemaDefinition.blind (s : SchemaDefinition) : SchemaDefinition where
  objects := s.objects.map ObjectDefinition.blind
  indexes := []

/-! ## Loading -/

/-- Where the first run gives a result, the second gives its image. -/
def Carries {ε α β : Type} (f : α → β) (x : Except ε α) (y : Except ε β) : Prop :=
  ∀ a, x = .ok a → y = .ok (f a)

namespace Carries

variable {ε α β γ δ : Type} {f : α → β} {g : γ → δ} {x : Except ε α} {y : Except ε β}

lemma pure (a : α) : Carries f (pure a : Except ε α) (pure (f a)) := by
  rintro _ ⟨⟩
  rfl

lemma bind {k : α → Except ε γ} {k' : β → Except ε δ} (h : Carries f x y)
    (hk : ∀ a, Carries g (k a) (k' (f a))) : Carries g (x >>= k) (y >>= k') := by
  intro c hc
  obtain ⟨a, ha, hc⟩ := except_bind_ok_iff.mp hc
  rw [h a ha]
  exact hk a c hc

lemma guard {c : Prop} [Decidable c] {e : ε} {k : PUnit → Except ε α} {k' : PUnit → Except ε β}
    (h : Carries f x y) :
    Carries f (if c then throw e >>= k else x) (if c then throw e >>= k' else y) := by
  split
  · rintro _ ⟨⟩
  · exact h

end Carries

namespace Catalog.Draft

variable (d : Draft)

/-- The nodes of a draft without what they say about indexes. -/
@[simps] def blind (d : Draft) : Draft := { nodes := d.nodes.map Node.blind }

lemma push_blind (n : Node) : (d.push n).2.blind = (d.blind.push n.blind).2 := by
  simp [push, blind]

lemma adopt_blind (id : NodeId) (children : List NodeId) :
    (d.adopt id children).blind = d.blind.adopt id children := by
  simp only [adopt, blind, mk.injEq, and_self, and_true]
  refine Array.ext (by simp) fun i h h' => ?_
  simp only [Array.getElem_map, Array.getElem_modify]
  split <;> rfl

lemma slot_nodes {d e : Draft} {path slot : String} {wanted : Option String}
    (h : d.slot path wanted = .ok (slot, e)) : e.nodes = d.nodes := by
  unfold Draft.slot at h
  split at h
  · split at h
    · cases h
      rfl
    · cases h
  · split at h
    · cases h
      rfl
    · cases h
      rfl

/-- A node is added with its traits but for what these say about indexes. -/
lemma addNode_blind (place : Place) (t : PropertyTraits) :
    Carries (Prod.map Node.blind blind) (d.addNode place t) (d.blind.addNode place t.blind) := by
  refine .guard ?_
  dsimp only [PropertyTraits.blind]
  cases PropertyType.ofName? t.type with
  | none => rintro _ ⟨⟩
  | some type =>
    by_cases hindexed : t.indexed = true
    · rintro r h
      simp only [hindexed, if_true] at h
      obtain ⟨⟨slot, e⟩, hslot, hok⟩ := except_bind_ok_iff.mp h
      cases hok
      simp [blind, Node.blind, slot_nodes hslot]
      rfl
    · rintro r h
      simp only [hindexed, Bool.false_eq_true, if_false] at h
      cases h
      simp [blind, Node.blind]
      rfl

mutual

lemma addProperty_blind (place : Place) : ∀ (p : PropertyDefinition) (d : Draft),
    Carries (Prod.map id blind) (addProperty place p d) (addProperty place p.blind d.blind)
  | ⟨t, ps, docs⟩, d => by
    rw [addProperty, PropertyDefinition.blind, addProperty]
    refine (addNode_blind d place t).bind fun (n, d) => ?_
    dsimp only [Prod.map, Node.blind]
    cases n.type with
    | document =>
      refine (addProperties_blind _ ps d).bind fun (ids, d) => ?_
      dsimp only [Prod.map]
      rw [id, ← adopt_blind]
      exact .pure _
    | set =>
      refine (addDocuments_blind _ _ docs d).bind fun (ids, d) => ?_
      dsimp only [Prod.map]
      rw [id, ← adopt_blind]
      exact .pure _
    | _ => exact .pure _

lemma addProperties_blind (place : Place) : ∀ (ps : List PropertyDefinition) (d : Draft),
    Carries (Prod.map id blind) (addProperties place ps d) (addProperties place (blindAll ps) d.blind)
  | [], d => .pure _
  | p :: ps, d => by
    rw [addProperties, blindAll, addProperties]
    exact (addProperty_blind place p d).bind fun (_, d) =>
      (addProperties_blind place ps d).bind fun _ => .pure _

lemma addDocuments_blind (place : Place) (key : String) :
    ∀ (ps : List (String × List PropertyDefinition)) (d : Draft),
      Carries (Prod.map id blind) (addDocuments place key ps d)
        (addDocuments place key (blindDocuments ps) d.blind)
  | [], d => .pure _
  | (name, ps) :: rest, d => by
    have hany : ((blindAll ps).any fun p => p.traits.name == key) =
        ps.any fun p => p.traits.name == key := by
      simp only [blindAll_eq_map, List.any_map, Function.comp_def, name_blind]
    rw [addDocuments, blindDocuments, addDocuments, hany]
    refine .guard ?_
    -- what follows the discriminator, which is added to the documents that do not declare it
    have htail : ∀ (inside : Place) (n : NodeId) (first : List NodeId) (d d' : Draft),
        d.blind = d' → Carries (Prod.map id blind) (addProperties inside ps d >>= fun c =>
            addDocuments place key rest (c.2.adopt n (first ++ c.1)) >>= fun r => pure (n :: r.1, r.2))
          (addProperties inside (blindAll ps) d' >>= fun c =>
            addDocuments place key (blindDocuments rest) (c.2.adopt n (first ++ c.1)) >>=
              fun r => pure (n :: r.1, r.2)) := by
      rintro inside n first d _ rfl
      refine (addProperties_blind inside ps d).bind fun (ids, d) => ?_
      dsimp only [Prod.map]
      rw [id, ← adopt_blind]
      exact (addDocuments_blind place key rest _).bind fun _ => .pure _
    simp only [blind_nodes, Array.size_map]
    split
    · exact htail _ _ [] _ _ (d.push_blind _)
    · have hnode := fun n => addNode_blind (d.push n).2
      simp only [push_blind] at hnode
      exact (hnode _ _ _).bind fun (m, d) => htail _ _ [m.id] d _ rfl

end

end Catalog.Draft

namespace Catalog.Loading

/-- The catalog so far without what it says about indexes, and no slots. -/
@[simps] def blind (l : Loading) : Loading := { catalog := l.catalog.blind }

lemma addModel_blind (l : Loading) (object : String) (type : Option String) (master : Bool)
    (shared specific : List PropertyDefinition) :
    Carries (Prod.map id blind) (l.addModel object type master shared specific)
      (l.blind.addModel object type master (blindAll shared) (blindAll specific)) := by
  unfold addModel
  simp only [blind_catalog, Catalog.blind, Array.size_map]
  have hshared := fun place n =>
    Draft.addProperties_blind place shared ⟨l.catalog.nodes.push n, l.slots, l.counter⟩
  simp only [Draft.blind, Array.map_push] at hshared
  refine (hshared _ _).bind fun (common, d) => ?_
  cases type with
  | none =>
    rintro _ ⟨⟩
    simp only [Prod.map, id, pure_bind, ← Draft.adopt_blind]
    rfl
  | some t =>
    refine (Draft.addProperties_blind _ specific d).bind fun (own, d) => ?_
    rintro _ ⟨⟩
    simp only [Prod.map, id, ← Draft.adopt_blind]
    rfl

lemma addTypes_blind (object : String) (shared : List PropertyDefinition) :
    ∀ (ts : List TypeDefinition) (l : Loading), Carries (Prod.map id blind)
      (addTypes object shared ts l)
      (addTypes object (blindAll shared) (ts.map TypeDefinition.blind) l.blind)
  | [], l => .pure _
  | t :: ts, l => by
    rw [List.map_cons, addTypes, addTypes]
    refine .guard ?_
    simp only [TypeDefinition.blind, blindAll_eq_map, List.find?_map, List.any_map,
      Function.comp_def, name_blind]
    simp only [← blindAll_eq_map]
    cases t.properties.find? fun p => shared.any fun q => q.traits.name == p.traits.name with
    | some p => rintro _ ⟨⟩
    | none =>
      exact (l.addModel_blind object (some t.name) false shared t.properties).bind fun (_, l) =>
        (addTypes_blind object shared ts l).bind fun _ => .pure _

/-- An object loaded with built-in properties that say nothing about indexes. -/
def addBlind (l : Loading) (o : ObjectDefinition) : Except Fault Loading := do
  let typed := !o.types.isEmpty
  let shared := blindAll (builtins typed) ++ o.properties
  let (master, l) ← addModel { catalog := l.catalog } o.name none typed shared []
  let (variants, l) ← addTypes o.name shared o.types l
  return { l with
    catalog := { l.catalog with
      objects := l.catalog.objects ++ [(o.name, master :: variants)] } }

lemma addObject_blind (l : Loading) (o : ObjectDefinition) :
    Carries blind (l.addObject o) (l.blind.addBlind o.blind) := by
  intro k hk
  obtain ⟨-, hk⟩ := except_guard_ok_iff.mp hk
  obtain ⟨-, hk⟩ := except_guard_ok_iff.mp hk
  split at hk
  · cases hk
  · revert hk
    have hshared : ∀ typed, blindAll (builtins typed) ++ blindAll o.properties =
        blindAll (builtins typed ++ o.properties) := by
      simp [blindAll_eq_map]
    simp only [addBlind, ObjectDefinition.blind, List.isEmpty_map, hshared]
    refine Carries.bind (addModel_blind { catalog := l.catalog } _ _ _ _ []) (fun (master, m) => ?_) k
    exact (addTypes_blind _ _ o.types m).bind fun _ => .pure _

end Catalog.Loading

/-- What a schema loads to, without index data, is a function of the schema without index data. -/
lemma Catalog.ofDefinition_blind (d : SchemaDefinition) : Carries Catalog.blind (ofDefinition d)
      (d.blind.objects.foldlM Loading.addBlind {} >>= fun l => pure l.catalog) := by
  have hfold : ∀ (os : List ObjectDefinition) (l : Loading), Carries Loading.blind
      (os.foldlM Loading.addObject l)
      ((os.map ObjectDefinition.blind).foldlM Loading.addBlind l.blind) := by
    intro os
    induction os with
    | nil => exact fun l => .pure l
    | cons o os ih =>
      intro l
      exact (l.addObject_blind o).bind ih
  have hempty : ({} : Loading).blind = {} := by simp [Loading.blind, Catalog.blind]
  have hobjects := hfold d.objects {}
  rw [hempty] at hobjects
  exact hobjects.bind fun l => .pure (f := Catalog.blind) { l.catalog with indexes := d.indexes }

/-- **Schemas that differ in index data load to catalogs that differ in index data.** -/
lemma Catalog.ofDefinition_alike {d d' : SchemaDefinition} (hd : d.blind = d'.blind)
    {c c' : Catalog} (hc : ofDefinition d = .ok c) (hc' : ofDefinition d' = .ok c') :
    c.blind = c'.blind := by
  have h := ofDefinition_blind d c hc
  rw [hd, ofDefinition_blind d' c' hc'] at h
  exact (Except.ok.inj h).symm

end Conduit
