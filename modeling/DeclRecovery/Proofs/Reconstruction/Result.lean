import DeclRecovery.Proofs.Reconstruction.Recovery
import DeclRecovery.Proofs.Shapes

/-!
The type that comes out of a reconstruction. Every slot and every constructor of the completed type is changed by itself
(`Recovery.type_eq`): a slot gets the value that the plan hoists into it, a constructor loses the stores that go there, both
are written in shape, and the notes on how they are written come from the classification and the decision.
-/

namespace DeclRecovery

namespace TypeDecl

@[simp] theorem completed_slots (t : TypeDecl) : t.completed.slots = t.slots := by
  unfold completed
  split <;> rfl

theorem completed_initializers (t : TypeDecl) : t.completed.initializers = t.initializers := by
  rw [initializers, completed_slots, initializers]

theorem completed_lowered (t : TypeDecl) (c : Constructor) : t.completed.lowered c = t.lowered c := by
  rw [lowered, lowered, completed_initializers]

/-- A constructor of the completed type is one of the type or the implicit one. -/
theorem getElem?_completed {t : TypeDecl} {id : CtorId} {c : Constructor} (hc : t.completed.constructors[id]? = some c) :
    t.constructors[id]? = some c ∨ c = t.implicitConstructor := by
  unfold completed at hc
  split at hc
  · exact Or.inl hc
  · rw [pushConstructor, List.getElem?_append] at hc
    split at hc
    · exact Or.inl hc
    · exact Or.inr (List.mem_singleton.mp (List.mem_of_getElem? hc))

theorem getElem?_completed_of_some {t : TypeDecl} {id : CtorId} {c : Constructor} (hc : t.constructors[id]? = some c) :
    t.completed.constructors[id]? = some c := by
  unfold completed
  split
  · exact hc
  · rw [pushConstructor, List.getElem?_append_left (List.getElem?_eq_some_iff.mp hc).1, hc]

theorem declaresConstructor_completed (t : TypeDecl) : t.completed.declaresConstructor = true := by
  unfold completed
  split
  · assumption
  · simp [declaresConstructor, pushConstructor, implicitConstructor, Constructor.isDeclared]

end TypeDecl

namespace Plan

variable {p : Plan} {withoutZeros : Bool} {t : TypeDecl}

theorem bare_carriedOut : (p.carriedOut withoutZeros t).bare = p.carriedOut withoutZeros t.bare := by
  unfold carriedOut
  split
  · rw [TypeDecl.bare_dropZeros, TypeDecl.bare_hoist]
  · exact TypeDecl.bare_hoist p t

/-- The initializer that a slot gets from a plan. -/
def initializer (p : Plan) (withoutZeros : Bool) (slot : SlotId) (given : Option Expr) : Option Expr :=
  if withoutZeros && (p.hoisted.find? slot).any Expr.isZero then none else (p.hoisted.find? slot).or given

theorem getElem?_carriedOut_slots {i : SlotId} : (p.carriedOut withoutZeros t).slots[i]? =
    t.slots[i]?.map fun s => { s with initializer := p.initializer withoutZeros i s.initializer } := by
  cases withoutZeros with
  | false =>
    rw [carriedOut, if_neg Bool.false_ne_true, getElem?_hoist_slots]
    congr 1
    funext s
    cases hfind : p.hoisted.find? i <;> simp [initializer, hfind]
  | true =>
    rw [carriedOut, if_pos rfl, TypeDecl.dropZeros]
    simp only [List.getElem?_mapIdx, getElem?_hoist_slots, Option.map_map]
    congr 1
    funext s
    cases hfind : p.hoisted.find? i with
    | none => simp [initializer, hfind]
    | some value => cases hzero : value.isZero <;> simp [initializer, hfind, hzero]

theorem length_carriedOut_constructors : (p.carriedOut withoutZeros t).constructors.length = t.constructors.length := by
  unfold carriedOut
  split <;> simp [TypeDecl.dropZeros, hoist]

theorem getElem?_carriedOut_constructors {id : CtorId} : (p.carriedOut withoutZeros t).constructors[id]? =
    t.constructors[id]?.map fun c => { c with body := p.remaining id c.body } := by
  unfold carriedOut
  split
  · exact getElem?_hoist_constructors
  · exact getElem?_hoist_constructors

theorem remaining_sublist (p : Plan) (id : CtorId) (body : List Stmt) : (p.remaining id body).Sublist body := by
  have h := (List.filter_sublist (p := fun x => !p.removes id x.2) (l := body.zipIdx)).map Prod.fst
  rwa [List.zipIdx_map_fst] at h

/-- Hoisting leaves the chain as it is. -/
theorem Hoists.build_carriedOut {roots : List CtorId} {chain : Chain} (hp : p.Hoists t roots)
    (h : Chain.build t = .ok chain) : Chain.build (p.carriedOut withoutZeros t) = .ok chain := by
  refine Chain.build_congr h (fun id => ?_) fun id c c' hc hc' => ?_
  · rw [getElem?_carriedOut_constructors]
    cases hc : t.constructors[id]? with
    | none => rfl
    | some c => rw [Option.map_some, Option.map_some, Option.map_some, hp.chainTarget? hc]; rfl
  · rw [getElem?_carriedOut_constructors, hc, Option.map_some, Option.some_inj] at hc'
    subst hc'
    refine ⟨(p.remaining_sublist id c.body).countP_le, fun hflat => ?_⟩
    rw [List.any_eq_false] at hflat ⊢
    exact fun s hs => hflat s ((p.remaining_sublist id c.body).subset hs)

end Plan

theorem TypeDecl.withForms_eq_ok_iff {forms : PosMap Form} {t t' : TypeDecl} : t.withForms forms = .ok t' ↔
    t' = t.mapForms (fun i c => (forms.find? i).getD c.form) ∧ ∀ id ∈ forms.keys, id < t.constructors.length := by
  have hctor : ∀ id, discard (t.constructor id) = .ok ⟨⟩ ↔ id < t.constructors.length := discard_nth_eq_ok_iff
  rw [withForms, bind_eq_ok_iff]
  constructor
  · rintro ⟨⟨⟩, hkeys, h⟩
    exact ⟨(pure_eq_ok_iff.mp h).symm, fun id hid => (hctor id).mp (forM_eq_ok_iff.mp hkeys id hid)⟩
  · rintro ⟨rfl, hkeys⟩
    exact ⟨⟨⟩, forM_eq_ok_iff.mpr fun id hid => (hctor id).mpr (hkeys id hid), rfl⟩

namespace Classification

/-- The form that a classification gives to a constructor. -/
def formOf (cls : Classification) (options : Options) (id : CtorId) (c : Constructor) : Form :=
  (cls.elided.find? id).getD
    (if options.elideDefaultConstructors ∧ c.form = .elided ∧ c.isDeclared then .explicit else c.form)

theorem apply_eq_ok_iff {options : Options} {cls : Classification} {t t' : TypeDecl} : cls.apply options t = .ok t' ↔
    t' = { t.mapForms (cls.formOf options) with aggregateKind := some cls.kind } ∧
      ∀ id ∈ cls.elided.keys, id < t.constructors.length := by
  rw [apply, TypeDecl.withForms_eq_ok_iff]
  by_cases helide : options.elideDefaultConstructors = true
  · simp [helide, TypeDecl.mapForms, formOf, List.mapIdx_mapIdx, Function.comp_def]
  · simp [helide, TypeDecl.mapForms, formOf]

end Classification

namespace Decision

/-- The forms of the constructors that go with a primary one, which is among them. -/
def forms : Decision → PosMap Form
  | synthesized root overloads => overloads.add root .primary
  | notApplicable | rejected _ => .empty

/-- The form that a decision gives to a constructor that has a form already. -/
def formOf : Decision → CtorId → Form → Form
  | synthesized root overloads, id, form => ((synthesized root overloads).forms.find? id).getD form
  | notApplicable, _, form | rejected _, _, form => if form = .primary ∨ form = .forwarding then .explicit else form

/-- How a slot is declared next to a primary constructor, or without one. -/
def dispositionOf : Decision → Slot → Disposition
  | synthesized .., s =>
    match s.kind, s.compilerGenerated, s.initializer with
    | .field, true, some (.param i) => .captured i
    | _, _, _ => s.disposition
  | notApplicable, _ | rejected _, _ => .declared

def primary? : Decision → Option CtorId
  | synthesized root _ => some root
  | notApplicable | rejected _ => none

theorem exists_eq_synthesized {d : Decision} {root : CtorId} (h : d.primary? = some root) :
    ∃ forms, d = synthesized root forms := by
  cases d with
  | synthesized root' forms =>
    cases h
    exact ⟨forms, rfl⟩
  | notApplicable | rejected => cases h

section NoPrimary

variable {d : Decision} (h : d.primary? = none)
include h

theorem formOf_of_primary?_eq_none (id : CtorId) (form : Form) :
    d.formOf id form = if form = .primary ∨ form = .forwarding then .explicit else form := by
  cases d with
  | synthesized => cases h
  | notApplicable | rejected => rfl

theorem dispositionOf_of_primary?_eq_none (s : Slot) : d.dispositionOf s = .declared := by
  cases d with
  | synthesized => cases h
  | notApplicable | rejected => rfl

theorem plan_of_primary?_eq_none (extraction : Extraction) : d.plan extraction = extraction.withoutPrimary := by
  cases d with
  | synthesized => cases h
  | notApplicable | rejected => rfl

end NoPrimary

/-- The type with what a decision notes in it. -/
def note (d : Decision) (t : TypeDecl) : TypeDecl :=
  { t with
    slots := t.slots.map fun s => { s with disposition := d.dispositionOf s }
    constructors := t.constructors.mapIdx fun id c => { c with form := d.formOf id c.form }
    primaryConstructor := d.primary? }

theorem note_synthesized (root : CtorId) (overloads : PosMap Form) (t : TypeDecl) :
    (synthesized root overloads).note t = TypeDecl.markCaptured
      { t.mapForms fun i c => (((overloads.add root .primary).find? i).getD c.form) with
        primaryConstructor := some root } := by
  simp only [note, TypeDecl.markCaptured, TypeDecl.mapForms]
  congr 1
  refine List.map_congr_left fun s _ => ?_
  obtain ⟨_, kind, _, _, _, generated, initializer, _⟩ := s
  cases kind with
  | property => rfl
  | field =>
    cases generated with
    | false => rfl
    | true =>
      cases initializer with
      | none => rfl
      | some e => cases e <;> rfl

theorem clearPrimary_eq {d : Decision} (h : d.primary? = none) (t : TypeDecl) : t.clearPrimary = d.note t := by
  have hctors : (t.constructors.map fun c =>
      if c.form = .primary ∨ c.form = .forwarding then { c with form := .explicit } else c) =
        t.constructors.mapIdx fun id c => { c with form := d.formOf id c.form } := by
    refine List.ext_getElem? fun id => ?_
    rw [List.getElem?_map, List.getElem?_mapIdx]
    congr 1
    funext c
    rw [formOf_of_primary?_eq_none h]
    split <;> rfl
  simp only [TypeDecl.clearPrimary, note, hctors, h, dispositionOf_of_primary?_eq_none h]

theorem apply_eq_ok_iff {d : Decision} {t t' : TypeDecl} : d.apply t = .ok t' ↔
    t' = d.note t ∧ ∀ id ∈ d.forms.keys, id < t.constructors.length := by
  cases d with
  | synthesized root overloads =>
    rw [apply, bind_eq_ok_iff, note_synthesized]
    simp only [TypeDecl.withForms_eq_ok_iff, pure_eq_ok_iff]
    constructor
    · rintro ⟨_, ⟨rfl, hkeys⟩, rfl⟩
      exact ⟨rfl, hkeys⟩
    · rintro ⟨rfl, hkeys⟩
      exact ⟨_, ⟨rfl, hkeys⟩, rfl⟩
  | notApplicable | rejected =>
    rw [apply, pure_eq_ok_iff, ← clearPrimary_eq, eq_comm]
    · simp [forms]
    · rfl

end Decision

theorem Plan.carriedOut_eq (p : Plan) (withoutZeros : Bool) (t : TypeDecl) : p.carriedOut withoutZeros t = { t with
    slots := t.slots.mapIdx fun i s => { s with initializer := p.initializer withoutZeros i s.initializer }
    constructors := t.constructors.mapIdx fun id c => { c with body := p.remaining id c.body } } := by
  have hslots : (p.carriedOut withoutZeros t).slots =
      t.slots.mapIdx fun i s => { s with initializer := p.initializer withoutZeros i s.initializer } :=
    List.ext_getElem? fun i => by rw [getElem?_carriedOut_slots, List.getElem?_mapIdx]
  rw [← hslots]
  unfold carriedOut
  split <;> rfl

namespace Recovery

variable {options : Options} {t : TypeDecl} (r : Recovery options t)

/-- What becomes of a slot. -/
def slotOf (i : SlotId) (s : Slot) : Slot :=
  let hoisted := { s with initializer := r.plan.initializer r.classification.dropZeroInitializers i s.initializer }
  { s with
    initializer := hoisted.initializer.map (·.shape options)
    disposition := r.decision.dispositionOf hoisted }

/-- What becomes of a constructor. -/
def constructorOf (id : CtorId) (c : Constructor) : Constructor :=
  { c with
    body := Stmt.shapeBlock options (r.plan.remaining id c.body)
    form := r.decision.formOf id (r.classification.formOf options id c) }

theorem type_eq : r.type = { t.completed with
    slots := t.slots.mapIdx r.slotOf
    constructors := t.completed.constructors.mapIdx r.constructorOf
    aggregateKind := some r.classification.kind
    primaryConstructor := r.decision.primary? } := by
  rw [type, (Decision.apply_eq_ok_iff.mp r.decided_eq).1, (Classification.apply_eq_ok_iff.mp r.formed_eq).1,
    Plan.carriedOut_eq, Decision.note, TypeDecl.shape]
  simp only [TypeDecl.mapForms, TypeDecl.completed_slots, List.mapIdx_mapIdx]
  congr 1
  · rw [List.map_map]
    refine List.ext_getElem? fun i => ?_
    simp only [List.getElem?_map, List.getElem?_mapIdx, Option.map_map]
    rfl
  · refine List.ext_getElem? fun id => ?_
    simp only [List.getElem?_map, List.getElem?_mapIdx, Option.map_map]
    rfl

theorem length_slots : r.type.slots.length = t.slots.length := by
  rw [r.type_eq, List.length_mapIdx]

theorem length_constructors : r.type.constructors.length = t.completed.constructors.length := by
  rw [r.type_eq, List.length_mapIdx]

/-- Apart from notes, the result is the completed type with the plan carried out and everything in its shape. -/
theorem bare_type : r.type.bare =
    ((r.plan.carriedOut r.classification.dropZeroInitializers t.completed).shape options).bare := by
  rw [type, TypeDecl.bare_shape, TypeDecl.bare_shape, TypeDecl.bare_decide r.decided_eq, Plan.bare_carriedOut,
    Plan.bare_carriedOut, r.bare_formed]
  rfl

theorem getElem?_type_slots (i : SlotId) : r.type.slots[i]? = t.slots[i]?.map (r.slotOf i) := by
  rw [r.type_eq, List.getElem?_mapIdx]

theorem getElem?_type_constructors (id : CtorId) :
    r.type.constructors[id]? = t.completed.constructors[id]?.map (r.constructorOf id) := by
  rw [r.type_eq, List.getElem?_mapIdx]

theorem type_slot {i : SlotId} {s : Slot} (hs : t.completed.slots[i]? = some s) : r.type.slots[i]? = some (r.slotOf i s) := by
  rw [TypeDecl.completed_slots] at hs
  rw [r.getElem?_type_slots, hs]
  rfl

theorem type_constructor {id : CtorId} {c : Constructor} (hc : t.completed.constructors[id]? = some c) :
    r.type.constructors[id]? = some (r.constructorOf id c) := by
  rw [r.getElem?_type_constructors, hc]
  rfl

theorem exists_of_mem_constructors {c' : Constructor} (hc' : c' ∈ r.type.constructors) :
    ∃ id c, t.completed.constructors[id]? = some c ∧ c' = r.constructorOf id c := by
  obtain ⟨id, hid⟩ := List.getElem?_of_mem hc'
  rw [r.getElem?_type_constructors] at hid
  obtain ⟨c, hc, heq⟩ := Option.map_eq_some_iff.mp hid
  exact ⟨id, c, hc, heq.symm⟩

/-- An initializer is the shape of a value that is hoisted or was there before. -/
theorem exists_of_mem_initializers {slot : SlotId} {e : Expr} (he : (slot, e) ∈ r.type.initializers) :
    ∃ v, e = v.shape options ∧ (r.plan.hoisted.find? slot = some v ∨ (slot, v) ∈ t.initializers) := by
  obtain ⟨s', hs', hinit⟩ := TypeDecl.mem_initializers.mp he
  rw [r.getElem?_type_slots] at hs'
  obtain ⟨s, hs, rfl⟩ := Option.map_eq_some_iff.mp hs'
  obtain ⟨v, hv, hshape⟩ := Option.map_eq_some_iff.mp hinit
  refine ⟨v, hshape.symm, ?_⟩
  dsimp only at hv
  rw [Plan.initializer] at hv
  split at hv
  · cases hv
  · rcases Option.or_eq_some_iff.mp hv with hv | ⟨-, hv⟩
    · exact Or.inl hv
    · exact Or.inr (TypeDecl.mem_initializers.mpr ⟨s, hs, hv⟩)

theorem completed_type : r.type.completed = r.type := by
  have hdeclares : r.type.declaresConstructor = true := by
    obtain ⟨c, hc, hdeclared⟩ := List.any_eq_true.mp (TypeDecl.declaresConstructor_completed t)
    obtain ⟨id, hid⟩ := List.getElem?_of_mem hc
    exact List.any_eq_true.mpr ⟨_, List.mem_of_getElem? (r.type_constructor hid), hdeclared⟩
  rw [TypeDecl.completed, if_pos hdeclares]

theorem build_type : Chain.build r.type = .ok r.chain :=
  Chain.build_of_bare_eq r.bare_type (Chain.build_shape (r.plan_hoists.build_carriedOut r.chain_eq))

theorem getElem?_formed_constructors (id : CtorId) : r.formed.constructors[id]? =
    t.completed.constructors[id]?.map fun c => { c with form := r.classification.formOf options id c } := by
  rw [(Classification.apply_eq_ok_iff.mp r.formed_eq).1, TypeDecl.mapForms, List.getElem?_mapIdx]

theorem formed_slots : r.formed.slots = t.slots := by
  rw [(Classification.apply_eq_ok_iff.mp r.formed_eq).1, TypeDecl.mapForms, TypeDecl.completed_slots]

theorem formed_layout : r.formed.layout = t.completed.layout := by
  rw [(Classification.apply_eq_ok_iff.mp r.formed_eq).1, TypeDecl.mapForms]

theorem type_layout : r.type.layout = t.completed.layout := by
  rw [r.type_eq]

end Recovery

end DeclRecovery
