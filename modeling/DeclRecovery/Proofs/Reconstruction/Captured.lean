import DeclRecovery.Proofs.Reconstruction.Scope
import DeclRecovery.Proofs.SideEffects
import DeclRecovery.TypeDecl.Printer

/-!
Slots that are not declared because a parameter of the primary constructor stands for them. Which ones these are depends
on their initializers alone. So other constructors may still use such a slot: those that hand over to another one, after
the call, and copy constructors (`TypeDecl.StaysWritten`). Nothing is hoisted out of them, so they use what they used
before.
-/

namespace DeclRecovery

/-- The statement stores into the slot or reads it, possibly inside of branches. -/
def Stmt.Uses (slot : SlotId) (s : Stmt) : Prop := s.stores slot = true ∨ s.Mentions (.member slot)

def Constructor.Uses (slot : SlotId) (c : Constructor) : Prop := ∃ s ∈ c.body, s.Uses slot

theorem Stmt.uses_iff {slot : SlotId} {s : Stmt} :
    s.Uses slot ↔ s.stores slot = true ∨ ∃ e ∈ s.exprs, slot ∈ e.footprint.members.toList := by
  have hmem : ∀ e : Expr, slot ∈ e.footprint.members.toList ↔ e.Mentions (.member slot) := fun _ => Expr.mem_members_iff
  simp only [Uses, Mentions, hmem]

instance (slot : SlotId) (s : Stmt) : Decidable (s.Uses slot) := decidable_of_iff _ Stmt.uses_iff.symm

instance (slot : SlotId) (c : Constructor) : Decidable (c.Uses slot) :=
  inferInstanceAs (Decidable (∃ s ∈ c.body, s.Uses slot))

/-- The constructors that are still written next to a primary one: those that hand over to another one, and copy
constructors other than the one that comes with a comparison by value. -/
def TypeDecl.StaysWritten (t : TypeDecl) (id : CtorId) (c : Constructor) : Prop :=
  c.isDeclared = true ∧ c.chainTarget? ≠ none ∨
    c.isDeclared = false ∧ isWritten c = true ∧
      ¬((∃ layout, Aggregate.classify t = .valueSemantic layout) ∧ Aggregate.copyConstructor? t = some id)

namespace Stmt

variable {options : Options} {slot : SlotId}

theorem mentions_member_shape (s : Stmt) : (s.shape options).Mentions (.member slot) ↔ s.Mentions (.member slot) := by
  simp only [Mentions, ← Expr.mem_members_iff]
  exact footprint_exprs_shape (Footprint.isAspect_members slot) (by simp) (by simp) s

theorem uses_shape (s : Stmt) : (s.shape options).Uses slot ↔ s.Uses slot := by
  rw [Uses, Uses, stores_shape, mentions_member_shape]

theorem exists_uses_shapeBlock {block : List Stmt} :
    (∃ s ∈ shapeBlock options block, s.Uses slot) ↔ ∃ s ∈ block, s.Uses slot := by
  simp [shapeBlock_eq, uses_shape]

/-- A call whose arguments do not look at the instance uses none of its slots. -/
theorem not_uses_chain {target : CtorId} {args : List Expr} (h : ∀ a ∈ args, a.IgnoresInstance) :
    ¬(chain target args).Uses slot := by
  rintro (hstores | ⟨a, ha, hmentions⟩)
  · cases hstores
  · exact (h a ha).2 slot hmentions

end Stmt

theorem Decision.dispositionOf_eq_captured_iff {d : Decision} {s : Slot} (hs : s.disposition = .declared) {i : Nat} :
    d.dispositionOf s = .captured i ↔ d.primary?.isSome = true ∧ s.kind = .field ∧ s.compilerGenerated = true ∧
      s.initializer = some (.param i) := by
  cases d with
  | synthesized root forms =>
    rw [dispositionOf]
    split
    · next hkind hgenerated hparam => simp [primary?, hkind, hgenerated, hparam]
    · next hother =>
      refine iff_of_false (by simp [hs]) ?_
      rintro ⟨-, hkind, hgenerated, hparam⟩
      exact hother i hkind hgenerated hparam
  | notApplicable | rejected => simp [dispositionOf, primary?]

namespace Recovery

variable {options : Options} {t : TypeDecl} (r : Recovery options t) {id : CtorId} {c : Constructor} {slot : SlotId}

theorem disposition_slotOf_eq_captured_iff {s : Slot} (hs : s.disposition = .declared) {i : Nat} :
    (r.slotOf slot s).disposition = .captured i ↔ r.type.primaryConstructor.isSome = true ∧
      (r.slotOf slot s).kind = .field ∧ (r.slotOf slot s).compilerGenerated = true ∧
      (r.slotOf slot s).initializer = some (.param i) := by
  let hoisted := { s with initializer := r.plan.initializer r.classification.dropZeroInitializers slot s.initializer }
  have hparam : (r.slotOf slot s).initializer = some (.param i) ↔ hoisted.initializer = some (.param i) := by
    simp [slotOf, hoisted, Expr.shape_eq_param_iff]
  have hdisposition : hoisted.disposition = .declared := hs
  rw [r.primaryConstructor_type, hparam]
  exact Decision.dispositionOf_eq_captured_iff hdisposition

/-! ### Constructors next to a primary one -/

section Synthesized

variable {root : CtorId} {forms : PosMap Form} (h : r.decision = .synthesized root forms)
include h

/-- The root has parameters, so it is not one that has been added. -/
theorem completed_of_synthesized : t.completed = t := by
  obtain ⟨c, hc, hdeclared, -, hparams, -⟩ := r.root_of_synthesized h
  rcases TypeDecl.getElem?_completed hc with hc | rfl
  · exact if_pos (List.any_eq_true.mpr ⟨c, List.mem_of_getElem? hc, hdeclared⟩)
  · rw [TypeDecl.implicitConstructor] at hparams
    split at hparams <;> exact absurd rfl hparams

theorem ne_root_of_isWritten (hwritten : TypeDecl.isWritten (r.constructorOf id c) = true) : id ≠ root := by
  rintro rfl
  rw [TypeDecl.isWritten, constructorOf, r.formOf_primary h] at hwritten
  cases hwritten

theorem chainTarget?_eq_none_iff (hc : t.completed.constructors[id]? = some c) (hdeclared : c.isDeclared = true) :
    c.chainTarget? = none ↔ id = root := by
  have hmem : id ∈ r.chain.roots ↔ _ := Chain.mem_roots_iff r.chain_eq
  rw [r.roots_of_synthesized h, List.mem_singleton, hc] at hmem
  simpa [hdeclared] using hmem.symm

theorem elidedDefault_of_synthesized : r.classification.elidedDefault = none := by
  rcases Classification.elidedDefault_cases r.classification_eq with ⟨hnone, -⟩ | ⟨id, c, -, hc, helides, -⟩
  · exact hnone
  · cases h.symm.trans (r.decision_of_parameterless helides.root hc helides.parameters)

/-- A copy constructor keeps the form that the classification gives to it. -/
theorem formOf_of_not_declared (hc : t.completed.constructors[id]? = some c) (hdeclared : c.isDeclared = false)
    (form : Form) : r.decision.formOf id form = form := by
  obtain ⟨-, -, -, -, -, -, listed, hlisted, rfl⟩ := r.decision_eq_synthesized_iff.mp h
  have horder : id ∉ r.chain.order := by
    intro hmem
    obtain ⟨c', hc', hdeclared'⟩ := (Chain.mem_order_iff r.chain_eq).mp hmem
    cases hc.symm.trans hc'
    cases hdeclared.symm.trans hdeclared'
  have hnone : (Decision.synthesized root (.ofList listed)).forms.find? id = none := by
    rw [← Option.not_isSome_iff_eq_none, PosMap.find?_isSome_iff, Decision.forms, PosMap.mem_keys_add,
      PosMap.mem_keys_ofList, Decision.map_fst_overloads hlisted, not_or]
    refine ⟨?_, fun hmem => horder (List.mem_of_mem_filter hmem)⟩
    rintro rfl
    obtain ⟨c', hc', hdeclared', -⟩ := r.root_of_synthesized h
    exact horder (Chain.mem_order r.chain_eq hc' hdeclared')
  rw [h, Decision.formOf, hnone]
  rfl

theorem isWritten_copy_iff (hc : t.completed.constructors[id]? = some c) (hdeclared : c.isDeclared = false) :
    TypeDecl.isWritten (r.constructorOf id c) = true ↔ TypeDecl.isWritten c = true ∧
      ¬((∃ layout, Aggregate.classify t.completed = .valueSemantic layout) ∧
        Aggregate.copyConstructor? t.completed = some id) := by
  have hkeys : id ∈ r.classification.elided.keys ↔ (∃ layout, Aggregate.classify t.completed = .valueSemantic layout) ∧
      Aggregate.copyConstructor? t.completed = some id := by
    obtain ⟨_, _, -, hclassification⟩ := Classification.of_eq_ok_iff.mp r.classification_eq
    rw [Classification.mem_keys_elided, r.elidedDefault_of_synthesized h, hclassification]
    simp
  have hform : (r.constructorOf id c).form = r.classification.formOf options id c :=
    r.formOf_of_not_declared h hc hdeclared _
  rw [← hkeys, TypeDecl.isWritten, hform, Classification.formOf]
  cases hfind : r.classification.elided.find? id with
  | none =>
    have hmem : id ∉ r.classification.elided.keys := by
      rw [← PosMap.find?_isSome_iff, hfind]
      simp
    simp [TypeDecl.isWritten, hdeclared, hmem]
  | some form =>
    cases Classification.eq_elided_of_find? hfind
    simp [PosMap.mem_keys_of_find? hfind]

theorem isWritten_constructorOf_iff (hc : t.completed.constructors[id]? = some c) :
    TypeDecl.isWritten (r.constructorOf id c) = true ↔ t.completed.StaysWritten id c := by
  cases hdeclared : c.isDeclared with
  | false => simp [TypeDecl.StaysWritten, hdeclared, r.isWritten_copy_iff h hc hdeclared]
  | true =>
    simp only [TypeDecl.StaysWritten, hdeclared, Ne, r.chainTarget?_eq_none_iff h hc hdeclared]
    by_cases hid : id = root
    · simpa [hid] using fun hwritten => r.ne_root_of_isWritten h hwritten hid
    · obtain ⟨_, _, _, _, -, -, -, -, ⟨hform, -⟩ | ⟨-, hform, -⟩⟩ := r.constructorOf_overload h hc hdeclared hid
      all_goals simp [TypeDecl.isWritten, hform, hid]

/-- Nothing is hoisted out of a constructor other than the root. -/
theorem uses_constructorOf_iff (hid : id ≠ root) : (r.constructorOf id c).Uses slot ↔ c.Uses slot := by
  have hother : id ∉ r.chain.roots := by simpa [r.roots_of_synthesized h] using hid
  rw [Constructor.Uses, constructorOf, r.plan_hoists.other id hother, Stmt.exists_uses_shapeBlock, Constructor.Uses]

theorem exists_uses_iff : (∃ c ∈ r.type.constructors, TypeDecl.isWritten c = true ∧ c.Uses slot) ↔
    ∃ id c, t.constructors[id]? = some c ∧ t.StaysWritten id c ∧ c.Uses slot := by
  have hcompleted := r.completed_of_synthesized h
  constructor
  · rintro ⟨c', hc', hwritten, huses⟩
    obtain ⟨id, c, hc, rfl⟩ := r.exists_of_mem_constructors hc'
    have hid := r.ne_root_of_isWritten h hwritten
    rw [r.isWritten_constructorOf_iff h hc] at hwritten
    rw [hcompleted] at hc hwritten
    exact ⟨id, c, hc, hwritten, (r.uses_constructorOf_iff h hid).mp huses⟩
  · rintro ⟨id, c, hc, hstays, huses⟩
    rw [← hcompleted] at hc hstays
    have hwritten := (r.isWritten_constructorOf_iff h hc).mpr hstays
    have hid := r.ne_root_of_isWritten h hwritten
    exact ⟨_, List.mem_of_getElem? (r.type_constructor hc), hwritten, (r.uses_constructorOf_iff h hid).mpr huses⟩

/-- In an overload, which begins with a call that leaves the instance alone, uses stand after that. -/
theorem copy_or_after_chain {c' : Constructor} (hc' : c' ∈ r.type.constructors)
    (hwritten : TypeDecl.isWritten c' = true) {s : Stmt} (hs : s ∈ c'.body) (huses : s.Uses slot) :
    c'.origin = .copy ∨ options.keepBodiedOverloads = true ∧ c'.form = .explicit ∧ s ∈ c'.body.tail := by
  obtain ⟨id, c, hc, rfl⟩ := r.exists_of_mem_constructors hc'
  cases horigin : (r.constructorOf id c).origin with
  | copy => exact Or.inl rfl
  | declared =>
    have hdeclared : c.isDeclared = true := beq_iff_eq.mpr horigin
    obtain ⟨_, _, args, rest, hbody, -, -, hargs, hform⟩ :=
      r.constructorOf_overload h hc hdeclared (r.ne_root_of_isWritten h hwritten)
    rw [hbody] at hs ⊢
    rcases List.mem_cons.mp hs with rfl | hs
    · exact absurd huses (Stmt.not_uses_chain hargs)
    · rcases hform with ⟨-, rfl⟩ | ⟨hkeep, hexplicit, -⟩
      · cases hs
      · exact Or.inr ⟨hkeep, hexplicit, hs⟩

end Synthesized

end Recovery

/-- A name is kept in a field that the compiler has made for it. -/
def TypeDecl.badge : TypeDecl where
  name := "Badge"
  layout := .byReference
  slots := [{ name := "<name>P", kind := .field, type := "string", accessibility := .isPrivate, compilerGenerated := true }]
  constructors := [{ parameters := [{ name := "name", type := "string" }], body := [.assign 0 (.param 0), .base []] },
    { parameters := [], body := [.chain 0 [.literal (.str "nobody")]] }]

/-- The badge with an overload that goes on to change the name. -/
def TypeDecl.badgeExtended : TypeDecl :=
  TypeDecl.badge.pushConstructor
    { parameters := [{ name := "first", type := "string" }, { name := "last", type := "string" }]
      body := [.chain 0 [.param 0], .assign 0 (.binary .add (.member 0) (.param 1))] }

/-- The badge with a constructor that copies one. -/
def TypeDecl.badgeCopied : TypeDecl :=
  TypeDecl.badge.pushConstructor
    { parameters := [{ name := "other", type := "Badge" }]
      body := [.base [], .assign 0 (.field (.param 0) "<name>P" false)]
      origin := .copy }

/-- Let all slots of a type be declared. In what comes out a slot has become a captured parameter exactly if there is a
primary constructor and the slot is a field that the compiler has made and that starts as the parameter. What is written
of the type uses such a slot exactly if a constructor did before that stays written. Such a use stands in a copy
constructor, or after the call in an overload that has been kept with its body. -/
theorem reconstruct_captures_iff {options : Options} {t t' : TypeDecl} {diagnostics : List Diagnostic}
    (hslots : ∀ s ∈ t.slots, s.disposition = .declared)
    (h : reconstruct options t = .ok ⟨t', .reconstructed, diagnostics⟩) {slot : SlotId} {s : Slot}
    (hs : t'.slots[slot]? = some s) (i : Nat) :
    (s.disposition = .captured i ↔ t'.primaryConstructor.isSome = true ∧ s.kind = .field ∧
        s.compilerGenerated = true ∧ s.initializer = some (.param i)) ∧
      (s.disposition = .captured i →
        ((∃ c ∈ t'.constructors, TypeDecl.isWritten c = true ∧ c.Uses slot) ↔
          ∃ id c, t.constructors[id]? = some c ∧ t.StaysWritten id c ∧ c.Uses slot) ∧
        ∀ c ∈ t'.constructors, TypeDecl.isWritten c = true → ∀ u ∈ c.body, u.Uses slot →
          c.origin = .copy ∨ options.keepBodiedOverloads = true ∧ c.form = .explicit ∧ u ∈ c.body.tail) := by
  obtain ⟨r, rfl⟩ := exists_reconstruct_iff.mp ⟨diagnostics, h⟩
  rw [r.getElem?_type_slots] at hs
  obtain ⟨s₀, hs₀, rfl⟩ := Option.map_eq_some_iff.mp hs
  have hcaptured : (r.slotOf slot s₀).disposition = .captured i ↔ _ :=
    r.disposition_slotOf_eq_captured_iff (hslots s₀ (List.mem_of_getElem? hs₀))
  refine ⟨hcaptured, fun hslot => ?_⟩
  obtain ⟨root, hroot⟩ := Option.isSome_iff_exists.mp (hcaptured.mp hslot).1
  rw [r.primaryConstructor_type] at hroot
  obtain ⟨forms, hdecision⟩ := Decision.exists_eq_synthesized hroot
  exact ⟨r.exists_uses_iff hdecision, fun c hc hwritten u hu => r.copy_or_after_chain hdecision hc hwritten hu⟩

/-- Nothing that is written of the badge uses the field. -/
theorem reconstruct_captures_iff_badge : ∃ t' diagnostics, (∀ s ∈ TypeDecl.badge.slots, s.disposition = .declared) ∧
    reconstruct {} .badge = .ok ⟨t', .reconstructed, diagnostics⟩ ∧
    ∃ s, t'.slots[0]? = some s ∧ s.disposition = .captured 0 ∧
      ¬∃ c ∈ t'.constructors, TypeDecl.isWritten c = true ∧ c.Uses 0 := by
  refine ⟨_, _, by decide, rfl, _, rfl, rfl, ?_⟩
  rw [((@reconstruct_captures_iff {} .badge _ _ (by decide) rfl 0 _ rfl 0).2 rfl).1]
  rintro ⟨id, c, hc, hwritten, huses⟩
  rcases id with _ | _ | id
  · cases hc
    rcases hwritten with ⟨-, hchain⟩ | ⟨hcopy, -⟩
    · exact hchain rfl
    · cases hcopy
  · cases hc
    exact absurd huses (by decide)
  · cases hc

/-- A field that is not declared is used in what is written: where overloads are kept with their bodies, by one that goes
on, and in any case by a copy constructor. -/
theorem reconstruct_hides_used_badge :
    ((∀ s ∈ TypeDecl.badgeExtended.slots, s.disposition = .declared) ∧ TypeDecl.badgeExtended.WellScoped ∧
      ∃ t' diagnostics,
        reconstruct { keepBodiedOverloads := true } .badgeExtended = .ok ⟨t', .reconstructed, diagnostics⟩ ∧
          t'.slots.map (·.disposition) = [.captured 0] ∧
          ∃ c ∈ t'.constructors, TypeDecl.isWritten c = true ∧ c.Uses 0) ∧
    (∀ s ∈ TypeDecl.badgeCopied.slots, s.disposition = .declared) ∧ TypeDecl.badgeCopied.WellScoped ∧
      ∃ t' diagnostics, reconstruct {} .badgeCopied = .ok ⟨t', .reconstructed, diagnostics⟩ ∧
        t'.slots.map (·.disposition) = [.captured 0] ∧
        ∃ c ∈ t'.constructors, TypeDecl.isWritten c = true ∧ c.Uses 0 :=
  ⟨⟨by decide, by decide, _, _, rfl, rfl, _, List.mem_of_getElem? (i := 2) rfl, rfl, by decide⟩,
    by decide, by decide, _, _, rfl, rfl, _, List.mem_of_getElem? (i := 2) rfl, rfl, by decide⟩

end DeclRecovery
