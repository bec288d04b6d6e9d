import DeclRecovery.Proofs.Reconstruction.Fixed
import DeclRecovery.Proofs.Reconstruction.Synthesis

/-!
Which declared constructors are left out. That is decided before anything is hoisted or dropped and from the plan without
a primary constructor. Still it can be read off the type that comes out: a constructor is left out exactly if there it
does nothing but what the language supplies (`TypeDecl.Omissible`).
-/

namespace DeclRecovery

/-- The slot starts with the zero of its type: there is no initializer, or a literal that changes nothing. -/
def Slot.StartsZeroed (s : Slot) : Prop :=
  s.initializer = none ∨ ∃ l : Literal, s.initializer = some (.literal l) ∧ l.isZero = true

/-- Without the constructor, which is the only one that hands over to no other one of the type, the language supplies one
that does the same. For a value type it leaves all slots zero, whatever other constructors there are; for any other
type it calls the base constructor, and it is supplied only if there is no other one. -/
structure TypeDecl.Omissible (t : TypeDecl) (id : CtorId) (c : Constructor) : Prop where
  root : c.chainTarget? = none
  alone : ∀ (j : CtorId) d, t.constructors[j]? = some d → d.isDeclared = true → d.chainTarget? = none → j = id
  parameters : c.parameters = []
  accessibility : c.accessibility = .isPublic
  body : t.layout = .byValue ∧ c.body = [] ∧ (∀ s ∈ t.slots, s.StartsZeroed) ∨
    t.layout = .byReference ∧ c.body = [.base []] ∧
      ∀ (j : CtorId) d, t.constructors[j]? = some d → d.isDeclared = true → j = id

theorem Plan.remaining_empty (id : CtorId) (body : List Stmt) : Plan.remaining {} id body = body :=
  remaining_of_removes (k := 0) (fun _ => rfl) body

namespace Classification

theorem startsZeroed_empty_iff {t : TypeDecl} : startsZeroed t {} = true ↔ ∀ s ∈ t.slots, s.StartsZeroed := by
  rw [startsZeroed_iff]
  constructor
  · intro h s hs
    obtain ⟨i, hi⟩ := List.getElem?_of_mem hs
    cases hv : s.initializer with
    | none => exact Or.inl hv
    | some v =>
      obtain ⟨l, rfl, hl⟩ := Expr.isZero_iff.mp (h i s v hi hv)
      exact Or.inr ⟨l, hv, hl⟩
  · intro h i s v hs hv
    have hv : s.initializer = some v := hv
    rcases h s (List.mem_of_getElem? hs) with hnone | ⟨l, hl, hzero⟩
    · cases hnone.symm.trans hv
    · cases hl.symm.trans hv
      exact Expr.isZero_iff.mpr ⟨l, rfl, hzero⟩

/-- The plan without effect shows what a type itself is like. -/
theorem elides_empty_iff {t : TypeDecl} {chain : Chain} (hchain : Chain.build t = .ok chain) {id : CtorId} {c : Constructor}
    (hc : t.constructors[id]? = some c) (hdeclared : c.isDeclared = true) :
    Elides t chain {} id c ↔ t.Omissible id c := by
  have hroot := Chain.root?_eq_some_iff_alone hchain hc hdeclared
  have hsole := Chain.length_order_eq_one_iff hchain hc hdeclared
  constructor
  · intro h
    have hbody := h.remaining
    rw [Plan.remaining_empty, startsZeroed_empty_iff, hsole] at hbody
    exact ⟨(hroot.mp h.root).1, (hroot.mp h.root).2, h.parameters, h.accessibility, hbody⟩
  · intro h
    refine ⟨hroot.mpr ⟨h.root, h.alone⟩, h.parameters, h.accessibility, ?_⟩
    rw [Plan.remaining_empty, startsZeroed_empty_iff, hsole]
    exact h.body

/-- A declared constructor gets the form of one that is left out only as the default constructor, whatever it was before. -/
theorem formOf_eq_elided_iff {options : Options} {t : TypeDecl} {chain : Chain} {extraction : Extraction}
    {cls : Classification} (h : Classification.of options t chain extraction = .ok cls)
    (helide : options.elideDefaultConstructors = true) {id : CtorId} {c : Constructor} (hc : t.constructors[id]? = some c)
    (hdeclared : c.isDeclared = true) : cls.formOf options id c = .elided ↔ cls.elidedDefault = some id := by
  rw [formOf]
  cases hfind : cls.elided.find? id with
  | none =>
    have hdefault : cls.elidedDefault ≠ some id := fun h => by cases hfind.symm.trans (find?_elided h)
    by_cases hform : c.form = .elided
    · simp [helide, hform, hdeclared, hdefault]
    · simp [hform, hdefault]
  | some form =>
    refine iff_of_true (eq_elided_of_find? hfind) ?_
    obtain ⟨c', hc', ⟨hdefault, -⟩ | hcopy⟩ := mem_elided h (PosMap.mem_keys_of_find? hfind)
    · exact hdefault
    · cases hc.symm.trans hc'
      cases hdeclared.symm.trans hcopy

end Classification

theorem Decision.formOf_eq_elided_iff {d : Decision} (h : d.primary? = none) {id : CtorId} {form : Form} :
    d.formOf id form = .elided ↔ form = .elided := by
  rw [formOf_of_primary?_eq_none h]
  cases form <;> simp

namespace Recovery

variable {options : Options} {t : TypeDecl} (r : Recovery options t) {id : CtorId} {c : Constructor}

/-- What holds of the plan and the type that went in holds of the type that comes out. -/
theorem elides_type_iff (hc : t.completed.constructors[id]? = some c) :
    Classification.Elides r.type r.chain {} id (r.constructorOf id c) ↔
      Classification.Elides t.completed r.chain r.extraction.withoutPrimary id c := by
  have hnil : (r.constructorOf id c).body = [] ↔ r.plan.remaining id c.body = [] := Stmt.shapeBlock_eq_nil_iff
  have hbase : (r.constructorOf id c).body = [.base []] ↔ r.plan.remaining id c.body = [.base []] := by
    rw [constructorOf, Stmt.shapeBlock_eq_base_iff]
    simp
  have hzeros : Classification.startsZeroed r.type {} = Classification.startsZeroed t.completed r.plan :=
    r.startsZeroed_type fun _ => rfl
  constructor
  · intro h
    have hbody := h.remaining
    -- A root without parameters is reconstructed by the plan from which elision is decided.
    rw [Plan.remaining_empty, hnil, hbase, hzeros, r.type_layout, r.plan_of_parameterless h.root hc h.parameters] at hbody
    exact ⟨h.root, h.parameters, h.accessibility, hbody⟩
  · intro h
    refine ⟨h.root, h.parameters, h.accessibility, ?_⟩
    rw [Plan.remaining_empty, hnil, hbase, hzeros, r.type_layout, r.plan_of_parameterless h.root hc h.parameters]
    exact h.remaining

theorem form_eq_elided_iff (helide : options.elideDefaultConstructors = true)
    (hc : t.completed.constructors[id]? = some c) (hdeclared : c.isDeclared = true) :
    (r.constructorOf id c).form = .elided ↔ r.classification.elidedDefault = some id := by
  cases hdecision : r.decision with
  | synthesized root forms =>
    -- Next to a primary constructor nothing is left out: the root has parameters, and the others are written out.
    refine iff_of_false (fun hform => ?_) fun helided => ?_
    · by_cases hid : id = root
      · subst hid
        cases (r.formOf_primary hdecision _).symm.trans hform
      · obtain ⟨_, _, _, _, -, -, -, -, ⟨hforwarding, -⟩ | ⟨-, hexplicit, -⟩⟩ :=
          r.constructorOf_overload hdecision hc hdeclared hid
        · cases hforwarding.symm.trans hform
        · cases hexplicit.symm.trans hform
    · have helides := (Classification.elidedDefault_eq_some_iff r.classification_eq helide hc).mp helided
      cases hdecision.symm.trans (r.decision_of_parameterless helides.root hc helides.parameters)
  | notApplicable | rejected =>
    have hnone : r.decision.primary? = none := by rw [hdecision]; rfl
    exact (Decision.formOf_eq_elided_iff hnone).trans
      (Classification.formOf_eq_elided_iff r.classification_eq helide hc hdeclared)

end Recovery

/-- Where default constructors are to be left out, a declared constructor of what comes out is left out if and only if it
does there what the language supplies without it. -/
theorem reconstruct_elides_iff {options : Options} {t t' : TypeDecl} {diagnostics : List Diagnostic}
    (h : reconstruct options t = .ok ⟨t', .reconstructed, diagnostics⟩) (helide : options.elideDefaultConstructors = true)
    {id : CtorId} {c : Constructor} (hc : t'.constructors[id]? = some c) (hdeclared : c.isDeclared = true) :
    c.form = .elided ↔ t'.Omissible id c := by
  obtain ⟨r, rfl⟩ := exists_reconstruct_iff.mp ⟨diagnostics, h⟩
  have hctor := hc
  rw [r.getElem?_type_constructors] at hctor
  obtain ⟨c, hgiven, rfl⟩ := Option.map_eq_some_iff.mp hctor
  calc (r.constructorOf id c).form = .elided
      ↔ r.classification.elidedDefault = some id := r.form_eq_elided_iff helide hgiven hdeclared
    _ ↔ Classification.Elides t.completed r.chain r.extraction.withoutPrimary id c :=
        Classification.elidedDefault_eq_some_iff r.classification_eq helide hgiven
    _ ↔ Classification.Elides r.type r.chain {} id (r.constructorOf id c) := (r.elides_type_iff hgiven).symm
    _ ↔ r.type.Omissible id (r.constructorOf id c) := Classification.elides_empty_iff r.build_type hc hdeclared

/-- A value type whose default constructor stores a zero; another constructor hands over to it. -/
def TypeDecl.tally : TypeDecl where
  name := "Tally"
  layout := .byValue
  slots := [{ name := "count", kind := .field, type := "int" }]
  constructors := [{ parameters := [], body := [.assign 0 (.literal (.int 0))] },
    { parameters := [{ name := "start", type := "int" }], body := [.chain 0 [], .assign 0 (.param 0)] }]

/-- The zero becomes an initializer, so the default constructor is left out; the other one is not. -/
theorem reconstruct_elides_iff_tally : ∃ t' diagnostics,
    reconstruct {} .tally = .ok ⟨t', .reconstructed, diagnostics⟩ ∧
      (∃ c, t'.constructors[0]? = some c ∧ c.form = .elided ∧ t'.Omissible 0 c) ∧
      ∃ c, t'.constructors[1]? = some c ∧ c.form = .explicit ∧ ¬t'.Omissible 1 c := by
  obtain ⟨t', diagnostics, h, first, second, hfirst, hsecond, helided, hexplicit, hdeclared, hdeclared'⟩ :
      ∃ (t' : TypeDecl) (diagnostics : List Diagnostic), reconstruct {} .tally = .ok ⟨t', .reconstructed, diagnostics⟩ ∧
        ∃ first second, t'.constructors[0]? = some first ∧ t'.constructors[1]? = some second ∧ first.form = .elided ∧
          second.form = .explicit ∧ first.isDeclared = true ∧ second.isDeclared = true :=
    ⟨_, _, rfl, _, _, rfl, rfl, rfl, rfl, rfl, rfl⟩
  refine ⟨t', diagnostics, h, ⟨first, hfirst, helided, ?_⟩, second, hsecond, hexplicit, fun homissible => ?_⟩
  · exact (reconstruct_elides_iff h rfl hfirst hdeclared).mp helided
  · cases hexplicit.symm.trans ((reconstruct_elides_iff h rfl hsecond hdeclared').mpr homissible)

end DeclRecovery
