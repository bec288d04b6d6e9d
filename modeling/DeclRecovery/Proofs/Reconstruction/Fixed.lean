import DeclRecovery.Proofs.Hoist.Leftover
import DeclRecovery.Proofs.NormalForm
import DeclRecovery.Proofs.Reconstruction.Again

/-!
When a second reconstruction changes nothing. If it hoists nothing, then it leaves out the constructors that the first
one did (`elided_again`) and decides alike (`alike_again`), so every slot and every constructor stays as it is
(`type_again`). If it takes something out of a body, that body is not what it was (`idle_of_bodies_eq`). Together
these give the exact condition (`exists_type_eq_iff`).
-/

namespace DeclRecovery

namespace Plan.Idle

variable {p : Plan}

theorem initializer_eq (h : p.Idle) (withoutZeros : Bool) (slot : SlotId) (given : Option Expr) :
    p.initializer withoutZeros slot given = given := by
  simp [initializer, h slot]

theorem remaining_eq (h : p.Idle) {t : TypeDecl} {roots : List CtorId} (hp : p.Hoists t roots) {id : CtorId}
    {c : Constructor} (hc : t.constructors[id]? = some c) : p.remaining id c.body = c.body := by
  by_cases hid : id ∈ roots
  · obtain ⟨heads, hat⟩ := hp.hoistsAt hid hc
    have hheads : heads = [] := by
      rw [List.eq_nil_iff_forall_not_mem]
      intro x hx
      cases (h x.1).symm.trans ((hat.hoisted x.1 x.2).mpr hx)
    rw [hat.remaining, hheads, List.length_nil, List.drop_zero]
  · exact hp.other id hid c.body

end Plan.Idle

namespace Classification

theorem isTrivial_shape {options : Options} {t t' : TypeDecl} (hlayout : t'.layout = t.layout) (rest : List Stmt) :
    isTrivial t' (Stmt.shapeBlock options rest) = isTrivial t rest := by
  have hempty : (Stmt.shapeBlock options rest).isEmpty = rest.isEmpty := by
    rw [Bool.eq_iff_iff, List.isEmpty_iff, List.isEmpty_iff, Stmt.shapeBlock_eq_nil_iff]
  have hbase : (Stmt.shapeBlock options rest == [.base []]) = (rest == [.base []]) := by
    rw [Bool.eq_iff_iff, beq_iff_eq, beq_iff_eq, Stmt.shapeBlock_eq_base_iff]
    simp
  rw [isTrivial, isTrivial, TypeDecl.isValueLayout, TypeDecl.isValueLayout, hlayout, hempty, hbase]

/-- What is left out depends on the root alone, and on whether all slots start with zeros. -/
theorem elision_congr {t t' : TypeDecl} {chain : Chain} {p p' : Plan}
    (hlength : t'.constructors.length = t.constructors.length) (hlayout : t'.layout = t.layout)
    (h : ∀ root c c', chain.root? = some root → t.constructors[root]? = some c → t'.constructors[root]? = some c' →
      c'.parameters = c.parameters ∧ c'.accessibility = c.accessibility ∧ (c.parameters = [] →
        isTrivial t' (p'.remaining root c'.body) = isTrivial t (p.remaining root c.body) ∧
          startsZeroed t' p' = startsZeroed t p)) : elision t' chain p' = elision t chain p := by
  unfold elision
  cases hroot : chain.root? with
  | none => rfl
  | some root =>
    refine TypeDecl.constructor_bind_congr hlength fun c c' hc hc' => ?_
    obtain ⟨hparams, haccess, hrest⟩ := h root c c' hroot hc hc'
    by_cases hnil : c.parameters = []
    · obtain ⟨htrivial, hzeros⟩ := hrest hnil
      have hvalue : t'.isValueLayout = t.isValueLayout := by
        rw [TypeDecl.isValueLayout, hlayout, TypeDecl.isValueLayout]
      rw [hparams, haccess, htrivial, hzeros, hvalue]
    · simp [hparams, hnil]

end Classification

/-- The copy constructor is told by origins and parameters. -/
theorem Aggregate.copyConstructor?_congr {t t' : TypeDecl} (hname : t'.name = t.name)
    (h : t'.constructors.map (fun c => (c.origin, c.parameters)) =
      t.constructors.map fun c => (c.origin, c.parameters)) : copyConstructor? t' = copyConstructor? t := by
  have hfind : ∀ t : TypeDecl, copyConstructor? t =
      ((t.constructors.map fun c => (c.origin, c.parameters)).zipIdx.find? fun x =>
        x.1.1 == .copy && copyConstructor?.isCopyOf t x.1.2).map Prod.snd := by
    intro t
    simp [copyConstructor?, TypeDecl.indexedConstructors, List.zipIdx_map, List.find?_map, Function.comp_def]
  have hcopy : copyConstructor?.isCopyOf t' = copyConstructor?.isCopyOf t := by
    funext params
    unfold copyConstructor?.isCopyOf
    rw [hname]
  rw [hfind, hfind, h, hcopy]

namespace Recovery

variable {options : Options} {t : TypeDecl} (r : Recovery options t)

theorem startsZeroed_type {p : Plan} (hidle : p.Idle) :
    Classification.startsZeroed r.type p = Classification.startsZeroed t.completed r.plan := by
  rw [Bool.eq_iff_iff, Classification.startsZeroed_iff, Classification.startsZeroed_iff]
  simp only [hidle _, Option.none_or, r.getElem?_type_slots, TypeDecl.completed_slots]
  constructor
  · intro h i s v hs hv
    cases hdropped : r.classification.dropZeroInitializers && (r.plan.hoisted.find? i).any Expr.isZero with
    | true =>
      -- What is left out is a zero.
      obtain ⟨w, hw, hzero⟩ := (Option.any_eq_true _ _).mp (Bool.and_eq_true_iff.mp hdropped).2
      rw [hw] at hv
      cases hv
      exact hzero
    | false =>
      have hinit : (r.slotOf i s).initializer = some (v.shape options) := by
        rw [slotOf]
        dsimp only
        rw [Plan.initializer, hdropped, if_neg Bool.false_ne_true, hv]
        rfl
      have hzero := h i (r.slotOf i s) _ (by rw [hs]; rfl) hinit
      rwa [Expr.isZero_shape] at hzero
  · intro h i s' v' hs' hv'
    obtain ⟨s, hs, rfl⟩ := Option.map_eq_some_iff.mp hs'
    obtain ⟨v, hv, rfl⟩ := Option.map_eq_some_iff.mp hv'
    rw [Expr.isZero_shape]
    dsimp only at hv
    rw [Plan.initializer] at hv
    split at hv
    · cases hv
    · exact h i s v hs hv

theorem copyConstructor?_type : Aggregate.copyConstructor? r.type = Aggregate.copyConstructor? t.completed := by
  refine Aggregate.copyConstructor?_congr ?_ (List.ext_getElem? fun id => ?_)
  · rw [r.type_eq]
  · rw [List.getElem?_map, List.getElem?_map, r.getElem?_type_constructors, Option.map_map]
    rfl

variable (r' : Recovery options r.type)

/-- A second run that hoists nothing leaves out what the first one did. -/
theorem elidedDefault_again (hidle : r'.plan.Idle) : r'.classification.elidedDefault = r.classification.elidedDefault := by
  obtain ⟨elided, drop, helision, hcls⟩ := Classification.of_eq_ok_iff.mp r.classification_eq
  obtain ⟨elided', drop', helision', hcls'⟩ := Classification.of_eq_ok_iff.mp r'.classification_eq
  rw [hcls, hcls']
  dsimp only
  have hsame : Classification.elision r.type.completed r'.chain r'.extraction.withoutPrimary =
      Classification.elision t.completed r.chain r.extraction.withoutPrimary := by
    rw [r.completed_type, r.chain_again r']
    refine Classification.elision_congr r.length_constructors r.type_layout fun root c c' hroot hc hc' => ?_
    have hctor := r.getElem?_type_constructors root
    rw [hc', hc, Option.map_some, Option.some_inj] at hctor
    subst hctor
    refine ⟨rfl, rfl, fun hparams => ?_⟩
    -- Without parameters there is no primary constructor in either run.
    have hplan := r.plan_of_parameterless hroot hc hparams
    have hplan' := r'.plan_of_parameterless (c := r.constructorOf root c) (r.chain_again r' ▸ hroot)
      (r.completed_type.symm ▸ hc') hparams
    rw [← hplan, ← hplan', hidle.remaining_eq (r.completed_type ▸ r'.plan_hoists) hc']
    refine ⟨?_, r.startsZeroed_type hidle⟩
    rw [constructorOf, Classification.isTrivial_shape r.type_layout]
  rw [hsame] at helision'
  exact (Prod.mk.inj (Except.ok.inj (helision'.symm.trans helision))).1

theorem elided_again (hidle : r'.plan.Idle) (hkind : r'.classification.kind = r.classification.kind) :
    r'.classification.elided = r.classification.elided := by
  have hcopy : r'.classification.copyConstructor = r.classification.copyConstructor := by
    obtain ⟨_, _, -, hcls⟩ := Classification.of_eq_ok_iff.mp r.classification_eq
    obtain ⟨_, _, -, hcls'⟩ := Classification.of_eq_ok_iff.mp r'.classification_eq
    rw [hcls, hcls', r.completed_type]
    exact r.copyConstructor?_type
  rw [Classification.elided, hkind, hcopy, r.elidedDefault_again r' hidle, Classification.elided]

end Recovery

/-- Decisions that note the same. -/
def Decision.Alike (d d' : Decision) : Prop := d = d' ∨ d.primary? = none ∧ d'.primary? = none

namespace Decision.Alike

variable {d d' : Decision}

theorem primary? (h : Alike d d') : d.primary? = d'.primary? := by
  rcases h with rfl | ⟨h, h'⟩
  · rfl
  · rw [h, h']

theorem formOf (h : Alike d d') (id : CtorId) (form : Form) : d.formOf id form = d'.formOf id form := by
  rcases h with rfl | ⟨h, h'⟩
  · rfl
  · rw [formOf_of_primary?_eq_none h, formOf_of_primary?_eq_none h']

theorem dispositionOf (h : Alike d d') (s : Slot) : d.dispositionOf s = d'.dispositionOf s := by
  rcases h with rfl | ⟨h, h'⟩
  · rfl
  · rw [dispositionOf_of_primary?_eq_none h, dispositionOf_of_primary?_eq_none h']

end Decision.Alike

/-- Noting the forms a second time changes none. -/
theorem Classification.formOf_formOf {cls : Classification} {options : Options} {d : Decision} {id : CtorId}
    {c c' : Constructor} (hform : c'.form = d.formOf id (cls.formOf options id c)) (hdeclared : c'.isDeclared = c.isDeclared) :
    d.formOf id (cls.formOf options id c') = c'.form := by
  rw [formOf] at hform ⊢
  cases hfind : cls.elided.find? id with
  | some form =>
    rw [hfind] at hform
    exact hform.symm
  | none =>
    rw [hfind, Option.getD_none] at hform
    rw [Option.getD_none, hdeclared]
    -- What is shown is not `elided` any more, so it is not shown again.
    have hshown : ∀ form : Form, (form = .elided → c.form = .elided) →
        (options.elideDefaultConstructors ∧ c.form = .elided ∧ c.isDeclared → form ≠ .elided) →
        (if options.elideDefaultConstructors ∧ form = .elided ∧ c.isDeclared then .explicit else form) = form := by
      intro form hform hne
      rw [if_neg]
      rintro ⟨helide, helided, hdeclared⟩
      exact hne ⟨helide, hform helided, hdeclared⟩ helided
    cases d with
    | synthesized root overloads =>
      rw [Decision.formOf] at hform ⊢
      cases hforms : (Decision.synthesized root overloads).forms.find? id with
      | some form =>
        rw [hforms] at hform
        exact hform.symm
      | none =>
        rw [hforms, Option.getD_none] at hform
        rw [Option.getD_none]
        exact hshown _ (by grind) (by grind)
    | notApplicable | rejected =>
      rw [Decision.formOf] at hform
      rw [hshown _ (by grind) (by grind), Decision.formOf]
      grind

/-- Nor does noting the dispositions a second time. -/
theorem Decision.dispositionOf_again (options : Options) (d : Decision) (s : Slot) :
    d.dispositionOf { s with
      initializer := s.initializer.map (·.shape options)
      disposition := d.dispositionOf s } = d.dispositionOf s := by
  cases d with
  | synthesized root overloads =>
    conv => lhs; rw [dispositionOf]
    split
    · next i hkind hgenerated hinit =>
      obtain ⟨v, hv, hshape⟩ := Option.map_eq_some_iff.mp hinit
      cases Expr.shape_eq_param_iff.mp hshape
      dsimp only at hkind hgenerated
      rw [dispositionOf, hkind, hgenerated, hv]
    · rfl
  | notApplicable | rejected => rfl

namespace Recovery

variable {options : Options} {t : TypeDecl} {r : Recovery options t} {r' : Recovery options r.type}

theorem slotOf_again (hidle : r'.plan.Idle) (halike : r'.decision.Alike r.decision) (i : SlotId) (s : Slot) :
    r'.slotOf i (r.slotOf i s) = r.slotOf i s := by
  have hdisposition := r.decision.dispositionOf_again options
    { s with initializer := r.plan.initializer r.classification.dropZeroInitializers i s.initializer }
  rw [slotOf, hidle.initializer_eq]
  dsimp only
  rw [halike.dispositionOf]
  simp only [slotOf] at hdisposition ⊢
  rw [hdisposition, Option.map_map]
  simp [Function.comp_def, Expr.shape_shape]

theorem constructorOf_again (hidle : r'.plan.Idle) (halike : r'.decision.Alike r.decision)
    (helided : r'.classification.elided = r.classification.elided) {id : CtorId} {c : Constructor}
    (hc : t.completed.constructors[id]? = some c) : r'.constructorOf id (r.constructorOf id c) = r.constructorOf id c := by
  have hc' := r.type_constructor hc
  have hbody : r'.plan.remaining id (r.constructorOf id c).body = (r.constructorOf id c).body :=
    hidle.remaining_eq (r.completed_type ▸ r'.plan_hoists) hc'
  have hform : r'.decision.formOf id (r'.classification.formOf options id (r.constructorOf id c)) =
      (r.constructorOf id c).form := by
    rw [halike.formOf, Classification.formOf, helided]
    exact Classification.formOf_formOf (c := c) rfl rfl
  conv => lhs; rw [constructorOf, hbody, hform]
  rw [constructorOf, Stmt.shapeBlock_shapeBlock]

/-- A second run that hoists nothing, decides alike and tells the same kind changes nothing. -/
theorem type_again (hidle : r'.plan.Idle) (halike : r'.decision.Alike r.decision)
    (hkind : r'.classification.kind = r.classification.kind) : r'.type = r.type := by
  have hslots : r.type.slots.mapIdx r'.slotOf = r.type.slots := by
    refine List.ext_getElem? fun i => ?_
    rw [List.getElem?_mapIdx, r.getElem?_type_slots, Option.map_map]
    congr 1
    funext s
    exact slotOf_again hidle halike i s
  have hctors : r.type.constructors.mapIdx r'.constructorOf = r.type.constructors := by
    refine List.ext_getElem? fun id => ?_
    rw [List.getElem?_mapIdx, r.getElem?_type_constructors]
    cases hc : t.completed.constructors[id]? with
    | none => rfl
    | some c => exact congrArg some (constructorOf_again hidle halike (r.elided_again r' hidle hkind) hc)
  rw [r'.type_eq, r.completed_type, hslots, hctors, hkind, halike.primary?]
  rw [r.type_eq]

/-- If nothing but the base call is left of the root without a primary constructor, the same is left with one. -/
theorem rootFits_withPrimary (r : Recovery options t) {root : CtorId} {c : Constructor} (hroot : r.chain.root? = some root)
    (hc : t.completed.constructors[root]? = some c)
    (hfits : Decision.rootFits t.completed (r.extraction.withoutPrimary.remaining root c.body) = true) :
    Decision.rootFits t.completed (r.extraction.withPrimary.remaining root c.body) = true := by
  have hmem := Chain.mem_roots_of_root? hroot
  obtain ⟨hwith, hwithout⟩ := Extraction.hoists r.chain_eq r.extraction_eq
  obtain ⟨heads, hat⟩ := hwith.hoistsAt hmem hc
  obtain ⟨heads', hat'⟩ := hwithout.hoistsAt hmem hc
  rw [hat'.remaining] at hfits
  have hlength := hat'.length_le hat fun s v => Extraction.withPrimary_of_withoutPrimary r.extraction_eq
  rw [hat.remaining_eq_drop hlength]
  · exact hfits
  · exact Decision.region_of_rootFits hfits

/-- A second run that hoists nothing decides alike. -/
theorem alike_again (hidle : r'.plan.Idle) (hkind : r'.classification.kind = r.classification.kind) :
    r'.decision.Alike r.decision := by
  cases hdecision : r.decision with
  | synthesized root forms => exact Or.inl (r.decision_again_of_synthesized r' hdecision)
  | notApplicable | rejected =>
    refine Or.inr ⟨?_, rfl⟩
    have hnone : r.decision.primary? = none := by rw [hdecision]; rfl
    cases hdecision' : r'.decision with
    | notApplicable | rejected => rfl
    | synthesized root forms =>
      have hplan' : r'.plan = r'.extraction.withPrimary := by rw [plan, hdecision']; rfl
      rw [hplan'] at hidle
      rw [← hdecision']
      -- An idle plan hoists no parameter, and it leaves of the root what the first run left.
      refine r.primary?_again_of_none r' hnone hkind (fun hreads => ?_) fun root c hroot hc hfits => ?_
      · obtain ⟨v, hv, -⟩ := List.any_eq_true.mp hreads
        obtain ⟨slot, hslot⟩ := PosMap.mem_values_iff.mp hv
        cases (hidle slot).symm.trans hslot
      · have hc' := r.type_constructor hc
        rw [hidle.remaining_eq (r.hoists_again r').1 hc', constructorOf,
          Decision.rootFits_shape r.type_layout, plan, Decision.plan_of_primary?_eq_none hnone] at hfits
        exact r.rootFits_withPrimary hroot hc hfits

theorem aggregateKind_type (r : Recovery options t) : r.type.aggregateKind = some r.classification.kind := by
  rw [r.type_eq]

theorem kind_eq (r : Recovery options t) : r.classification.kind = Aggregate.classify t.completed := by
  obtain ⟨_, _, -, hcls⟩ := Classification.of_eq_ok_iff.mp r.classification_eq
  rw [hcls]

/-- A run that leaves the bodies alone hoists nothing: a hoisted store would be missing in the body of a root. -/
theorem idle_of_bodies_eq (r : Recovery options t)
    (h : r.type.constructors.map (·.body) = t.completed.constructors.map (·.body)) : r.plan.Idle := by
  intro slot
  rw [Option.eq_none_iff_forall_ne_some]
  intro v hv
  obtain ⟨root, c, heads, hc, hat, hmem⟩ := r.plan_hoists.exists_hoistsAt hv
  have hbody : (r.constructorOf root c).body.length = c.body.length := by
    have hsame := congrArg (fun bodies => bodies[root]?.map List.length) h
    simpa [r.getElem?_type_constructors, hc] using hsame
  have hwithin : heads.length ≤ c.body.length :=
    Nat.le_trans hat.within (Constructor.region_eq c ▸ (List.takeWhile_prefix _).length_le)
  have hpos : 0 < heads.length := List.length_pos_of_mem hmem
  simp only [constructorOf, Stmt.shapeBlock_eq, List.length_map, hat.remaining, List.length_drop] at hbody
  omega

theorem type_eq_of_idle (r : Recovery options t) (r' : Recovery options r.type) (hidle : r'.plan.Idle)
    (hsame : r.type.aggregateKind = some (Aggregate.classify r.type)) : r'.type = r.type := by
  have hkind : r'.classification.kind = r.classification.kind := by
    rw [r'.kind_eq, r.completed_type]
    exact Option.some_inj.mp (hsame.symm.trans r.aggregateKind_type)
  exact type_again hidle (alike_again hidle hkind) hkind

/-- When what came out of a run is left alone by a second one. -/
theorem exists_type_eq_iff (r : Recovery options t) : (∃ r' : Recovery options r.type, r'.type = r.type) ↔
    r.type.aggregateKind = some (Aggregate.classify r.type) ∧
      ∃ r' : Recovery options r.type, r'.type.constructors.map (·.body) = r.type.constructors.map (·.body) := by
  constructor
  · rintro ⟨r', h⟩
    refine ⟨?_, r', by rw [h]⟩
    rw [← r.completed_type, ← r'.kind_eq, ← r'.aggregateKind_type, h, r.completed_type]
  · rintro ⟨hsame, r', hbodies⟩
    exact ⟨r', r.type_eq_of_idle r' (r'.idle_of_bodies_eq (r.completed_type.symm ▸ hbodies)) hsame⟩

end Recovery

end DeclRecovery
