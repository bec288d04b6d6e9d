import DeclRecovery.Proofs.Reconstruction.Result

/-!
When constructors are left out, and hoisted zeros with them: only where the one declared constructor of a value type is
left out, too (`ElidedAlone`).
-/

namespace DeclRecovery

/-- The constructor is the only declared one of a value type, and it is left out. -/
structure TypeDecl.ElidedAlone (t : TypeDecl) (id : CtorId) : Prop where
  layout : t.layout = .byValue
  elided : ∃ c, t.constructors[id]? = some c ∧ c.isDeclared = true ∧ c.form = .elided
  alone : ∀ (j : CtorId) (c : Constructor), t.constructors[j]? = some c → c.isDeclared = true → j = id

namespace Classification

/-- When the only root is left out: it takes no parameters, everyone may call it, and what remains of it is what the
language supplies anyway. For a value type the slots have to start with zeros, for any other type there must be no
second constructor. -/
structure Elides (t : TypeDecl) (chain : Chain) (plan : Plan) (id : CtorId) (c : Constructor) : Prop where
  root : chain.root? = some id
  parameters : c.parameters = []
  accessibility : c.accessibility = .isPublic
  remaining : t.layout = .byValue ∧ plan.remaining id c.body = [] ∧ startsZeroed t plan = true ∨
    t.layout = .byReference ∧ plan.remaining id c.body = [.base []] ∧ chain.order.length = 1

/-- When zeros are left out: the only root stands alone in a value type, takes no parameters, keeps nothing, and all
slots start with zeros. -/
structure LeavesOutZeros (t : TypeDecl) (chain : Chain) (plan : Plan) (id : CtorId) (c : Constructor) : Prop where
  root : chain.root? = some id
  ctor : t.constructors[id]? = some c
  parameters : c.parameters = []
  layout : t.layout = .byValue
  sole : chain.order.length = 1
  remaining : plan.remaining id c.body = []
  zeros : startsZeroed t plan = true

variable {options : Options} {t : TypeDecl} {chain : Chain} {extraction : Extraction} {cls : Classification}

theorem startsZeroed_iff {t : TypeDecl} {p : Plan} : startsZeroed t p = true ↔
    ∀ (i : SlotId) s v, t.slots[i]? = some s → (p.hoisted.find? i).or s.initializer = some v → v.isZero = true := by
  simp only [startsZeroed, List.all_eq_true, Prod.forall, List.mk_mem_zipIdx_iff_getElem?, Option.all_eq_true]
  constructor
  · intro h i s v hs hv
    exact h s i hs v hv
  · intro h s i hs v hv
    exact h i s v hs hv

theorem of_eq_ok_iff : Classification.of options t chain extraction = .ok cls ↔ ∃ elidedDefault dropZeroInitializers,
    (if options.elideDefaultConstructors then elision t chain extraction.withoutPrimary else .ok (none, false)) =
        .ok (elidedDefault, dropZeroInitializers) ∧
      cls = ⟨Aggregate.classify t, Aggregate.copyConstructor? t, elidedDefault, dropZeroInitializers⟩ := by
  unfold Classification.of
  split
  · rw [bind_eq_ok_iff]
    constructor
    · rintro ⟨⟨e, d⟩, he, h⟩
      exact ⟨e, d, he, (pure_eq_ok_iff.mp h).symm⟩
    · rintro ⟨e, d, he, rfl⟩
      exact ⟨_, he, rfl⟩
  · constructor
    · intro h
      cases h
      exact ⟨none, false, rfl, rfl⟩
    · rintro ⟨e, d, he, rfl⟩
      cases he
      rfl

theorem isTrivial_iff {rest : List Stmt} : isTrivial t rest = true ↔
    t.layout = .byValue ∧ rest = [] ∨ t.layout = .byReference ∧ rest = [.base []] := by
  unfold isTrivial TypeDecl.isValueLayout
  cases t.layout <;> simp

theorem Elides.isTrivial {plan : Plan} {id : CtorId} {c : Constructor} (h : Elides t chain plan id c) :
    isTrivial t (plan.remaining id c.body) = true :=
  isTrivial_iff.mpr (h.remaining.imp (fun h => ⟨h.1, h.2.1⟩) fun h => ⟨h.1, h.2.1⟩)

/-- What is left out, if anything is, and otherwise that nothing can be. -/
theorem elision_eq_ok {plan : Plan} {elided : Option CtorId} {drop : Bool} (h : elision t chain plan = .ok (elided, drop)) :
    (elided = none ∧ drop = false ∧ ∀ id c, t.constructors[id]? = some c → ¬Elides t chain plan id c) ∨
      ∃ root c, elided = some root ∧ t.constructors[root]? = some c ∧ Elides t chain plan root c ∧
        (drop = true → t.layout = .byValue ∧ chain.order.length = 1) := by
  unfold elision at h
  split at h
  · next hroot =>
    cases h
    exact Or.inl ⟨rfl, rfl, fun id c _ he => by cases hroot.symm.trans he.root⟩
  · next root hroot =>
    obtain ⟨c, hc, h⟩ := bind_eq_ok_iff.mp h
    rw [constructor_eq_ok] at hc
    dsimp only at h
    have hother : ¬Elides t chain plan root c → ∀ id c', t.constructors[id]? = some c' → ¬Elides t chain plan id c' := by
      intro hnot id c' hc' he
      cases hroot.symm.trans he.root
      cases hc.symm.trans hc'
      exact hnot he
    split at h
    · next hfails =>
      cases h
      refine Or.inl ⟨rfl, rfl, hother fun he => ?_⟩
      simp [he.parameters, he.accessibility, he.isTrivial] at hfails
    · next hfits =>
      simp only [Bool.or_eq_true, not_or, Bool.not_eq_true', Bool.not_eq_false, List.isEmpty_iff, bne_iff_ne, ne_eq,
        not_not] at hfits
      obtain ⟨⟨hparams, haccess⟩, htrivial⟩ := hfits
      rcases isTrivial_iff.mp htrivial with ⟨hlayout, hrest⟩ | ⟨hlayout, hrest⟩
      · rw [if_neg (by simp [TypeDecl.isValueLayout, hlayout])] at h
        split at h
        · next hzeros =>
          cases h
          exact Or.inr ⟨root, c, rfl, hc, ⟨hroot, hparams, haccess, Or.inl ⟨hlayout, hrest, hzeros⟩⟩,
            fun hsole => ⟨hlayout, beq_iff_eq.mp hsole⟩⟩
        · next hzeros =>
          cases h
          refine Or.inl ⟨rfl, rfl, hother fun he => ?_⟩
          rcases he.remaining with ⟨-, -, h⟩ | ⟨h, -⟩
          · exact hzeros h
          · cases hlayout.symm.trans h
      · rw [if_pos (by simp [TypeDecl.isValueLayout, hlayout])] at h
        split at h
        · next hsole =>
          cases h
          exact Or.inr ⟨root, c, rfl, hc, ⟨hroot, hparams, haccess, Or.inr ⟨hlayout, hrest, beq_iff_eq.mp hsole⟩⟩, by simp⟩
        · next hsole =>
          cases h
          refine Or.inl ⟨rfl, rfl, hother fun he => ?_⟩
          rcases he.remaining with ⟨h, -⟩ | ⟨-, -, h⟩
          · cases hlayout.symm.trans h
          · exact hsole (beq_iff_eq.mpr h)

theorem elidedDefault_cases (h : Classification.of options t chain extraction = .ok cls) :
    cls.elidedDefault = none ∧ cls.dropZeroInitializers = false ∨ ∃ root c, cls.elidedDefault = some root ∧
      t.constructors[root]? = some c ∧ Elides t chain extraction.withoutPrimary root c ∧
      (cls.dropZeroInitializers = true → t.layout = .byValue ∧ chain.order.length = 1) := by
  obtain ⟨elided, drop, helision, rfl⟩ := of_eq_ok_iff.mp h
  split at helision
  · exact (elision_eq_ok helision).imp_left fun h => ⟨h.1, h.2.1⟩
  · cases helision
    exact Or.inl ⟨rfl, rfl⟩

theorem elidedDefault_eq_some_iff (h : Classification.of options t chain extraction = .ok cls)
    (helide : options.elideDefaultConstructors = true) {id : CtorId} {c : Constructor}
    (hc : t.constructors[id]? = some c) :
    cls.elidedDefault = some id ↔ Elides t chain extraction.withoutPrimary id c := by
  obtain ⟨elided, drop, helision, rfl⟩ := of_eq_ok_iff.mp h
  rw [if_pos helide] at helision
  rcases elision_eq_ok helision with ⟨rfl, -, hnot⟩ | ⟨root, c', rfl, hc', helides, -⟩
  · exact ⟨fun helided => (by cases helided), fun helides => absurd helides (hnot id c hc)⟩
  · constructor
    · rintro ⟨⟩
      cases hc'.symm.trans hc
      exact helides
    · intro h
      exact helides.root.symm.trans h.root

theorem leavesOutZeros (h : Classification.of options t chain extraction = .ok cls)
    (hdrop : cls.dropZeroInitializers = true) :
    ∃ root c, cls.elidedDefault = some root ∧ LeavesOutZeros t chain extraction.withoutPrimary root c := by
  rcases elidedDefault_cases h with ⟨-, h⟩ | ⟨root, c, helided, hc, helides, hsole⟩
  · cases h.symm.trans hdrop
  · obtain ⟨hlayout, hlength⟩ := hsole hdrop
    rcases helides.remaining with ⟨-, hrest, hzeros⟩ | ⟨hreference, -⟩
    · exact ⟨root, c, helided, helides.root, hc, helides.parameters, hlayout, hlength, hrest, hzeros⟩
    · cases hreference.symm.trans hlayout

theorem copyConstructor?_eq_some {id : CtorId} (h : Aggregate.copyConstructor? t = some id) :
    ∃ c, t.constructors[id]? = some c ∧ c.isDeclared = false := by
  obtain ⟨⟨_, c⟩, hfind, rfl⟩ := Option.map_eq_some_iff.mp h
  have hmem := List.mem_of_find?_eq_some hfind
  have hcopy := List.find?_some hfind
  simp only [TypeDecl.indexedConstructors, List.mem_map, Prod.exists, List.mk_mem_zipIdx_iff_getElem?, Prod.mk.injEq,
    Bool.and_eq_true, beq_iff_eq] at hmem hcopy
  obtain ⟨c, _, hc, rfl, rfl⟩ := hmem
  exact ⟨c, hc, by simp [Constructor.isDeclared, hcopy.1]⟩

theorem mem_keys_elided {id : CtorId} : id ∈ cls.elided.keys ↔
    cls.elidedDefault = some id ∨ (∃ layout, cls.kind = .valueSemantic layout) ∧ cls.copyConstructor = some id := by
  simp only [elided, PosMap.mem_keys_ofList, List.map_map, List.mem_map, Function.comp_apply, exists_eq_right,
    List.mem_append, Option.mem_toList]
  refine or_congr Iff.rfl ?_
  split
  · next hkind hcopy => simp [hkind, hcopy, eq_comm]
  · next hnone =>
    refine ⟨fun h => (by cases h), ?_⟩
    rintro ⟨⟨layout, hkind⟩, hcopy⟩
    exact absurd hcopy (hnone layout id hkind)

theorem mem_elided (h : Classification.of options t chain extraction = .ok cls) {id : CtorId}
    (hid : id ∈ cls.elided.keys) : ∃ c, t.constructors[id]? = some c ∧
      (cls.elidedDefault = some id ∧ chain.root? = some id ∧ c.parameters = [] ∨ c.isDeclared = false) := by
  rcases mem_keys_elided.mp hid with hid | ⟨-, hcopy⟩
  · rcases elidedDefault_cases h with ⟨hnone, -⟩ | ⟨root, c, helided, hc, helides, -⟩
    · cases hnone.symm.trans hid
    · cases helided.symm.trans hid
      exact ⟨c, hc, Or.inl ⟨hid, helides.root, helides.parameters⟩⟩
  · obtain ⟨_, _, -, rfl⟩ := of_eq_ok_iff.mp h
    obtain ⟨c, hc, hdeclared⟩ := copyConstructor?_eq_some hcopy
    exact ⟨c, hc, Or.inr hdeclared⟩

theorem eq_elided_of_find? {id : CtorId} {form : Form} (h : cls.elided.find? id = some form) : form = .elided := by
  rw [elided, PosMap.find?_ofList] at h
  obtain ⟨x, hx, rfl⟩ := Option.map_eq_some_iff.mp h
  obtain ⟨_, -, rfl⟩ := List.mem_map.mp (List.mem_of_find?_eq_some hx)
  rfl

namespace LeavesOutZeros

variable {plan : Plan} {id : CtorId} {c : Constructor}

theorem mem_roots (h : LeavesOutZeros t chain plan id c) : id ∈ chain.roots := Chain.mem_roots_of_root? h.root

variable (hchain : Chain.build t = .ok chain) (h : LeavesOutZeros t chain plan id c)
include hchain h

theorem isDeclared : c.isDeclared = true ∧ c.chainTarget? = none := by
  obtain ⟨c', hc', hd⟩ := (Chain.mem_roots_iff hchain).mp h.mem_roots
  rw [h.ctor] at hc'
  cases hc'
  exact hd

theorem alone {j : CtorId} {d : Constructor} (hd : t.constructors[j]? = some d) (hdeclared : d.isDeclared = true) :
    j = id := by
  exact (Chain.length_order_eq_one_iff hchain h.ctor (h.isDeclared hchain).1).mp h.sole j d hd hdeclared

end LeavesOutZeros

theorem find?_elided {id : CtorId} (h : cls.elidedDefault = some id) : cls.elided.find? id = some .elided := by
  simp [elided, PosMap.find?_ofList, h]

end Classification

namespace Recovery

variable {options : Options} {t : TypeDecl} (r : Recovery options t)

theorem decision_of_parameterless {id : CtorId} {c : Constructor} (hroot : r.chain.root? = some id)
    (hc : t.completed.constructors[id]? = some c) (hparams : c.parameters = []) : r.decision = .notApplicable := by
  have h := r.decision_eq
  rw [Decision.of, hroot] at h
  obtain ⟨c', hc', h⟩ := bind_eq_ok_iff.mp h
  have hformed := constructor_eq_ok.mp hc'
  rw [r.getElem?_formed_constructors, hc, Option.map_some, Option.some_inj] at hformed
  rw [← hformed, hparams] at h
  exact (pure_eq_ok_iff.mp h).symm

theorem plan_of_parameterless {id : CtorId} {c : Constructor} (hroot : r.chain.root? = some id)
    (hc : t.completed.constructors[id]? = some c) (hparams : c.parameters = []) :
    r.plan = r.extraction.withoutPrimary := by
  rw [plan, r.decision_of_parameterless hroot hc hparams]
  rfl

theorem leavesOutZeros (hdrop : r.classification.dropZeroInitializers = true) : ∃ id c,
    Classification.LeavesOutZeros t.completed r.chain r.plan id c ∧ r.type.ElidedAlone id := by
  obtain ⟨id, c, helided, hzeros⟩ := Classification.leavesOutZeros r.classification_eq hdrop
  have hdecision := r.decision_of_parameterless hzeros.root hzeros.ctor hzeros.parameters
  have hplan := r.plan_of_parameterless hzeros.root hzeros.ctor hzeros.parameters
  refine ⟨id, c, hplan ▸ hzeros, ?_, ?_, fun j d hd hdeclared => ?_⟩
  · exact r.type_layout.trans hzeros.layout
  · refine ⟨_, r.type_constructor hzeros.ctor, (hzeros.isDeclared r.chain_eq).1, ?_⟩
    -- The form is given by the classification, and the decision does not change it.
    rw [constructorOf, hdecision, Classification.formOf, Classification.find?_elided helided]
    rfl
  · rw [r.getElem?_type_constructors] at hd
    obtain ⟨d', hd', rfl⟩ := Option.map_eq_some_iff.mp hd
    exact hzeros.alone r.chain_eq hd' hdeclared

end Recovery

end DeclRecovery
