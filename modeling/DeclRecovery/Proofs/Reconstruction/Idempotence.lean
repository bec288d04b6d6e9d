import DeclRecovery.Proofs.Reconstruction.Fixed
import DeclRecovery.Proofs.Reconstruction.Total

/-!
Reconstructing twice. A second reconstruction changes nothing exactly when it finds nothing to hoist and tells the same
kind of aggregate. That is always so when the choices of values were in shape from the start; what comes out is in shape,
so from the second run on nothing changes. A choice that gets its shape at the end of the first run can be hoisted by the
second one.
-/

namespace DeclRecovery

/-! ### Types in shape -/

namespace Stmt

variable {options : Options}

/-- A single store that is in shape is an assignment, so its value is in shape. -/
theorem shape_value_of_singleStore? {s : Stmt} {slot : SlotId} {value : Expr} (hshape : s.shape options = s)
    (h : s.singleStore? = some (slot, value)) : value.shape options = value := by
  have hassign : s = assign slot (value.shape options) := hshape.symm.trans (shape_of_singleStore? h)
  rw [hassign] at h
  simpa [singleStore?] using h

end Stmt

namespace TypeDecl

variable {options : Options} {t : TypeDecl}

theorem completed_shape (options : Options) (t : TypeDecl) : t.completed.shape options = (t.shape options).completed := by
  have hdeclares : (t.shape options).declaresConstructor = t.declaresConstructor := by
    rw [declaresConstructor, shape, List.any_map]
    rfl
  have himplicit : Stmt.shapeBlock options t.implicitConstructor.body = t.implicitConstructor.body := by
    rw [implicitConstructor]
    split <;> rfl
  rw [completed, completed, hdeclares]
  split
  · rfl
  · simp only [shape, pushConstructor, List.map_append, List.map_cons, List.map_nil, himplicit]
    rfl

theorem shape_initializer (h : t.shape options = t) {i : SlotId} {s : Slot} (hs : t.slots[i]? = some s) :
    s.initializer.map (·.shape options) = s.initializer := by
  have hsame := congrArg (fun t => t.slots[i]?.map (·.initializer)) h
  simpa [shape, hs] using hsame

theorem shape_body (h : t.shape options = t) {id : CtorId} {c : Constructor} (hc : t.constructors[id]? = some c) :
    Stmt.shapeBlock options c.body = c.body := by
  have hsame := congrArg (fun t => t.constructors[id]?.map (·.body)) h
  simpa [shape, hc] using hsame

end TypeDecl

namespace Recovery

variable {options : Options} {t : TypeDecl}

/-- In shape, so are the values that are hoisted. -/
theorem shape_of_hoisted (r : Recovery options t) (h : t.completed.shape options = t.completed) {slot : SlotId}
    {value : Expr} (hvalue : r.plan.hoisted.find? slot = some value) : value.shape options = value := by
  obtain ⟨id, c, heads, hc, hat, hmem⟩ := r.plan_hoists.exists_hoistsAt hvalue
  obtain ⟨s, hs, hstore⟩ := hat.exists_store hmem
  have hmem : s ∈ c.body := (Constructor.region_eq c ▸ List.takeWhile_prefix _).subset (List.mem_of_mem_take hs)
  exact Stmt.shape_value_of_singleStore? (Stmt.shapeBlock_eq_self_iff.mp (TypeDecl.shape_body h hc) s hmem) hstore

/-- In shape, a reconstruction that leaves out no zeros does to stores and initializers what its plan says. -/
theorem yields_of_shaped (r : Recovery options t) (h : t.completed.shape options = t.completed)
    (hkeeps : r.classification.dropZeroInitializers = false) : r.plan.Yields t.completed r.type where
  slots i := by
    rw [r.getElem?_type_slots, TypeDecl.completed_slots]
    cases hs : t.slots[i]? with
    | none => rfl
    | some s =>
      have hgiven := TypeDecl.shape_initializer h (i := i) (s := s) (by rw [TypeDecl.completed_slots, hs])
      simp only [Option.map_some, slotOf, hkeeps, Plan.initializer, Bool.false_and, Bool.false_eq_true, if_false]
      cases hfind : r.plan.hoisted.find? i with
      | none => rw [Option.none_or, hgiven]
      | some v => rw [Option.some_or, Option.map_some, r.shape_of_hoisted h hfind]
  constructors id := by
    rw [r.getElem?_type_constructors]
    cases hc : t.completed.constructors[id]? with
    | none => rfl
    | some c =>
      rw [Option.map_some, Option.map_some, Option.map_some, constructorOf]
      have hbody : ∀ s ∈ r.plan.remaining id c.body, s.shape options = s := fun s hs =>
        Stmt.shapeBlock_eq_self_iff.mp (TypeDecl.shape_body h hc) s ((r.plan.remaining_sublist id c.body).subset hs)
      rw [Stmt.shapeBlock_eq_self_iff.mpr hbody]

/-! ### Nothing left to hoist -/

theorem exists_of_extraction_type (r : Recovery options t) {extraction : Extraction}
    (h : Extraction.of options.equivalenceDepth r.type r.chain = .ok extraction) :
    ∃ r' : Recovery options r.type, r'.extraction = extraction := by
  rw [← r.completed_type] at h
  obtain ⟨r', -, hextraction⟩ := exists_of_extraction (r.completed_type.symm ▸ r.build_type) h
  exact ⟨r', hextraction⟩

/-- Nothing is left to hoist when nothing stands before the delegation of the only root. -/
theorem exists_idle_of_root (r : Recovery options t) {root : CtorId} {c : Constructor} (hroot : r.chain.root? = some root)
    (hc : t.completed.constructors[root]? = some c) (hregion : Candidate.region (r.constructorOf root c) = []) :
    ∃ r' : Recovery options r.type, r'.plan.Idle := by
  obtain ⟨again, hagain, hwith, hwithout⟩ := Extraction.exists_idle options.equivalenceDepth r.build_type fun id hid d hd => by
    rw [Chain.root?_eq_some_iff.mp hroot, List.mem_singleton] at hid
    rw [hid, r.type_constructor hc, Option.some_inj] at hd
    rw [← hd, hregion]
  obtain ⟨r', rfl⟩ := r.exists_of_extraction_type hagain
  refine ⟨r', ?_⟩
  unfold plan Decision.plan
  split
  · exact hwith
  · exact hwithout
  · exact hwithout

/-- Nothing is left to hoist next to a primary constructor. -/
theorem exists_idle_of_synthesized (r : Recovery options t) {root : CtorId} {forms : PosMap Form}
    (h : r.decision = .synthesized root forms) : ∃ r' : Recovery options r.type, r'.plan.Idle := by
  obtain ⟨hroot, c, hc, -, -, hfits, -⟩ := r.decision_eq_synthesized_iff.mp h
  have hplan : r.plan = r.extraction.withPrimary := by rw [plan, h]; rfl
  refine r.exists_idle_of_root hroot hc (Decision.region_of_rootFits (t := r.type) ?_)
  rw [constructorOf, Decision.rootFits_shape r.type_layout, hplan]
  exact hfits

/-- Nothing is left to hoist where zeros are left out. -/
theorem exists_idle_of_zeros (r : Recovery options t) (h : r.classification.dropZeroInitializers = true) :
    ∃ r' : Recovery options r.type, r'.plan.Idle := by
  obtain ⟨root, c, hzeros, -⟩ := r.leavesOutZeros h
  refine r.exists_idle_of_root hzeros.root hzeros.ctor ?_
  rw [Constructor.region_eq, constructorOf, hzeros.remaining]
  rfl

section Shaped

variable (r : Recovery options t) (h : t.completed.shape options = t.completed)
include h

/-- In shape the kind is told from the result as it was before. -/
theorem classify_of_shaped : Aggregate.classify r.type = Aggregate.classify t.completed := by
  have hcopied : Aggregate.copiedSlots? r.type = Aggregate.copiedSlots? t.completed := by
    have hcopy : Aggregate.copyConstructor? r.type = Aggregate.copyConstructor? t.completed := r.copyConstructor?_type
    unfold Aggregate.copiedSlots?
    rw [hcopy]
    cases hid : Aggregate.copyConstructor? t.completed with
    | none => rfl
    | some id =>
      obtain ⟨c, hc, hdeclared⟩ := Classification.copyConstructor?_eq_some hid
      -- A copy constructor is no root, so nothing is taken from its body.
      have hother : id ∉ r.chain.roots := by
        rw [Chain.mem_roots_iff_runs r.chain_eq hc, Constructor.runsInitializers, hdeclared]
        exact Bool.false_ne_true
      have hbody : (r.constructorOf id c).body = c.body := by
        rw [constructorOf, r.plan_hoists.other id hother, TypeDecl.shape_body h hc]
      simp only [Option.bind_eq_bind, Option.bind_some, r.getElem?_type_constructors, hc, Option.map_some, hbody]
  have horder : Aggregate.canonicalOrder? r.type = Aggregate.canonicalOrder? t.completed := by
    unfold Aggregate.canonicalOrder?
    rw [hcopied, TypeDecl.isValueLayout, r.type_layout, TypeDecl.isValueLayout, r.type_eq]
  rw [Aggregate.classify, horder, r.type_layout, Aggregate.classify]

/-- In shape, a root of which the second run leaves nothing but the base call is one of which the first run would have
left no more next to a primary constructor. -/
theorem rootFits_of_shaped (hkeeps : r.classification.dropZeroInitializers = false) (hnone : r.decision.primary? = none)
    (r' : Recovery options r.type)
    (hsub : ∀ slot value, r'.extraction.withPrimary.hoisted.find? slot = some value →
      r.extraction.withPrimary.hoisted.find? slot = some value)
    {root : CtorId} {c : Constructor} (hroot : r.chain.root? = some root) (hc : t.completed.constructors[root]? = some c)
    (hfits : Decision.rootFits r.type (r'.extraction.withPrimary.remaining root (r.constructorOf root c).body) = true) :
    Decision.rootFits t.completed (r.extraction.withPrimary.remaining root c.body) = true := by
  have hmem := Chain.mem_roots_of_root? hroot
  have hc' := r.type_constructor hc
  obtain ⟨first, hfirst⟩ := r.plan_hoists.hoistsAt hmem hc
  obtain ⟨second, hsecond⟩ := (r.hoists_again r').1.hoistsAt hmem hc'
  obtain ⟨all, hall⟩ := (Extraction.hoists r.chain_eq r.extraction_eq).1.hoistsAt hmem hc
  have hbody : (r.constructorOf root c).body = c.body.drop first.length := by
    have hyields := (r.yields_of_shaped h hkeeps).constructors root
    rw [hc', hc, Option.map_some, Option.map_some, Option.some_inj, Prod.mk.injEq, hfirst.remaining] at hyields
    exact hyields.2
  -- The stores that the two runs hoist are all among those that could be hoisted with a primary constructor.
  have hlength : first.length + second.length ≤ all.length := by
    have hnodup : (first ++ second).Nodup := by
      refine List.nodup_append'.mpr ⟨hfirst.nodup.of_map, hsecond.nodup.of_map, fun x hx hx' => ?_⟩
      refine (hsecond.fresh x hx').not_mem (e := x.2) ?_
      exact ((r.yields_of_shaped h hkeeps).mem_initializers hfirst x).mpr (Or.inr hx)
    rw [← List.length_append]
    refine (hnodup.subperm fun x hx => (hall.hoisted x.1 x.2).mp ?_).length_le
    rcases List.mem_append.mp hx with hx | hx
    · refine Extraction.withPrimary_of_withoutPrimary r.extraction_eq ?_
      rw [← Decision.plan_of_primary?_eq_none hnone]
      exact (hfirst.hoisted x.1 x.2).mpr hx
    · exact hsub _ _ ((hsecond.hoisted x.1 x.2).mpr hx)
  rw [hsecond.remaining, hbody, List.drop_drop] at hfits
  rw [hall.remaining_eq_drop hlength (Decision.region_of_rootFits (t := r.type) hfits)]
  rwa [Decision.rootFits_congr r.type_layout] at hfits

/-- In shape there is nothing left to hoist. -/
theorem exists_idle_of_shaped : ∃ r' : Recovery options r.type, r'.plan.Idle := by
  cases hdecision : r.decision with
  | synthesized root forms => exact r.exists_idle_of_synthesized hdecision
  | notApplicable | rejected =>
    have hnone : r.decision.primary? = none := by rw [hdecision]; rfl
    cases hdrop : r.classification.dropZeroInitializers with
    | true => exact r.exists_idle_of_zeros hdrop
    | false =>
      have hyields := r.yields_of_shaped h hdrop
      rw [plan, Decision.plan_of_primary?_eq_none hnone] at hyields
      obtain ⟨again, hagain, hidle, hsub⟩ := Extraction.exists_again r.chain_eq r.extraction_eq hyields
      obtain ⟨r', rfl⟩ := r.exists_of_extraction_type hagain
      have hkind : r'.classification.kind = r.classification.kind := by
        rw [r'.kind_eq, r.completed_type, r.classify_of_shaped h, r.kind_eq]
      have hreads : r'.extraction.withPrimary.readsParams = true → r.extraction.withPrimary.readsParams = true := by
        intro hreads
        obtain ⟨v, hv, hreads⟩ := List.any_eq_true.mp hreads
        obtain ⟨slot, hslot⟩ := PosMap.mem_values_iff.mp hv
        exact List.any_eq_true.mpr ⟨v, PosMap.mem_values_iff.mpr ⟨slot, hsub slot v hslot⟩, hreads⟩
      have hnone' := r.primary?_again_of_none r' hnone hkind hreads fun root c =>
        r.rootFits_of_shaped h hdrop hnone r' hsub
      refine ⟨r', ?_⟩
      rw [plan, Decision.plan_of_primary?_eq_none hnone']
      exact hidle

/-- What comes out of a type in shape is left alone by a second run. -/
theorem exists_type_eq_of_shaped : ∃ r' : Recovery options r.type, r'.type = r.type := by
  obtain ⟨r', hidle⟩ := r.exists_idle_of_shaped h
  refine ⟨r', r.type_eq_of_idle r' hidle ?_⟩
  rw [r.aggregateKind_type, r.kind_eq, r.classify_of_shaped h]

end Shaped

end Recovery

/-- When a second reconstruction leaves alone what came out of a first one: exactly when it takes no store out of a body
and the kind of aggregate that is noted is the one it tells. This is so whenever the choices of values were in shape from
the start. In any case the result of a second reconstruction is left alone by a third one. -/
theorem reconstruct_again_iff {options : Options} {t t' : TypeDecl} {diagnostics : List Diagnostic}
    (h : reconstruct options t = .ok ⟨t', .reconstructed, diagnostics⟩) :
    ((∃ notes, reconstruct options t' = .ok ⟨t', .reconstructed, notes⟩) ↔
      t'.aggregateKind = some (Aggregate.classify t') ∧
        ∃ t'' notes, reconstruct options t' = .ok ⟨t'', .reconstructed, notes⟩ ∧
          t''.constructors.map (·.body) = t'.constructors.map (·.body)) ∧
    (t.shape options = t → ∃ notes, reconstruct options t' = .ok ⟨t', .reconstructed, notes⟩) ∧
    ∀ t'' notes, reconstruct options t' = .ok ⟨t'', .reconstructed, notes⟩ →
      ∃ notes', reconstruct options t'' = .ok ⟨t'', .reconstructed, notes'⟩ := by
  obtain ⟨r, rfl⟩ := exists_reconstruct_iff.mp ⟨diagnostics, h⟩
  have hshaped : ∀ {t : TypeDecl} (r : Recovery options t), t.shape options = t →
      ∃ notes, reconstruct options r.type = .ok ⟨r.type, .reconstructed, notes⟩ := fun r h =>
    exists_reconstruct_iff.mpr (r.exists_type_eq_of_shaped (by rw [TypeDecl.completed_shape, h]))
  refine ⟨?_, hshaped r, fun t'' notes h' => ?_⟩
  · rw [exists_reconstruct_iff, r.exists_type_eq_iff]
    refine and_congr_right fun _ => ⟨?_, ?_⟩
    · rintro ⟨r', hbodies⟩
      obtain ⟨notes, h'⟩ := exists_reconstruct_iff.mpr ⟨r', rfl⟩
      exact ⟨r'.type, notes, h', hbodies⟩
    · rintro ⟨_, notes, h', hbodies⟩
      obtain ⟨r', rfl⟩ := exists_reconstruct_iff.mp ⟨notes, h'⟩
      exact ⟨r', hbodies⟩
  · obtain ⟨r', rfl⟩ := exists_reconstruct_iff.mp ⟨notes, h'⟩
    exact hshaped r' (TypeDecl.shape_shape options r.decided)

/-- In shape, the stores of `twoRoots` are hoisted once and for all. -/
theorem reconstruct_again_iff_twoRoots : ∃ t' diagnostics,
    reconstruct {} (TypeDecl.twoRoots.shape {}) = .ok ⟨t', .reconstructed, diagnostics⟩ ∧
      t'.slots.map (·.initializer.isSome) = [true, true, true] ∧
      ∃ notes, reconstruct {} t' = .ok ⟨t', .reconstructed, notes⟩ := by
  obtain ⟨t', diagnostics, h, hslots⟩ : ∃ t' diagnostics,
    reconstruct {} (TypeDecl.twoRoots.shape {}) = .ok ⟨t', .reconstructed, diagnostics⟩ ∧
      t'.slots.map (·.initializer.isSome) = [true, true, true] := ⟨_, _, rfl, rfl⟩
  exact ⟨t', diagnostics, h, hslots, (reconstruct_again_iff h).2.1 (TypeDecl.shape_shape {} .twoRoots)⟩

/-- A type whose constructor stores one of three numbers, by a choice within a choice. -/
def TypeDecl.nestedChoice : TypeDecl where
  name := "Level"
  layout := .byReference
  slots := [{ name := "rank", kind := .field, type := "int" }]
  constructors := [{
    parameters := []
    body := [.branch (.call { name := "isHigh", pure := true } [])
        [.branch (.call { name := "isTop", pure := true } [])
          [.assign 0 (.literal (.int 1))] [.assign 0 (.literal (.int 2))]]
        [.assign 0 (.literal (.int 3))],
      .base []] }]

/-- The first run makes one store of the two choices, and the second one hoists it. -/
theorem reconstruct_again_hoists_nestedChoice : ∃ t' diagnostics t'' notes,
    reconstruct {} .nestedChoice = .ok ⟨t', .reconstructed, diagnostics⟩ ∧
      reconstruct {} t' = .ok ⟨t'', .reconstructed, notes⟩ ∧ t'' ≠ t' := by
  refine ⟨_, _, _, _, rfl, rfl, fun h => ?_⟩
  have hslots := congrArg (fun t => t.slots.map (·.initializer.isSome)) h
  cases hslots

end DeclRecovery
