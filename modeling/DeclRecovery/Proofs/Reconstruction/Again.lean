import DeclRecovery.Proofs.Primary
import DeclRecovery.Proofs.Reconstruction.Elision

/-!
The second of two reconstructions in a row. It starts from the same chain (`chain_again`) and sees the same overloads
(`overloads_again`). A primary constructor is found again, by its form (`decision_again_of_synthesized`); where there was
none, there is none unless the second search for stores finds more than the first (`primary?_again_of_none`).
-/

namespace DeclRecovery

theorem Plan.Hoists.remaining_of_region_eq_nil {p : Plan} {t : TypeDecl} {roots : List CtorId} {id : CtorId}
    {c : Constructor} (h : p.Hoists t roots) (hc : t.constructors[id]? = some c) (hregion : Candidate.region c = []) :
    p.remaining id c.body = c.body := by
  by_cases hid : id ∈ roots
  · obtain ⟨heads, hat⟩ := h.hoistsAt hid hc
    have hlength := hat.within
    rw [hregion, List.length_nil, Nat.le_zero] at hlength
    rw [hat.remaining, hlength, List.drop_zero]
  · exact h.other id hid c.body

namespace Recovery

variable {options : Options} {t : TypeDecl} (r : Recovery options t)

/-- When a reconstruction finds a primary constructor. -/
theorem decision_eq_synthesized_iff {root : CtorId} {forms : PosMap Form} : r.decision = .synthesized root forms ↔
    r.chain.root? = some root ∧ ∃ c, t.completed.constructors[root]? = some c ∧ c.parameters ≠ [] ∧
      Decision.hasEvidence t.completed r.chain root { c with form := r.classification.formOf options root c }
        r.extraction.withPrimary (some r.classification.kind) = true ∧
      Decision.rootFits t.completed (r.extraction.withPrimary.remaining root c.body) = true ∧
      ∃ listed, Decision.overloads options r.formed (r.chain.order.filter (· != root)) = .ok (.ok listed) ∧
        .ofList listed = forms := by
  have hok : r.decision = .synthesized root forms ↔ Decision.of options r.formed r.chain r.extraction
      (some r.classification.kind) = .ok (.synthesized root forms) := by
    rw [r.decision_eq]
    exact ⟨congrArg _, Except.ok.inj⟩
  have hevidence : ∀ c, Decision.hasEvidence r.formed r.chain root c r.extraction.withPrimary
      (some r.classification.kind) = Decision.hasEvidence t.completed r.chain root c r.extraction.withPrimary
        (some r.classification.kind) := by
    intro c
    rw [Decision.hasEvidence, Decision.hasEvidence, r.formed_slots, TypeDecl.completed_slots,
      Decision.hasValueEvidence_congr r.formed_layout]
  have hfits := Decision.rootFits_congr r.formed_layout
  rw [hok, Decision.of_eq_synthesized_iff, r.getElem?_formed_constructors]
  simp only [Option.map_eq_some_iff, hevidence, hfits]
  constructor
  · rintro ⟨hroot, _, ⟨c, hc, rfl⟩, h⟩
    exact ⟨hroot, c, hc, h⟩
  · rintro ⟨hroot, c, hc, h⟩
    exact ⟨hroot, _, ⟨c, hc, rfl⟩, h⟩

/-- Next to a primary constructor its own form is `primary`. -/
theorem formOf_primary {root : CtorId} {forms : PosMap Form} (h : r.decision = .synthesized root forms) (form : Form) :
    r.decision.formOf root form = .primary := by
  obtain ⟨-, -, -, -, -, -, listed, hlisted, rfl⟩ := r.decision_eq_synthesized_iff.mp h
  have hnone : (PosMap.ofList listed).find? root = none := by
    rw [← Option.not_isSome_iff_eq_none, PosMap.find?_isSome_iff, PosMap.mem_keys_ofList,
      Decision.map_fst_overloads hlisted]
    simp
  rw [h, Decision.formOf, Decision.forms, PosMap.find?_add, if_pos rfl, hnone]
  rfl

/-- The root is not left out when it has parameters. -/
theorem find?_elided_root {root : CtorId} {c : Constructor} (hroot : r.chain.root? = some root)
    (hc : t.completed.constructors[root]? = some c) (hparams : c.parameters ≠ []) :
    r.classification.elided.find? root = none := by
  rw [← Option.not_isSome_iff_eq_none, PosMap.find?_isSome_iff]
  intro hmem
  obtain ⟨c', hc', h⟩ := Classification.mem_elided r.classification_eq hmem
  cases hc.symm.trans hc'
  rcases h with ⟨-, -, hnil⟩ | hdeclared
  · exact hparams hnil
  · have hmem := Chain.mem_roots_of_root? hroot
    rw [Chain.mem_roots_iff_runs r.chain_eq hc, Constructor.runsInitializers, hdeclared] at hmem
    cases hmem

/-! ### The second run -/

variable (r' : Recovery options r.type)

theorem chain_again : r'.chain = r.chain := by
  have hbuild := r'.chain_eq
  rw [r.completed_type, r.build_type] at hbuild
  exact (Except.ok.inj hbuild).symm

theorem getElem?_formed_again (id : CtorId) : r'.formed.constructors[id]? =
    t.completed.constructors[id]?.map fun c =>
      { r.constructorOf id c with form := r'.classification.formOf options id (r.constructorOf id c) } := by
  rw [r'.getElem?_formed_constructors, r.completed_type, r.getElem?_type_constructors, Option.map_map]
  rfl

theorem overloads_again {root : CtorId} (hroot : r.chain.root? = some root) :
    Decision.overloads options r'.formed (r'.chain.order.filter (· != root)) =
      Decision.overloads options r.formed (r.chain.order.filter (· != root)) := by
  rw [r.chain_again]
  refine Decision.overloads_congr ?_ fun id hid => ?_
  · refine List.ext_getElem? fun id => ?_
    rw [List.getElem?_map, List.getElem?_map, r.getElem?_formed_again, r.getElem?_formed_constructors, Option.map_map,
      Option.map_map]
    rfl
  · have hid : id ∉ r.chain.roots := by
      rw [Chain.root?_eq_some_iff.mp hroot, List.mem_singleton]
      simpa using (List.mem_filter.mp hid).2
    rw [r.getElem?_formed_again, r.getElem?_formed_constructors, Option.map_map, Option.map_map]
    congr 1
    funext c
    show Stmt.shapeBlock options (r.plan.remaining id c.body) = Stmt.shapeBlock options c.body
    rw [r.plan_hoists.other id hid]

theorem hoists_again : r'.extraction.withPrimary.Hoists r.type r.chain.roots ∧
    r'.extraction.withoutPrimary.Hoists r.type r.chain.roots := by
  have h := Extraction.hoists r'.chain_eq r'.extraction_eq
  rwa [r.completed_type, r.chain_again] at h

/-- A primary constructor stays one, with the same overloads next to it. -/
theorem decision_again_of_synthesized {root : CtorId} {forms : PosMap Form}
    (h : r.decision = .synthesized root forms) : r'.decision = .synthesized root forms := by
  obtain ⟨hroot, c, hc, hparams, -, hfits, listed, hlisted, rfl⟩ := r.decision_eq_synthesized_iff.mp h
  have hroot' : r'.chain.root? = some root := by rw [r.chain_again r', hroot]
  have hc' : r.type.completed.constructors[root]? = some (r.constructorOf root c) := by
    rw [r.completed_type, r.type_constructor hc]
  have hfits' : Decision.rootFits r.type.completed (r.constructorOf root c).body = true := by
    have hplan : r.plan = r.extraction.withPrimary := by rw [plan, h]; rfl
    rw [r.completed_type, constructorOf, Decision.rootFits_shape r.type_layout, hplan]
    exact hfits
  -- The form alone is evidence enough.
  have hform : r'.classification.formOf options root (r.constructorOf root c) = .primary := by
    have hform : (r.constructorOf root c).form = .primary := r.formOf_primary h _
    rw [Classification.formOf, r'.find?_elided_root hroot' hc' hparams, hform]
    simp
  refine r'.decision_eq_synthesized_iff.mpr ⟨hroot', _, hc', hparams, ?_, ?_, listed, ?_, rfl⟩
  · rw [Decision.hasEvidence, hform]
    rfl
  · have hregion := Decision.region_of_rootFits hfits'
    rw [r.completed_type] at hc'
    rwa [(r.hoists_again r').1.remaining_of_region_eq_nil hc' hregion]
  · rw [r.overloads_again r' hroot, hlisted]

theorem formOf_again_ne_primary (h : r.decision.primary? = none) {id : CtorId} {c : Constructor} :
    r'.classification.formOf options id (r.constructorOf id c) ≠ .primary := by
  have hform : (r.constructorOf id c).form ≠ .primary := by
    rw [constructorOf, Decision.formOf_of_primary?_eq_none h]
    split <;> simp_all
  rw [Classification.formOf]
  cases hfind : r'.classification.elided.find? id with
  | some form =>
    cases Classification.eq_elided_of_find? hfind
    exact Form.noConfusion
  | none =>
    rw [Option.getD_none]
    split
    · exact Form.noConfusion
    · exact hform

/-- Without a primary constructor, an initializer that reads parameters was there before. -/
theorem readsParams_of_type (h : r.decision.primary? = none)
    (hreads : r.type.slots.any (fun s => s.initializer.any Expr.readsParams) = true) :
    t.slots.any (fun s => s.initializer.any Expr.readsParams) = true := by
  obtain ⟨s', hs', hreads⟩ := List.any_eq_true.mp hreads
  obtain ⟨i, hi⟩ := List.getElem?_of_mem hs'
  obtain ⟨e, he, hreads⟩ := (Option.any_eq_true _ _).mp hreads
  obtain ⟨v, rfl, hfrom⟩ := r.exists_of_mem_initializers (TypeDecl.mem_initializers.mpr ⟨s', hi, he⟩)
  rw [Expr.readsParams_shape] at hreads
  rcases hfrom with hhoisted | hgiven
  · rw [plan, Decision.plan_of_primary?_eq_none h] at hhoisted
    rw [Extraction.readsParams_withoutPrimary r.extraction_eq hhoisted] at hreads
    cases hreads
  · obtain ⟨s, hs, hinit⟩ := TypeDecl.mem_initializers.mp hgiven
    exact List.any_eq_true.mpr ⟨s, List.mem_of_getElem? hs, (Option.any_eq_true _ _).mpr ⟨v, hinit, hreads⟩⟩

/-- Where there was no primary constructor there is none the second time, provided that nothing speaks for one that did
not before, and nothing but the root's base call is left that was not before. -/
theorem primary?_again_of_none (h : r.decision.primary? = none)
    (hkind : r'.classification.kind = r.classification.kind)
    (hreads : r'.extraction.withPrimary.readsParams = true → r.extraction.withPrimary.readsParams = true)
    (hfits : ∀ root c, r.chain.root? = some root → t.completed.constructors[root]? = some c →
      Decision.rootFits r.type (r'.extraction.withPrimary.remaining root (r.constructorOf root c).body) = true →
      Decision.rootFits t.completed (r.extraction.withPrimary.remaining root c.body) = true) :
    r'.decision.primary? = none := by
  cases hdecision : r'.decision with
  | notApplicable | rejected => rfl
  | synthesized root forms =>
    obtain ⟨hroot, c', hc', hparams, hevidence, hfits', listed, hlisted, -⟩ := r'.decision_eq_synthesized_iff.mp hdecision
    rw [r.completed_type] at hevidence hfits' hc'
    rw [r.chain_again r'] at hroot
    rw [r.getElem?_type_constructors] at hc'
    obtain ⟨c, hc, rfl⟩ := Option.map_eq_some_iff.mp hc'
    have hprimary := r.decision_eq_synthesized_iff.mpr ⟨hroot, c, hc, hparams, ?_, hfits root c hroot hc hfits', listed,
      r.overloads_again r' hroot ▸ hlisted, rfl⟩
    · rw [hprimary] at h
      cases h
    · -- No form says `primary` any more, so what speaks for one is in the stores or in the initializers.
      have hform : (r'.classification.formOf options root (r.constructorOf root c) == .primary) = false :=
        beq_eq_false_iff_ne.mpr (r.formOf_again_ne_primary r' h)
      rw [Decision.hasEvidence, hform, Bool.false_or, Bool.and_eq_true, Bool.or_eq_true] at hevidence
      have hvalue : Decision.hasValueEvidence t.completed r.chain [root] (some r.classification.kind) = true := by
        rw [← hevidence.2, hkind, r.chain_again r', Decision.hasValueEvidence_congr r.type_layout]
      rw [Decision.hasEvidence, Bool.or_eq_true, Bool.and_eq_true, Bool.or_eq_true, TypeDecl.completed_slots]
      exact Or.inr ⟨hevidence.1.imp hreads (r.readsParams_of_type h), hvalue⟩

end Recovery

end DeclRecovery
