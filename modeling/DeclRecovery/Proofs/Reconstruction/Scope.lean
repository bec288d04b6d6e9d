import DeclRecovery.Proofs.Hoist.Leftover
import DeclRecovery.Proofs.Reconstruction.Stores
import DeclRecovery.Proofs.Reconstruction.Synthesis

/-!
Which parameters code may read (`TypeDecl.WellScoped`): a constructor its own ones, and an initializer those that stand
at the declaration. What a reconstruction moves into an initializer itself is in scope there. But it leaves alone the
initializers that have come in, and where it finds no primary constructor any more, the parameters that these read are
gone.
-/

namespace DeclRecovery

namespace TypeDecl

/-- The constructor whose parameters stand at the declaration. -/
def primary? (t : TypeDecl) : Option Constructor := t.primaryConstructor.bind (t.constructors[·]?)

/-- Whether a parameter stands at the declaration. -/
def ParamInScope (t : TypeDecl) (i : Nat) : Prop :=
  ∃ c ∈ t.primary?, c.isDeclared = true ∧ c.form = .primary ∧ i < c.parameters.length

instance (t : TypeDecl) (i : Nat) : Decidable (t.ParamInScope i) := inferInstanceAs
  (Decidable (∃ c ∈ t.primary?, c.isDeclared = true ∧ c.form = .primary ∧ i < c.parameters.length))

/-- No parameter is read where it does not exist. -/
structure WellScoped (t : TypeDecl) : Prop where
  bodies : ∀ c ∈ t.constructors, ∀ s ∈ c.body, ∀ i, s.Mentions (.param i) → i < c.parameters.length
  initializers : ∀ x ∈ t.initializers, ∀ i, x.2.Mentions (.param i) → t.ParamInScope i

theorem wellScoped_iff {t : TypeDecl} : t.WellScoped ↔
    (∀ c ∈ t.constructors, ∀ s ∈ c.body, ∀ e ∈ s.exprs, ∀ i ∈ e.footprint.params.toList, i < c.parameters.length) ∧
      ∀ x ∈ t.initializers, ∀ i ∈ x.2.footprint.params.toList, t.ParamInScope i := by
  have hmem : ∀ {e : Expr} {i : Nat}, i ∈ e.footprint.params.toList ↔ e.Mentions (.param i) := Expr.mem_params_iff
  simp only [hmem]
  refine ⟨fun h => ⟨fun c hc s hs e he i hi => h.bodies c hc s hs i ⟨e, he, hi⟩, h.initializers⟩, fun h => ⟨?_, h.2⟩⟩
  rintro c hc s hs i ⟨e, he, hi⟩
  exact h.1 c hc s hs e he i hi

instance (t : TypeDecl) : Decidable t.WellScoped := decidable_of_iff _ wellScoped_iff.symm

theorem WellScoped.bodies_completed {t : TypeDecl} (h : t.WellScoped) {id : CtorId} {c : Constructor}
    (hc : t.completed.constructors[id]? = some c) {s : Stmt} (hs : s ∈ c.body) {i : Nat} (hi : s.Mentions (.param i)) :
    i < c.parameters.length := by
  rcases getElem?_completed hc with hc | rfl
  · exact h.bodies c (List.mem_of_getElem? hc) s hs i hi
  · -- The implicit constructor has no arguments to mention anything in.
    rw [implicitConstructor] at hs
    split at hs
    · cases hs
    · cases List.mem_singleton.mp hs
      rcases hi with ⟨e, he, -⟩
      cases he

end TypeDecl

namespace Recovery

variable {options : Options} {t : TypeDecl} (r : Recovery options t)

theorem paramInScope_type {root : CtorId} {forms : PosMap Form} (h : r.decision = .synthesized root forms)
    {c : Constructor} (hc : t.completed.constructors[root]? = some c) {i : Nat} :
    r.type.ParamInScope i ↔ i < c.parameters.length := by
  obtain ⟨c', hc', hdeclared, hform, -⟩ := (r.hasPrimary h).primary
  have hprimary : r.type.primary? = some c' := by
    rw [TypeDecl.primary?, r.primaryConstructor_type, h]
    exact hc'
  rw [r.type_constructor hc] at hc'
  cases hc'
  simp only [TypeDecl.ParamInScope, hprimary, Option.mem_some_iff, exists_eq_left', hdeclared, hform, true_and]
  exact Iff.rfl

theorem not_paramInScope_type (h : r.decision.primary? = none) (i : Nat) : ¬r.type.ParamInScope i := by
  simp [TypeDecl.ParamInScope, TypeDecl.primary?, r.primaryConstructor_type, h]

/-- No initializer is lost. -/
theorem mem_initializers_type {x : SlotId × Expr} (hx : x ∈ t.initializers) :
    (x.1, x.2.shape options) ∈ r.type.initializers := by
  obtain ⟨s, hs, hinit⟩ := TypeDecl.mem_initializers.mp hx
  rw [← TypeDecl.completed_slots] at hs
  have hslot : x.1 ∉ r.plan.hoisted.entries.map Prod.fst := by
    intro hmem
    obtain ⟨y, hy, hxy⟩ := List.mem_map.mp hmem
    obtain ⟨s', -, hs', -, hnone, -⟩ := r.movesStores.hoisted y hy
    rw [hxy, hs] at hs'
    cases hs'
    cases hinit.symm.trans hnone
  obtain ⟨s', hs', hkept⟩ := r.movesStores.kept x.1 s hslot hs
  exact TypeDecl.mem_initializers.mpr ⟨s', hs', by rw [hkept, hinit]; rfl⟩

/-- What a value reads that is hoisted into an initializer is in scope there. -/
theorem paramInScope_of_hoisted (ht : t.WellScoped) {slot : SlotId} {v : Expr}
    (hv : r.plan.hoisted.find? slot = some v) {i : Nat} (hi : v.Mentions (.param i)) : r.type.ParamInScope i := by
  cases hdecision : r.decision with
  | synthesized root forms =>
    obtain ⟨c, hc, -⟩ := r.root_of_synthesized hdecision
    obtain ⟨heads, hat⟩ := r.plan_hoists.hoistsAt (by simp [r.roots_of_synthesized hdecision]) hc
    obtain ⟨s, hs, hstore⟩ := hat.exists_store ((hat.hoisted slot v).mp hv)
    have hbody : s ∈ c.body := by
      have hregion := Constructor.region_eq c ▸ List.takeWhile_prefix (l := c.body) fun s => s.delegation?.isNone
      exact hregion.subset (List.mem_of_mem_take hs)
    exact (r.paramInScope_type hdecision hc).mpr (ht.bodies_completed hc hbody (Stmt.mentions_of_singleStore? hstore hi))
  | notApplicable | rejected =>
    -- Without a primary constructor, only values are hoisted that read no parameter.
    rw [plan, hdecision] at hv
    have hreads := Extraction.readsParams_withoutPrimary r.extraction_eq hv
    rw [Expr.readsParams_iff.mpr ⟨i, hi⟩] at hreads
    cases hreads

theorem bodies_type (ht : t.WellScoped) {c : Constructor} (hc : c ∈ r.type.constructors) {s : Stmt} (hs : s ∈ c.body)
    {i : Nat} (hi : s.Mentions (.param i)) : i < c.parameters.length := by
  obtain ⟨id, c₀, hc₀, rfl⟩ := r.exists_of_mem_constructors hc
  rw [constructorOf, Stmt.shapeBlock_eq] at hs
  obtain ⟨s₀, hs₀, rfl⟩ := List.mem_map.mp hs
  have hmem : s₀ ∈ c₀.body := (r.plan.remaining_sublist id c₀.body).subset hs₀
  exact ht.bodies_completed hc₀ hmem ((Stmt.mentions_param_shape s₀ i).mp hi)

/-- Only what an initializer has read before can come out of scope. -/
theorem wellScoped_type_iff (ht : t.WellScoped) :
    r.type.WellScoped ↔ ∀ x ∈ t.initializers, ∀ i, x.2.Mentions (.param i) → r.type.ParamInScope i := by
  refine ⟨fun h x hx i hi => ?_, fun h => ⟨fun c hc s hs i => r.bodies_type ht hc hs, fun x hx i hi => ?_⟩⟩
  · exact h.initializers _ (r.mem_initializers_type hx) i ((Expr.mentions_param_shape x.2 i).mpr hi)
  · obtain ⟨v, hv, hfrom⟩ := r.exists_of_mem_initializers hx
    rw [hv, Expr.mentions_param_shape] at hi
    rcases hfrom with hhoisted | hgiven
    · exact r.paramInScope_of_hoisted ht hhoisted hi
    · exact h _ hgiven i hi

/-- The same options find the same primary constructor, so nothing comes out of scope the second time. -/
theorem wellScoped_again (h : r.type.WellScoped) (r' : Recovery options r.type) : r'.type.WellScoped := by
  rw [r'.wellScoped_type_iff h]
  intro x hx i hi
  have hscope := h.initializers x hx i hi
  cases hdecision : r.decision with
  | synthesized root forms =>
    obtain ⟨c, hc, -⟩ := r.root_of_synthesized hdecision
    have hc' : r.type.completed.constructors[root]? = some (r.constructorOf root c) := by
      rw [r.completed_type, r.type_constructor hc]
    rw [r'.paramInScope_type (r.decision_again_of_synthesized r' hdecision) hc']
    exact (r.paramInScope_type hdecision hc).mp hscope
  | notApplicable | rejected => exact absurd hscope (r.not_paramInScope_type (by rw [hdecision]; rfl) i)

end Recovery

/-- The person with the name at the declaration. -/
def TypeDecl.personAtDeclaration : TypeDecl :=
  { TypeDecl.person with
    slots := [{ name := "name", kind := .field, type := "string", initializer := some (.param 0) },
      { name := "age", kind := .field, type := "int" }]
    constructors :=
      let name : Parameter := { name := "name", type := "string" }
      let age : Parameter := { name := "age", type := "int" }
      [{ parameters := [name], body := [.base []], form := .primary },
        { parameters := [], body := [.chain 0 [.literal (.str "nobody")]], form := .forwarding },
        { parameters := [name, age], body := [.chain 0 [.param 0], .assign 1 (.param 1)] }]
    aggregateKind := some .reference
    primaryConstructor := some 0 }

/-- The type that comes out of a well-scoped one is well-scoped if and only if its declaration has the parameters that
the initializers of before read. So it is if they read none, and so it stays under the same options. -/
theorem reconstruct_wellScoped_iff {options : Options} {t t' : TypeDecl} {diagnostics : List Diagnostic}
    (ht : t.WellScoped) (h : reconstruct options t = .ok ⟨t', .reconstructed, diagnostics⟩) :
    (t'.WellScoped ↔ ∀ x ∈ t.initializers, ∀ i, x.2.Mentions (.param i) → t'.ParamInScope i) ∧
      ((∀ x ∈ t.initializers, ∀ i, ¬x.2.Mentions (.param i)) → t'.WellScoped) ∧
      (t'.WellScoped → ∀ t'' notes, reconstruct options t' = .ok ⟨t'', .reconstructed, notes⟩ → t''.WellScoped) := by
  obtain ⟨r, rfl⟩ := exists_reconstruct_iff.mp ⟨diagnostics, h⟩
  have hiff := r.wellScoped_type_iff ht
  refine ⟨hiff, fun hnone => hiff.mpr fun x hx i hi => absurd hi (hnone x hx i), fun ht' t'' notes h' => ?_⟩
  obtain ⟨r', rfl⟩ := exists_reconstruct_iff.mp ⟨notes, h'⟩
  exact r.wellScoped_again ht' r'

theorem reconstruct_wellScoped_iff_person : TypeDecl.person.WellScoped ∧
    (∃ diagnostics, reconstruct { keepBodiedOverloads := true } .person =
      .ok ⟨.personAtDeclaration, .reconstructed, diagnostics⟩) ∧ TypeDecl.personAtDeclaration.WellScoped :=
  ⟨by decide, ⟨_, rfl⟩, (@reconstruct_wellScoped_iff { keepBodiedOverloads := true } .person _ _ (by decide) rfl).2.1
    fun _ hx => absurd hx List.not_mem_nil⟩

/-- Under options that rule the primary constructor out, the person whose name stands at the declaration has an
initializer that reads a parameter of nothing. -/
theorem reconstruct_loses_scope_person : ∃ t' diagnostics, TypeDecl.personAtDeclaration.WellScoped ∧
    reconstruct {} .personAtDeclaration = .ok ⟨t', .reconstructed, diagnostics⟩ ∧ ¬t'.WellScoped := by
  refine ⟨{ TypeDecl.personAtDeclaration with
    constructors := TypeDecl.personAtDeclaration.constructors.map fun c => { c with form := .explicit }
    primaryConstructor := none }, _, ?_, rfl, ?_⟩
  · decide
  · decide

end DeclRecovery
