import DeclRecovery.Proofs.Mentions
import DeclRecovery.Proofs.Reconstruction.Again

/-!
What a type looks like when its parameters have moved to the declaration (`TypeDecl.HasPrimary`), and when they have not.
The decision is made before stores are hoisted and anything is written in shape, and it looks at what will be left. Forms
and dispositions that came in with the type do not survive it.
-/

namespace DeclRecovery

/-- The instance, which does not exist yet where a declaration is evaluated, is not looked at. -/
def Expr.IgnoresInstance (e : Expr) : Prop := ¬e.Mentions .self ∧ ∀ s, ¬e.Mentions (.member s)

theorem Decision.readsInstance_eq_false_iff {args : List Expr} :
    readsInstance args = false ↔ ∀ a ∈ args, a.IgnoresInstance := by
  simp only [readsInstance, List.any_eq_false, Bool.not_eq_true, Expr.readsInstance_eq_false_iff, Expr.IgnoresInstance]

/-- The parameters of `root` stand at the declaration, and all other declared constructors begin with a call of another
one. -/
structure TypeDecl.HasPrimary (options : Options) (t : TypeDecl) (root : CtorId) : Prop where
  primary : ∃ c, t.constructors[root]? = some c ∧ c.isDeclared = true ∧ c.form = .primary ∧ c.parameters ≠ [] ∧
    c.chainTarget? = none ∧
    (t.layout = .byValue ∧ c.body = [] ∨
      t.layout = .byReference ∧ ∃ args, c.body = [.base args] ∧ ∀ a ∈ args, a.IgnoresInstance)
  only : ∀ id c, t.constructors[id]? = some c → c.isDeclared = true → c.chainTarget? = none → id = root
  overload : ∀ id c, t.constructors[id]? = some c → c.isDeclared = true → id ≠ root →
    ∃ target d args rest, c.body = .chain target args :: rest ∧ t.constructors[target]? = some d ∧
      args.length = d.parameters.length ∧ (∀ a ∈ args, a.IgnoresInstance) ∧
      (c.form = .forwarding ∧ rest = [] ∨ options.keepBodiedOverloads = true ∧ c.form = .explicit ∧ rest ≠ [])

/-- Nothing in the type is written for a primary constructor. -/
structure TypeDecl.NoPrimary (t : TypeDecl) : Prop where
  forms : ∀ c ∈ t.constructors, c.form ≠ .primary ∧ c.form ≠ .forwarding
  dispositions : ∀ s ∈ t.slots, s.disposition = .declared

namespace Recovery

variable {options : Options} {t : TypeDecl} (r : Recovery options t)

theorem primaryConstructor_type : r.type.primaryConstructor = r.decision.primary? := by rw [r.type_eq]

section Synthesized

variable {root : CtorId} {forms : PosMap Form} (h : r.decision = .synthesized root forms)
include h

theorem roots_of_synthesized : r.chain.roots = [root] :=
  Chain.root?_eq_some_iff.mp (r.decision_eq_synthesized_iff.mp h).1

/-- The root as it comes in and as it goes out. -/
theorem root_of_synthesized : ∃ c, t.completed.constructors[root]? = some c ∧ c.isDeclared = true ∧
    c.chainTarget? = none ∧ c.parameters ≠ [] ∧ Decision.rootFits r.type (r.constructorOf root c).body = true := by
  obtain ⟨-, c, hc, hparams, -, hfits, -⟩ := r.decision_eq_synthesized_iff.mp h
  have hroot : root ∈ r.chain.roots := by simp [r.roots_of_synthesized h]
  obtain ⟨c', hc', hdeclared, htarget⟩ := (Chain.mem_roots_iff r.chain_eq).mp hroot
  cases hc.symm.trans hc'
  have hplan : r.plan = r.extraction.withPrimary := by rw [plan, h]; rfl
  refine ⟨c, hc, hdeclared, htarget, hparams, ?_⟩
  rw [constructorOf, Decision.rootFits_shape r.type_layout, hplan]
  exact hfits

/-- The form of an overload is the one that was found for it. -/
theorem overload_of_synthesized {id : CtorId} {c : Constructor} (hc : t.completed.constructors[id]? = some c)
    (hdeclared : c.isDeclared = true) (hne : id ≠ root) :
    Decision.overload options r.formed id = .ok (.ok (r.constructorOf id c).form) := by
  obtain ⟨-, -, -, -, -, -, listed, hlisted, rfl⟩ := r.decision_eq_synthesized_iff.mp h
  have hkeys : id ∈ (PosMap.ofList listed).keys := by
    rw [PosMap.mem_keys_ofList, Decision.map_fst_overloads hlisted, List.mem_filter]
    exact ⟨Chain.mem_order r.chain_eq hc hdeclared, by simpa using hne⟩
  obtain ⟨form, hform⟩ := PosMap.exists_find?_of_mem_keys hkeys
  have hout : (r.constructorOf id c).form = form := by
    rw [constructorOf, h, Decision.formOf, Decision.forms, PosMap.find?_add, if_neg hne, hform]
    rfl
  rw [hout]
  exact Decision.overload_of_mem hlisted (PosMap.mem_of_find?_ofList hform)

theorem constructorOf_overload {id : CtorId} {c : Constructor} (hc : t.completed.constructors[id]? = some c)
    (hdeclared : c.isDeclared = true) (hne : id ≠ root) :
    ∃ target d args rest, (r.constructorOf id c).body = .chain target args :: rest ∧
      r.type.constructors[target]? = some d ∧ args.length = d.parameters.length ∧ (∀ a ∈ args, a.IgnoresInstance) ∧
      ((r.constructorOf id c).form = .forwarding ∧ rest = [] ∨
        options.keepBodiedOverloads = true ∧ (r.constructorOf id c).form = .explicit ∧ rest ≠ []) := by
  obtain ⟨_, target, args, rest, d, hformed, hbody, hd, harity, hargs, hform⟩ :=
    Decision.overload_eq_ok (r.overload_of_synthesized h hc hdeclared hne)
  rw [r.getElem?_formed_constructors, hc] at hformed
  rw [r.getElem?_formed_constructors] at hd
  cases hformed
  obtain ⟨d₀, hd₀, rfl⟩ := Option.map_eq_some_iff.mp hd
  -- It is no root, so nothing is hoisted out of it.
  have hout : (r.constructorOf id c).body =
      .chain target (args.map (·.shape options)) :: Stmt.shapeBlock options rest := by
    have hid : id ∉ r.chain.roots := by simpa [r.roots_of_synthesized h] using hne
    have hbody : c.body = .chain target args :: rest := hbody
    rw [constructorOf, r.plan_hoists.other id hid, hbody, Stmt.shapeBlock, Stmt.chain, Stmt.shape]
    rfl
  refine ⟨target, _, _, _, hout, r.type_constructor hd₀, by simpa [constructorOf] using harity, ?_, ?_⟩
  · rw [← Decision.readsInstance_eq_false_iff, Decision.readsInstance_shape]
    exact hargs
  · simpa [Stmt.shapeBlock_eq_nil_iff] using hform

theorem hasPrimary : r.type.HasPrimary options root := by
  obtain ⟨c, hc, hdeclared, -, hparams, hfits⟩ := r.root_of_synthesized h
  have hroots : ∀ {id c}, r.type.constructors[id]? = some c → c.isDeclared = true →
      (c.chainTarget? = none ↔ id = root) := by
    intro id c hc hdeclared
    have hmem : id ∈ r.chain.roots ↔ _ := Chain.mem_roots_iff r.build_type
    rw [r.roots_of_synthesized h, List.mem_singleton, hc] at hmem
    simpa [hdeclared] using hmem.symm
  refine ⟨⟨_, r.type_constructor hc, hdeclared, r.formOf_primary h _, hparams,
    (hroots (r.type_constructor hc) hdeclared).mpr rfl, ?_⟩, fun id c hc hdeclared => (hroots hc hdeclared).mp,
    fun id c' hc' hdeclared hne => ?_⟩
  · rcases Decision.rootFits_iff.mp hfits with ⟨hlayout, hbody⟩ | ⟨hlayout, args, hbody, hargs⟩
    · exact Or.inl ⟨by simpa [TypeDecl.isValueLayout] using hlayout, hbody⟩
    · refine Or.inr ⟨?_, args, hbody, Decision.readsInstance_eq_false_iff.mp hargs⟩
      cases hl : r.type.layout with
      | byReference => rfl
      | byValue => simp [TypeDecl.isValueLayout, hl] at hlayout
  · rw [r.getElem?_type_constructors] at hc'
    obtain ⟨c, hc, rfl⟩ := Option.map_eq_some_iff.mp hc'
    exact r.constructorOf_overload h hc hdeclared hne

end Synthesized

theorem noPrimary (h : r.decision.primary? = none) : r.type.NoPrimary := by
  constructor
  case forms =>
    intro c' hc'
    obtain ⟨id, c, -, rfl⟩ := r.exists_of_mem_constructors hc'
    rw [constructorOf, Decision.formOf_of_primary?_eq_none h]
    split <;> simp_all
  case dispositions =>
    intro s' hs'
    obtain ⟨i, hi⟩ := List.getElem?_of_mem hs'
    rw [r.getElem?_type_slots] at hi
    obtain ⟨s, -, rfl⟩ := Option.map_eq_some_iff.mp hi
    exact Decision.dispositionOf_of_primary?_eq_none h _

end Recovery

/-- A name and an age; the second of the two overloads goes on to store the age. -/
def TypeDecl.person : TypeDecl where
  name := "Person"
  layout := .byReference
  slots := [{ name := "name", kind := .field, type := "string" }, { name := "age", kind := .field, type := "int" }]
  constructors :=
    let name : Parameter := { name := "name", type := "string" }
    let age : Parameter := { name := "age", type := "int" }
    [{ parameters := [name], body := [.assign 0 (.param 0), .base []] },
      { parameters := [], body := [.chain 0 [.literal (.str "nobody")]] },
      { parameters := [name, age], body := [.chain 0 [.param 0], .assign 1 (.param 1)] }]

/-- Where a reconstruction leaves a primary constructor, everything is as a declaration with parameters needs it. Where
it leaves none, no trace of one is left. -/
theorem reconstruct_primary_cases {options : Options} {t t' : TypeDecl} {diagnostics : List Diagnostic}
    (h : reconstruct options t = .ok ⟨t', .reconstructed, diagnostics⟩) :
    (∀ root, t'.primaryConstructor = some root → t'.HasPrimary options root) ∧
      (t'.primaryConstructor = none → t'.NoPrimary) := by
  obtain ⟨r, rfl⟩ := exists_reconstruct_iff.mp ⟨diagnostics, h⟩
  rw [r.primaryConstructor_type]
  refine ⟨fun root hroot => ?_, r.noPrimary⟩
  cases hdecision : r.decision with
  | synthesized =>
    rw [hdecision] at hroot
    cases hroot
    exact r.hasPrimary hdecision
  | notApplicable | rejected =>
    rw [hdecision] at hroot
    cases hroot

/-- The overload that goes on decides: it is kept next to a primary constructor if that is asked for, and otherwise there
is none. -/
theorem reconstruct_primary_cases_person :
    (∃ t' diagnostics, reconstruct { keepBodiedOverloads := true } .person = .ok ⟨t', .reconstructed, diagnostics⟩ ∧
      t'.primaryConstructor = some 0 ∧ t'.HasPrimary { keepBodiedOverloads := true } 0) ∧
    ∃ t' diagnostics, reconstruct {} .person = .ok ⟨t', .reconstructed, diagnostics⟩ ∧
      t'.primaryConstructor = none ∧ t'.NoPrimary :=
  ⟨⟨_, _, rfl, rfl, (@reconstruct_primary_cases { keepBodiedOverloads := true } .person _ _ rfl).1 0 rfl⟩,
    ⟨_, _, rfl, rfl, (@reconstruct_primary_cases {} .person _ _ rfl).2 rfl⟩⟩

end DeclRecovery
