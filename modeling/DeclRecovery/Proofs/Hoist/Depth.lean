import DeclRecovery.Proofs.Hoist.Nested
import DeclRecovery.Proofs.Hoist.Permuted

/-!
A bound on the depth to which values are compared costs stores that are hoisted, and never changes one. Where it makes two
values count as different, the slot stays in the bodies, and so may stores behind it. But fewer slots to start from leave
fewer in the end, and each of them is judged after the same stores as before (`Extraction.plan_mono`). With a single root
there is nothing to compare, so the bound makes no difference at all.
-/

namespace DeclRecovery

/-! ### Agreement -/

namespace EntryPoint

variable {maxDepth deeper : Option Nat} {slot : SlotId}

theorem AgreesOn.mono {e e' : EntryPoint} (hdeeper : ∀ d' ∈ deeper, ∃ d ∈ maxDepth, d ≤ d')
    (h : e.AgreesOn maxDepth slot e') : e.AgreesOn deeper slot e' := by
  obtain ⟨c, c', hc, hc', halike⟩ := h
  exact ⟨c, c', hc, hc', Site.alike_mono hdeeper halike⟩

theorem disagreement?_none_deeper {es : List EntryPoint} (hdeeper : ∀ d' ∈ deeper, ∃ d ∈ maxDepth, d ≤ d')
    (h : disagreement? maxDepth slot none es = none) : disagreement? deeper slot none es = none := by
  rw [disagreement?_none_iff_pairwise] at h ⊢
  exact ⟨h.1, h.2.imp (AgreesOn.mono hdeeper)⟩

/-- A single entry point is compared with no other one. -/
theorem disagreement?_singleton (e : EntryPoint) :
    disagreement? maxDepth slot none [e] = disagreement? deeper slot none [e] := by
  simp only [disagreement?]

end EntryPoint

namespace Agreement

variable {maxDepth deeper : Option Nat} {blocked : SlotId → Option CtorId}

theorem agreed_deeper {es : List EntryPoint} (hdeeper : ∀ d' ∈ deeper, ∃ d ∈ maxDepth, d ≤ d') :
    (Agreement.of maxDepth blocked es).agreed ⊆ (Agreement.of deeper blocked es).agreed := by
  intro slot hslot
  obtain ⟨hcandidate, hblocked, hagree⟩ := mem_agreed.mp hslot
  exact mem_agreed.mpr ⟨hcandidate, hblocked, EntryPoint.disagreement?_none_deeper hdeeper hagree⟩

theorem of_singleton (maxDepth deeper : Option Nat) (e : EntryPoint) :
    Agreement.of maxDepth blocked [e] = Agreement.of deeper blocked [e] := by
  have hobstacle : obstacle? maxDepth blocked [e] = obstacle? deeper blocked [e] := by
    funext slot
    rw [obstacle?, obstacle?, EntryPoint.disagreement?_singleton]
  simp only [Agreement.of, hobstacle]

end Agreement

/-! ### The plans -/

namespace Hoist

theorem eligible_mono {es : List EntryPoint} {agreed agreed' : PosSet} (hsub : agreed ⊆ agreed') (allowParams : Bool) :
    eligible es agreed allowParams ⊆ eligible es agreed' allowParams := by
  intro slot hslot
  obtain ⟨hagreed, hparams⟩ := mem_eligible.mp hslot
  exact mem_eligible.mpr ⟨hsub slot hagreed, hparams⟩

end Hoist

namespace Extraction
open Hoist

variable {t : TypeDecl} {chain : Chain} {maxDepth deeper : Option Nat}

theorem plan_mono (initialized : List (SlotId × Footprint)) {es : List EntryPoint} {agreed agreed' : PosSet}
    (hnd : ∀ e ∈ es, (e.candidates.map (·.slot)).Nodup) (hctor : (es.map (·.ctor)).Nodup) (hagreed : Agreed es agreed')
    (hsub : agreed ⊆ agreed') (allowParams : Bool) :
    (plan initialized es agreed allowParams).Within (plan initialized es agreed' allowParams) :=
  Plan.within_of_subset hnd hctor (hagreed.mono (PosSet.subset_trans settle_subset eligible_subset))
    (settle_mono (eligible_mono hsub allowParams))

/-- What is found in a type is found at every depth; the bound only decides what is agreed on. -/
theorem of_found {es : List EntryPoint} {ordered : List (CtorId × Constructor)}
    (hes : List.Forall₂ (fun id e => EntryPoint.of t id = .ok e) chain.roots es)
    (hordered : chain.order.mapM (fun id => do return (id, ← t.constructor id)) = .ok ordered) (depth : Option Nat) :
    Extraction.of depth t chain = .ok
      { entryPoints := es
        withPrimary := plan (existing t) es (Agreement.of depth (conditionalWriter? ordered) es).agreed true
        withoutPrimary := plan (existing t) es (Agreement.of depth (conditionalWriter? ordered) es).agreed false
        ambiguities := (Agreement.of depth (conditionalWriter? ordered) es).ambiguities } := by
  refine bind_eq_ok_iff.mpr ⟨es, mapM_eq_ok_iff.mpr hes, ?_⟩
  exact bind_eq_ok_iff.mpr ⟨ordered, hordered, rfl⟩

theorem of_eq_error_at_any_depth {e : OutOfRange} (h : Extraction.of maxDepth t chain = .error e) :
    Extraction.of deeper t chain = .error e := by
  refine bind_eq_error_iff.mpr ((bind_eq_error_iff.mp h).imp_right ?_)
  rintro ⟨es, hes, h⟩
  refine ⟨es, hes, bind_eq_error_iff.mpr ((bind_eq_error_iff.mp h).imp_right ?_)⟩
  rintro ⟨ordered, -, h⟩
  cases h

theorem of_eq_of_single_root {root : CtorId} (hroots : chain.roots = [root]) (maxDepth deeper : Option Nat) :
    Extraction.of maxDepth t chain = Extraction.of deeper t chain := by
  cases h : Extraction.of maxDepth t chain with
  | error e => exact (of_eq_error_at_any_depth h).symm
  | ok extraction =>
    obtain ⟨es, ordered, hes, hordered, rfl⟩ := of_eq_ok h
    obtain ⟨e, rfl⟩ : ∃ e, es = [e] := List.length_eq_one_iff.mp (by rw [← hes.length_eq, hroots]; rfl)
    rw [of_found hes hordered deeper, Agreement.of_singleton maxDepth deeper]

/-- Unless a root overruns there is an extraction at every depth, and what it hoists and removes under a bound it hoists and
removes, with the same values, under a larger one or none. With a single root it is the same one at all depths. -/
theorem plans_deeper (hchain : Chain.build t = .ok chain) (hdeeper : ∀ d' ∈ deeper, ∃ d ∈ maxDepth, d ≤ d') :
    ((∃ slot, t.Overruns slot ∧ ∀ depth, Extraction.of depth t chain = .error ⟨t.slots.length, slot⟩) ∨
      ∃ shallow deep, Extraction.of maxDepth t chain = .ok shallow ∧ Extraction.of deeper t chain = .ok deep ∧
        shallow.withPrimary.Within deep.withPrimary ∧ shallow.withoutPrimary.Within deep.withoutPrimary) ∧
    ∀ root, chain.roots = [root] → ∀ depth depth', Extraction.of depth t chain = Extraction.of depth' t chain := by
  refine ⟨?_, fun root hroot => of_eq_of_single_root hroot⟩
  rcases exists_or_overruns hchain maxDepth with ⟨shallow, h⟩ | ⟨slot, hover, herror⟩
  · obtain ⟨es, ordered, hes, hordered, rfl⟩ := of_eq_ok h
    have hctor : (es.map (·.ctor)).Nodup := (Plan.forall₂_of_iff.mp hes).1 ▸ Chain.roots_nodup hchain
    have hagreed : (Agreement.of maxDepth (conditionalWriter? ordered) es).agreed ⊆
        (Agreement.of deeper (conditionalWriter? ordered) es).agreed := Agreement.agreed_deeper hdeeper
    have hwithin := plan_mono (existing t) (Plan.nodup_slots_of_mem hes) hctor agreed_of hagreed
    exact Or.inr ⟨_, _, h, of_found hes hordered deeper, hwithin true, hwithin false⟩
  · exact Or.inl ⟨slot, hover, fun depth => of_eq_error_at_any_depth herror⟩

end Extraction

/-- Two roots that store a number, then a text made of two, then another number. -/
def TypeDecl.labelled : TypeDecl where
  name := "Sample"
  layout := .byReference
  slots := [{ name := "a", kind := .field, type := "int" }, { name := "label", kind := .field, type := "string" },
    { name := "c", kind := .field, type := "int" }]
  constructors :=
    let label : Expr := .binary .add (.literal (.str "no ")) (.literal (.str "name"))
    let stores : List Stmt := [.assign 0 (.literal (.int 1)), .assign 1 label, .assign 2 (.literal (.int 2))]
    [{ parameters := [], body := stores ++ [.base []] },
      { parameters := [{ name := "size", type := "int" }], body := stores ++ [.base [.param 0]] }]

/-- When only leaves are compared the label stays, and the number behind it with it, although both roots agree on that. -/
theorem Extraction.plans_deeper_labelled : ∃ chain shallow deep,
    Chain.build .labelled = .ok chain ∧ Extraction.of (some 0) .labelled chain = .ok shallow ∧
      Extraction.of (some 1) .labelled chain = .ok deep ∧ shallow.ambiguities = [(1, .conflictingCandidates)] ∧
      shallow.withPrimary.hoisted.keys = .ofList [0] ∧ deep.withPrimary.hoisted.keys = .ofList [0, 1, 2] ∧
      shallow.withPrimary.Within deep.withPrimary ∧ shallow.withoutPrimary.Within deep.withoutPrimary := by
  obtain ⟨chain, shallow, deep, hchain, hshallow, hdeep, hambiguous, hkeys, hkeys'⟩ : ∃ chain shallow deep,
      Chain.build .labelled = .ok chain ∧ Extraction.of (some 0) .labelled chain = .ok shallow ∧
        Extraction.of (some 1) .labelled chain = .ok deep ∧ shallow.ambiguities = [(1, .conflictingCandidates)] ∧
        shallow.withPrimary.hoisted.keys = .ofList [0] ∧ deep.withPrimary.hoisted.keys = .ofList [0, 1, 2] :=
    ⟨_, _, _, rfl, rfl, rfl, rfl, rfl, rfl⟩
  have hdeeper : ∀ d' ∈ some 1, ∃ d ∈ some 0, d ≤ d' := by simp
  rcases (Extraction.plans_deeper hchain hdeeper).1 with ⟨slot, -, herror⟩ | ⟨shallow', deep', hshallow', hdeep', hwithin⟩
  · cases hshallow.symm.trans (herror (some 0))
  · cases hshallow.symm.trans hshallow'
    cases hdeep.symm.trans hdeep'
    exact ⟨chain, shallow, deep, hchain, hshallow, hdeep, hambiguous, hkeys, hkeys', hwithin⟩

end DeclRecovery
