import DeclRecovery.Proofs.Hoist.Overruns
import DeclRecovery.Proofs.Mentions

/-!
The two plans of an extraction. The one without a primary constructor starts from fewer slots, so it settles on fewer,
and what it hoists and removes the other one does, too (`Plan.Within`). A store that reads a parameter stands in the way
of all stores after it, so more than such stores may be missing; but when the larger plan hoists none of them, its slots
are among those that the smaller one starts from, and the two are the same.
-/

namespace DeclRecovery

namespace Plan
open Hoist

/-- Whatever `p` hoists or removes, `q` does. -/
structure Within (p q : Plan) : Prop where
  hoisted : ∀ slot value, p.hoisted.find? slot = some value → q.hoisted.find? slot = some value
  removals : ∀ ctor index, p.removes ctor index = true → q.removes ctor index = true

/-- A plan for some of the agreed slots is part of the plan for all of them. -/
theorem within_of_subset {es : List EntryPoint} {slots slots' : PosSet}
    (hnd : ∀ e ∈ es, (e.candidates.map (·.slot)).Nodup) (hctor : (es.map (·.ctor)).Nodup) (hagreed : Agreed es slots')
    (hsub : slots ⊆ slots') : (Plan.of es slots).Within (Plan.of es slots') where
  hoisted slot value h := by
    obtain ⟨hslot, hstored⟩ := exists_candidate_of_hoisted h
    exact (find?_hoisted_of hnd hagreed).mpr ⟨hsub slot hslot, hstored⟩
  removals ctor index h := by
    obtain ⟨e, he, hid, c, hc, hslot, hindex⟩ := (removes_of_iff hctor).mp h
    exact (removes_of_iff hctor).mpr ⟨e, he, hid, c, hc, hsub _ hslot, hindex⟩

theorem readsParams_eq_false_iff {p : Plan} : p.readsParams = false ↔
    ∀ slot value, p.hoisted.find? slot = some value → value.readsParams = false := by
  simp only [readsParams, List.any_eq_false, PosMap.mem_values_iff, Bool.not_eq_true, forall_exists_index]
  exact forall_comm

end Plan

namespace Extraction
open Hoist

variable {t : TypeDecl} {chain : Chain} {maxDepth : Option Nat} {extraction : Extraction}

theorem withoutPrimary_within (hchain : Chain.build t = .ok chain) (h : Extraction.of maxDepth t chain = .ok extraction) :
    extraction.withoutPrimary.Within extraction.withPrimary := by
  obtain ⟨es, ordered, hes, -, rfl⟩ := of_eq_ok h
  have hctor : (es.map (·.ctor)).Nodup := (Plan.forall₂_of_iff.mp hes).1 ▸ Chain.roots_nodup hchain
  exact Plan.within_of_subset (Plan.nodup_slots_of_mem hes) hctor (agreed_of.mono settle_subset)
    (settle_mono withoutParams_subset)

/-- When no hoisted value reads a parameter, a primary constructor is not needed for any of them. -/
theorem withoutPrimary_eq_of_readsParams (h : Extraction.of maxDepth t chain = .ok extraction)
    (hreads : extraction.withPrimary.readsParams = false) : extraction.withoutPrimary = extraction.withPrimary := by
  obtain ⟨es, ordered, hes, -, rfl⟩ := of_eq_ok h
  rw [Plan.readsParams_eq_false_iff] at hreads
  have hagreed : Agreed es (Agreement.of maxDepth (conditionalWriter? ordered) es).agreed := agreed_of
  generalize (Agreement.of maxDepth (conditionalWriter? ordered) es).agreed = agreed at hreads hagreed
  -- The larger set has only slots that the smaller one may have, and nothing is dropped from it any more.
  have heligible : settle (existing t) es agreed ⊆ withoutParams es agreed := by
    intro slot hslot
    refine mem_withoutParams.mpr ⟨settle_subset slot hslot, fun e he c hc hc' => ?_⟩
    subst hc'
    exact hreads c.slot c.value
      (Plan.find?_hoisted_of_mem (Plan.nodup_slots_of_mem hes) (hagreed.mono settle_subset) he hc hslot)
  have hslots : settle (existing t) es (withoutParams es agreed) = settle (existing t) es agreed :=
    PosSet.subset_antisymm (settle_mono withoutParams_subset) (subset_settle refine_settle heligible)
  exact congrArg (Plan.of es) hslots

/-- Unless a root overruns there is an extraction. What it hoists and removes without a primary constructor it hoists and
removes with one, and none of it reads a parameter. The two plans are the same exactly when the one with a primary
constructor hoists nothing that reads a parameter. -/
theorem plans_nested (maxDepth : Option Nat) (hchain : Chain.build t = .ok chain) :
    (∃ slot, t.Overruns slot ∧ Extraction.of maxDepth t chain = .error ⟨t.slots.length, slot⟩) ∨
    ∃ extraction, Extraction.of maxDepth t chain = .ok extraction ∧
      extraction.withoutPrimary.Within extraction.withPrimary ∧
      (∀ slot value, extraction.withoutPrimary.hoisted.find? slot = some value → ∀ i, ¬value.Mentions (.param i)) ∧
      (extraction.withoutPrimary = extraction.withPrimary ↔ extraction.withPrimary.readsParams = false) := by
  refine (exists_or_overruns hchain maxDepth).symm.imp_right ?_
  rintro ⟨extraction, h⟩
  refine ⟨extraction, h, withoutPrimary_within hchain h, fun slot value hvalue i hi => ?_, fun heq => ?_,
    withoutPrimary_eq_of_readsParams h⟩
  · have hreads := readsParams_withoutPrimary h hvalue
    rw [Expr.readsParams_iff.mpr ⟨i, hi⟩] at hreads
    cases hreads
  · rw [← heq, Plan.readsParams_eq_false_iff]
    exact fun slot value hvalue => readsParams_withoutPrimary h hvalue

end Extraction

/-- Two roots that store `a`, then their parameter in `b`, then `c`. -/
def TypeDecl.counted : TypeDecl where
  name := "Sample"
  layout := .byReference
  slots := [{ name := "a", kind := .field, type := "int" }, { name := "b", kind := .field, type := "int" },
    { name := "c", kind := .field, type := "int" }]
  constructors :=
    let count : Parameter := { name := "count", type := "int" }
    let stores : List Stmt := [.assign 0 (.literal (.int 1)), .assign 1 (.param 0), .assign 2 (.literal (.int 2))]
    [{ parameters := [count], body := stores ++ [.base []] },
      { parameters := [count, { name := "label", type := "string" }], body := stores ++ [.base [.param 1]] }]

/-- Without a primary constructor `b` stays in the bodies, and `c`, which reads nothing, has to stay behind it. -/
theorem Extraction.plans_nested_counted : ∃ chain extraction,
    Chain.build .counted = .ok chain ∧ Extraction.of none .counted chain = .ok extraction ∧
      extraction.withPrimary.hoisted.keys = .ofList [0, 1, 2] ∧ extraction.withoutPrimary.hoisted.keys = .ofList [0] ∧
      extraction.withoutPrimary.Within extraction.withPrimary ∧ extraction.withoutPrimary ≠ extraction.withPrimary := by
  obtain ⟨chain, extraction, hchain, h, hwith, hwithout, hreads⟩ : ∃ chain extraction,
      Chain.build .counted = .ok chain ∧ Extraction.of none .counted chain = .ok extraction ∧
        extraction.withPrimary.hoisted.keys = .ofList [0, 1, 2] ∧ extraction.withoutPrimary.hoisted.keys = .ofList [0] ∧
        extraction.withPrimary.readsParams = true := ⟨_, _, rfl, rfl, rfl, rfl, rfl⟩
  rcases Extraction.plans_nested none hchain with ⟨slot, -, herror⟩ | ⟨found, hfound, hwithin, -, heq⟩
  · cases h.symm.trans herror
  · cases h.symm.trans hfound
    exact ⟨chain, extraction, hchain, h, hwith, hwithout, hwithin, fun hsame => by simp [heq.mp hsame] at hreads⟩

end DeclRecovery
