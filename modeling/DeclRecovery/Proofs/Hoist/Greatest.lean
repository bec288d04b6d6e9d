import DeclRecovery.Proofs.Hoist.Plans
import Mathlib.Logic.Function.Iterate

/-!
The slots that a plan hoists are the largest set that can be hoisted together. Which sets can is said without the
rounds that drop slots (`Valid`): at each entry point the first candidates store just these slots, and each of them is
admissible after those before it. Among the slots that may be hoisted at all (`eligible`) these are the sets that a
round leaves as they are (`valid_iff`).

An earlier candidate can help a later one, by setting what it reads, and can stand in its way, if it would be overtaken.
But whatever is hoisted is hoisted with all candidates before it, so a candidate is always judged after the same ones,
and a smaller set can only end the run of admissible candidates sooner.
-/

namespace DeclRecovery

/-! ### Slots that every entry point stores -/

/-- The slots with a candidate at every entry point; none if there is no entry point. -/
def EntryPoint.commonSlots (es : List EntryPoint) : PosSet :=
  (candidateSlots es).filter fun slot => es.all fun e => e.candidates.any (·.slot == slot)

theorem EntryPoint.commonSlots_subset {es : List EntryPoint} : commonSlots es ⊆ candidateSlots es := PosSet.filter_subset

namespace Hoist

variable {initialized : List (SlotId × Footprint)} {es : List EntryPoint} {agreed slots : PosSet} {allowParams : Bool}

theorem agreed_subset_commonSlots {maxDepth : Option Nat} {blocked : SlotId → Option CtorId} :
    (Agreement.of maxDepth blocked es).agreed ⊆ EntryPoint.commonSlots es := by
  intro slot hslot
  refine PosSet.mem_filter.mpr ⟨(PosSet.mem_filter.mp hslot).1, List.all_eq_true.mpr fun e he => ?_⟩
  obtain ⟨v, hv⟩ := agreed_of slot hslot
  obtain ⟨c, hc, -⟩ := hv e he
  obtain ⟨hmem, rfl⟩ := EntryPoint.mem_of_candidate? hc
  exact List.any_eq_true.mpr ⟨c, hmem, beq_self_eq_true _⟩

/-- The agreed slots that may be hoisted: all of them, or those that no candidate computes from parameters. -/
def eligible (es : List EntryPoint) (agreed : PosSet) (allowParams : Bool) : PosSet :=
  if allowParams then agreed else withoutParams es agreed

theorem eligible_subset : eligible es agreed allowParams ⊆ agreed := by
  rw [eligible]
  split
  · exact PosSet.subset_rfl
  · exact PosSet.filter_subset

theorem mem_eligible {slot : SlotId} : slot ∈ eligible es agreed allowParams ↔ slot ∈ agreed ∧
    (allowParams = false → ∀ e ∈ es, ∀ c ∈ e.candidates, c.slot = slot → c.readsParams = false) := by
  cases allowParams with
  | true => simp [eligible]
  | false => simp [eligible, mem_withoutParams]

/-! ### Rounds -/

theorem exists_rounds_settleWithin (fuel : Nat) (slots : PosSet) :
    ∃ rounds ≤ fuel, (refine initialized es)^[rounds] slots = settleWithin initialized es fuel slots := by
  induction fuel generalizing slots with
  | zero => exact ⟨0, Nat.le_refl 0, rfl⟩
  | succ fuel ih =>
    rw [settleWithin]
    split
    · exact ⟨0, Nat.zero_le _, rfl⟩
    · obtain ⟨rounds, hle, hrounds⟩ := ih (refine initialized es slots)
      exact ⟨rounds + 1, Nat.succ_le_succ hle, hrounds⟩

theorem exists_rounds_settle :
    ∃ rounds ≤ slots.size, (refine initialized es)^[rounds] slots = settle initialized es slots :=
  exists_rounds_settleWithin slots.size slots

/-! ### Sets that can be hoisted together -/

/-- The slots can be hoisted together: they are agreed, do not need parameters unless these are allowed, and at each
entry point the first candidates store them, each admissible after those before it and the initializers at hand. -/
structure Valid (initialized : List (SlotId × Footprint)) (es : List EntryPoint) (agreed : PosSet) (allowParams : Bool)
    (slots : PosSet) : Prop where
  agreed : slots ⊆ agreed
  params : allowParams = false → ∀ e ∈ es, ∀ c ∈ e.candidates, c.slot ∈ slots → c.readsParams = false
  first : ∀ e ∈ es, ∀ slot, slot ∈ (e.candidates.take slots.size).map (·.slot) ↔ slot ∈ slots
  admissible : ∀ e ∈ es, ∀ before c after, e.candidates.take slots.size = before ++ c :: after →
    Admissible (before.map (fun e => (e.slot, e.footprint)) ++ initialized) (c.slot, c.footprint)

theorem subset_eligible_iff : slots ⊆ eligible es agreed allowParams ↔ slots ⊆ agreed ∧
    (allowParams = false → ∀ e ∈ es, ∀ c ∈ e.candidates, c.slot ∈ slots → c.readsParams = false) := by
  constructor
  · intro h
    refine ⟨PosSet.subset_trans h eligible_subset, fun hparams e he c hc hslot => ?_⟩
    exact (mem_eligible.mp (h _ hslot)).2 hparams e he c hc rfl
  · rintro ⟨hsub, hparams⟩ slot hslot
    exact mem_eligible.mpr ⟨hsub slot hslot, fun h e he c hc hc' => hparams h e he c hc (hc' ▸ hslot)⟩

/-- With distinct slots, the first candidates store just the slots of a set when they are a permutation of it. -/
theorem settled_iff_first_admissible {e : EntryPoint} (hnd : (e.candidates.map (·.slot)).Nodup) :
    Settled initialized slots e ↔
      (∀ slot, slot ∈ (e.candidates.take slots.size).map (·.slot) ↔ slot ∈ slots) ∧
      ∀ before c after, e.candidates.take slots.size = before ++ c :: after →
        Admissible (before.map (fun e => (e.slot, e.footprint)) ++ initialized) (c.slot, c.footprint) := by
  have htake : ((e.candidates.take slots.size).map (·.slot)).Nodup := ((List.take_sublist _ _).map _).nodup hnd
  have hperm := List.perm_ext_iff_of_nodup htake slots.nodup_toList
  simp only [← isClean_iff_admissible]
  exact ⟨fun h => ⟨hperm.mp h.slots, h.clean⟩, fun h => ⟨hperm.mpr h.1, h.2⟩⟩

theorem valid_iff (hnd : ∀ e ∈ es, (e.candidates.map (·.slot)).Nodup) :
    Valid initialized es agreed allowParams slots ↔
      slots ⊆ eligible es agreed allowParams ∧ refine initialized es slots = slots := by
  rw [subset_eligible_iff, refine_eq_iff]
  have hround : ∀ e ∈ es, (refineAt initialized slots e = slots ↔ _) := fun e he =>
    (settled_iff (hnd e he)).trans (settled_iff_first_admissible (hnd e he))
  constructor
  · intro h
    exact ⟨⟨h.agreed, h.params⟩, fun e he => (hround e he).mpr ⟨h.first e he, h.admissible e he⟩⟩
  · rintro ⟨⟨hagreed, hparams⟩, hfix⟩
    exact ⟨hagreed, hparams, fun e he => ((hround e he).mp (hfix e he)).1, fun e he => ((hround e he).mp (hfix e he)).2⟩

end Hoist

/-! ### What a plan hoists -/

namespace Plan

theorem keys_hoisted_of {es : List EntryPoint} {slots : PosSet} (hsub : slots ⊆ EntryPoint.candidateSlots es) :
    (Plan.of es slots).hoisted.keys = slots :=
  PosSet.ext_mem fun s => mem_keys_hoisted_of.trans (and_iff_left_of_imp (hsub s))

end Plan

namespace Extraction
open Hoist

variable {initialized : List (SlotId × Footprint)} {es : List EntryPoint} {agreed : PosSet}

theorem keys_hoisted_plan (hagreed : agreed ⊆ EntryPoint.commonSlots es) (allowParams : Bool) :
    (plan initialized es agreed allowParams).hoisted.keys =
      settle initialized es (eligible es agreed allowParams) := by
  refine Plan.keys_hoisted_of (PosSet.subset_trans settle_subset ?_)
  exact PosSet.subset_trans eligible_subset (PosSet.subset_trans hagreed EntryPoint.commonSlots_subset)

/-- After at most as many rounds as slots are agreed nothing more is dropped; what is left, the slots that the plan
hoists, can be hoisted together, and it contains every set that can. -/
theorem plan_hoists_greatest (initialized : List (SlotId × Footprint)) (allowParams : Bool)
    (hnd : ∀ e ∈ es, (e.candidates.map (·.slot)).Nodup) (hagreed : agreed ⊆ EntryPoint.commonSlots es) :
    let hoisted := (plan initialized es agreed allowParams).hoisted.keys
    (∃ rounds ≤ agreed.size, (refine initialized es)^[rounds] (eligible es agreed allowParams) = hoisted ∧
        refine initialized es hoisted = hoisted) ∧
      Valid initialized es agreed allowParams hoisted ∧
      ∀ slots, Valid initialized es agreed allowParams slots → slots ⊆ hoisted := by
  intro hoisted
  have hkeys : hoisted = settle initialized es (eligible es agreed allowParams) := keys_hoisted_plan hagreed allowParams
  refine ⟨?_, (valid_iff hnd).mpr ⟨hkeys ▸ settle_subset, hkeys ▸ refine_settle⟩, fun slots hvalid => ?_⟩
  · rw [hkeys]
    obtain ⟨rounds, hle, hrounds⟩ := exists_rounds_settle
    exact ⟨rounds, Nat.le_trans hle (PosSet.size_le_of_subset eligible_subset), hrounds, refine_settle⟩
  · obtain ⟨hsub, hround⟩ := (valid_iff hnd).mp hvalid
    exact hkeys ▸ subset_settle hround hsub

/-- Two entry points that compute `a` and `c` by calls, in opposite orders, after `b`; `d` is a parameter. -/
def crossedCalls : List EntryPoint :=
  let next : Expr := .call { name := "next" } []
  let count : Parameter := { name := "count", type := "int" }
  [⟨0, [count], [⟨1, 0, 0, .literal (.int 1)⟩, ⟨0, 0, 1, next⟩, ⟨2, 0, 2, next⟩, ⟨3, 0, 3, .param 0⟩]⟩,
    ⟨1, [count], [⟨1, 1, 0, .literal (.int 1)⟩, ⟨2, 1, 1, next⟩, ⟨0, 1, 2, next⟩, ⟨3, 1, 3, .param 0⟩]⟩]

/-- The second entry point loses `a`, which would overtake `c`, and the first one loses `c` for it: only `b` is left. -/
theorem plan_hoists_greatest_crossedCalls :
    let agreed := (Agreement.of none (fun _ => none) crossedCalls).agreed
    agreed = .ofList [0, 1, 2, 3] ∧ (plan [] crossedCalls agreed false).hoisted.keys = .ofList [1] ∧
      refine [] crossedCalls (eligible crossedCalls agreed false) = .ofList [1, 2] ∧
      Valid [] crossedCalls agreed false (.ofList [1]) ∧
      ∀ slots, Valid [] crossedCalls agreed false slots → slots ⊆ .ofList [1] := by
  intro agreed
  have hcommon : agreed ⊆ EntryPoint.commonSlots crossedCalls := agreed_subset_commonSlots
  have hkeys : (plan [] crossedCalls agreed false).hoisted.keys = .ofList [1] := by decide
  obtain ⟨-, hvalid, hgreatest⟩ := plan_hoists_greatest [] false (by decide) hcommon
  exact ⟨by decide, hkeys, by decide, hkeys ▸ hvalid, fun slots h => hkeys ▸ hgreatest slots h⟩

end Extraction

end DeclRecovery
