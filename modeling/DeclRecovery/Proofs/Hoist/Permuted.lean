import DeclRecovery.Proofs.Hoist.Greatest
import DeclRecovery.Proofs.Hoist.Overruns
import DeclRecovery.Proofs.Roles

/-!
The order of the roots does not matter to what is hoisted. Each is compared with the first one only, and each drops slots
from what those before it have left. But values that are like a third one are like each other, so agreement is one of
every two entry points (`EntryPoint.disagreement?_none_iff_pairwise`). And the set that is left in the end is the largest
one that no entry point drops anything from, whichever of them comes first (`Hoist.settle_perm`). What does depend on the
order is the reason that is reported for a slot.
-/

namespace DeclRecovery

/-! ### Agreement -/

namespace EntryPoint

variable {maxDepth : Option Nat} {slot : SlotId} {es es' : List EntryPoint}

/-- Both entry points store the slot, and alike. -/
def AgreesOn (maxDepth : Option Nat) (slot : SlotId) (e e' : EntryPoint) : Prop :=
  ∃ c c', e.candidate? slot = some c ∧ e'.candidate? slot = some c' ∧
    Site.alike maxDepth ⟨e.params, c.value⟩ ⟨e'.params, c'.value⟩ = true

theorem AgreesOn.symm {e e' : EntryPoint} (h : e.AgreesOn maxDepth slot e') : e'.AgreesOn maxDepth slot e := by
  obtain ⟨c, c', hc, hc', halike⟩ := h
  exact ⟨c', c, hc', hc, Site.alike_symm halike⟩

theorem AgreesOn.trans {e e' e'' : EntryPoint} (h : e.AgreesOn maxDepth slot e') (h' : e'.AgreesOn maxDepth slot e'') :
    e.AgreesOn maxDepth slot e'' := by
  obtain ⟨c, c', hc, hc', halike⟩ := h
  obtain ⟨d, c'', hd, hc'', halike'⟩ := h'
  cases hc'.symm.trans hd
  exact ⟨c, c'', hc, hc'', Site.alike_trans halike halike'⟩

/-- A single entry point only has to store the slot: nothing is compared with itself. -/
theorem disagreement?_none_iff_pairwise : disagreement? maxDepth slot none es = none ↔
    (∀ e ∈ es, ∃ c, e.candidate? slot = some c) ∧ es.Pairwise (AgreesOn maxDepth slot) := by
  cases es with
  | nil => simp [disagreement?]
  | cons e es =>
    rw [disagreement?_none_iff, List.forall_mem_cons, List.pairwise_cons]
    constructor
    · rintro ⟨c, hc, hes⟩
      have hfirst : ∀ e' ∈ es, e.AgreesOn maxDepth slot e' := by
        intro e' he'
        obtain ⟨c', hc', halike⟩ := hes e' he'
        exact ⟨c, c', hc, hc', halike⟩
      refine ⟨⟨⟨c, hc⟩, fun e' he' => (hes e' he').imp fun c' h => h.1⟩, hfirst, ?_⟩
      exact List.pairwise_of_forall_mem_list fun a ha b hb => (hfirst a ha).symm.trans (hfirst b hb)
    · rintro ⟨⟨⟨c, hc⟩, -⟩, hfirst, -⟩
      refine ⟨c, hc, fun e' he' => ?_⟩
      obtain ⟨d, c', hd, hc', halike⟩ := hfirst e' he'
      cases hc.symm.trans hd
      exact ⟨c', hc', halike⟩

theorem disagreement?_none_perm (hp : es.Perm es') :
    disagreement? maxDepth slot none es = none ↔ disagreement? maxDepth slot none es' = none := by
  rw [disagreement?_none_iff_pairwise, disagreement?_none_iff_pairwise, hp.pairwise_iff AgreesOn.symm]
  simp only [hp.mem_iff]

theorem candidateSlots_perm (hp : es.Perm es') : candidateSlots es = candidateSlots es' :=
  PosSet.ext_mem fun slot => by simp only [mem_candidateSlots, hp.mem_iff]

end EntryPoint

namespace Agreement

variable {maxDepth : Option Nat} {blocked : SlotId → Option CtorId} {es es' : List EntryPoint}

theorem agreed_perm (hp : es.Perm es') :
    (Agreement.of maxDepth blocked es).agreed = (Agreement.of maxDepth blocked es').agreed :=
  PosSet.ext_mem fun slot => by
    rw [mem_agreed, mem_agreed, EntryPoint.candidateSlots_perm hp, EntryPoint.disagreement?_none_perm hp]

theorem map_fst_ambiguities : (Agreement.of maxDepth blocked es).ambiguities.map Prod.fst =
    (EntryPoint.candidateSlots es).toList.filter fun slot => (obstacle? maxDepth blocked es slot).isSome := by
  simp only [Agreement.of, List.map_filterMap, Option.map_map]
  rw [← List.filterMap_eq_filter]
  congr 1
  funext slot
  cases h : obstacle? maxDepth blocked es slot <;> simp [h, Option.guard]

theorem map_fst_ambiguities_perm (hp : es.Perm es') :
    (Agreement.of maxDepth blocked es).ambiguities.map Prod.fst =
      (Agreement.of maxDepth blocked es').ambiguities.map Prod.fst := by
  rw [map_fst_ambiguities, map_fst_ambiguities, EntryPoint.candidateSlots_perm hp]
  refine List.filter_congr fun slot _ => ?_
  rw [Bool.eq_iff_iff, ← not_iff_not]
  simp only [Bool.not_eq_true, Option.isSome_eq_false_iff, Option.isNone_iff_eq_none, obstacle?_eq_none_iff,
    EntryPoint.disagreement?_none_perm hp]

end Agreement

/-! ### The plans -/

namespace Hoist

variable {initialized : List (SlotId × Footprint)} {es es' : List EntryPoint} {slots : PosSet}

theorem eligible_perm (hp : es.Perm es') (allowParams : Bool) :
    eligible es slots allowParams = eligible es' slots allowParams :=
  PosSet.ext_mem fun slot => by simp only [mem_eligible, hp.mem_iff]

/-- What one order leaves, a round in another order leaves as it is. -/
theorem settle_subset_perm (hp : es.Perm es') : settle initialized es slots ⊆ settle initialized es' slots := by
  refine subset_settle (refine_eq_iff.mpr fun e he => ?_) settle_subset
  exact refine_eq_iff.mp refine_settle e (hp.mem_iff.mpr he)

theorem settle_perm (hp : es.Perm es') : settle initialized es slots = settle initialized es' slots :=
  PosSet.subset_antisymm (settle_subset_perm hp) (settle_subset_perm hp.symm)

theorem Agreed.perm (h : Agreed es slots) (hp : es.Perm es') : Agreed es' slots :=
  fun slot hslot => (h slot hslot).imp fun _ hv e he => hv e (hp.mem_iff.mpr he)

end Hoist

namespace Plan
open Hoist

/-- A plan takes each value from the first entry point, but another one would give the same. -/
theorem of_perm {es es' : List EntryPoint} {slots : PosSet} (hp : es.Perm es')
    (hnd : ∀ e ∈ es, (e.candidates.map (·.slot)).Nodup) (hctor : (es.map (·.ctor)).Nodup) (hagreed : Agreed es slots) :
    Plan.of es slots = Plan.of es' slots := by
  have hnd' : ∀ e ∈ es', (e.candidates.map (·.slot)).Nodup := fun e he => hnd e (hp.mem_iff.mpr he)
  have hctor' : (es'.map (·.ctor)).Nodup := (hp.map _).nodup_iff.mp hctor
  have hhoisted : (Plan.of es slots).hoisted = (Plan.of es' slots).hoisted := PosMap.ext_find? fun slot value => by
    simp only [find?_hoisted_of hnd hagreed, find?_hoisted_of hnd' (hagreed.perm hp), hp.mem_iff]
  have hremovals : (Plan.of es slots).removals = (Plan.of es' slots).removals := PosMap.ext_find? fun id removed => by
    simp only [find?_removals_of hctor, find?_removals_of hctor', hp.mem_iff]
  rw [Plan.mk.injEq]
  exact ⟨hhoisted, hremovals⟩

end Plan

namespace Extraction
open Hoist

theorem plan_perm {initialized : List (SlotId × Footprint)} {es es' : List EntryPoint} {agreed : PosSet}
    (hp : es.Perm es') (hnd : ∀ e ∈ es, (e.candidates.map (·.slot)).Nodup) (hctor : (es.map (·.ctor)).Nodup)
    (hagreed : Agreed es agreed) (allowParams : Bool) :
    plan initialized es agreed allowParams = plan initialized es' agreed allowParams := by
  change Plan.of es (settle initialized es (eligible es agreed allowParams)) =
    Plan.of es' (settle initialized es' (eligible es' agreed allowParams))
  rw [← eligible_perm hp, ← settle_perm hp]
  exact Plan.of_perm hp hnd hctor (hagreed.mono (PosSet.subset_trans settle_subset eligible_subset))

/-- Unless a root overruns there is an extraction, and listing the roots in another order changes nothing in what it agrees
on and hoists: the same slots are agreed on, the same ones are ambiguous, and both plans are the same. -/
theorem of_permuted_roots {t : TypeDecl} {chain : Chain} (maxDepth : Option Nat) (hchain : Chain.build t = .ok chain) :
    (∃ slot, t.Overruns slot ∧ Extraction.of maxDepth t chain = .error ⟨t.slots.length, slot⟩) ∨
    ∃ given, Extraction.of maxDepth t chain = .ok given ∧
      ∀ visited : Chain, visited.roots.Perm chain.roots → visited.order = chain.order →
        ∃ found, Extraction.of maxDepth t visited = .ok found ∧
          (∀ blocked, (Agreement.of maxDepth blocked found.entryPoints).agreed =
            (Agreement.of maxDepth blocked given.entryPoints).agreed) ∧
          found.ambiguities.map Prod.fst = given.ambiguities.map Prod.fst ∧
          found.withPrimary = given.withPrimary ∧ found.withoutPrimary = given.withoutPrimary := by
  refine (exists_or_overruns hchain maxDepth).symm.imp_right ?_
  rintro ⟨given, h⟩
  refine ⟨given, h, fun visited hroots horder => ?_⟩
  obtain ⟨es, ordered, hes, hordered, rfl⟩ := of_eq_ok h
  obtain ⟨es', hes', hp⟩ := List.perm_comp_forall₂ hroots hes
  have hnd : ∀ e ∈ es', (e.candidates.map (·.slot)).Nodup := Plan.nodup_slots_of_mem hes'
  have hctor : (es'.map (·.ctor)).Nodup :=
    (Plan.forall₂_of_iff.mp hes').1 ▸ hroots.nodup_iff.mpr (Chain.roots_nodup hchain)
  have hplan : ∀ allowParams,
      plan (existing t) es' (Agreement.of maxDepth (conditionalWriter? ordered) es').agreed allowParams =
        plan (existing t) es (Agreement.of maxDepth (conditionalWriter? ordered) es).agreed allowParams := by
    intro allowParams
    rw [plan_perm hp hnd hctor agreed_of, Agreement.agreed_perm hp]
  have hfound : Extraction.of maxDepth t visited = .ok _ :=
    bind_eq_ok_iff.mpr ⟨es', mapM_eq_ok_iff.mpr hes', bind_eq_ok_iff.mpr ⟨ordered, horder ▸ hordered, rfl⟩⟩
  exact ⟨_, hfound, fun _ => Agreement.agreed_perm hp, Agreement.map_fst_ambiguities_perm hp, hplan true, hplan false⟩

end Extraction

/-- Three roots that store `a` and `b` alike, in different orders. Two of them store different values in `c`, the last
one none. -/
def TypeDecl.threeRoots : TypeDecl where
  name := "Sample"
  layout := .byReference
  slots := [{ name := "a", kind := .field, type := "int" }, { name := "b", kind := .field, type := "int" },
    { name := "c", kind := .field, type := "int" }]
  constructors :=
    let a : Stmt := .assign 0 (.literal (.int 1))
    let b : Stmt := .assign 1 (.literal (.int 2))
    [{ parameters := [], body := [a, b, .assign 2 (.literal (.int 3)), .base []] },
      { parameters := [{ name := "count", type := "int" }], body := [b, a, .assign 2 (.param 0), .base []] },
      { parameters := [{ name := "label", type := "string" }], body := [a, b, .base []] }]

/-- Backwards, the root that does not store `c` comes before the two that disagree. -/
theorem Extraction.of_permuted_roots_threeRoots : ∃ chain given found,
    Chain.build .threeRoots = .ok chain ∧ Extraction.of none .threeRoots chain = .ok given ∧
      Extraction.of none .threeRoots ⟨chain.links.reverse, chain.order⟩ = .ok found ∧
      given.withPrimary.hoisted.keys = .ofList [0, 1] ∧ found.withPrimary = given.withPrimary ∧
      given.ambiguities = [(2, .conflictingCandidates)] ∧ found.ambiguities = [(2, .missingAtEntryPoint 2)] ∧
      found.ambiguities.map Prod.fst = given.ambiguities.map Prod.fst := by
  obtain ⟨chain, given, found, hchain, hgiven, hfound, hroots, hkeys, hambiguous, hambiguous'⟩ : ∃ chain given found,
      Chain.build .threeRoots = .ok chain ∧ Extraction.of none .threeRoots chain = .ok given ∧
        Extraction.of none .threeRoots ⟨chain.links.reverse, chain.order⟩ = .ok found ∧
        (Chain.mk chain.links.reverse chain.order).roots = chain.roots.reverse ∧
        given.withPrimary.hoisted.keys = .ofList [0, 1] ∧ given.ambiguities = [(2, .conflictingCandidates)] ∧
        found.ambiguities = [(2, .missingAtEntryPoint 2)] := ⟨_, _, _, rfl, rfl, rfl, rfl, rfl, rfl, rfl⟩
  have hperm : (Chain.mk chain.links.reverse chain.order).roots.Perm chain.roots := hroots ▸ chain.roots.reverse_perm
  rcases Extraction.of_permuted_roots none hchain with ⟨slot, -, herror⟩ | ⟨given', hgiven', hvisited⟩
  · cases hgiven.symm.trans herror
  · cases hgiven.symm.trans hgiven'
    obtain ⟨found', hfound', -, hsame, hplan, -⟩ := hvisited _ hperm rfl
    cases hfound.symm.trans hfound'
    exact ⟨chain, given, found, hchain, hgiven, hfound, hkeys, hplan, hambiguous, hambiguous', hsame⟩

end DeclRecovery
