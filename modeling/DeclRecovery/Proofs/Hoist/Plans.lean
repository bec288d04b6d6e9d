import DeclRecovery.Proofs.Hoist.Settled
import DeclRecovery.Proofs.Likeness

/-!
What the plan for a settled set does at each entry point: it takes the first stores out of the body, as many as
the set has slots, and makes their values the initializers of those slots (`Carried`). The entry points agree on
these values, so it does not matter from which of them they are taken.
-/

namespace DeclRecovery

/-! ### Agreement -/

namespace EntryPoint

theorem disagreement?_some_iff {maxDepth : Option Nat} {slot : SlotId} {r : Site} {es : List EntryPoint} :
    disagreement? maxDepth slot (some r) es = none ↔
      ∀ e ∈ es, ∃ c, e.candidate? slot = some c ∧ r.alike maxDepth ⟨e.params, c.value⟩ = true := by
  induction es with
  | nil => simp [disagreement?]
  | cons e es ih =>
    rw [disagreement?, List.forall_mem_cons, ← ih]
    cases e.candidate? slot with
    | none => simp
    | some c => by_cases h : r.alike maxDepth ⟨e.params, c.value⟩ = true <;> simp [h]

theorem disagreement?_none_iff {maxDepth : Option Nat} {slot : SlotId} {e : EntryPoint} {es : List EntryPoint} :
    disagreement? maxDepth slot none (e :: es) = none ↔ ∃ c, e.candidate? slot = some c ∧
      ∀ e' ∈ es, ∃ c', e'.candidate? slot = some c' ∧
        Site.alike maxDepth ⟨e.params, c.value⟩ ⟨e'.params, c'.value⟩ = true := by
  rw [disagreement?]
  cases e.candidate? slot with
  | none => simp
  | some c => simp [disagreement?_some_iff]

theorem exists_value_of_disagreement? {maxDepth : Option Nat} {slot : SlotId} {es : List EntryPoint}
    (h : disagreement? maxDepth slot none es = none) : ∃ v, ∀ e ∈ es, ∃ c, e.candidate? slot = some c ∧ c.value = v := by
  cases es with
  | nil => exact ⟨default, by simp⟩
  | cons e es =>
    obtain ⟨c, hc, hes⟩ := disagreement?_none_iff.mp h
    refine ⟨c.value, List.forall_mem_cons.mpr ⟨⟨c, hc, rfl⟩, fun e' he' => ?_⟩⟩
    obtain ⟨c', hc', halike⟩ := hes e' he'
    exact ⟨c', hc', (Site.eq_of_alike halike).symm⟩

theorem mem_of_candidate? {e : EntryPoint} {slot : SlotId} {c : Candidate} (h : e.candidate? slot = some c) :
    c ∈ e.candidates ∧ c.slot = slot :=
  ⟨List.mem_of_find?_eq_some h, by simpa using List.find?_some h⟩

theorem candidate?_eq_some_iff {e : EntryPoint} (hnd : (e.candidates.map (·.slot)).Nodup) {slot : SlotId} {c : Candidate} :
    e.candidate? slot = some c ↔ c ∈ e.candidates ∧ c.slot = slot := by
  refine ⟨mem_of_candidate?, ?_⟩
  rintro ⟨hc, rfl⟩
  obtain ⟨d, hd⟩ : ∃ d, e.candidate? c.slot = some d := by
    rw [← Option.isSome_iff_exists, candidate?, List.find?_isSome]
    exact ⟨c, hc, beq_self_eq_true _⟩
  obtain ⟨hd', hslot⟩ := mem_of_candidate? hd
  rw [hd, List.inj_on_of_nodup_map hnd hd' hc hslot]

end EntryPoint

namespace Agreement

variable {maxDepth : Option Nat} {blocked : SlotId → Option CtorId} {es : List EntryPoint} {slot : SlotId}

theorem obstacle?_eq_none_iff : obstacle? maxDepth blocked es slot = none ↔
    blocked slot = none ∧ EntryPoint.disagreement? maxDepth slot none es = none := by
  rw [obstacle?]
  cases blocked slot <;> simp

theorem mem_agreed : slot ∈ (Agreement.of maxDepth blocked es).agreed ↔
    slot ∈ EntryPoint.candidateSlots es ∧ blocked slot = none ∧
      EntryPoint.disagreement? maxDepth slot none es = none := by
  simp [Agreement.of, obstacle?_eq_none_iff]

end Agreement

namespace Hoist

/-- All entry points store the same value into each of the slots. -/
def Agreed (es : List EntryPoint) (slots : PosSet) : Prop :=
  ∀ s ∈ slots, ∃ v, ∀ e ∈ es, ∃ c, e.candidate? s = some c ∧ c.value = v

theorem agreed_of {maxDepth : Option Nat} {blocked : SlotId → Option CtorId} {es : List EntryPoint} :
    Agreed es (Agreement.of maxDepth blocked es).agreed := by
  intro s hs
  obtain ⟨-, -, hagree⟩ := Agreement.mem_agreed.mp hs
  exact EntryPoint.exists_value_of_disagreement? hagree

/-- Candidates for the same slot store the same value. -/
theorem Agreed.value_eq {es : List EntryPoint} {slots : PosSet} (h : Agreed es slots)
    (hnd : ∀ e ∈ es, (e.candidates.map (·.slot)).Nodup) {e e' : EntryPoint} (he : e ∈ es) (he' : e' ∈ es)
    {c c' : Candidate} (hc : c ∈ e.candidates) (hc' : c' ∈ e'.candidates) (hslot : c.slot = c'.slot) (hs : c.slot ∈ slots) :
    c.value = c'.value := by
  obtain ⟨v, hv⟩ := h c.slot hs
  have stored : ∀ {e d}, e ∈ es → d ∈ e.candidates → d.slot = c.slot → d.value = v := by
    intro e d he hd hslot
    obtain ⟨d', hd', hvalue⟩ := hv e he
    cases hd'.symm.trans ((EntryPoint.candidate?_eq_some_iff (hnd e he)).mpr ⟨hd, hslot⟩)
    exact hvalue
  rw [stored he hc rfl, stored he' hc' hslot.symm]

theorem Agreed.mono {es : List EntryPoint} {slots slots' : PosSet} (h : Agreed es slots) (hsub : slots' ⊆ slots) :
    Agreed es slots' :=
  fun s hs => h s (hsub s hs)

theorem mem_withoutParams {es : List EntryPoint} {slots : PosSet} {slot : SlotId} : slot ∈ withoutParams es slots ↔
    slot ∈ slots ∧ ∀ e ∈ es, ∀ c ∈ e.candidates, c.slot = slot → c.readsParams = false := by
  simp [withoutParams, imp_iff_not_or]

/-- The stores at an entry point that go with a set: its first ones, as many as the set has slots. -/
def heads (e : EntryPoint) (slots : PosSet) : List (SlotId × Expr) :=
  (e.candidates.take slots.size).map fun c => (c.slot, c.value)

theorem Settled.length_heads {initialized : List (SlotId × Footprint)} {e : EntryPoint} {slots : PosSet}
    (h : Settled initialized slots e) : (heads e slots).length = slots.size := by
  rw [heads, List.length_map]
  exact h.length

end Hoist

/-! ### The plan of a settled set -/

namespace Plan
open Hoist

variable {initialized : List (SlotId × Footprint)} {es : List EntryPoint} {slots : PosSet}

theorem exists_candidate_of_hoisted {s : SlotId} {v : Expr} (h : (Plan.of es slots).hoisted.find? s = some v) :
    s ∈ slots ∧ ∃ e ∈ es, ∃ c ∈ e.candidates, c.slot = s ∧ c.value = v := by
  obtain ⟨x, hx, rfl⟩ := Option.map_eq_some_iff.mp ((PosMap.find?_ofList _ _).symm.trans h)
  have hs : x.1 = s := by simpa using List.find?_some hx
  obtain ⟨_, hchosen, hmem⟩ := List.mem_flatMap.mp (List.mem_of_find?_eq_some hx)
  obtain ⟨e, he, rfl⟩ := List.mem_map.mp hchosen
  obtain ⟨c, hc, rfl⟩ := List.mem_map.mp hmem
  obtain ⟨hc, hslot⟩ := List.mem_filter.mp hc
  exact ⟨hs ▸ of_decide_eq_true hslot, e, he, c, hc, hs, rfl⟩

theorem mem_keys_hoisted_of {s : SlotId} :
    s ∈ (Plan.of es slots).hoisted.keys ↔ s ∈ slots ∧ s ∈ EntryPoint.candidateSlots es := by
  rw [Plan.of, PosMap.mem_keys_ofList, EntryPoint.mem_candidateSlots]
  simp only [List.flatMap_map, List.map_flatMap, List.map_map, List.mem_flatMap, List.mem_map, List.mem_filter,
    Function.comp_apply, decide_eq_true_eq]
  refine ⟨fun ⟨e, he, c, ⟨hc, hs⟩, hslot⟩ => ?_, fun ⟨hs, e, he, c, hc, hslot⟩ => ?_⟩
  · exact ⟨hslot ▸ hs, e, he, c, hc, hslot⟩
  · exact ⟨e, he, c, ⟨hc, hslot ▸ hs⟩, hslot⟩

/-- What is hoisted for agreed slots are the values that entry points store there. -/
theorem find?_hoisted_of (hnd : ∀ e ∈ es, (e.candidates.map (·.slot)).Nodup) (hagreed : Agreed es slots) {s : SlotId}
    {v : Expr} : (Plan.of es slots).hoisted.find? s = some v ↔
      s ∈ slots ∧ ∃ e ∈ es, ∃ c ∈ e.candidates, c.slot = s ∧ c.value = v := by
  refine ⟨exists_candidate_of_hoisted, fun ⟨hs, e, he, c, hc, hslot, hvalue⟩ => ?_⟩
  obtain ⟨w, hw⟩ : ∃ w, (Plan.of es slots).hoisted.find? s = some w :=
    PosMap.exists_find?_of_mem_keys (mem_keys_hoisted_of.mpr ⟨hs, EntryPoint.mem_candidateSlots.mpr ⟨e, he, c, hc, hslot⟩⟩)
  obtain ⟨-, e', he', c', hc', hslot', rfl⟩ := exists_candidate_of_hoisted hw
  rw [hw, ← hvalue, hagreed.value_eq hnd he he' hc hc' (hslot.trans hslot'.symm) (hslot ▸ hs)]

theorem mem_heads_iff {e : EntryPoint} (hnd : (e.candidates.map (·.slot)).Nodup) (hset : Settled initialized slots e)
    {s : SlotId} {v : Expr} : (s, v) ∈ heads e slots ↔ s ∈ slots ∧ ∃ c, e.candidate? s = some c ∧ c.value = v := by
  rw [heads, ← hset.filter_eq hnd]
  simp only [List.mem_map, List.mem_filter, decide_eq_true_eq, Prod.mk.injEq, EntryPoint.candidate?_eq_some_iff hnd]
  constructor
  · rintro ⟨c, ⟨hc, hs⟩, rfl, rfl⟩
    exact ⟨hs, c, ⟨hc, rfl⟩, rfl⟩
  · rintro ⟨hs, c, ⟨hc, rfl⟩, rfl⟩
    exact ⟨c, ⟨hc, hs⟩, rfl, rfl⟩

theorem find?_hoisted_of_mem (hnd : ∀ e ∈ es, (e.candidates.map (·.slot)).Nodup) (hagreed : Agreed es slots)
    {e : EntryPoint} (he : e ∈ es) {c : Candidate} (hc : c ∈ e.candidates) (hs : c.slot ∈ slots) :
    (Plan.of es slots).hoisted.find? c.slot = some c.value :=
  (find?_hoisted_of hnd hagreed).mpr ⟨hs, e, he, c, hc, rfl, rfl⟩

/-- The hoisted values are the stores that go, at whichever entry point one looks. -/
theorem find?_hoisted_iff (hnd : ∀ e ∈ es, (e.candidates.map (·.slot)).Nodup)
    (hset : ∀ e ∈ es, Settled initialized slots e) (hagreed : Agreed es slots) {e : EntryPoint} (he : e ∈ es)
    {s : SlotId} {v : Expr} : (Plan.of es slots).hoisted.find? s = some v ↔ (s, v) ∈ heads e slots := by
  rw [mem_heads_iff (hnd e he) (hset e he)]
  refine ⟨fun h => ?_, fun ⟨hs, c, hc, hvalue⟩ => ?_⟩
  · have hs := (exists_candidate_of_hoisted h).1
    obtain ⟨w, hw⟩ := hagreed s hs
    obtain ⟨c, hc, -⟩ := hw e he
    obtain ⟨hmem, rfl⟩ := EntryPoint.mem_of_candidate? hc
    rw [find?_hoisted_of_mem hnd hagreed he hmem hs, Option.some_inj] at h
    exact ⟨hs, c, hc, h⟩
  · obtain ⟨hmem, rfl⟩ := EntryPoint.mem_of_candidate? hc
    rw [find?_hoisted_of_mem hnd hagreed he hmem hs, hvalue]

theorem remaining_of_removes {p : Plan} {id : CtorId} {k : Nat} (h : ∀ i, p.removes id i = decide (i < k))
    (body : List Stmt) : p.remaining id body = body.drop k := by
  have aux : ∀ (l : List Stmt) n, ((l.zipIdx n).filter fun x => !decide (x.2 < k)).map Prod.fst = l.drop (k - n) := by
    intro l
    induction l with
    | nil => simp
    | cons s l ih =>
      intro n
      rw [List.zipIdx_cons]
      by_cases hn : n < k
      · obtain ⟨m, hm⟩ : ∃ m, k - n = m + 1 := ⟨k - n - 1, by omega⟩
        rw [List.filter_cons_of_neg (by simp [hn]), ih, hm, List.drop_succ_cons]
        congr 1
        omega
      · rw [List.filter_cons_of_pos (by simp [hn]), List.map_cons, ih, show k - n = 0 by omega,
          show k - (n + 1) = 0 by omega]
        rfl
  simpa [remaining, h] using aux body 0

theorem removals_of : (Plan.of es slots).removals =
    .ofList ((es.filter fun e => !(e.candidates.filter (·.slot ∈ slots)).isEmpty).map fun e =>
      (e.ctor, .ofList ((e.candidates.filter (·.slot ∈ slots)).map (·.index)))) := by
  simp only [Plan.of, List.filter_map, List.map_map]
  rfl

theorem mem_removals_of {id : CtorId} (h : id ∈ (Plan.of es slots).removals.keys) : id ∈ es.map (·.ctor) := by
  rw [removals_of, PosMap.mem_keys_ofList] at h
  simp only [List.map_map, List.mem_map, List.mem_filter, Function.comp_apply] at h
  obtain ⟨e, ⟨he, -⟩, rfl⟩ := h
  exact List.mem_map_of_mem he

theorem removes_of_not_mem {id : CtorId} (hid : id ∉ es.map (·.ctor)) (i : Nat) :
    (Plan.of es slots).removes id i = false := by
  rw [removes]
  cases hfind : (Plan.of es slots).removals.find? id with
  | none => rfl
  | some removed => exact absurd (mem_removals_of (PosMap.mem_keys_of_find? hfind)) hid

/-- At each entry point the statements that go are those of its candidates for the slots. -/
theorem find?_removals_of (hctor : (es.map (·.ctor)).Nodup) {id : CtorId} {removed : PosSet} :
    (Plan.of es slots).removals.find? id = some removed ↔
      ∃ e ∈ es, e.ctor = id ∧ e.candidates.filter (·.slot ∈ slots) ≠ [] ∧
        .ofList ((e.candidates.filter (·.slot ∈ slots)).map (·.index)) = removed := by
  have hkeys : (((es.filter fun e => !(e.candidates.filter (·.slot ∈ slots)).isEmpty).map fun e =>
      (e.ctor, PosSet.ofList ((e.candidates.filter (·.slot ∈ slots)).map (·.index)))).map Prod.fst).Nodup := by
    rw [List.map_map]
    exact (List.filter_sublist.map _).nodup hctor
  rw [removals_of, PosMap.find?_ofList_of_nodup hkeys]
  simp only [List.mem_map, List.mem_filter, Bool.not_eq_true', List.isEmpty_eq_false_iff, Prod.mk.injEq]
  grind

theorem removes_of_iff (hctor : (es.map (·.ctor)).Nodup) {id : CtorId} {i : Nat} :
    (Plan.of es slots).removes id i = true ↔
      ∃ e ∈ es, e.ctor = id ∧ ∃ c ∈ e.candidates, c.slot ∈ slots ∧ c.index = i := by
  simp only [removes, Option.any_eq_true, find?_removals_of hctor, decide_eq_true_eq]
  grind [PosSet.mem_ofList]

/-- At an entry point the statements that go are the first ones. -/
theorem removes_of (hnd : ∀ e ∈ es, (e.candidates.map (·.slot)).Nodup) (hset : ∀ e ∈ es, Settled initialized slots e)
    (hctor : (es.map (·.ctor)).Nodup) {e : EntryPoint} (he : e ∈ es)
    (hidx : e.candidates.map (·.index) = List.range' 0 e.candidates.length) (i : Nat) :
    (Plan.of es slots).removes e.ctor i = decide (i < slots.size) := by
  have hindices : (e.candidates.filter (·.slot ∈ slots)).map (·.index) = List.range' 0 slots.size := by
    have hlen := (hset e he).length
    rw [List.length_take] at hlen
    rw [(hset e he).filter_eq (hnd e he), List.map_take, hidx, List.take_range'_of_length_ge (by omega)]
  have hhere : (∃ c ∈ e.candidates, c.slot ∈ slots ∧ c.index = i) ↔ i < slots.size := by
    have hmem := List.mem_range'_1 (m := i) (s := 0) (n := slots.size)
    rw [← hindices] at hmem
    simpa [and_assoc] using hmem
  rw [Bool.eq_iff_iff, removes_of_iff hctor, decide_eq_true_iff, ← hhere]
  refine ⟨fun ⟨e', he', hid, h⟩ => ?_, fun h => ⟨e, he, rfl, h⟩⟩
  rwa [← List.inj_on_of_nodup_map hctor he' he hid]

end Plan

end DeclRecovery
