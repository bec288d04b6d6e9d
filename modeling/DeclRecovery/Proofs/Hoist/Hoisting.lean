import DeclRecovery.Proofs.Delegation
import DeclRecovery.Proofs.Hoist.Plans

/-!
What a plan that an extraction found does to its type (`Plan.HoistsAt`). At every root it takes the first stores
out of the body; their slots have no initializer yet, are stored by nothing else before the delegation, and get
the stored values as initializers. Each of these stores is clean after the initializers that the type has and
the stores before it. Every other constructor keeps its body.
-/

namespace DeclRecovery

namespace Hoist

/-- A store can become an initializer although those in `before` run before it: what it reads is set by them, and
where it overtakes one of them the two commute. -/
structure CleanAfter (before : List (SlotId × Expr)) (x : SlotId × Expr) : Prop where
  self : x.2.footprint.readsSelf = false
  reads : ∀ m ∈ x.2.footprint.members, m < x.1 ∧ m ∈ before.map Prod.fst
  swaps : ∀ y ∈ before, x.1 < y.1 → commutes (y.1, y.2.footprint) (x.1, x.2.footprint) = true

theorem isClean_iff {t : TypeDecl} {earlier : List Candidate} {c : Candidate} :
    isClean (existing t) earlier c = true ↔
      CleanAfter (t.initializers ++ earlier.map fun e => (e.slot, e.value)) (c.slot, c.value) := by
  -- The same stores run before, with their footprints and in another order.
  have hbefore : ∀ y, y ∈ earlier.map (fun e => (e.slot, e.footprint)) ++ existing t ↔
      ∃ x ∈ t.initializers ++ earlier.map (fun e => (e.slot, e.value)), (x.1, x.2.footprint) = y := by
    intro y
    simp only [List.mem_append, existing_eq, List.mem_map, or_and_right, exists_or, exists_exists_and_eq_and]
    exact or_comm
  rw [isClean_iff_admissible]
  constructor
  · intro h
    refine ⟨h.self, fun m hm => ⟨(h.reads m hm).1, ?_⟩, fun y hy => h.swaps _ ((hbefore _).mpr ⟨y, hy, rfl⟩)⟩
    obtain ⟨y, hy, rfl⟩ := List.mem_map.mp (h.reads m hm).2
    obtain ⟨x, hx, rfl⟩ := (hbefore y).mp hy
    exact List.mem_map_of_mem hx
  · intro h
    refine ⟨h.self, fun m hm => ⟨(h.reads m hm).1, ?_⟩, fun y hy hlt => ?_⟩
    · obtain ⟨x, hx, rfl⟩ := List.mem_map.mp (h.reads m hm).2
      exact List.mem_map.mpr ⟨_, (hbefore _).mpr ⟨x, hx, rfl⟩, rfl⟩
    · obtain ⟨x, hx, rfl⟩ := (hbefore y).mp hy
      exact h.swaps x hx hlt

end Hoist

namespace Plan
open Hoist

/-- At root `id`, which is `c`, the plan hoists the stores `heads`, and these are the first of the body. -/
structure HoistsAt (p : Plan) (t : TypeDecl) (id : CtorId) (c : Constructor) (heads : List (SlotId × Expr)) : Prop where
  remaining : p.remaining id c.body = c.body.drop heads.length
  stores : ((Candidate.region c).take heads.length).map Stmt.singleStore? = heads.map some
  within : heads.length ≤ (Candidate.region c).length
  nodup : (heads.map Prod.fst).Nodup
  hoisted : ∀ s v, p.hoisted.find? s = some v ↔ (s, v) ∈ heads
  fresh : ∀ x ∈ heads, t.Fresh x.1
  once : ∀ x ∈ heads, (Candidate.region c).countP (Stmt.stores x.1) ≤ 1
  clean : ∀ before x after, heads = before ++ x :: after → CleanAfter (t.initializers ++ before) x

/-- The plan hoists at every one of the roots and leaves all other constructors as they are. -/
structure Hoists (p : Plan) (t : TypeDecl) (roots : List CtorId) : Prop where
  root : ∀ id ∈ roots, ∃ c heads, t.constructors[id]? = some c ∧ p.HoistsAt t id c heads
  other : ∀ id, id ∉ roots → ∀ body, p.remaining id body = body
  rooted : ∀ s v, p.hoisted.find? s = some v → roots ≠ []
  removed : ∀ id ∈ p.removals.keys, id ∈ roots

variable {t : TypeDecl} {roots : List CtorId} {es : List EntryPoint} {slots : PosSet}

theorem Hoists.hoistsAt {p : Plan} (h : p.Hoists t roots) {id : CtorId} {c : Constructor} (hid : id ∈ roots)
    (hc : t.constructors[id]? = some c) : ∃ heads, p.HoistsAt t id c heads := by
  obtain ⟨c', heads, hc', hat⟩ := h.root id hid
  cases hc.symm.trans hc'
  exact ⟨heads, hat⟩

/-- Whatever is hoisted is hoisted at some root. -/
theorem Hoists.exists_hoistsAt {p : Plan} (h : p.Hoists t roots) {slot : SlotId} {value : Expr}
    (hvalue : p.hoisted.find? slot = some value) : ∃ id c heads, t.constructors[id]? = some c ∧
      p.HoistsAt t id c heads ∧ (slot, value) ∈ heads := by
  obtain ⟨id, hid⟩ := List.exists_mem_of_ne_nil _ (h.rooted slot value hvalue)
  obtain ⟨c, heads, hc, hat⟩ := h.root id hid
  exact ⟨id, c, heads, hc, hat, (hat.hoisted slot value).mp hvalue⟩

theorem forall₂_of_iff : List.Forall₂ (fun id e => EntryPoint.of t id = .ok e) roots es ↔
    es.map (·.ctor) = roots ∧ ∀ e ∈ es, EntryPoint.of t e.ctor = .ok e := by
  constructor
  · intro hes
    induction hes with
    | nil => simp
    | cons he _ ih =>
      obtain ⟨rfl, -⟩ := EntryPoint.of_eq_ok he
      exact ⟨congrArg _ ih.1, List.forall_mem_cons.mpr ⟨he, ih.2⟩⟩
  · rintro ⟨rfl, h⟩
    rw [List.forall₂_map_left_iff, List.forall₂_same]
    exact h

theorem leads_of_mem (hes : List.Forall₂ (fun id e => EntryPoint.of t id = .ok e) roots es) {e : EntryPoint}
    (he : e ∈ es) : ∃ c, t.constructors[e.ctor]? = some c ∧
      Candidate.Leads t e.ctor (Candidate.region c) (Candidate.region c) 0 e.candidates := by
  obtain ⟨-, c, hc, -, hl⟩ := EntryPoint.of_eq_ok ((forall₂_of_iff.mp hes).2 e he)
  exact ⟨c, hc, hl⟩

/-- The stores that go with a settled set are hoisted as `HoistsAt` says. -/
theorem hoistsAt_heads {p : Plan} {e : EntryPoint} {c : Constructor}
    (hl : Candidate.Leads t e.ctor (Candidate.region c) (Candidate.region c) 0 e.candidates)
    (hset : Settled (existing t) slots e) (hremoves : ∀ i, p.removes e.ctor i = decide (i < slots.size))
    (hhoisted : ∀ s v, p.hoisted.find? s = some v ↔ (s, v) ∈ heads e slots) :
    p.HoistsAt t e.ctor c (heads e slots) := by
  have hlen := hset.length_heads
  have hle : slots.size ≤ e.candidates.length := by
    have := hset.length
    rw [List.length_take] at this
    omega
  have hmem : ∀ x ∈ heads e slots, ∃ d ∈ e.candidates, d.slot = x.1 := by
    intro x hx
    obtain ⟨d, hd, rfl⟩ := List.mem_map.mp hx
    exact ⟨d, List.mem_of_mem_take hd, rfl⟩
  constructor
  case remaining =>
    rw [hlen]
    exact remaining_of_removes hremoves c.body
  case stores =>
    have := congrArg (List.take slots.size) hl.stores
    rw [← List.map_take, ← List.map_take, List.take_take, Nat.min_eq_left hle] at this
    rw [hlen, this, heads, List.map_map]
    rfl
  case within =>
    rw [hlen]
    exact Nat.le_trans hle hl.length
  case nodup =>
    rw [heads, List.map_map]
    exact ((List.take_sublist _ _).map _).nodup (hl.nodup_slots (List.Sublist.refl _))
  case hoisted => exact hhoisted
  case fresh =>
    intro x hx
    obtain ⟨d, hd, hslot⟩ := hmem x hx
    exact hslot ▸ hl.fresh d hd
  case once =>
    intro x hx
    obtain ⟨d, hd, hslot⟩ := hmem x hx
    exact hslot ▸ hl.once d hd
  case clean =>
    intro before x after hsplit
    obtain ⟨cs, cs', hcs, rfl, hrest⟩ := List.map_eq_append_iff.mp hsplit
    obtain ⟨d, ds, rfl, rfl, -⟩ := List.map_eq_cons_iff.mp hrest
    exact isClean_iff.mp (hset.clean cs d ds hcs)

theorem nodup_slots_of_mem (hes : List.Forall₂ (fun id e => EntryPoint.of t id = .ok e) roots es) :
    ∀ e ∈ es, (e.candidates.map (·.slot)).Nodup := by
  intro e he
  obtain ⟨c, -, hl⟩ := leads_of_mem hes he
  exact hl.nodup_slots (List.Sublist.refl _)

theorem settled_of_mem (hes : List.Forall₂ (fun id e => EntryPoint.of t id = .ok e) roots es) :
    ∀ e ∈ es, Settled (existing t) (settle (existing t) es slots) e :=
  fun e he => settled_settle he (nodup_slots_of_mem hes e he)

/-- At every entry point the plan of a settled set of agreed slots hoists the stores that go with it. -/
theorem hoistsAt_of_mem (hes : List.Forall₂ (fun id e => EntryPoint.of t id = .ok e) roots es) (hroots : roots.Nodup)
    (hset : ∀ e ∈ es, Settled (existing t) slots e) (hagreed : Agreed es slots) {e : EntryPoint} (he : e ∈ es) :
    ∃ c, t.constructors[e.ctor]? = some c ∧ (Plan.of es slots).HoistsAt t e.ctor c (heads e slots) := by
  have hnd := nodup_slots_of_mem hes
  have hctor := (forall₂_of_iff.mp hes).1
  obtain ⟨c, hc, hl⟩ := leads_of_mem hes he
  exact ⟨c, hc, hoistsAt_heads hl (hset e he) (removes_of hnd hset (hctor ▸ hroots) he hl.indices)
    fun s v => find?_hoisted_iff hnd hset hagreed he⟩

/-- The plan of a settled set of agreed slots hoists at every root. -/
theorem hoists_of_settled (hes : List.Forall₂ (fun id e => EntryPoint.of t id = .ok e) roots es) (hroots : roots.Nodup)
    (hset : ∀ e ∈ es, Settled (existing t) slots e) (hagreed : Agreed es slots) : (Plan.of es slots).Hoists t roots := by
  have hctor := (forall₂_of_iff.mp hes).1
  refine ⟨fun id hid => ?_, fun id hid body => ?_, fun s v hv => ?_, fun id hid => hctor ▸ mem_removals_of hid⟩
  · rw [← hctor] at hid
    obtain ⟨e, he, rfl⟩ := List.mem_map.mp hid
    obtain ⟨c, hc, hat⟩ := hoistsAt_of_mem hes hroots hset hagreed he
    exact ⟨c, _, hc, hat⟩
  · rw [← hctor] at hid
    exact remaining_of_removes (k := 0) (removes_of_not_mem hid) body
  · rintro rfl
    cases hes
    cases hv

theorem apply_eq_ok_iff {p : Plan} {t' : TypeDecl} : p.apply t = .ok t' ↔ t' = p.hoist t ∧
    (∀ slot ∈ p.hoisted.keys, slot < t.slots.length) ∧ ∀ id ∈ p.removals.keys, id < t.constructors.length := by
  have hslot : ∀ slot, discard (t.slot slot) = .ok ⟨⟩ ↔ slot < t.slots.length := discard_nth_eq_ok_iff
  have hctor : ∀ id, discard (t.constructor id) = .ok ⟨⟩ ↔ id < t.constructors.length := discard_nth_eq_ok_iff
  rw [apply, bind_eq_ok_iff]
  constructor
  · rintro ⟨⟨⟩, hslots, h⟩
    obtain ⟨⟨⟩, hctors, h⟩ := bind_eq_ok_iff.mp h
    exact ⟨(pure_eq_ok_iff.mp h).symm, fun slot hmem => (hslot slot).mp (forM_eq_ok_iff.mp hslots slot hmem),
      fun id hmem => (hctor id).mp (forM_eq_ok_iff.mp hctors id hmem)⟩
  · rintro ⟨rfl, hslots, hctors⟩
    exact ⟨⟨⟩, forM_eq_ok_iff.mpr fun slot hmem => (hslot slot).mpr (hslots slot hmem),
      bind_eq_ok_iff.mpr ⟨⟨⟩, forM_eq_ok_iff.mpr fun id hmem => (hctor id).mpr (hctors id hmem), rfl⟩⟩

/-- Such a plan can be carried out: its type has all that it names. -/
theorem Hoists.apply_eq {p : Plan} (h : p.Hoists t roots) : p.apply t = .ok (p.hoist t) := by
  refine apply_eq_ok_iff.mpr ⟨rfl, fun slot hslot => ?_, fun id hid => ?_⟩
  · obtain ⟨v, hv⟩ := PosMap.exists_find?_of_mem_keys hslot
    obtain ⟨id, c, heads, -, hat, hmem⟩ := h.exists_hoistsAt hv
    obtain ⟨s, hs, -⟩ := hat.fresh _ hmem
    exact (List.getElem?_eq_some_iff.mp hs).1
  · obtain ⟨c, -, hc, -⟩ := h.root id (h.removed id hid)
    exact (List.getElem?_eq_some_iff.mp hc).1

end Plan

namespace Extraction
open Hoist

variable {t : TypeDecl} {chain : Chain} {maxDepth : Option Nat} {extraction : Extraction}

theorem of_eq_ok (h : Extraction.of maxDepth t chain = .ok extraction) : ∃ es ordered,
    List.Forall₂ (fun id e => EntryPoint.of t id = .ok e) chain.roots es ∧
      chain.order.mapM (fun id => do return (id, ← t.constructor id)) = .ok ordered ∧
      extraction =
        { entryPoints := es
          withPrimary := plan (existing t) es (Agreement.of maxDepth (conditionalWriter? ordered) es).agreed true
          withoutPrimary := plan (existing t) es (Agreement.of maxDepth (conditionalWriter? ordered) es).agreed false
          ambiguities := (Agreement.of maxDepth (conditionalWriter? ordered) es).ambiguities } := by
  obtain ⟨es, hes, h⟩ := bind_eq_ok_iff.mp h
  obtain ⟨ordered, hordered, h⟩ := bind_eq_ok_iff.mp h
  exact ⟨es, ordered, mapM_eq_ok_iff.mp hes, hordered, (pure_eq_ok_iff.mp h).symm⟩

theorem fresh_of_mem_ambiguities (h : Extraction.of maxDepth t chain = .ok extraction) {found : SlotId × Ambiguity}
    (hfound : found ∈ extraction.ambiguities) : t.Fresh found.1 := by
  obtain ⟨es, ordered, hes, -, rfl⟩ := of_eq_ok h
  obtain ⟨slot, hslot, hobstacle⟩ := List.mem_filterMap.mp hfound
  obtain ⟨_, -, rfl⟩ := Option.map_eq_some_iff.mp hobstacle
  obtain ⟨e, he, c, hc, rfl⟩ := EntryPoint.mem_candidateSlots.mp hslot
  obtain ⟨_, -, hl⟩ := Plan.leads_of_mem hes he
  exact hl.fresh c hc

theorem withoutParams_subset {es : List EntryPoint} {slots : PosSet} : withoutParams es slots ⊆ slots :=
  PosSet.filter_subset

/-- With a primary constructor everything is hoisted that is without one. -/
theorem withPrimary_of_withoutPrimary (h : Extraction.of maxDepth t chain = .ok extraction) {slot : SlotId} {value : Expr}
    (hvalue : extraction.withoutPrimary.hoisted.find? slot = some value) :
    extraction.withPrimary.hoisted.find? slot = some value := by
  obtain ⟨es, ordered, hes, -, rfl⟩ := of_eq_ok h
  obtain ⟨hslot, e, he, c, hc, rfl, rfl⟩ := Plan.exists_candidate_of_hoisted hvalue
  exact Plan.find?_hoisted_of_mem (Plan.nodup_slots_of_mem hes) (agreed_of.mono settle_subset) he hc
    (settle_mono withoutParams_subset _ hslot)

/-- Without a primary constructor no hoisted value reads a parameter. -/
theorem readsParams_withoutPrimary (h : Extraction.of maxDepth t chain = .ok extraction) {slot : SlotId} {value : Expr}
    (hvalue : extraction.withoutPrimary.hoisted.find? slot = some value) : value.readsParams = false := by
  obtain ⟨es, ordered, -, -, rfl⟩ := of_eq_ok h
  obtain ⟨hslot, e, he, c, hc, rfl, rfl⟩ := Plan.exists_candidate_of_hoisted hvalue
  exact (mem_withoutParams.mp (settle_subset _ hslot)).2 e he c hc rfl

/-- Both plans of an extraction hoist at every root. -/
theorem hoists (hchain : Chain.build t = .ok chain) (h : Extraction.of maxDepth t chain = .ok extraction) :
    extraction.withPrimary.Hoists t chain.roots ∧ extraction.withoutPrimary.Hoists t chain.roots := by
  obtain ⟨es, ordered, hes, -, rfl⟩ := of_eq_ok h
  have hroots := Chain.roots_nodup hchain
  have hset : ∀ slots, ∀ e ∈ es, Settled (existing t) (settle (existing t) es slots) e := fun _ => Plan.settled_of_mem hes
  exact ⟨Plan.hoists_of_settled hes hroots (hset _) (agreed_of.mono settle_subset),
    Plan.hoists_of_settled hes hroots (hset _) (agreed_of.mono (PosSet.subset_trans settle_subset withoutParams_subset))⟩

end Extraction

end DeclRecovery
