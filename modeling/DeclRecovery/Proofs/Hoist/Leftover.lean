import DeclRecovery.Proofs.Lowering

/-!
What is left to hoist in a type after a plan has been carried out on it. The roots keep the candidates that the plan
did not take (`EntryPoint.of_later`), and a set that could be hoisted from these could have been hoisted along with the
plan's own (`Hoist.Settled.union`). As the plan took the largest set there was, nothing is left of that kind.
-/

namespace DeclRecovery

namespace Stmt

variable {s : Stmt} {slot : SlotId} {value : Expr}

theorem assignsConditionally_of_singleStore? (h : s.singleStore? = some (slot, value)) (other : SlotId) :
    s.assignsConditionally other = false := by
  cases s with
  | branch c t e =>
    rw [assignsConditionally, Bool.and_eq_false_imp]
    intro hstores
    rw [stores_of_singleStore? h] at hstores
    rw [show twoWayStore? (branch c t e) = some (slot, value) from h, eq_of_beq hstores]
    exact bne_self_eq_false _
  | assign | delegate | eval | raise => rfl

end Stmt

/-! ### Candidates -/

namespace Candidate

variable {t t' : TypeDecl} {ctor : CtorId} {region region' rest : List Stmt}

/-- The candidate as it stands when the first `k` statements are gone. -/
def moved (k : Nat) (c : Candidate) : Candidate := { c with index := c.index - k }

theorem leading_drop {n k : Nat} {cs : List Candidate} (h : leading t ctor region (rest.zipIdx n) = .ok cs)
    (hk : k ≤ cs.length) : leading t ctor region ((rest.drop k).zipIdx (n + k)) = .ok (cs.drop k) := by
  induction k generalizing rest n cs with
  | zero => exact h
  | succ k ih =>
    cases rest with
    | nil =>
      cases h
      cases hk
    | cons s rest =>
      rw [List.zipIdx_cons, leading] at h
      split at h
      · cases h
        cases hk
      · obtain ⟨target, -, h⟩ := bind_eq_ok_iff.mp h
        split at h
        · cases h
          cases hk
        · obtain ⟨cs', hcs', h⟩ := bind_eq_ok_iff.mp h
          cases h
          rw [List.drop_succ_cons, List.drop_succ_cons, show n + (k + 1) = n + 1 + k by omega]
          exact ih hcs' (Nat.le_of_succ_le_succ hk)

/-- Which candidates lead depends on the initializers of the slots that are stored, and on how often they are. -/
theorem leading_congr (k : Nat) {n : Nat} (h : ∀ s ∈ rest, ∀ slot value, s.singleStore? = some (slot, value) →
      t'.slots[slot]?.map (·.initializer) = t.slots[slot]?.map (·.initializer) ∧
        region'.countP (Stmt.stores slot) = region.countP (Stmt.stores slot)) :
    ∀ {cs}, leading t ctor region (rest.zipIdx (n + k)) = .ok cs →
      leading t' ctor region' (rest.zipIdx n) = .ok (cs.map (moved k)) := by
  induction rest generalizing n with
  | nil =>
    intro cs hcs
    cases hcs
    rfl
  | cons s rest ih =>
    intro cs hcs
    obtain ⟨hs, hrest⟩ := List.forall_mem_cons.mp h
    rw [List.zipIdx_cons, leading] at hcs ⊢
    split at hcs
    · cases hcs
      rfl
    · next slot value hstore =>
      obtain ⟨hinit, hcount⟩ := hs slot value hstore
      obtain ⟨target, htarget, hcs⟩ := bind_eq_ok_iff.mp hcs
      rw [slot_eq_ok.mp htarget] at hinit
      obtain ⟨target', htarget', hinit⟩ := Option.map_eq_some_iff.mp hinit
      refine bind_eq_ok_iff.mpr ⟨target', slot_eq_ok.mpr htarget', ?_⟩
      rw [hinit, hcount]
      split at hcs
      · next hstop =>
        cases hcs
        rw [if_pos hstop]
        rfl
      · next hgo =>
        obtain ⟨cs', hcs', hcs⟩ := bind_eq_ok_iff.mp hcs
        cases hcs
        rw [if_neg hgo]
        refine bind_eq_ok_iff.mpr ⟨_, ih hrest (show n + k + 1 = n + 1 + k by omega ▸ hcs'), ?_⟩
        rw [List.map_cons, moved, Nat.add_sub_cancel]
        rfl

end Candidate

/-! ### Carried out plans -/

namespace Plan

/-- The second type is the first one after the plan, as far as stores and initializers go. -/
structure Yields (p : Plan) (t t' : TypeDecl) : Prop where
  slots : ∀ i, t'.slots[i]?.map (·.initializer) = t.slots[i]?.map fun s => (p.hoisted.find? i).or s.initializer
  constructors : ∀ id, t'.constructors[id]?.map (fun c => (c.parameters, c.body)) =
    t.constructors[id]?.map fun c => (c.parameters, p.remaining id c.body)

variable {p : Plan} {t t' : TypeDecl} {id : CtorId} {c : Constructor} {heads : List (SlotId × Expr)}

theorem HoistsAt.exists_head (h : p.HoistsAt t id c heads) {s : Stmt} (hs : s ∈ (Candidate.region c).take heads.length) :
    ∃ x ∈ heads, s.singleStore? = some x := by
  have hmem : s.singleStore? ∈ heads.map some := h.stores ▸ List.mem_map_of_mem hs
  obtain ⟨x, hx, hstore⟩ := List.mem_map.mp hmem
  exact ⟨x, hx, hstore.symm⟩

theorem HoistsAt.exists_store (h : p.HoistsAt t id c heads) {x : SlotId × Expr} (hx : x ∈ heads) :
    ∃ s ∈ (Candidate.region c).take heads.length, s.singleStore? = some x :=
  List.mem_map.mp (h.stores ▸ List.mem_map_of_mem hx)

/-- A slot that gets no initializer is stored as often as before. -/
theorem HoistsAt.countP_drop (h : p.HoistsAt t id c heads) {slot : SlotId} (hslot : p.hoisted.find? slot = none) :
    ((Candidate.region c).drop heads.length).countP (Stmt.stores slot) =
      (Candidate.region c).countP (Stmt.stores slot) := by
  have hnone : ((Candidate.region c).take heads.length).countP (Stmt.stores slot) = 0 := by
    rw [List.countP_eq_zero]
    intro s hs hstores
    obtain ⟨x, hx, hstore⟩ := h.exists_head hs
    rw [Stmt.stores_of_singleStore? hstore, beq_iff_eq] at hstores
    cases hslot.symm.trans ((h.hoisted slot x.2).mpr (hstores ▸ hx))
  conv_rhs => rw [← List.take_append_drop heads.length (Candidate.region c), List.countP_append, hnone, Nat.zero_add]

/-- What is left stores no slot that gets an initializer. -/
theorem HoistsAt.find?_eq_none (h : p.HoistsAt t id c heads) {s : Stmt} (hs : s ∈ (Candidate.region c).drop heads.length)
    {slot : SlotId} (hstores : s.stores slot = true) : p.hoisted.find? slot = none := by
  rw [Option.eq_none_iff_forall_ne_some]
  intro v hv
  have hmem := (h.hoisted slot v).mp hv
  obtain ⟨s', hs', hstore⟩ := h.exists_store hmem
  have hfirst : 0 < ((Candidate.region c).take heads.length).countP (Stmt.stores slot) :=
    List.countP_pos_iff.mpr ⟨s', hs', by rw [Stmt.stores_of_singleStore? hstore]; exact beq_self_eq_true slot⟩
  have hrest : 0 < ((Candidate.region c).drop heads.length).countP (Stmt.stores slot) :=
    List.countP_pos_iff.mpr ⟨s, hs, hstores⟩
  have honce : (Candidate.region c).countP (Stmt.stores slot) ≤ 1 := h.once _ hmem
  rw [← List.take_append_drop heads.length (Candidate.region c), List.countP_append] at honce
  omega

end Plan

/-- The entry point when its first `k` candidates are gone. -/
def EntryPoint.later (k : Nat) (e : EntryPoint) : EntryPoint :=
  { e with candidates := (e.candidates.drop k).map (Candidate.moved k) }

/-- A root keeps the candidates that the plan does not take. -/
theorem EntryPoint.of_later {p : Plan} {t t' : TypeDecl} {id : CtorId} {c : Constructor} {heads : List (SlotId × Expr)}
    {e : EntryPoint} (hyields : p.Yields t t') (hat : p.HoistsAt t id c heads) (hc : t.constructors[id]? = some c)
    (he : EntryPoint.of t id = .ok e) (hlength : heads.length ≤ e.candidates.length) :
    EntryPoint.of t' id = .ok (e.later heads.length) := by
  obtain ⟨_, hc₁, he⟩ := bind_eq_ok_iff.mp he
  cases hc.symm.trans (constructor_eq_ok.mp hc₁)
  obtain ⟨cs, hcs, he⟩ := bind_eq_ok_iff.mp he
  cases he
  have hctor := hyields.constructors id
  rw [hc, Option.map_some, hat.remaining] at hctor
  obtain ⟨c', hc', hsame⟩ := Option.map_eq_some_iff.mp hctor
  obtain ⟨hparams, hbody⟩ := Prod.mk.inj hsame
  have hregion : Candidate.region c' = (Candidate.region c).drop heads.length := by
    rw [← Constructor.region_drop hat.within, Constructor.region_eq, Constructor.region_eq, hbody]
  have hleading : Candidate.leading t' id (Candidate.region c') ((Candidate.region c').zipIdx) =
      .ok ((cs.drop heads.length).map (Candidate.moved heads.length)) := by
    rw [hregion]
    -- What is left is scanned as before, since none of it stores a hoisted slot.
    refine Candidate.leading_congr heads.length (fun s hs slot value hstore => ?_) (Candidate.leading_drop hcs hlength)
    have hnone : p.hoisted.find? slot = none :=
      hat.find?_eq_none hs ((Stmt.stores_of_singleStore? hstore slot).trans (beq_self_eq_true slot))
    refine ⟨?_, hat.countP_drop hnone⟩
    simpa [hnone] using hyields.slots slot
  exact bind_eq_ok_iff.mpr ⟨c', constructor_eq_ok.mpr hc', bind_eq_ok_iff.mpr ⟨_, hleading, by rw [hparams]; rfl⟩⟩

/-! ### Agreement -/

namespace EntryPoint

variable {k : Nat} {slot : SlotId}

theorem mem_candidates_later {e : EntryPoint} {c : Candidate} :
    c ∈ (e.later k).candidates ↔ ∃ d ∈ e.candidates.drop k, d.moved k = c := List.mem_map

theorem candidate?_later {e : EntryPoint} (h : slot ∉ (e.candidates.take k).map (·.slot)) :
    (e.later k).candidate? slot = (e.candidate? slot).map (Candidate.moved k) := by
  have hfirst : (e.candidates.take k).find? (·.slot == slot) = none := by
    rw [List.find?_eq_none]
    intro c hc hslot
    exact h (List.mem_map.mpr ⟨c, hc, eq_of_beq hslot⟩)
  rw [candidate?, candidate?, later, List.find?_map]
  conv_rhs => rw [← List.take_append_drop k e.candidates, List.find?_append, hfirst, Option.none_or]
  rfl

theorem disagreement?_later {maxDepth : Option Nat} {es : List EntryPoint}
    (h : ∀ e ∈ es, slot ∉ (e.candidates.take k).map (·.slot)) (reference : Option Site) :
    disagreement? maxDepth slot reference (es.map (later k)) = disagreement? maxDepth slot reference es := by
  induction es generalizing reference with
  | nil => rfl
  | cons e es ih =>
    obtain ⟨he, hes⟩ := List.forall_mem_cons.mp h
    rw [List.map_cons, disagreement?, disagreement?, candidate?_later he]
    cases e.candidate? slot with
    | none => rfl
    | some c =>
      simp only [Option.map_some, ih hes]
      rfl

end EntryPoint

/-- No store inside a branch is hoisted. -/
theorem Plan.Hoists.any_assignsConditionally {p : Plan} {t : TypeDecl} {roots : List CtorId} {id : CtorId}
    {c : Constructor} (h : p.Hoists t roots) (hc : t.constructors[id]? = some c) (slot : SlotId) :
    (p.remaining id c.body).any (Stmt.assignsConditionally slot) = c.body.any (Stmt.assignsConditionally slot) := by
  by_cases hid : id ∈ roots
  · obtain ⟨heads, hat⟩ := h.hoistsAt hid hc
    obtain ⟨first, hbody, hfirst⟩ := hat.split
    have hnone : first.any (Stmt.assignsConditionally slot) = false := by
      rw [List.any_eq_false]
      intro s hs
      have hmem : s.singleStore? ∈ heads.map some := hfirst ▸ List.mem_map_of_mem hs
      obtain ⟨x, -, hx⟩ := List.mem_map.mp hmem
      rw [Stmt.assignsConditionally_of_singleStore? hx.symm]
      exact Bool.false_ne_true
    conv_rhs => rw [hbody, List.any_append, hnone, Bool.false_or]
  · rw [h.other id hid]

/-! ### Settled sets -/

namespace Hoist

theorem CleanAfter.congr {before before' : List (SlotId × Expr)} {x : SlotId × Expr} (h : CleanAfter before x)
    (hmem : ∀ y, y ∈ before' ↔ y ∈ before) : CleanAfter before' x where
  self := h.self
  reads m hm := by
    obtain ⟨hlt, hset⟩ := h.reads m hm
    obtain ⟨y, hy, rfl⟩ := List.mem_map.mp hset
    exact ⟨hlt, List.mem_map_of_mem ((hmem y).mpr hy)⟩
  swaps y hy := h.swaps y ((hmem y).mp hy)

theorem Settled.not_mem_of_later {initialized : List (SlotId × Footprint)} {hoisted : PosSet} {e : EntryPoint}
    (h : Settled initialized hoisted e) (hnd : (e.candidates.map (·.slot)).Nodup) {c : Candidate}
    (hc : c ∈ (e.later hoisted.size).candidates) : c.slot ∉ hoisted := by
  obtain ⟨d, hd, rfl⟩ := EntryPoint.mem_candidates_later.mp hc
  rw [← List.take_append_drop hoisted.size e.candidates, List.map_append, List.nodup_append'] at hnd
  intro hslot
  exact hnd.2.2 (h.slots.mem_iff.mpr hslot) (List.mem_map.mpr ⟨d, hd, rfl⟩)

/-- What can be hoisted after a settled set can be hoisted along with it. -/
theorem Settled.union {t t' : TypeDecl} {hoisted hoisted' : PosSet} {e : EntryPoint} (h : Settled (existing t) hoisted e)
    (h' : Settled (existing t') hoisted' (e.later hoisted.size)) (hnd : (e.candidates.map (·.slot)).Nodup)
    (hinit : ∀ x, x ∈ t'.initializers ↔ x ∈ t.initializers ∨ x ∈ heads e hoisted) :
    Settled (existing t) (hoisted.union hoisted') e := by
  have htake : (e.later hoisted.size).candidates.take hoisted'.size =
      ((e.candidates.drop hoisted.size).take hoisted'.size).map (Candidate.moved hoisted.size) := List.map_take.symm
  have hperm : (hoisted.union hoisted').toList.Perm (hoisted.toList ++ hoisted'.toList) := by
    refine PosSet.toList_union_perm fun slot hslot hslot' => ?_
    obtain ⟨c, hc, rfl⟩ := List.mem_map.mp (h'.slots.mem_iff.mpr hslot')
    exact h.not_mem_of_later hnd (List.mem_of_mem_take hc) hslot
  have hsplit : e.candidates.take (hoisted.union hoisted').size =
      e.candidates.take hoisted.size ++ (e.candidates.drop hoisted.size).take hoisted'.size := by
    have hsize : (hoisted.union hoisted').size = hoisted.size + hoisted'.size :=
      hperm.length_eq.trans List.length_append
    rw [hsize, List.take_add]
  constructor
  case slots =>
    rw [hsplit, List.map_append]
    refine (h.slots.append ?_).trans hperm.symm
    have hslots := h'.slots
    rw [htake, List.map_map] at hslots
    exact hslots
  case clean =>
    intro before c after hc
    rw [hsplit] at hc
    have hwhere : (∃ between, before = e.candidates.take hoisted.size ++ between ∧
          (e.candidates.drop hoisted.size).take hoisted'.size = between ++ c :: after) ∨
        ∃ between, e.candidates.take hoisted.size = before ++ c :: between := by
      rcases List.append_eq_append_iff.mp hc with ⟨between, hbefore, hrest⟩ | ⟨between, hfirst, hrest⟩
      · exact Or.inl ⟨between, hbefore, hrest⟩
      · cases between with
        | nil => exact Or.inl ⟨[], by simpa using hfirst.symm, hrest.symm⟩
        | cons d between =>
          obtain ⟨rfl, -⟩ := List.cons.inj hrest
          exact Or.inr ⟨between, hfirst⟩
    rcases hwhere with ⟨between, rfl, hrest⟩ | ⟨between, hfirst⟩
    · -- A candidate of the second set: what runs before it in the second type does so in the first one.
      have hclean := isClean_iff.mp (h'.clean (between.map (Candidate.moved _)) (c.moved _) (after.map (Candidate.moved _))
        (by rw [htake, hrest, List.map_append, List.map_cons]))
      refine isClean_iff.mpr (hclean.congr fun y => ?_)
      rw [List.mem_append, List.mem_append, hinit, List.map_append, List.mem_append, or_assoc, List.map_map]
      rfl
    · exact h.clean before c between hfirst

end Hoist

/-! ### The second search -/

theorem Plan.Yields.mem_initializers {p : Plan} {t t' : TypeDecl} {id : CtorId} {c : Constructor}
    {heads : List (SlotId × Expr)} (h : p.Yields t t') (hat : p.HoistsAt t id c heads) (x : SlotId × Expr) :
    x ∈ t'.initializers ↔ x ∈ t.initializers ∨ x ∈ heads := by
  have hinit : ∀ t : TypeDecl, x ∈ t.initializers ↔ t.slots[x.1]?.map (·.initializer) = some (some x.2) := by
    intro t
    rw [TypeDecl.mem_initializers, Option.map_eq_some_iff]
  have hsame : t'.slots[x.1]?.map (·.initializer) = (p.hoist t).slots[x.1]?.map (·.initializer) := by
    rw [h.slots, getElem?_hoist_slots, Option.map_map]
    congr 1
    funext s
    cases p.hoisted.find? x.1 <;> rfl
  rw [hinit, hsame, ← hinit, (initializers_hoist_perm hat.nodup hat.hoisted hat.fresh).mem_iff, List.mem_append]

namespace Hoist

section Later

variable {t t' : TypeDecl} {roots : List CtorId} {es : List EntryPoint} {hoisted : PosSet}
  (hes : List.Forall₂ (fun id e => EntryPoint.of t id = .ok e) roots es)
  (hset : ∀ e ∈ es, Settled (existing t) hoisted e)

include hes hset

theorem not_mem_of_later {e : EntryPoint} (he : e ∈ es) {c : Candidate} (hc : c ∈ (e.later hoisted.size).candidates) :
    c.slot ∉ hoisted :=
  (hset e he).not_mem_of_later (Plan.nodup_slots_of_mem hes e he) hc

theorem agreed_later_subset {maxDepth : Option Nat} {blocked blocked' : SlotId → Option CtorId}
    (hblocked : ∀ slot, blocked' slot = none → blocked slot = none) :
    (Agreement.of maxDepth blocked' (es.map (·.later hoisted.size))).agreed ⊆ (Agreement.of maxDepth blocked es).agreed := by
  intro slot hslot
  obtain ⟨hslot, hnone, hagree⟩ := Agreement.mem_agreed.mp hslot
  obtain ⟨_, he', c, hc, rfl⟩ := EntryPoint.mem_candidateSlots.mp hslot
  obtain ⟨e, he, rfl⟩ := List.mem_map.mp he'
  have hfirst : ∀ e ∈ es, c.slot ∉ (e.candidates.take hoisted.size).map (·.slot) := fun e' he' hmem =>
    not_mem_of_later hes hset he hc ((hset e' he').slots.mem_iff.mp hmem)
  obtain ⟨d, hd, hdc⟩ := EntryPoint.mem_candidates_later.mp hc
  rw [EntryPoint.disagreement?_later hfirst] at hagree
  refine Agreement.mem_agreed.mpr ⟨EntryPoint.mem_candidateSlots.mpr ⟨e, he, d, List.mem_of_mem_drop hd, ?_⟩,
    hblocked _ hnone, hagree⟩
  subst hdc
  rfl

omit hes in
theorem withoutParams_later_subset {slots slots' : PosSet} (hsub : slots' ⊆ slots)
    (hnot : ∀ slot ∈ slots', slot ∉ hoisted) :
    withoutParams (es.map (·.later hoisted.size)) slots' ⊆ withoutParams es slots := by
  intro slot hslot
  obtain ⟨hslot, hreads⟩ := mem_withoutParams.mp hslot
  refine mem_withoutParams.mpr ⟨hsub slot hslot, fun e he c hc heq => ?_⟩
  rw [← List.take_append_drop hoisted.size e.candidates, List.mem_append] at hc
  rcases hc with hc | hc
  · have hmem : c.slot ∈ hoisted := (hset e he).slots.mem_iff.mp (List.mem_map_of_mem hc)
    exact absurd (heq ▸ hmem) (hnot slot hslot)
  · exact hreads _ (List.mem_map_of_mem he) (c.moved _) (EntryPoint.mem_candidates_later.mpr ⟨c, hc, rfl⟩) heq

variable (hroots : roots.Nodup) (hagreed : Agreed es hoisted) (hyields : (Plan.of es hoisted).Yields t t')

include hroots hagreed hyields

theorem forall₂_of_later :
    List.Forall₂ (fun id e => EntryPoint.of t' id = .ok e) roots (es.map (·.later hoisted.size)) := by
  obtain ⟨hctor, hof⟩ := Plan.forall₂_of_iff.mp hes
  refine Plan.forall₂_of_iff.mpr ⟨by rw [List.map_map]; exact hctor, List.forall_mem_map.mpr fun e he => ?_⟩
  obtain ⟨c, hc, hat⟩ := Plan.hoistsAt_of_mem hes hroots hset hagreed he
  have hlength := (hset e he).length_heads
  rw [← hlength]
  refine EntryPoint.of_later hyields hat hc (hof e he) ?_
  rw [heads, List.length_map, List.length_take]
  exact Nat.min_le_right _ _

/-- A set that settles in the second search could have been hoisted in the first one. -/
theorem settle_later_subset {slots slots' : PosSet} (hhoisted : hoisted ⊆ slots) (hsub : slots' ⊆ slots) :
    settle (existing t') (es.map (·.later hoisted.size)) slots' ⊆ settle (existing t) es slots := by
  have hes' := forall₂_of_later hes hset hroots hagreed hyields
  have hunion : hoisted.union (settle (existing t') (es.map (·.later hoisted.size)) slots') ⊆
      settle (existing t) es slots := by
    refine subset_settle (refine_eq_iff.mpr fun e he => ?_) fun slot hslot => ?_
    · have hnd := Plan.nodup_slots_of_mem hes e he
      obtain ⟨c, -, hat⟩ := Plan.hoistsAt_of_mem hes hroots hset hagreed he
      exact (settled_iff hnd).mpr ((hset e he).union (Plan.settled_of_mem hes' _ (List.mem_map_of_mem he)) hnd
        (hyields.mem_initializers hat))
    · exact (PosSet.mem_union.mp hslot).elim (hhoisted slot) fun h => hsub slot (settle_subset slot h)
  exact fun slot hslot => hunion slot (PosSet.mem_union.mpr (Or.inr hslot))

end Later

end Hoist

/-- A plan that hoists nothing. -/
def Plan.Idle (p : Plan) : Prop := ∀ slot, p.hoisted.find? slot = none

namespace Extraction

variable {t t' : TypeDecl} {order : List CtorId} {ordered : List (CtorId × Constructor)}

theorem ordered_eq_ok_iff : order.mapM (fun id => do return (id, ← t.constructor id)) = .ok ordered ↔
    ordered.map Prod.fst = order ∧ ∀ x ∈ ordered, t.constructors[x.1]? = some x.2 := by
  have hid : ∀ id x, (do return (id, ← t.constructor id)) = Except.ok x ↔
      x.1 = id ∧ t.constructors[x.1]? = some x.2 := by
    intro id x
    simp only [bind_eq_ok_iff, pure_eq_ok_iff, constructor_eq_ok]
    constructor
    · rintro ⟨c, hc, rfl⟩
      exact ⟨rfl, hc⟩
    · rintro ⟨rfl, hc⟩
      exact ⟨x.2, hc, rfl⟩
  rw [mapM_eq_ok_iff]
  simp only [hid]
  constructor
  · intro h
    induction h with
    | nil => simp
    | cons hx _ ih => exact ⟨by rw [List.map_cons, hx.1, ih.1], List.forall_mem_cons.mpr ⟨hx.2, ih.2⟩⟩
  · rintro ⟨rfl, h⟩
    rw [List.forall₂_map_left_iff, List.forall₂_same]
    exact fun x hx => ⟨rfl, h x hx⟩

theorem conditionalWriter?_eq_none_iff {slot : SlotId} : conditionalWriter? ordered slot = none ↔
    ∀ x ∈ ordered, x.2.body.any (Stmt.assignsConditionally slot) = false := by
  simp only [conditionalWriter?, Option.map_eq_none_iff, List.find?_eq_none, Bool.not_eq_true]

/-- The constructors can be listed after a plan, and those that store a slot inside a branch still do. -/
theorem exists_ordered {p : Plan} {roots : List CtorId} (hyields : p.Yields t t') (hp : p.Hoists t roots)
    (h : order.mapM (fun id => do return (id, ← t.constructor id)) = .ok ordered) :
    ∃ ordered', order.mapM (fun id => do return (id, ← t'.constructor id)) = .ok ordered' ∧
      ∀ slot, conditionalWriter? ordered' slot = none → conditionalWriter? ordered slot = none := by
  obtain ⟨rfl, hctor⟩ := ordered_eq_ok_iff.mp h
  have hctor' : ∀ x ∈ ordered, ∃ c', t'.constructors[x.1]? = some c' ∧ c'.body = p.remaining x.1 x.2.body := by
    intro x hx
    have hsame := hyields.constructors x.1
    rw [hctor x hx, Option.map_some] at hsame
    obtain ⟨c', hc', hbody⟩ := Option.map_eq_some_iff.mp hsame
    exact ⟨c', hc', (Prod.mk.inj hbody).2⟩
  obtain ⟨ordered', hordered'⟩ :
      ∃ ordered', (ordered.map Prod.fst).mapM (fun id => do return (id, ← t'.constructor id)) = .ok ordered' := by
    refine exists_mapM_eq_ok (List.forall_mem_map.mpr fun x hx => ?_)
    obtain ⟨c', hc', -⟩ := hctor' x hx
    exact ⟨_, bind_eq_ok_iff.mpr ⟨c', constructor_eq_ok.mpr hc', rfl⟩⟩
  refine ⟨ordered', hordered', fun slot hslot => conditionalWriter?_eq_none_iff.mpr fun x hx => ?_⟩
  obtain ⟨hkeys, hlisted⟩ := ordered_eq_ok_iff.mp hordered'
  obtain ⟨x', hx', hid⟩ := List.mem_map.mp (hkeys ▸ List.mem_map_of_mem hx : x.1 ∈ ordered'.map Prod.fst)
  obtain ⟨c', hc', hbody⟩ := hctor' x hx
  cases (hid ▸ hlisted x' hx' : t'.constructors[x.1]? = some x'.2).symm.trans hc'
  rw [← hp.any_assignsConditionally (hctor x hx), ← hbody]
  exact conditionalWriter?_eq_none_iff.mp hslot x' hx'

/-- Where nothing stands before the delegations of the roots, there is nothing to hoist. -/
theorem exists_idle {chain : Chain} (maxDepth : Option Nat) (hchain : Chain.build t = .ok chain)
    (hregion : ∀ id ∈ chain.roots, ∀ c, t.constructors[id]? = some c → Candidate.region c = []) :
    ∃ found, Extraction.of maxDepth t chain = .ok found ∧ found.withPrimary.Idle ∧ found.withoutPrimary.Idle := by
  obtain ⟨es, hes⟩ : ∃ es, chain.roots.mapM (EntryPoint.of t) = .ok es := by
    refine exists_mapM_eq_ok fun id hid => ?_
    obtain ⟨c, hc, -⟩ := (Chain.mem_roots_iff hchain).mp hid
    exact exists_bind_eq_ok (constructor_eq_ok.mpr hc) (by rw [hregion id hid c hc]; exact ⟨_, rfl⟩)
  obtain ⟨ordered, hordered⟩ : ∃ ordered, chain.order.mapM (fun id => do return (id, ← t.constructor id)) = .ok ordered := by
    refine exists_mapM_eq_ok fun id hid => ?_
    obtain ⟨c, hc, -⟩ := (Chain.mem_order_iff hchain).mp hid
    exact exists_bind_eq_ok (constructor_eq_ok.mpr hc) ⟨_, rfl⟩
  have hall := mapM_eq_ok_iff.mp hes
  have hidle : ∀ slots, (Plan.of es slots).Idle := by
    intro slots slot
    rw [Option.eq_none_iff_forall_ne_some]
    intro value hvalue
    obtain ⟨-, e, he, c, hc, -⟩ := Plan.exists_candidate_of_hoisted hvalue
    obtain ⟨ctor, hctor, hl⟩ := Plan.leads_of_mem hall he
    have hlength := hl.length
    rw [hregion e.ctor ((Plan.forall₂_of_iff.mp hall).1 ▸ List.mem_map_of_mem he) ctor hctor] at hlength
    rw [List.length_eq_zero_iff.mp (Nat.le_zero.mp hlength)] at hc
    cases hc
  exact ⟨_, bind_eq_ok_iff.mpr ⟨es, hes, bind_eq_ok_iff.mpr ⟨ordered, hordered, rfl⟩⟩, hidle _, hidle _⟩

end Extraction

open Hoist in
/-- After the plan without a primary constructor nothing is left to hoist without one, and with one nothing that the
first search did not find. -/
theorem Extraction.exists_again {maxDepth : Option Nat} {t t' : TypeDecl} {chain : Chain} {found : Extraction}
    (hchain : Chain.build t = .ok chain) (h : Extraction.of maxDepth t chain = .ok found)
    (hyields : found.withoutPrimary.Yields t t') : ∃ again, Extraction.of maxDepth t' chain = .ok again ∧
      again.withoutPrimary.Idle ∧
      ∀ slot value, again.withPrimary.hoisted.find? slot = some value → found.withPrimary.hoisted.find? slot = some value := by
  have hroots := Chain.roots_nodup hchain
  have hhoists := (Extraction.hoists hchain h).2
  obtain ⟨es, ordered, hes, hordered, rfl⟩ := of_eq_ok h
  obtain ⟨ordered', hordered', hblocked⟩ := exists_ordered hyields hhoists hordered
  have hagreed : Agreed es (Agreement.of maxDepth (conditionalWriter? ordered) es).agreed := agreed_of
  generalize hslots : (Agreement.of maxDepth (conditionalWriter? ordered) es).agreed = slots at hagreed hyields ⊢
  replace hyields : (Plan.of es (settle (existing t) es (withoutParams es slots))).Yields t t' := hyields
  have hset : ∀ slots, ∀ e ∈ es, Settled (existing t) (settle (existing t) es slots) e := fun _ => Plan.settled_of_mem hes
  generalize hhoisted : settle (existing t) es (withoutParams es slots) = hoisted at hyields
  have hset₀ : ∀ e ∈ es, Settled (existing t) hoisted e := hhoisted ▸ hset _
  have hwithin : hoisted ⊆ withoutParams es slots := hhoisted ▸ settle_subset
  have hagreed₀ := hagreed.mono (PosSet.subset_trans hwithin withoutParams_subset)
  have hes' := forall₂_of_later hes hset₀ hroots hagreed₀ hyields
  have hsub : (Agreement.of maxDepth (conditionalWriter? ordered') (es.map (·.later hoisted.size))).agreed ⊆ slots :=
    hslots ▸ agreed_later_subset hes hset₀ hblocked
  have hnot : ∀ slot ∈ (Agreement.of maxDepth (conditionalWriter? ordered') (es.map (·.later hoisted.size))).agreed,
      slot ∉ hoisted := by
    intro slot hslot
    obtain ⟨_, he', c, hc, rfl⟩ := EntryPoint.mem_candidateSlots.mp (PosSet.mem_filter.mp hslot).1
    obtain ⟨e, he, rfl⟩ := List.mem_map.mp he'
    exact not_mem_of_later hes hset₀ he hc
  refine ⟨_, bind_eq_ok_iff.mpr ⟨_, mapM_eq_ok_iff.mpr hes', bind_eq_ok_iff.mpr ⟨ordered', hordered', rfl⟩⟩, ?_, ?_⟩
  · intro slot
    rw [Option.eq_none_iff_forall_ne_some]
    intro value hvalue
    obtain ⟨hslot, _, he', c, hc, rfl, -⟩ := Plan.exists_candidate_of_hoisted hvalue
    obtain ⟨e, he, rfl⟩ := List.mem_map.mp he'
    -- The first plan took the largest set, so it has the slot; but then no candidate for it is left.
    refine not_mem_of_later hes hset₀ he hc ?_
    have hsettle := settle_later_subset hes hset₀ hroots hagreed₀ hyields hwithin
      (withoutParams_later_subset hset₀ hsub hnot) _ hslot
    rwa [hhoisted] at hsettle
  · intro slot value hvalue
    obtain ⟨hslot, _, he', c, hc, rfl, rfl⟩ := Plan.exists_candidate_of_hoisted hvalue
    obtain ⟨e, he, rfl⟩ := List.mem_map.mp he'
    obtain ⟨d, hd, rfl⟩ := EntryPoint.mem_candidates_later.mp hc
    refine Plan.find?_hoisted_of_mem (c := d) (Plan.nodup_slots_of_mem hes) (hagreed.mono settle_subset) he
      (List.mem_of_mem_drop hd) ?_
    exact settle_later_subset hes hset₀ hroots hagreed₀ hyields (PosSet.subset_trans hwithin withoutParams_subset) hsub _ hslot

end DeclRecovery
