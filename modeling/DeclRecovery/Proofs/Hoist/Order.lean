import DeclRecovery.Proofs.Lowering

/-!
Hoisting keeps the order that can be noticed and the flow of data. Before and after a plan is carried out, every
constructor runs the same statements in the same order, stores of values that are not observable apart. Every slot
receives the same values in the same order, on the same side of the delegation. And what an initializer reads was
last stored by the same store.
-/

namespace DeclRecovery

namespace Stmt

/-- A statement that is one store and nothing else, written as that store. -/
def asStore (s : Stmt) : Stmt := (s.singleStore?.map ofStore).getD s

theorem asStore_of_singleStore? {s : Stmt} {x : SlotId × Expr} (h : s.singleStore? = some x) : s.asStore = ofStore x := by
  rw [asStore, h]
  rfl

theorem map_asStore {first : List Stmt} {heads : List (SlotId × Expr)}
    (h : first.map singleStore? = heads.map some) : first.map asStore = heads.map ofStore := by
  induction first generalizing heads with
  | nil =>
    cases heads with
    | nil => rfl
    | cons => cases h
  | cons s first ih =>
    cases heads with
    | nil => cases h
    | cons x heads =>
      rw [List.map_cons, List.map_cons, List.cons.injEq] at h
      rw [List.map_cons, List.map_cons, asStore_of_singleStore? h.1, ih h.2]

/-- Whether it can be noticed when a statement runs: always, unless it stores a value that is not observable. -/
def isObservable : Stmt → Bool
  | assign _ value => value.footprint.observable
  | _ => true

/-- The values stored to a slot in the order of the stores, each with whether the delegation has run before. -/
def valuesStored (slot : SlotId) : (delegated : Bool) → List Stmt → List (Expr × Bool)
  | _, [] => []
  | delegated, assign target value :: rest =>
    if target = slot then (value, delegated) :: valuesStored slot delegated rest
    else valuesStored slot delegated rest
  | _, delegate _ :: rest => valuesStored slot true rest
  | delegated, _ :: rest => valuesStored slot delegated rest

/-- The last store to a slot. -/
def lastStore? (slot : SlotId) (run : List Stmt) : Option Stmt :=
  (run.filter fun s => s.assignedSlot? = some slot).getLast?

theorem filter_isObservable_map (l : List (SlotId × Expr)) :
    (l.map ofStore).filter isObservable = (l.filter fun x => x.2.footprint.observable).map ofStore := by
  rw [List.filter_map]
  rfl

theorem filter_assignedSlot?_map (slot : SlotId) (l : List (SlotId × Expr)) :
    (l.map ofStore).filter (fun s => s.assignedSlot? = some slot) = (l.filter (·.1 = slot)).map ofStore := by
  rw [List.filter_map]
  congr 2
  funext x
  simp [ofStore, assignedSlot?]

theorem valuesStored_map_append (slot : SlotId) (delegated : Bool) (l : List (SlotId × Expr)) (rest : List Stmt) :
    valuesStored slot delegated (l.map ofStore ++ rest) =
      (l.filter (·.1 = slot)).map (fun x => (x.2, delegated)) ++ valuesStored slot delegated rest := by
  induction l with
  | nil => rfl
  | cons x l ih =>
    rw [List.map_cons, List.cons_append, ofStore, valuesStored, ih]
    by_cases hx : x.1 = slot <;> simp [hx]

/-- Two runs that differ in the place of stores that cannot be noticed, and in which `moved` see the same: each is
the first store to its slot, and what it reads was last stored by the same store. -/
structure SameOrder (moved : List (SlotId × Expr)) (run run' : List Stmt) : Prop where
  observable : run.filter isObservable = run'.filter isObservable
  stored : ∀ slot, valuesStored slot false run = valuesStored slot false run'
  sources : ∀ x ∈ moved, ∃ before after before' after',
    run = before ++ .assign x.1 x.2 :: after ∧ run' = before' ++ .assign x.1 x.2 :: after' ∧
      lastStore? x.1 before = none ∧ lastStore? x.1 before' = none ∧
      ∀ m ∈ x.2.footprint.members, lastStore? m before = lastStore? m before'

theorem SameOrder.refl (run : List Stmt) : SameOrder [] run run :=
  ⟨rfl, fun _ => rfl, fun _ hx => absurd hx List.not_mem_nil⟩

end Stmt

namespace Plan
open Hoist Stmt

variable {p : Plan} {t : TypeDecl} {id : CtorId} {c : Constructor} {heads : List (SlotId × Expr)}

theorem HoistsAt.filter_observable (h : p.HoistsAt t id c heads) :
    (t.initializers ++ heads).filter (fun x => x.2.footprint.observable) =
      (p.hoist t).initializers.filter fun x => x.2.footprint.observable := by
  refine h.induction (motive := fun l l' => l.filter _ = l'.filter _) rfl fun before x after rest _ hcomm ih => ?_
  rw [List.filter_append, List.filter_cons, List.filter_cons, ← ih, List.filter_append]
  by_cases hx : x.2.footprint.observable = true
  · have hnone : before.filter (fun y => y.2.footprint.observable) = [] := by
      rw [List.filter_eq_nil_iff]
      intro y hy
      rw [(hcomm y hy).observable hx]
      exact Bool.false_ne_true
    rw [if_pos hx, if_pos hx, hnone]
    rfl
  · rw [if_neg hx, if_neg hx]

theorem HoistsAt.filter_slot (h : p.HoistsAt t id c heads) (slot : SlotId) :
    (t.initializers ++ heads).filter (·.1 = slot) = (p.hoist t).initializers.filter (·.1 = slot) := by
  refine h.induction (motive := fun l l' => l.filter _ = l'.filter _) rfl fun before x after rest hlt _ ih => ?_
  rw [List.filter_append, List.filter_cons, List.filter_cons, ← ih, List.filter_append]
  by_cases hx : x.1 = slot
  · have hnone : before.filter (·.1 = slot) = [] := by
      rw [List.filter_eq_nil_iff]
      intro y hy hslot
      have := hlt y (List.mem_append_left _ hy)
      rw [of_decide_eq_true hslot, hx] at this
      exact Nat.lt_irrefl _ this
    rw [if_pos (by simpa using hx), if_pos (by simpa using hx), hnone]
    rfl
  · rw [if_neg (by simpa using hx), if_neg (by simpa using hx)]

/-- The store `x` stands in both lists, as the first to its slot and after the same stores to what it reads. -/
def SameSources (x : SlotId × Expr) (l l' : List (SlotId × Expr)) : Prop :=
  ∃ before after before' after', l = before ++ x :: after ∧ l' = before' ++ x :: after' ∧
    before.filter (·.1 = x.1) = [] ∧ before'.filter (·.1 = x.1) = [] ∧
    ∀ m ∈ x.2.footprint.members, before.filter (·.1 = m) = before'.filter (·.1 = m)

variable {before after rest : List (SlotId × Expr)} {x z : SlotId × Expr}

/-- None of the stores that are declared later stores the slot itself. -/
theorem filter_slot_eq_nil {l : List (SlotId × Expr)} (h : ∀ y ∈ l, x.1 < y.1) : l.filter (·.1 = x.1) = [] := by
  rw [List.filter_eq_nil_iff]
  intro y hy hslot
  exact Nat.ne_of_gt (h y hy) (of_decide_eq_true hslot)

theorem sameSources_moved (hlt : ∀ y ∈ before ++ after, x.1 < y.1) (hcomm : ∀ y ∈ before, Swappable y x) :
    SameSources x (before ++ x :: after) (x :: rest) := by
  refine ⟨before, after, [], rest, rfl, rfl, ?_, rfl, fun m hm => ?_⟩
  · exact filter_slot_eq_nil fun y hy => hlt y (List.mem_append_left _ hy)
  · rw [List.filter_nil, List.filter_eq_nil_iff]
    intro y hy hslot
    exact (hcomm y hy).members.2 (of_decide_eq_true hslot ▸ hm)

theorem SameSources.passed (hlt : ∀ y ∈ before ++ after, x.1 < y.1) (hcomm : ∀ y ∈ before, Swappable y x)
    (h : SameSources z (before ++ after) rest) : SameSources z (before ++ x :: after) (x :: rest) := by
  obtain ⟨b, a, b', a', hl, rfl, hz, hz', hreads⟩ := h
  have hxz : x.1 ≠ z.1 := Nat.ne_of_lt (hlt z (hl ▸ List.mem_append_right _ List.mem_cons_self))
  have hsides : (∃ d, b = before ++ d ∧ after = d ++ z :: a) ∨ ∃ d, before = b ++ z :: d := by
    rcases List.append_eq_append_iff.mp hl with h | ⟨d, rfl, hd⟩
    · exact Or.inl h
    · cases d with
      | nil => exact Or.inl ⟨[], by simp, by simpa using hd.symm⟩
      | cons y d =>
        cases hd
        exact Or.inr ⟨d, rfl⟩
  rcases hsides with ⟨d, rfl, rfl⟩ | ⟨d, rfl⟩
  · refine ⟨before ++ x :: d, a, x :: b', a', by simp, rfl, ?_, ?_, fun m hm => ?_⟩
    · rwa [List.filter_append, List.filter_cons_of_neg (by simpa using hxz), ← List.filter_append]
    · rwa [List.filter_cons_of_neg (by simpa using hxz)]
    · by_cases hxm : x.1 = m
      · subst hxm
        have hb : (before ++ d).filter (·.1 = x.1) = [] := filter_slot_eq_nil fun y hy => hlt y (by
          rw [hl]
          exact List.mem_append_left _ hy)
        have hb' := hreads x.1 hm ▸ hb
        rw [List.filter_append, List.append_eq_nil_iff] at hb
        rw [List.filter_append, List.filter_cons, List.filter_cons, hb.1, hb.2, hb']
        rfl
      · rw [List.filter_append, List.filter_cons_of_neg (by simpa using hxm), ← List.filter_append,
          List.filter_cons_of_neg (by simpa using hxm)]
        exact hreads m hm
  · -- `x` passes `z`, which therefore does not read the slot of `x`.
    have hmem : z ∈ b ++ z :: d := List.mem_append_right _ List.mem_cons_self
    refine ⟨b, d ++ x :: after, x :: b', a', by simp, rfl, hz, ?_, fun m hm => ?_⟩
    · rwa [List.filter_cons_of_neg (by simpa using hxz)]
    · have hxm : x.1 ≠ m := fun h => (hcomm z hmem).members.1 (h ▸ hm)
      rw [List.filter_cons_of_neg (by simpa using hxm)]
      exact hreads m hm

theorem HoistsAt.sameSources (h : p.HoistsAt t id c heads) :
    ∀ x ∈ (p.hoist t).initializers, SameSources x (t.initializers ++ heads) (p.hoist t).initializers := by
  refine h.induction (motive := fun l l' => ∀ x ∈ l', SameSources x l l') ?_ fun before x after rest hlt hcomm ih z hz => ?_
  · exact fun x hx => absurd hx List.not_mem_nil
  · rcases List.mem_cons.mp hz with rfl | hz
    · exact sameSources_moved hlt hcomm
    · exact (ih z hz).passed hlt hcomm

end Plan

/-- What a constructor runs, with every two-way branch written as the store that it is. -/
def TypeDecl.steps (t : TypeDecl) (c : Constructor) : List Stmt := (t.lowered c).map Stmt.asStore

namespace Plan
open Stmt

variable {p : Plan} {t : TypeDecl} {id : CtorId} {c : Constructor}

theorem HoistsAt.sameOrder {heads : List (SlotId × Expr)} (h : p.HoistsAt t id c heads) {before after rest : List Stmt}
    (hbefore : before = (t.initializers ++ heads).map ofStore ++ rest)
    (hafter : after = (p.hoist t).initializers.map ofStore ++ rest) :
    SameOrder (p.hoist t).initializers before after := by
  subst hbefore hafter
  constructor
  case observable =>
    rw [List.filter_append, List.filter_append, filter_isObservable_map, filter_isObservable_map, h.filter_observable]
  case stored =>
    intro slot
    rw [valuesStored_map_append, valuesStored_map_append, h.filter_slot]
  case sources =>
    intro x hx
    obtain ⟨b, a, b', a', hl, hl', hx, hx', hreads⟩ := h.sameSources x hx
    refine ⟨b.map ofStore, a.map ofStore ++ rest, b'.map ofStore, a'.map ofStore ++ rest, ?_, ?_, ?_, ?_, fun m hm => ?_⟩
    · rw [hl, List.map_append, List.append_assoc]
      rfl
    · rw [hl', List.map_append, List.append_assoc]
      rfl
    · rw [lastStore?, filter_assignedSlot?_map, hx]
      rfl
    · rw [lastStore?, filter_assignedSlot?_map, hx']
      rfl
    · rw [lastStore?, lastStore?, filter_assignedSlot?_map, filter_assignedSlot?_map, hreads m hm]

/-- At every constructor, whether it is a root or not. -/
theorem Hoists.sameOrder {chain : Chain} (hchain : Chain.build t = .ok chain) (h : p.Hoists t chain.roots)
    (hc : t.constructors[id]? = some c) :
    SameOrder (if c.runsInitializers then (p.hoist t).initializers else []) (t.steps c)
      ((p.hoist t).steps { c with body := p.remaining id c.body }) := by
  have hroot := Chain.mem_roots_iff_runs hchain hc
  have hruns' := h.runsInitializers hc
  cases hruns : c.runsInitializers with
  | false =>
    have hid : id ∉ chain.roots := fun hid => by simp [hroot.mp hid] at hruns
    rw [hruns] at hruns'
    rw [TypeDecl.steps, TypeDecl.steps, TypeDecl.lowered_of_not_runs hruns, TypeDecl.lowered_of_not_runs hruns',
      h.other id hid]
    exact .refl _
  | true =>
    obtain ⟨heads, hat⟩ := h.hoistsAt (hroot.mpr hruns) hc
    obtain ⟨first, hbody, hfirst⟩ := hat.split
    rw [hruns] at hruns'
    rw [TypeDecl.steps, TypeDecl.steps, TypeDecl.lowered_of_runs hruns, TypeDecl.lowered_of_runs hruns']
    have hstores : ∀ l : List (SlotId × Expr), (l.map ofStore).map asStore = l.map ofStore := fun l => by
      rw [List.map_map]
      rfl
    refine @HoistsAt.sameOrder _ _ _ _ _ hat _ _ ((p.remaining id c.body).map asStore) ?_ ?_
    · rw [List.map_append, List.map_append, hstores, List.append_assoc, ← map_asStore hfirst, ← List.map_append,
        ← hbody]
    · rw [List.map_append, hstores]

end Plan

/-- Either plan that an extraction finds can be carried out, and all constructors of the type run in the same order
afterwards: what can be noticed stays in place, every slot gets the same values before and after the delegation, and
each initializer, old or hoisted, reads what it read before. -/
theorem Extraction.apply_keeps_order {t : TypeDecl} {chain : Chain} {maxDepth : Option Nat} {extraction : Extraction}
    (hchain : Chain.build t = .ok chain) (hextraction : Extraction.of maxDepth t chain = .ok extraction) (p : Plan)
    (hp : p = extraction.withPrimary ∨ p = extraction.withoutPrimary) :
    ∃ t', p.apply t = .ok t' ∧ t'.constructors.length = t.constructors.length ∧
      ∀ (id : CtorId) c c', t.constructors[id]? = some c → t'.constructors[id]? = some c' →
        Stmt.SameOrder (if c.runsInitializers then t'.initializers else []) (t.steps c) (t'.steps c') := by
  have hhoists : p.Hoists t chain.roots := by
    obtain ⟨hwith, hwithout⟩ := Extraction.hoists hchain hextraction
    rcases hp with rfl | rfl
    · exact hwith
    · exact hwithout
  refine ⟨p.hoist t, hhoists.apply_eq, List.length_mapIdx, fun id c c' hc hc' => ?_⟩
  rw [Plan.getElem?_hoist_constructors, hc] at hc'
  cases hc'
  exact hhoists.sameOrder hchain hc

/-- At the first root the stores of `b` and `a` change places, and both overtake the initializer of `c`. -/
theorem Extraction.apply_keeps_order_twoRoots : ∃ chain extraction,
    Chain.build .twoRoots = .ok chain ∧ Extraction.of none .twoRoots chain = .ok extraction ∧
      extraction.withPrimary.hoisted.keys.toList = [0, 1] ∧
      ∃ t', extraction.withPrimary.apply .twoRoots = .ok t' ∧
        t'.constructors.length = TypeDecl.twoRoots.constructors.length ∧
        ∀ (id : CtorId) c c', TypeDecl.twoRoots.constructors[id]? = some c → t'.constructors[id]? = some c' →
          Stmt.SameOrder (if c.runsInitializers then t'.initializers else []) (TypeDecl.twoRoots.steps c) (t'.steps c') :=
  ⟨_, _, rfl, rfl, rfl, Extraction.apply_keeps_order rfl rfl _ (.inl rfl)⟩

end DeclRecovery
