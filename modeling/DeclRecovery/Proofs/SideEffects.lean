import DeclRecovery.Proofs.Mentions

/-!
What shapes leave in its place. The side effects of an expression stand in the order in which its children are evaluated
(`Expr.effects`), each on a certain side of the choices around it (`Expr.placedEffects`). A shape leaves out what a null
test computes a second time and may exchange the sides of a test for `==`, but what it leaves out has no side effects,
and the sides of a null test are told by its outcome; so every side effect stays where it is. Statements in shape store
the same slots, and none conditionally that was not stored so before.
-/

namespace DeclRecovery

/-! ### Side effects in order -/

/-- What a node does besides giving a value: it calls what is not pure, makes an object, or throws. -/
inductive SideEffect where
  | call (name : String)
  | new (type : String)
  | raise
  deriving DecidableEq, Repr

def Head.sideEffect? : Head → Option SideEffect
  | .call callee | .invoke callee => if callee.pure then none else some (.call callee.name)
  | .new type => some (.new type)
  | .raise => some .raise
  | _ => none

theorem Footprint.sideEffects_ofHead (h : Head) : (ofHead h).sideEffects = h.sideEffect?.isSome := by
  cases h with
  | call callee | invoke callee => cases hpure : callee.pure <;> simp [ofHead, Head.sideEffect?, hpure]
  | _ => rfl

/-- The side of a choice on which a subexpression stands. Those of a null test are told by what is tested. -/
inductive Side where
  | whenTrue | whenFalse | whenPresent | whenNull
  deriving DecidableEq, Repr

/-- A side effect with the sides of the choices that lead to it, outermost first. -/
structure PlacedEffect where
  sides : List Side
  effect : SideEffect
  deriving DecidableEq, Repr

/-- The side effect, on a side of one more choice. -/
def PlacedEffect.on (side : Option Side) (x : PlacedEffect) : PlacedEffect := { x with sides := side.toList ++ x.sides }

namespace Expr

/-- The side that a condition leads to when it holds, or when it does not. -/
def sideWhen (cond : Expr) (holds : Bool) : Side :=
  match BranchShape.nullTest? cond with
  | some (_, present) => if holds = present then .whenPresent else .whenNull
  | none => if holds then .whenTrue else .whenFalse

/-- The side on which the child at a position stands, if it is one of those that the node chooses from. -/
def side? : Expr → Nat → Option Side
  | select cond _ _, 1 | conditional cond _ _, 1 => some (cond.sideWhen true)
  | select cond _ _, 2 | conditional cond _ _, 2 => some (cond.sideWhen false)
  | coalesce _ _, 1 => some .whenNull
  | _, _ => none

/-- The side effects, those of children before those of the node. -/
def effects : Expr → List SideEffect := para fun e subs => subs.flatten ++ e.head.sideEffect?.toList

/-- The side effects in the same order, each with the sides on which it stands. -/
def placedEffects : Expr → List PlacedEffect := para fun e subs =>
  (subs.zipIdx.flatMap fun x => x.1.map (.on (e.side? x.2))) ++ e.head.sideEffect?.toList.map (⟨[], ·⟩)

theorem effects_eq (e : Expr) : e.effects = e.children.flatMap effects ++ e.head.sideEffect?.toList := by
  rw [effects, para_eq, List.flatMap_def]

theorem placedEffects_eq (e : Expr) : e.placedEffects =
    (e.children.zipIdx.flatMap fun x => x.1.placedEffects.map (.on (e.side? x.2))) ++
      e.head.sideEffect?.toList.map (⟨[], ·⟩) := by
  rw [placedEffects, para_eq, List.zipIdx_map, List.flatMap_map]
  rfl

/-- Without the sides, these are the side effects. -/
theorem map_effect_placedEffects (e : Expr) : e.placedEffects.map (·.effect) = e.effects := by
  induction e using induct with
  | step e ih =>
    rw [placedEffects_eq, effects_eq, List.map_append, List.map_flatMap]
    congr 1
    · conv_rhs => rw [← List.zipIdx_map_fst 0 e.children, List.flatMap_map]
      refine List.flatMap_congr fun x hx => ?_
      rw [List.map_map, ← ih x.1 (List.fst_mem_of_mem_zipIdx hx)]
      rfl
    · rw [List.map_map]
      exact List.map_id _

theorem effects_eq_nil_iff (e : Expr) : e.effects = [] ↔ e.footprint.sideEffects = false := by
  induction e using induct with
  | step e ih =>
    have hhead : e.head.sideEffect?.toList = [] ↔ (Footprint.ofHead e.head).sideEffects = false := by
      rw [Footprint.sideEffects_ofHead]
      simp
    rw [← Bool.not_eq_true, Footprint.isAspect_sideEffects.footprint_iff, effects_eq, List.append_eq_nil_iff, hhead,
      List.flatMap_eq_nil_iff, not_or, Bool.not_eq_true, and_comm]
    refine and_congr_right fun _ => ?_
    simp only [not_exists, not_and, Bool.not_eq_true]
    exact forall₂_congr ih

theorem placedEffects_eq_nil {e : Expr} (h : e.footprint.sideEffects = false) : e.placedEffects = [] :=
  List.map_eq_nil_iff.mp ((map_effect_placedEffects e).trans ((effects_eq_nil_iff e).mpr h))

/-! ### Sides in shapes -/

variable {options : Options}

section NullTest
open BranchShape

theorem nullTest?_of_head {e : Expr} (h : ∀ op, e.head ≠ .binary op) : nullTest? e = none := by
  cases e with
  | binary op a b => exact absurd rfl (h op)
  | _ => rfl

theorem nullTest?_ne (a b : Expr) : nullTest? (.binary .ne a b) =
    if b = .literal .null then some (a, true) else if a = .literal .null then some (b, true) else none := by
  unfold nullTest?
  split <;> simp_all

theorem nullTest?_eq (a b : Expr) : nullTest? (.binary .eq a b) =
    if b = .literal .null then some (a, false) else if a = .literal .null then some (b, false) else none := by
  unfold nullTest?
  split <;> simp_all

/-- A null test in shape tests what it did, in its shape. -/
theorem nullTest?_shape (e : Expr) :
    nullTest? (e.shape options) = (nullTest? e).map fun x => (x.1.shape options, x.2) := by
  cases e with
  | binary op a b =>
    rw [shape_binary]
    cases op with
    | ne =>
      simp only [nullTest?_ne, shape_eq_literal_iff]
      split_ifs <;> rfl
    | eq =>
      simp only [nullTest?_eq, shape_eq_literal_iff]
      split_ifs <;> rfl
    | _ => rfl
  | _ =>
    rw [nullTest?_of_head, nullTest?_of_head, Option.map_none]
    · simp [head]
    · intro op hop
      cases (head_shape_eq_iff rfl).mp hop

end NullTest

theorem sideWhen_shape (cond : Expr) (holds : Bool) : (cond.shape options).sideWhen holds = cond.sideWhen holds := by
  rw [sideWhen, sideWhen, nullTest?_shape]
  cases BranchShape.nullTest? cond <;> rfl

theorem side?_withChildren_shape (e : Expr) (i : Nat) :
    (e.withChildren (e.children.map (shape options))).side? i = e.side? i := by
  cases e with
  | select | conditional | coalesce =>
    rcases i with _ | _ | _ | i <;> simp [withChildren, children, side?, sideWhen_shape]
  | invoke | field | unary | convert | access | raise | binary => rfl
  | literal | param | self | member | call | new => rfl

/-! ### Side effects in shapes -/

section Placed
open BranchShape

/-- Where neither what is tested nor what is taken for it has side effects, those of a null test are on the side of null. -/
theorem placedEffects_select_of_nullChoice {c t f : Expr} {n : NullChoice} (h : NullChoice.of? c t f = some n)
    (hsubject : n.subject.placedEffects = []) (hpresent : n.whenPresent.placedEffects = []) :
    (select c t f).placedEffects = n.whenNull.placedEffects.map (.on (some .whenNull)) := by
  have hcond : c.placedEffects = [] := by
    have tests := NullChoice.tests h
    have hhead : c.head.sideEffect? = none := by
      rcases tests.head with hhead | hhead <;> rw [hhead] <;> rfl
    rw [placedEffects_eq, hhead, Option.toList_none, List.map_nil, List.append_nil, List.flatMap_eq_nil_iff]
    intro x hx
    rcases (tests.children x.1).mp (List.fst_mem_of_mem_zipIdx hx) with hx | hx
    · rw [hx, hsubject, List.map_nil]
    · rw [hx]
      rfl
  obtain ⟨⟨subject, present⟩, htest, rfl⟩ := Option.map_eq_some_iff.mp h
  cases present with
  | true | false =>
    dsimp only at hpresent
    simp [placedEffects_eq (select c t f), children, head, Head.sideEffect?, side?, sideWhen, htest, hcond, hpresent]

theorem placedEffects_coalesce {a : Expr} (ha : a.placedEffects = []) (b : Expr) :
    (coalesce a b).placedEffects = b.placedEffects.map (.on (some .whenNull)) := by
  simp [placedEffects_eq (coalesce a b), children, head, Head.sideEffect?, side?, ha]

theorem placedEffects_classify (c t f : Expr) :
    (classify options c t f).toExpr.placedEffects = (select c t f).placedEffects := by
  have h : Classified c t f (classify options c t f) := classified
  generalize classify options c t f = shape at h
  have silent : ∀ {e : Expr}, e.isDuplicable = true → e.placedEffects = [] := fun he =>
    placedEffects_eq_nil (by simpa [isDuplicable] using (Bool.and_eq_true_iff.mp he).1)
  have field : ∀ {e : Expr} name nonNull, e.placedEffects = [] → (field e name nonNull).placedEffects = [] := by
    intro e name nonNull he
    simp [placedEffects_eq (field e name nonNull), children, head, Head.sideEffect?, he]
  have access : ∀ {e : Expr} name, e.placedEffects = [] → (access e name).placedEffects = [] := by
    intro e name he
    simp [placedEffects_eq (access e name), children, head, Head.sideEffect?, he]
  cases h with
  | conditional =>
    rw [toExpr, placedEffects_eq, placedEffects_eq (select c t f)]
    rfl
  | coalesce choice present duplicable =>
    have hsubject := silent duplicable
    rw [toExpr, placedEffects_coalesce hsubject, placedEffects_select_of_nullChoice choice hsubject (present ▸ hsubject)]
  | access choice present duplicable null =>
    have hsubject := silent duplicable
    rw [toExpr, access _ hsubject, placedEffects_select_of_nullChoice choice hsubject (present ▸ field _ _ hsubject), null]
    rfl
  | accessOr choice present duplicable =>
    have hsubject := silent duplicable
    rw [toExpr, placedEffects_coalesce (access _ hsubject),
      placedEffects_select_of_nullChoice choice hsubject (present ▸ field _ _ hsubject)]

/-- One node in its shape has the side effects that it had, where they were. -/
theorem placedEffects_shapeNode (e : Expr) : (shapeNode options e).placedEffects = e.placedEffects := by
  cases e with
  | select c t f => exact placedEffects_classify c t f
  | _ => rfl

end Placed

theorem placedEffects_shape (e : Expr) : (e.shape options).placedEffects = e.placedEffects := by
  induction e using induct with
  | step e ih =>
    rw [shape_eq, placedEffects_shapeNode, placedEffects_eq, placedEffects_eq e, head_withChildren,
      children_withChildren (List.length_map _), List.zipIdx_map, List.flatMap_map]
    congr 1
    refine List.flatMap_congr fun x hx => ?_
    rw [side?_withChildren_shape]
    exact congrArg _ (ih x.1 (List.fst_mem_of_mem_zipIdx hx))

theorem effects_shape (e : Expr) : (e.shape options).effects = e.effects := by
  rw [← map_effect_placedEffects, placedEffects_shape, map_effect_placedEffects]

example :
    let e : Expr := .select (.binary .eq (.param 0) (.literal .null)) (.call { name := "next" } []) (.param 0)
    e.shape {} = .coalesce (.param 0) (.call { name := "next" } []) ∧
      (e.shape {}).placedEffects = [⟨[.whenNull], .call "next"⟩] := by
  decide

end Expr

/-! ### Stores -/

namespace Stmt

variable {options : Options}

theorem stores_shapedBranch (c : Expr) (t e : List Stmt) (slot : SlotId) :
    (shapedBranch options c t e).stores slot = (anyStores slot t || anyStores slot e) := by
  rcases shapedBranch_cases options c t e with h | ⟨target, a, b, rfl, rfl, h⟩
  · rw [h, stores]
  · simp [h, stores, anyStores]

theorem stores_shape (s : Stmt) (slot : SlotId) : (s.shape options).stores slot = s.stores slot := by
  have block : ∀ {block : List Stmt}, (∀ s ∈ block, (s.shape options).stores slot = s.stores slot) →
      anyStores slot (shapeBlock options block) = anyStores slot block := by
    intro block ih
    rw [anyStores_eq, anyStores_eq, shapeBlock_eq, List.any_map, Bool.eq_iff_iff, List.any_eq_true, List.any_eq_true]
    refine exists_congr fun s => and_congr_right fun hs => ?_
    rw [Function.comp_apply, ih s hs]
  induction s using induct with
  | branch c t e iht ihe => rw [shape, stores_shapedBranch, block iht, block ihe, stores]
  | _ => rfl

theorem stores_of_assignsConditionally {s : Stmt} {slot : SlotId} (h : s.assignsConditionally slot = true) :
    s.stores slot = true := by
  cases s with
  | branch => exact (Bool.and_eq_true_iff.mp h).1
  | _ => cases h

theorem assignsConditionally_of_shape {s : Stmt} {slot : SlotId}
    (h : (s.shape options).assignsConditionally slot = true) : s.assignsConditionally slot = true := by
  cases hsingle : s.singleStore? with
  | some x =>
    rw [shape_of_singleStore? hsingle] at h
    cases h
  | none =>
    cases s with
    | branch c t e =>
      have hstores : (branch c t e).stores slot = true := stores_shape _ slot ▸ stores_of_assignsConditionally h
      have htwoWay : (branch c t e).twoWayStore? = none := hsingle
      simp [assignsConditionally, hstores, htwoWay]
    | _ => cases h

end Stmt

/-- An expression in shape reads the same parameters and slots and has the same side effects, in the same order and on
the same sides of its choices; it throws only where it could before. A statement in shape stores the same slots, and
conditionally only what it stored so before. -/
theorem shape_keeps_effects (options : Options) (e : Expr) (s : Stmt) (slot : SlotId) :
    ((e.shape options).footprint.params = e.footprint.params ∧
      (e.shape options).footprint.members = e.footprint.members ∧
      (e.shape options).footprint.readsSelf = e.footprint.readsSelf ∧
      (e.shape options).footprint.sideEffects = e.footprint.sideEffects ∧
      ((e.shape options).footprint.mayThrow = true → e.footprint.mayThrow = true)) ∧
    ((e.shape options).effects = e.effects ∧ (e.shape options).placedEffects = e.placedEffects) ∧
    (s.shape options).stores slot = s.stores slot ∧
    ((s.shape options).assignsConditionally slot = true → s.assignsConditionally slot = true) := by
  have hfootprint := Expr.footprint_shape_eq options e
  refine ⟨⟨?_, ?_, ?_, ?_, Expr.mayThrow_of_shape⟩, ⟨e.effects_shape, e.placedEffects_shape⟩, s.stores_shape slot,
    Stmt.assignsConditionally_of_shape⟩
  all_goals rw [hfootprint]

end DeclRecovery
