import DeclRecovery.Expr.Shape
import DeclRecovery.Proofs.Positions

/-!
The footprint of an expression, aspect by aspect: what its head contributes, and what its children do.
-/

namespace DeclRecovery

namespace Footprint

/-- An aspect of a footprint, one that a union has when one of its parts has it. -/
def IsAspect (P : Footprint → Prop) : Prop := ∀ a b, P (a.union b) ↔ P a ∨ P b

theorem isAspect_readsSelf : IsAspect (·.readsSelf = true) := fun _ _ => Bool.or_eq_true_iff

theorem isAspect_sideEffects : IsAspect (·.sideEffects = true) := fun _ _ => Bool.or_eq_true_iff

theorem isAspect_mayThrow : IsAspect (·.mayThrow = true) := fun _ _ => Bool.or_eq_true_iff

theorem isAspect_observable : IsAspect (·.observable = true) := by
  intro a b
  simp only [observable, union, Bool.or_eq_true]
  exact or_or_or_comm

theorem isAspect_members (k : Nat) : IsAspect (k ∈ ·.members) := fun _ _ => PosSet.mem_union

theorem isAspect_params (k : Nat) : IsAspect (k ∈ ·.params) := fun _ _ => PosSet.mem_union

namespace IsAspect

variable {P : Footprint → Prop} (hP : IsAspect P)
include hP

theorem foldl (a : Footprint) (l : List Footprint) : P (l.foldl union a) ↔ P a ∨ ∃ b ∈ l, P b := by
  induction l generalizing a with
  | nil => simp
  | cons b l ih => simp [ih, hP a b, or_assoc]

theorem footprint_iff (e : Expr) : P e.footprint ↔ P (ofHead e.head) ∨ ∃ c ∈ e.children, P c.footprint := by
  rw [Expr.footprint, of_eq, hP.foldl]
  simp [Expr.footprint]

end IsAspect

section Flag

variable {g : Footprint → Bool} (hg : IsAspect (g · = true)) {e : Expr} (h : g e.footprint = false)
include hg h

theorem IsAspect.flag_head : g (ofHead e.head) = false :=
  Bool.eq_false_iff.mpr fun hhead => Bool.eq_false_iff.mp h ((hg.footprint_iff e).mpr (Or.inl hhead))

theorem IsAspect.flag_child {c : Expr} (hc : c ∈ e.children) : g c.footprint = false :=
  Bool.eq_false_iff.mpr fun hchild => Bool.eq_false_iff.mp h ((hg.footprint_iff e).mpr (Or.inr ⟨c, hc, hchild⟩))

end Flag

end Footprint

end DeclRecovery
