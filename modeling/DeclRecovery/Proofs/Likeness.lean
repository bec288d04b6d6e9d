import DeclRecovery.Expr.Likeness
import Mathlib.Data.List.Forall2

/-!
Values that count as the same are the same expression (`eq_of_alike`); the bound on the depth and the roles of
parameters only make fewer of them count so.
-/

namespace DeclRecovery

theorem forall₂_iff_zipWith_all {α β : Type} {r : α → β → Bool} {l : List α} {m : List β} :
    List.Forall₂ (fun a b => r a b = true) l m ↔ l.length = m.length ∧ (l.zipWith r m).all id = true := by
  induction l generalizing m with
  | nil => cases m <;> simp
  | cons a l ih =>
    cases m with
    | nil => simp
    | cons b m =>
      rw [List.forall₂_cons, ih]
      simp only [List.length_cons, Nat.add_right_cancel_iff, List.zipWith_cons_cons, List.all_cons, id,
        Bool.and_eq_true]
      exact ⟨fun ⟨h, hl, ha⟩ => ⟨hl, h, ha⟩, fun ⟨hl, h, ha⟩ => ⟨h, hl, ha⟩⟩

namespace Expr

/-- Two trees are alike when their heads are, under both parameter lists, and so are their children, one level
further down. -/
theorem alikeAt_iff {maxDepth : Option Nat} {ps qs : List Parameter} {a b : Expr} {depth : Nat} :
    alikeAt maxDepth ps qs a depth b = true ↔
      maxDepth.all (depth ≤ ·) = true ∧ a.head = b.head ∧ a.head.sameRole ps qs = true ∧
        List.Forall₂ (fun x y => alikeAt maxDepth ps qs x (depth + 1) y = true) a.children b.children := by
  rw [forall₂_iff_zipWith_all (r := fun x y => alikeAt maxDepth ps qs x (depth + 1) y)]
  conv_lhs => rw [alikeAt, para_eq]
  simp only [Bool.and_eq_true, beq_iff_eq, List.length_map, List.zipWith_map_left, and_assoc]
  rfl

theorem eq_of_alikeAt {maxDepth : Option Nat} {ps qs : List Parameter} {a b : Expr} {depth : Nat}
    (h : alikeAt maxDepth ps qs a depth b = true) : a = b := by
  induction a using induct generalizing b depth with
  | step a ih =>
    obtain ⟨-, hhead, -, hchildren⟩ := alikeAt_iff.mp h
    refine Expr.ext hhead ?_
    rw [← List.forall₂_eq_eq_eq]
    have hmem := List.forall₂_and_left (p := (· ∈ a.children)) _ _ |>.mpr ⟨fun _ hx => hx, hchildren⟩
    exact hmem.imp fun x y ⟨hx, hxy⟩ => ih x hx hxy

end Expr

theorem Site.eq_of_alike {maxDepth : Option Nat} {a b : Site} (h : a.alike maxDepth b = true) : a.expr = b.expr :=
  Expr.eq_of_alikeAt h

end DeclRecovery
