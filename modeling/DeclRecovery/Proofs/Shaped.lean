import DeclRecovery.Proofs.Shapes

/-!
Shapes, once more: which nodes stay what they are, and that a shape reads the same parameters and slots as what it is
the shape of (`footprint_shape_eq`). It may only throw less, since `?.` does not throw where the choice that it stands for
was said to.
-/

namespace DeclRecovery

namespace BranchShape

/-- A null test has two children, what is tested and null, and does no more than compare them. -/
structure NullChoice.Tests (cond thenValue elseValue : Expr) (n : NullChoice) : Prop where
  head : cond.head = .binary .eq ∨ cond.head = .binary .ne
  children : ∀ e, e ∈ cond.children ↔ e = n.subject ∨ e = .literal .null
  values : ∀ e, e = thenValue ∨ e = elseValue ↔ e = n.whenPresent ∨ e = n.whenNull

theorem NullChoice.tests {cond thenValue elseValue : Expr} {n : NullChoice}
    (h : NullChoice.of? cond thenValue elseValue = some n) : n.Tests cond thenValue elseValue := by
  obtain ⟨⟨subject, present⟩, htest, hn⟩ := Option.map_eq_some_iff.mp h
  unfold nullTest? at htest
  split at htest
  case h_5 => cases htest
  all_goals
    cases htest
    cases hn
    exact ⟨by simp [Expr.head], by simp [Expr.children, or_comm], by simp [or_comm]⟩

end BranchShape

namespace Expr

variable {options : Options}

theorem withChildren_children (e : Expr) : e.withChildren e.children = e := by
  cases e <;> rfl

/-- Apart from choices, an expression is in shape when its children are. -/
theorem shape_eq_self_iff {e : Expr} (h : e.head ≠ .select) :
    e.shape options = e ↔ ∀ c ∈ e.children, c.shape options = c := by
  constructor
  · intro heq c hc
    have hchildren := (shape_of_ne_select options h).2
    rw [heq] at hchildren
    exact List.map_inj_left.mp (hchildren.symm.trans (List.map_id _).symm) c hc
  · intro hc
    have hchildren : e.children.map (shape options) = e.children :=
      (List.map_congr_left hc).trans (List.map_id _)
    rw [shape_eq, hchildren, withChildren_children]
    cases e with
    | select => exact absurd rfl h
    | _ => rfl

end Expr

/-- Whether the node is a choice, or one in shape. -/
def Head.isChoice : Head → Bool
  | .select | .conditional | .coalesce | .access _ => true
  | _ => false

namespace Expr

variable {options : Options}

theorem isChoice_toExpr (shape : BranchShape) : shape.toExpr.head.isChoice = true := by
  rcases shape with _ | ⟨_, _, _ | _⟩ | _ <;> rfl

/-- A node that is no choice is the shape of one of its kind only. -/
theorem head_shape_eq_iff {e : Expr} {node : Head} (h : node.isChoice = false) :
    (e.shape options).head = node ↔ e.head = node := by
  by_cases hselect : e.head = .select
  · cases e with
    | select c t f =>
      rw [shape_select]
      constructor
      · rintro rfl
        rw [isChoice_toExpr] at h
        cases h
      · rintro rfl
        cases h
    | _ => cases hselect
  · rw [(shape_of_ne_select options hselect).1]

theorem shape_eq_literal_iff {e : Expr} {l : Literal} : e.shape options = .literal l ↔ e = .literal l := by
  have hleaf : ∀ e : Expr, e = .literal l ↔ e.head = .literal l := fun e => by cases e <;> simp [head]
  rw [hleaf, hleaf, head_shape_eq_iff rfl]

theorem shape_eq_param_iff {e : Expr} {i : Nat} : e.shape options = .param i ↔ e = .param i := by
  have hleaf : ∀ e : Expr, e = .param i ↔ e.head = .param i := fun e => by cases e <;> simp [head]
  rw [hleaf, hleaf, head_shape_eq_iff rfl]

theorem isZero_iff {e : Expr} : e.isZero = true ↔ ∃ l : Literal, e = .literal l ∧ l.isZero = true := by
  cases e <;> simp [isZero, asLiteral?]

theorem isZero_shape (e : Expr) : (e.shape options).isZero = e.isZero := by
  rw [Bool.eq_iff_iff, isZero_iff, isZero_iff]
  simp only [shape_eq_literal_iff]

section Footprint
open Footprint BranchShape

-- Choices, fields and comparisons with null have nothing of the aspect themselves.
variable {P : Footprint → Prop} (hP : IsAspect P) (hnone : ¬P {}) (hthrow : ¬P { mayThrow := true })
include hP hnone

theorem footprint_of_tests {c t f : Expr} {n : NullChoice} (h : n.Tests c t f) :
    P c.footprint ∨ P t.footprint ∨ P f.footprint ↔
      P n.subject.footprint ∨ P n.whenPresent.footprint ∨ P n.whenNull.footprint := by
  have hnull : ¬P (literal .null).footprint := by
    simpa [hP.footprint_iff (literal .null), ofHead, head, children] using hnone
  have hcond : P c.footprint ↔ P n.subject.footprint := by
    have hhead : ¬P (ofHead c.head) := by rcases h.head with h | h <;> rw [h] <;> exact hnone
    simp [hP.footprint_iff c, hhead, h.children, hnull]
  have hvalues : P t.footprint ∨ P f.footprint ↔ P n.whenPresent.footprint ∨ P n.whenNull.footprint := by
    simpa [or_and_right, exists_or] using exists_congr fun e => and_congr_left' (h.values e) (c := P e.footprint)
  rw [hcond, hvalues]

include hthrow

theorem footprint_classify (c t f : Expr) : P (classify options c t f).toExpr.footprint ↔
    P c.footprint ∨ P t.footprint ∨ P f.footprint := by
  have h : Classified c t f (classify options c t f) := classified
  generalize classify options c t f = shape at h
  have access : ∀ (e : Expr) name, P (access e name).footprint ↔ P e.footprint := fun e name => by
    simp [hP.footprint_iff (access e name), head, children, ofHead, hnone]
  have coalesce : ∀ a b : Expr, P (coalesce a b).footprint ↔ P a.footprint ∨ P b.footprint := fun a b => by
    simp [hP.footprint_iff (coalesce a b), head, children, ofHead, hnone]
  have field : ∀ (e : Expr) name nonNull, P (field e name nonNull).footprint ↔ P e.footprint := fun e name nonNull => by
    simp [hP.footprint_iff (field e name nonNull), head, children, ofHead, hthrow]
  cases h with
  | conditional => simp [toExpr, hP.footprint_iff (conditional c t f), head, children, ofHead, hnone]
  | coalesce choice present =>
    rw [footprint_of_tests hP hnone (NullChoice.tests choice), present, toExpr, coalesce, ← or_assoc, or_self]
  | access choice present _ null =>
    rw [footprint_of_tests hP hnone (NullChoice.tests choice), present, null, toExpr, access, field]
    simpa [hP.footprint_iff (literal .null), head, children, ofHead] using fun h => absurd h hnone
  | accessOr choice present =>
    rw [footprint_of_tests hP hnone (NullChoice.tests choice), present, toExpr, coalesce, access, field, ← or_assoc, or_self]

/-- A shape reads what the expression reads. -/
theorem footprint_shape (e : Expr) : P (e.shape options).footprint ↔ P e.footprint := by
  induction e using inductSelect with
  | select c t f hc ht hf =>
    have hselect : P (select c t f).footprint ↔ P c.footprint ∨ P t.footprint ∨ P f.footprint := by
      simp [hP.footprint_iff (select c t f), head, children, ofHead, hnone]
    rw [shape_select, footprint_classify hP hnone hthrow, hselect, hc, ht, hf]
  | other e h ih =>
    obtain ⟨hhead, hchildren⟩ := shape_of_ne_select options h
    rw [hP.footprint_iff e, hP.footprint_iff (e.shape options), hhead, hchildren]
    simp only [List.mem_map, exists_exists_and_eq_and]
    exact or_congr Iff.rfl (exists_congr fun c => and_congr_right fun hc => ih c hc)

end Footprint

theorem footprint_shape_eq (options : Options) (e : Expr) :
    (e.shape options).footprint = { e.footprint with mayThrow := (e.shape options).footprint.mayThrow } := by
  have hparams : (e.shape options).footprint.params = e.footprint.params :=
    PosSet.ext_mem fun k => footprint_shape (Footprint.isAspect_params k) (by simp) (by simp) e
  have hmembers : (e.shape options).footprint.members = e.footprint.members :=
    PosSet.ext_mem fun k => footprint_shape (Footprint.isAspect_members k) (by simp) (by simp) e
  have hself : (e.shape options).footprint.readsSelf = e.footprint.readsSelf :=
    Bool.eq_iff_iff.mpr (footprint_shape Footprint.isAspect_readsSelf (by simp) (by simp) e)
  have heffects : (e.shape options).footprint.sideEffects = e.footprint.sideEffects :=
    Bool.eq_iff_iff.mpr (footprint_shape Footprint.isAspect_sideEffects (by simp) (by simp) e)
  simp only [← hparams, ← hmembers, ← hself, ← heffects]

theorem readsParams_shape (e : Expr) : (e.shape options).readsParams = e.readsParams := by
  rw [readsParams, footprint_shape_eq]
  rfl

theorem readsInstance_shape (e : Expr) : (e.shape options).footprint.readsInstance = e.footprint.readsInstance := by
  rw [footprint_shape_eq]
  rfl

end Expr

end DeclRecovery
