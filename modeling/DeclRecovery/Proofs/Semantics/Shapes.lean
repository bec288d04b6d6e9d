import DeclRecovery.Proofs.Semantics.Courses
import DeclRecovery.Proofs.Shapes

/-!
Shapes keep the meaning: an expression, a statement or a constructor in its shape does the same as before, in every
environment and world, and leaves the same in the slots when it throws. A choice by a null test evaluates its subject
twice when the subject is not null, and a shape evaluates it once; that makes no difference, since the subject has no side
effects.
-/

namespace DeclRecovery

namespace Expr
open Effect

variable {I : Interp} {env : Env I} {options : Options}

theorem eval_binary {op : BinaryOp} (hlazy : (Head.binary op).isLazy = false) (hthrow : op.mayThrow = false) (a b : Expr) :
    (binary op a b).eval env = a.eval env >>= fun v => b.eval env >>= fun w => pure (I.binary op v w) := by
  rw [eval_strict env (e := binary op a b) hlazy]
  simp [children, head, inOrder, Head.operate, hthrow]

theorem eval_binary_eq (a b : Expr) : (binary .eq a b).eval env =
    a.eval env >>= fun v => b.eval env >>= fun w => pure (I.binary .eq v w) := eval_binary rfl rfl a b

theorem eval_binary_ne (a b : Expr) : (binary .ne a b).eval env =
    a.eval env >>= fun v => b.eval env >>= fun w => pure (I.binary .ne v w) := eval_binary rfl rfl a b

theorem eval_literal (l : Literal) : (literal l).eval env = pure (I.literal l) := eval_eq env _

theorem eval_field (target : Expr) (name : String) (nonNull : Bool) : (field target name nonNull).eval env =
    target.eval env >>= fun v => (Head.field name nonNull).operate env [v] := by
  rw [eval_strict env rfl]
  simp [children, head, inOrder]

theorem eval_access (target : Expr) (name : String) : (access target name).eval env =
    target.eval env >>= fun v =>
      if I.isNull v then pure (I.literal .null) else observe fun w => I.read w v name := by
  rw [eval_strict env rfl]
  simp [children, head, inOrder, Head.operate]

/-- A choice by a null test goes by whether its subject is null. -/
theorem eval_select_of_nullChoice {c t f : Expr} {n : BranchShape.NullChoice}
    (h : BranchShape.NullChoice.of? c t f = some n) : (select c t f).eval env =
      n.subject.eval env >>= fun v => if I.isNull v then n.whenNull.eval env else n.whenPresent.eval env := by
  rw [eval_select]
  obtain ⟨⟨subject, holds⟩, htest, rfl⟩ := Option.map_eq_some_iff.mp h
  unfold BranchShape.nullTest? at htest
  split at htest
  case h_1 | h_3 =>
    cases htest
    simp only [eval_binary_ne, eval_literal, bind_assoc, pure_bind, I.isTrue_ne_null, I.isTrue_null_ne]
    refine bind_congr fun v => ?_
    cases I.isNull v <;> rfl
  case h_2 | h_4 =>
    cases htest
    simp only [eval_binary_eq, eval_literal, bind_assoc, pure_bind, I.isTrue_eq_null, I.isTrue_null_eq]
  case h_5 => cases htest

theorem operate_field {v : I.Value} (hv : I.isNull v = false) (name : String) (nonNull : Bool) (τ : I.Trace) :
    (Head.field name nonNull).operate env [v] τ =
      if nonNull && I.isNull (I.read τ.world v name) then (.error .undefined, τ)
      else (.ok (I.read τ.world v name), τ) := by
  rw [Head.operate, hv, if_neg Bool.false_ne_true, observe_bind]
  split
  · rfl
  · rfl

theorem still_of_isDuplicable {e : Expr} (h : e.isDuplicable = true) : Still (e.eval env) := by
  rw [isDuplicable, Bool.and_eq_true, Bool.not_eq_true'] at h
  exact still_eval (asks_of_sideEffects h.1)

/-- One choice in its shape does what it did. -/
theorem eval_refines_classify (c t f : Expr) :
    Refines ((select c t f).eval env) ((BranchShape.classify options c t f).toExpr.eval env) := by
  have h : BranchShape.Classified c t f (BranchShape.classify options c t f) := BranchShape.classified
  generalize BranchShape.classify options c t f = shape at h
  cases h with
  | conditional => exact .of_eq ((eval_select env c t f).trans (eval_conditional env c t f).symm)
  | @coalesce n choice present duplicable =>
    rw [eval_select_of_nullChoice choice, present, BranchShape.toExpr, eval_coalesce]
    refine .bind_still (still_of_isDuplicable duplicable) fun v τ hv => ?_
    split
    · exact Or.inr rfl
    · exact Or.inr hv.symm
  | @access n name nonNull choice present duplicable null =>
    rw [eval_select_of_nullChoice choice, present, null, BranchShape.toExpr, eval_access]
    refine .bind_still (still_of_isDuplicable duplicable) fun v τ hv => ?_
    cases hnull : I.isNull v with
    | true => exact Or.inr (congrFun (eval_literal .null) τ).symm
    | false =>
      rw [if_neg Bool.false_ne_true, if_neg Bool.false_ne_true, eval_field, bind_of_ok hv, operate_field hnull]
      split
      · exact Or.inl rfl
      · exact Or.inr rfl
  | @accessOr n name choice present duplicable =>
    rw [eval_select_of_nullChoice choice, present, BranchShape.toExpr, eval_coalesce, eval_access, bind_assoc]
    refine .bind_still (still_of_isDuplicable duplicable) fun v τ hv => ?_
    cases hnull : I.isNull v with
    | true =>
      rw [if_pos rfl, if_pos rfl, pure_bind, I.isNull_null, if_pos rfl]
      exact Or.inr rfl
    | false =>
      rw [if_neg Bool.false_ne_true, if_neg Bool.false_ne_true, eval_field, bind_of_ok hv, operate_field hnull,
        observe_bind, Bool.true_and]
      split
      · exact Or.inl rfl
      · exact Or.inr rfl

theorem inOrder_refines_map {f : Expr → Expr} {l : List Expr}
    (h : ∀ e ∈ l, Refines (e.eval env) ((f e).eval env)) :
    Refines (inOrder (l.map (eval env))) (inOrder ((l.map f).map (eval env))) := by
  refine .inOrder ?_
  rw [List.forall₂_map_left_iff, List.map_map, List.forall₂_map_right_iff]
  exact List.forall₂_same.mpr h

/-- An expression in its shape does what it did. -/
theorem eval_refines_shape (e : Expr) : Refines (e.eval env) ((e.shape options).eval env) := by
  induction e using evalInduct with
  | strict e hlazy ih =>
    have hne : e.head ≠ .select := fun h => by rw [h] at hlazy; cases hlazy
    obtain ⟨hhead, hchildren⟩ := shape_of_ne_select options hne
    rw [eval_strict env hlazy, eval_strict env (e := e.shape options) (by rw [hhead]; exact hlazy), hhead, hchildren]
    exact (inOrder_refines_map ih).bind fun vs => .refl _
  | select c t f ihc iht ihf =>
    rw [shape_select]
    refine .trans ?_ (eval_refines_classify _ _ _)
    rw [eval_select, eval_select]
    exact ihc.bind fun v => .ite iht ihf
  | conditional c t f ihc iht ihf =>
    rw [shape_conditional, eval_conditional, eval_conditional]
    exact ihc.bind fun v => .ite iht ihf
  | coalesce a b iha ihb =>
    rw [shape_coalesce, eval_coalesce, eval_coalesce]
    exact iha.bind fun v => .ite ihb (.refl _)
  | and a b iha ihb =>
    rw [shape_binary, eval_and, eval_and]
    exact iha.bind fun v => .ite ihb (.refl _)
  | or a b iha ihb =>
    rw [shape_binary, eval_or, eval_or]
    exact iha.bind fun v => .ite (.refl _) ihb

end Expr

namespace Stmt
open Course

variable {I : Interp} {host host' : Host I} {args : List I.Value} {options : Options}

/-- A branch that comes down to one store does what the branch did. -/
theorem perform_refines_shapedBranch (c : Expr) (t e : List Stmt) :
    Refines (perform host args (branch c t e)) (perform host args (shapedBranch options c t e)) := by
  rcases shapedBranch_cases options c t e with h | ⟨slot, a, b, rfl, rfl, h⟩
  · rw [h]
    exact .refl _
  · rw [h, perform_branch_assign, perform, perform]
    exact .evaluate (fun σ => Expr.eval_refines_classify c a b) fun v => .refl _

theorem performAll_refines_shapeBlock_of {block : List Stmt}
    (h : ∀ s ∈ block, Refines (perform host args s) (perform host' args (s.shape options))) :
    Refines (performAll host args block) (performAll host' args (shapeBlock options block)) := by
  rw [shapeBlock_eq]
  induction block with
  | nil => exact .refl _
  | cons s block ih =>
    rw [List.map_cons, performAll, performAll]
    exact .andThen (h s List.mem_cons_self) (ih fun s' hs' => h s' (List.mem_cons_of_mem s hs'))

variable (hstored : host.stored = host'.stored)
  (hhost : ∀ target vs, Refines (host.handOver target vs) (host'.handOver target vs))
include hstored hhost

/-- A statement in its shape does what it did, and so it does if shapes are handed over to. -/
theorem perform_refines_shape (s : Stmt) : Refines (perform host args s) (perform host' args (s.shape options)) := by
  induction s using induct with
  | assign slot value =>
    rw [shape, perform, perform, hstored]
    exact .evaluate (fun σ => Expr.eval_refines_shape value) fun v => .refl _
  | delegate call =>
    rw [shape, perform, perform]
    exact .evaluate (fun σ => Expr.inOrder_refines_map fun e _ => Expr.eval_refines_shape e) (hhost call.target)
  | eval value =>
    rw [shape, perform, perform]
    exact .evaluate (fun σ => Expr.eval_refines_shape value) fun v => .refl _
  | branch c t e iht ihe =>
    rw [shape]
    refine .trans ?_ (perform_refines_shapedBranch _ _ _)
    rw [perform, perform]
    exact .evaluate (fun σ => Expr.eval_refines_shape c) fun v =>
      .ite (performAll_refines_shapeBlock_of iht) (performAll_refines_shapeBlock_of ihe)
  | raise value =>
    rw [shape, perform, perform]
    exact .evaluate (fun σ => Expr.eval_refines_shape value) fun v => .refl _

theorem performAll_refines_shapeBlock (block : List Stmt) :
    Refines (performAll host args block) (performAll host' args (shapeBlock options block)) :=
  performAll_refines_shapeBlock_of fun s _ => perform_refines_shape hstored hhost s

end Stmt

namespace TypeDecl
open Course

variable {I : Interp} {host : Host I} {t : TypeDecl} {options : Options}

/-- Constructors in their shapes do what they did. -/
theorem enact_refines_shape (fuel : Nat) (target : DelegationTarget) (args : List I.Value) :
    Refines (t.enact host fuel target args) ((t.shape options).enact host fuel target args) := by
  induction fuel generalizing target args with
  | zero => cases target <;> exact .refl _
  | succ fuel ih =>
    cases target with
    | base => exact .refl _
    | ctor id =>
      have hid := getElem?_shape_constructors options t id
      cases hc : t.constructors[id]? with
      | none =>
        rw [hc] at hid
        rw [enact_of_none hc, enact_of_none hid]
        exact .refl _
      | some c =>
        rw [hc] at hid
        rw [enact_of_some hc, enact_of_some hid, lowered_shape]
        refine Stmt.performAll_refines_shapeBlock ?_ ?_ (t.lowered c)
        · rfl
        · exact ih

theorem run_refines_shape (fuel : Nat) (id : CtorId) (args : List I.Value) (σ : I.Store) :
    Effect.Refines (t.run I fuel id args σ) ((t.shape options).run I fuel id args σ) := by
  rw [← forget_enact, ← forget_enact]
  exact (enact_refines_shape fuel (.ctor id) args).forget σ

end TypeDecl

end DeclRecovery
