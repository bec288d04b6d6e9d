import DeclRecovery.Expr.Basic

/-!
Changing an expression from its leaves up, and counting a subexpression.
-/

namespace DeclRecovery.Expr

/-- Changes the children in order, then the node over the new children. -/
def bottomUpM {m : Type → Type} [Monad m] (f : Expr → m Expr) : Expr → m Expr :=
  para fun e subs => do f (e.withChildren (← subs.mapM id))

/-- Changes the children, then the node over the new children. -/
def bottomUp (f : Expr → Expr) : Expr → Expr :=
  para fun e subs => f (e.withChildren subs)

/-- How often `needle` occurs in an expression. An occurrence is not searched further: a tree does not occur
inside itself. -/
def occurrences (e needle : Expr) : Nat :=
  e.para fun n counts => if n = needle then 1 else counts.foldr (· + ·) 0

theorem bottomUpM_eq {m : Type → Type} [Monad m] (f : Expr → m Expr) (e : Expr) :
    bottomUpM f e = (e.children.map (bottomUpM f)).mapM id >>= fun cs => f (e.withChildren cs) := by
  rw [bottomUpM, para_eq]

theorem bottomUp_eq (f : Expr → Expr) (e : Expr) :
    bottomUp f e = f (e.withChildren (e.children.map (bottomUp f))) := by
  rw [bottomUp, para_eq]

theorem occurrences_eq (e needle : Expr) :
    e.occurrences needle = if e = needle then 1 else (e.children.map (occurrences · needle)).foldr (· + ·) 0 := by
  rw [occurrences, para_eq]
  rfl

end DeclRecovery.Expr
