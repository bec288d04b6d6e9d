import DeclRecovery.Expr.Shape
import DeclRecovery.Stmt.Basic

/-!
Shapes inside statements. Every expression is shaped, from the inside out, and a branch that has come down to
one store of the same slot on either side becomes that store.
-/

namespace DeclRecovery.Stmt

/-- A branch over shaped parts. -/
def shapedBranch (options : Options) (cond : Expr) (thenBranch elseBranch : List Stmt) : Stmt :=
  match thenBranch, elseBranch with
  | [assign slot thenValue], [assign other elseValue] =>
    if slot = other then assign slot (BranchShape.classify options cond thenValue elseValue).toExpr
    else branch cond thenBranch elseBranch
  | _, _ => branch cond thenBranch elseBranch

mutual

def shape (options : Options) : Stmt → Stmt
  | branch cond t e => shapedBranch options (cond.shape options) (shapeBlock options t) (shapeBlock options e)
  | assign slot value => assign slot (value.shape options)
  | delegate call => delegate { call with args := call.args.map (·.shape options) }
  | eval value => eval (value.shape options)
  | raise value => raise (value.shape options)

def shapeBlock (options : Options) : List Stmt → List Stmt
  | [] => []
  | s :: ss => shape options s :: shapeBlock options ss

end

theorem shapeBlock_eq (options : Options) (block : List Stmt) :
    shapeBlock options block = block.map (shape options) := by
  induction block with
  | nil => rfl
  | cons s ss ih => rw [shapeBlock, ih, List.map_cons]

end DeclRecovery.Stmt
