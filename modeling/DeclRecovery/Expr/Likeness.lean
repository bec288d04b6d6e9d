import DeclRecovery.Parameter

/-!
When two constructors store the same value. Their expressions are compared node by node; a parameter counts
as the same when it has the same position and role in both parameter lists, whatever its name. A bound on the
depth makes larger trees count as different.
-/

namespace DeclRecovery

/-- An expression with the parameters its `param` nodes refer to. -/
structure Site where
  params : List Parameter
  expr : Expr

/-- Whether equal heads mean the same under two parameter lists: a parameter has to exist in both, in the
same role. -/
def Head.sameRole (ps qs : List Parameter) : Head → Bool
  | .param i =>
    match ps[i]?, qs[i]? with
    | some p, some q => p.sameRole q
    | _, _ => false
  | _ => true

namespace Expr

/-- Compares two trees that stand `depth` levels below the roots. -/
def alikeAt (maxDepth : Option Nat) (ps qs : List Parameter) : Expr → Nat → Expr → Bool :=
  para fun a subs depth b =>
    maxDepth.all (depth ≤ ·) && a.head == b.head && a.head.sameRole ps qs &&
      subs.length == b.children.length &&
      (subs.zipWith (fun s c => s (depth + 1) c) b.children).all id

end Expr

/-- Whether two stored values are the same, as far as `maxDepth` lets one see. -/
def Site.alike (maxDepth : Option Nat) (a b : Site) : Bool :=
  a.expr.alikeAt maxDepth a.params b.params 0 b.expr

end DeclRecovery
