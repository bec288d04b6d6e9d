import DeclRecovery.Expr.Basic
import DeclRecovery.Position.Set

/-!
What evaluating an expression reads and what it may do besides giving a value.

The footprint of an expression is that of its head joined with those of its children (`Footprint.of_eq`).
Evaluations are observable when they have side effects or may throw: two of them must keep their order.
-/

namespace DeclRecovery

structure Footprint where
  /-- The parameters read. -/
  params : PosSet := .empty
  /-- The slots of the instance read. -/
  members : PosSet := .empty
  /-- Whether the instance itself is used as a value. -/
  readsSelf : Bool := false
  sideEffects : Bool := false
  mayThrow : Bool := false
  deriving DecidableEq

namespace Footprint

def union (a b : Footprint) : Footprint where
  params := a.params.union b.params
  members := a.members.union b.members
  readsSelf := a.readsSelf || b.readsSelf
  sideEffects := a.sideEffects || b.sideEffects
  mayThrow := a.mayThrow || b.mayThrow

/-- What a node contributes by itself. -/
def ofHead : Head → Footprint
  | .param i => { params := .singleton i }
  | .self => { readsSelf := true }
  | .member s => { members := .singleton s }
  | .field .. | .convert _ => { mayThrow := true }
  | .call callee => { sideEffects := !callee.pure, mayThrow := !callee.pure }
  | .invoke callee => { sideEffects := !callee.pure, mayThrow := true }
  | .new _ | .raise => { sideEffects := true, mayThrow := true }
  | .binary op => { mayThrow := op.mayThrow }
  | .literal _ | .unary _ | .select | .conditional | .coalesce | .access _ => {}

def of : Expr → Footprint :=
  Expr.para fun e subs => subs.foldl union (ofHead e.head)

theorem of_eq (e : Expr) : of e = (e.children.map of).foldl union (ofHead e.head) := by
  rw [of, Expr.para_eq]

def observable (f : Footprint) : Bool := f.sideEffects || f.mayThrow

def readsParams (f : Footprint) : Bool := !f.params.isEmpty

/-- Whether the instance is read, as a whole or through a slot. -/
def readsInstance (f : Footprint) : Bool := f.readsSelf || !f.members.isEmpty

end Footprint

namespace Expr

def footprint (e : Expr) : Footprint := Footprint.of e

def readsParams (e : Expr) : Bool := e.footprint.readsParams

/-- Whether evaluating the expression a second time is as good as keeping its value. -/
def isDuplicable (e : Expr) : Bool := !e.footprint.sideEffects && !e.footprint.readsSelf

end Expr

end DeclRecovery
