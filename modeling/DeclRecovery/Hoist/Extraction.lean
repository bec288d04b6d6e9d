import DeclRecovery.Delegation.Chain
import DeclRecovery.Hoist.Settle

/-!
Finding the initializers of a type. A store that reads a parameter can only become an initializer of a type
with a primary constructor, so there are two plans: one that hoists such stores and one that does not.
-/

namespace DeclRecovery

structure Extraction where
  entryPoints : List EntryPoint
  withPrimary : Plan
  withoutPrimary : Plan
  ambiguities : List (SlotId × Ambiguity)
  deriving DecidableEq

namespace Extraction

/-- The first of the constructors that stores a slot inside a branch. -/
def conditionalWriter? (constructors : List (CtorId × Constructor)) (slot : SlotId) : Option CtorId :=
  (constructors.find? fun (_, c) => c.body.any (Stmt.assignsConditionally slot)).map Prod.fst

/-- The plan for the agreed slots, with or without those that need parameters. -/
def plan (initialized : List (SlotId × Footprint)) (es : List EntryPoint) (agreed : PosSet)
    (allowParams : Bool) : Plan :=
  let slots := if allowParams then agreed else Hoist.withoutParams es agreed
  .of es (Hoist.settle initialized es slots)

def of (maxDepth : Option Nat) (t : TypeDecl) (chain : Chain) : Except OutOfRange Extraction := do
  let es ← chain.roots.mapM (EntryPoint.of t)
  let ordered ← chain.order.mapM fun id => do return (id, ← t.constructor id)
  let agreement := Agreement.of maxDepth (conditionalWriter? ordered) es
  let initialized := Hoist.existing t
  return {
    entryPoints := es
    withPrimary := plan initialized es agreement.agreed true
    withoutPrimary := plan initialized es agreement.agreed false
    ambiguities := agreement.ambiguities }

end Extraction

end DeclRecovery
