import DeclRecovery.Hoist.Candidate
import DeclRecovery.Position.Map

/-!
Which stores become initializers, and what that makes of a type.
-/

namespace DeclRecovery

structure Plan where
  /-- The slots that get an initializer, with its value. -/
  hoisted : PosMap Expr := .empty
  /-- The positions of the statements that go, by constructor. -/
  removals : PosMap PosSet := .empty
  deriving DecidableEq

namespace Plan

/-- The plan that hoists the given slots at every entry point. -/
def of (es : List EntryPoint) (slots : PosSet) : Plan :=
  let chosen := es.map fun e => (e.ctor, e.candidates.filter (·.slot ∈ slots))
  { hoisted := .ofList (chosen.flatMap fun (_, cs) => cs.map fun c => (c.slot, c.value))
    removals := .ofList ((chosen.filter fun (_, cs) => !cs.isEmpty).map fun (ctor, cs) =>
      (ctor, .ofList (cs.map (·.index)))) }

def readsParams (p : Plan) : Bool := p.hoisted.values.any Expr.readsParams

/-- Whether the statement at a position of a constructor goes. -/
def removes (p : Plan) (ctor : CtorId) (index : Nat) : Bool := (p.removals.find? ctor).any (index ∈ ·)

/-- What stays of the body of a constructor. -/
def remaining (p : Plan) (ctor : CtorId) (body : List Stmt) : List Stmt :=
  (body.zipIdx.filter fun (_, index) => !p.removes ctor index).map Prod.fst

/-- The type with the hoisted values as initializers and without the removed statements. -/
def hoist (p : Plan) (t : TypeDecl) : TypeDecl :=
  { t with
    slots := t.slots.mapIdx fun i s =>
      match p.hoisted.find? i with
      | some value => { s with initializer := some value }
      | none => s
    constructors := t.constructors.mapIdx fun i c => { c with body := p.remaining i c.body } }

/-- Carries a plan out on a type that has all slots and constructors which the plan names. -/
def apply (p : Plan) (t : TypeDecl) : Except OutOfRange TypeDecl := do
  p.hoisted.keys.toList.forM fun slot => discard (t.slot slot)
  p.removals.keys.toList.forM fun ctor => discard (t.constructor ctor)
  return p.hoist t

end Plan

end DeclRecovery
