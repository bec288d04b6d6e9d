import DeclRecovery.TypeDecl.Basic

/-!
Which family of declarations a type belongs to. A type whose compiler-made members all visit the same slots
in declaration order is compared by value; any other one is told by its layout alone.
-/

namespace DeclRecovery.Aggregate

/-- The constructor that copies an instance: its one parameter is of the type itself. -/
def copyConstructor? (t : TypeDecl) : Option CtorId :=
  (t.indexedConstructors.find? fun (_, c) => c.origin == .copy && isCopyOf c.parameters).map Prod.fst
where
  isCopyOf : List Parameter → Bool
    | [p] => p.type == t.name
    | _ => false

/-- The slots that the copy constructor stores, in order. -/
def copiedSlots? (t : TypeDecl) : Option (List SlotId) := do
  let id ← copyConstructor? t
  let c ← t.constructors[id]?
  return c.body.filterMap Stmt.assignedSlot?

/-- Whether each position is larger than the one before it. -/
def isIncreasing : List SlotId → Bool
  | a :: b :: rest => a < b && isIncreasing (b :: rest)
  | _ => true

/-- The slots by which instances are compared, if equality, hashing, deconstruction and copying exist and go
along with each other. -/
def canonicalOrder? (t : TypeDecl) : Option (List SlotId) := do
  let equality ← t.synthesized.equality
  let hashCode ← t.synthesized.hashCode
  let deconstruct ← t.synthesized.deconstruct
  guard (equality = hashCode ∧ isIncreasing equality ∧ isIncreasing deconstruct)
  guard (deconstruct.all (· ∈ equality))
  guard (t.isValueLayout ∨ copiedSlots? t = some equality)
  return equality

def classify (t : TypeDecl) : AggregateKind :=
  match canonicalOrder? t, t.layout with
  | some _, layout => .valueSemantic layout
  | none, .byValue => .value
  | none, .byReference => .reference

end DeclRecovery.Aggregate
