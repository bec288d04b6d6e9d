import DeclRecovery.Delegation.Order
import DeclRecovery.Diagnostic
import DeclRecovery.TypeDecl.Basic

/-!
How the declared constructors of a type hand over to each other. Those that hand over to no other one of the
type are the roots: they alone run the slot initializers. Copy constructors, which the compiler supplies, run
none and take no part.
-/

namespace DeclRecovery

structure Chain where
  /-- Each declared constructor, in ascending order, with the one that it hands over to. -/
  links : List (CtorId × Option CtorId)
  /-- The declared constructors, each after the one that it hands over to. -/
  order : List CtorId
  deriving DecidableEq

namespace Chain

/-- The constructor that a linked one hands over to. -/
def targetIn? (links : List (CtorId × Option CtorId)) (id : CtorId) : Option CtorId :=
  (links.lookup id).join

/-- The linked constructors that hand over to `id`, in ascending order. -/
def delegatesIn (links : List (CtorId × Option CtorId)) (id : CtorId) : List CtorId :=
  (links.filter fun l => l.2 == some id).map Prod.fst

def roots (c : Chain) : List CtorId := (c.links.filter fun l => l.2.isNone).map Prod.fst

/-- The root, if there is just one. -/
def root? (c : Chain) : Option CtorId :=
  match c.roots with
  | [r] => some r
  | _ => none

def contains (c : Chain) (id : CtorId) : Bool := (c.links.lookup id).isSome

def delegatesOf (c : Chain) (id : CtorId) : List CtorId := delegatesIn c.links id

/-- Where a constructor hands over, when it does so at most once, outside of branches, and to another declared
constructor of the type or to none. -/
def link (t : TypeDecl) (id : CtorId) (c : Constructor) : Except ChainDefect (Option CtorId) :=
  if 1 < c.body.countP (·.delegation?.isSome) then .error (.multipleDelegations id)
  else if c.body.any Stmt.hasNestedDelegation then .error (.nestedDelegation id)
  else
    match c.chainTarget? with
    | none => .ok none
    | some target =>
      if target = id then .error (.cycle id)
      else
        match t.constructors[target]? with
        | none => .error (.danglingTarget id target)
        | some other => if other.isDeclared then .ok (some target) else .error (.nonParticipatingTarget id target)

/-- Puts linked constructors in order, unless some hand over in a circle. -/
def ofLinks (links : List (CtorId × Option CtorId)) : Except ChainDefect Chain :=
  let order := Delegation.order (delegatesIn links) (links.map Prod.fst)
  match Delegation.late? (targetIn? links) [] order with
  | some c => .error (.cycle c)
  | none => .ok ⟨links, order⟩

/-- The chain of a type, or the first defect found. -/
def build (t : TypeDecl) : Except ChainDefect Chain := do
  let links ← t.declaredConstructors.mapM fun (id, c) => do return (id, ← link t id c)
  ofLinks links

end Chain

end DeclRecovery
