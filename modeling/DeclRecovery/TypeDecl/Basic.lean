import DeclRecovery.Parameter
import DeclRecovery.Stmt.Basic

/-!
Types with their slots and constructors. The same form serves for what comes in, with bare constructor
bodies, and for what goes out, with initializers, constructor forms and the kind of aggregate filled in.
-/

namespace DeclRecovery

/-- Whether instances are passed by reference or by value. -/
inductive Layout where
  | byReference | byValue
  deriving DecidableEq, Repr

inductive Accessibility where
  | isPublic | isProtected | isInternal | isPrivate
  deriving DecidableEq, Repr

inductive SlotKind where
  | field | property
  deriving DecidableEq, Repr

inductive Mutability where
  | mutable
  /-- Set while the object is initialised only. -/
  | initOnce
  /-- Set by the constructor only. -/
  | immutable
  deriving DecidableEq, Repr

/-- How a slot is declared. -/
inductive Disposition where
  | declared
  /-- Storage behind the primary constructor parameter at the given position; not declared by itself. -/
  | captured (param : Nat)
  deriving DecidableEq, Repr

/-- A field or property. -/
structure Slot where
  name : String
  kind : SlotKind
  type : String
  mutability : Mutability := .mutable
  accessibility : Accessibility := .isPublic
  /-- Made by the compiler, not written by the author. -/
  compilerGenerated : Bool := false
  initializer : Option Expr := none
  disposition : Disposition := .declared
  deriving DecidableEq

/-- Where a constructor comes from. -/
inductive Origin where
  | declared | copy
  deriving DecidableEq, Repr

/-- How a constructor is written. -/
inductive Form where
  | explicit
  /-- Its parameters stand at the type declaration. -/
  | primary
  /-- Nothing but a call to another constructor. -/
  | forwarding
  /-- Not at all: the language supplies the same one. -/
  | elided
  deriving DecidableEq, Repr

structure Constructor where
  parameters : List Parameter
  body : List Stmt
  accessibility : Accessibility := .isPublic
  origin : Origin := .declared
  form : Form := .explicit
  deriving DecidableEq

namespace Constructor

/-- The first delegation at the top of a body, with its position. -/
def delegationIn? (body : List Stmt) : Option (Nat × Delegation) :=
  body.zipIdx.findSome? fun (s, i) => s.delegation?.map fun call => (i, call)

def delegation? (c : Constructor) : Option (Nat × Delegation) := delegationIn? c.body

/-- The constructor of the same type that this one hands over to. -/
def chainTarget? (c : Constructor) : Option CtorId :=
  match c.delegation? with
  | some (_, ⟨.ctor id, _⟩) => some id
  | _ => none

def isDeclared (c : Constructor) : Bool := c.origin == .declared

end Constructor

/-- Members that the compiler made for a type, each as the slots it visits, in order. -/
structure SynthesizedMembers where
  equality : Option (List SlotId) := none
  hashCode : Option (List SlotId) := none
  deconstruct : Option (List SlotId) := none
  deriving DecidableEq, Repr

/-- Which family of declarations a type belongs to. -/
inductive AggregateKind where
  | reference
  /-- Compared by its members, with either layout. -/
  | valueSemantic (layout : Layout)
  | value
  deriving DecidableEq, Repr

structure TypeDecl where
  name : String
  base : Option String := none
  layout : Layout
  /-- Fields and properties in declaration order. -/
  slots : List Slot := []
  constructors : List Constructor := []
  synthesized : SynthesizedMembers := {}
  aggregateKind : Option AggregateKind := none
  primaryConstructor : Option CtorId := none
  deriving DecidableEq

namespace TypeDecl

def slot (t : TypeDecl) (id : SlotId) : Except OutOfRange Slot := nth t.slots id

def constructor (t : TypeDecl) (id : CtorId) : Except OutOfRange Constructor := nth t.constructors id

/-- The first slot of the given name. -/
def findSlot? (t : TypeDecl) (name : String) : Option SlotId := t.slots.findIdx? (·.name == name)

def isValueLayout (t : TypeDecl) : Bool := t.layout == .byValue

/-- The constructors with their positions. -/
def indexedConstructors (t : TypeDecl) : List (CtorId × Constructor) :=
  t.constructors.zipIdx.map fun (c, i) => (i, c)

/-- The declared constructors with their positions, in ascending order. -/
def declaredConstructors (t : TypeDecl) : List (CtorId × Constructor) :=
  t.indexedConstructors.filter fun (_, c) => c.isDeclared

/-- Puts a constructor in the place of the one at a position. -/
def setConstructor (t : TypeDecl) (id : CtorId) (c : Constructor) : Except OutOfRange TypeDecl := do
  discard (t.constructor id)
  return { t with constructors := t.constructors.set id c }

/-- Puts a slot in the place of the one at a position. -/
def setSlot (t : TypeDecl) (id : SlotId) (s : Slot) : Except OutOfRange TypeDecl := do
  discard (t.slot id)
  return { t with slots := t.slots.set id s }

def pushConstructor (t : TypeDecl) (c : Constructor) : TypeDecl :=
  { t with constructors := t.constructors ++ [c] }

def pushSlot (t : TypeDecl) (s : Slot) : TypeDecl := { t with slots := t.slots ++ [s] }

end TypeDecl

end DeclRecovery
