import DeclRecovery.Diagnostic
import DeclRecovery.Expr.Footprint
import DeclRecovery.Expr.Likeness
import DeclRecovery.TypeDecl.Basic

/-!
The stores at the start of a root constructor that could be written as initializers.

Initializers run before the base constructor, so the stores looked at stand before the delegation, or
anywhere when there is none. They end at the first statement that is not a single store, or that stores a
slot which has an initializer or is stored again.
-/

namespace DeclRecovery

/-- A store at the start of a constructor. -/
structure Candidate where
  slot : SlotId
  ctor : CtorId
  /-- The position of the statement in the body. -/
  index : Nat
  value : Expr
  deriving DecidableEq

namespace Candidate

def footprint (c : Candidate) : Footprint := c.value.footprint

def readsParams (c : Candidate) : Bool := c.footprint.readsParams

/-- The statements that run before the constructor hands over. -/
def region (c : Constructor) : List Stmt :=
  match c.delegation? with
  | some (index, _) => c.body.take index
  | none => c.body

/-- The leading stores among numbered statements of `region`. -/
def leading (t : TypeDecl) (ctor : CtorId) (region : List Stmt) :
    List (Stmt × Nat) → Except OutOfRange (List Candidate)
  | [] => .ok []
  | (s, index) :: rest =>
    match s.singleStore? with
    | none => .ok []
    | some (slot, value) => do
      let target ← t.slot slot
      if target.initializer.isSome || 1 < region.countP (Stmt.stores slot) then return []
      return ⟨slot, ctor, index, value⟩ :: (← leading t ctor region rest)

end Candidate

/-- A root constructor with its candidates, in the order of its statements. -/
structure EntryPoint where
  ctor : CtorId
  params : List Parameter
  candidates : List Candidate
  deriving DecidableEq

namespace EntryPoint

def of (t : TypeDecl) (id : CtorId) : Except OutOfRange EntryPoint := do
  let c ← t.constructor id
  let region := Candidate.region c
  return ⟨id, c.parameters, ← Candidate.leading t id region region.zipIdx⟩

def candidate? (e : EntryPoint) (slot : SlotId) : Option Candidate := e.candidates.find? (·.slot == slot)

/-- The slots with a candidate at some entry point. -/
def candidateSlots (es : List EntryPoint) : PosSet :=
  .ofList (es.flatMap fun e => e.candidates.map (·.slot))

/-- The first reason why entry points do not agree on the value of a slot; `reference` is the value that those
before them store. -/
def disagreement? (maxDepth : Option Nat) (slot : SlotId) (reference : Option Site) :
    List EntryPoint → Option Ambiguity
  | [] => none
  | e :: es =>
    match e.candidate? slot with
    | none => some (.missingAtEntryPoint e.ctor)
    | some c =>
      let site : Site := ⟨e.params, c.value⟩
      match reference with
      | none => disagreement? maxDepth slot (some site) es
      | some r => if r.alike maxDepth site then disagreement? maxDepth slot reference es
        else some .conflictingCandidates

end EntryPoint

/-- The candidate slots, sorted into those that every entry point initializes alike and the others. -/
structure Agreement where
  agreed : PosSet
  /-- The other slots in ascending order, each with the reason. -/
  ambiguities : List (SlotId × Ambiguity)
  deriving DecidableEq

namespace Agreement

/-- Why a slot gets no initializer: some constructor stores it inside a branch, or the entry points do not
agree. -/
def obstacle? (maxDepth : Option Nat) (blocked : SlotId → Option CtorId) (es : List EntryPoint) (slot : SlotId) :
    Option Ambiguity :=
  match blocked slot with
  | some ctor => some (.conditionalAssignment ctor)
  | none => EntryPoint.disagreement? maxDepth slot none es

def of (maxDepth : Option Nat) (blocked : SlotId → Option CtorId) (es : List EntryPoint) : Agreement :=
  let slots := EntryPoint.candidateSlots es
  let obstacle? := obstacle? maxDepth blocked es
  { agreed := slots.filter fun slot => (obstacle? slot).isNone
    ambiguities := slots.toList.filterMap fun slot => (obstacle? slot).map (slot, ·) }

end Agreement

end DeclRecovery
