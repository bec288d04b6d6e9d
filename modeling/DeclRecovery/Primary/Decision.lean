import DeclRecovery.Aggregate.Elision

/-!
Whether the parameters of the root constructor move to the type declaration.

That takes some sign that they stood there, a root that keeps nothing but its base call, and overloads that
only forward to other constructors. One constructor that cannot be written so keeps them all explicit.
-/

namespace DeclRecovery

/-- What becomes of the constructors. -/
inductive Decision where
  /-- `root` is the primary constructor; the others get the given forms. -/
  | synthesized (root : CtorId) (overloads : PosMap Form)
  | notApplicable
  | rejected (reason : Rejection)
  deriving DecidableEq

namespace Decision

/-- Whether some argument reads the instance, which does not exist yet where a declaration is evaluated. -/
def readsInstance (args : List Expr) : Bool := args.any (·.footprint.readsInstance)

/-- A value type that stores its parameters shows only then that they belong to the declaration when other
constructors forward to a root or the type is compared by value. -/
def hasValueEvidence (t : TypeDecl) (chain : Chain) (roots : List CtorId) (kind : Option AggregateKind) : Bool :=
  !t.isValueLayout || roots.any (fun r => !(chain.delegatesOf r).isEmpty) ||
    match kind with
    | some (.valueSemantic _) => true
    | _ => false

/-- Whether the type shows that the parameters of `root` stood at the declaration. -/
def hasEvidence (t : TypeDecl) (chain : Chain) (rootId : CtorId) (root : Constructor) (plan : Plan)
    (kind : Option AggregateKind) : Bool :=
  root.form == .primary ||
    (plan.readsParams || t.slots.any fun s => s.initializer.any Expr.readsParams) &&
      hasValueEvidence t chain [rootId] kind

/-- Whether what is left of the root can stand at the declaration. -/
def rootFits (t : TypeDecl) : List Stmt → Bool
  | [] => t.isValueLayout
  | [.delegate ⟨.base, args⟩] => !t.isValueLayout && !readsInstance args
  | _ => false

/-- The form of an overload by the length of its body and the position of its delegation. -/
def overloadForm? (options : Options) (length index : Nat) : Option Form :=
  if length = 1 then some .forwarding
  else if options.keepBodiedOverloads ∧ index = 0 then some .explicit
  else none

/-- The form of an overload next to a primary constructor. -/
def overload (options : Options) (t : TypeDecl) (id : CtorId) : Except OutOfRange (Except Rejection Form) := do
  let c ← t.constructor id
  match c.delegation? with
  | some (index, ⟨.ctor target, args⟩) =>
    match overloadForm? options c.body.length index with
    | none => return .error (.overloadHasBody id)
    | some form =>
      let other ← t.constructor target
      if args.length ≠ other.parameters.length then return .error (.overloadArityMismatch id)
      else if readsInstance args then return .error (.overloadReadsInstance id)
      else return .ok form
  | _ => return .error (.overloadHasBody id)

/-- The forms of several overloads, or the first reason against one. -/
def overloads (options : Options) (t : TypeDecl) :
    List CtorId → Except OutOfRange (Except Rejection (List (CtorId × Form)))
  | [] => return .ok []
  | id :: rest => do
    match ← overload options t id with
    | .error reason => return .error reason
    | .ok form =>
      match ← overloads options t rest with
      | .error reason => return .error reason
      | .ok forms => return .ok ((id, form) :: forms)

/-- The decision for a type with the given root. -/
def ofRoot (options : Options) (t : TypeDecl) (chain : Chain) (plan : Plan) (kind : Option AggregateKind)
    (rootId : CtorId) : Except OutOfRange Decision := do
  let root ← t.constructor rootId
  if root.parameters.isEmpty || !hasEvidence t chain rootId root plan kind then return .notApplicable
  else if !rootFits t (plan.remaining rootId root.body) then return .rejected .rootRetainsLogic
  else
    match ← overloads options t (chain.order.filter (· != rootId)) with
    | .error reason => return .rejected reason
    | .ok forms => return .synthesized rootId (.ofList forms)

def of (options : Options) (t : TypeDecl) (chain : Chain) (extraction : Extraction)
    (kind : Option AggregateKind) : Except OutOfRange Decision :=
  match chain.root? with
  | some root => ofRoot options t chain extraction.withPrimary kind root
  | none =>
    let readsParams := extraction.entryPoints.any fun e => e.candidates.any (·.readsParams)
    if readsParams && hasValueEvidence t chain chain.roots kind then .ok (.rejected .multipleRoots)
    else .ok .notApplicable

/-- The plan that goes with a decision. -/
def plan (extraction : Extraction) : Decision → Plan
  | synthesized .. => extraction.withPrimary
  | notApplicable | rejected _ => extraction.withoutPrimary

end Decision

namespace TypeDecl

/-- Takes hoisted zero values out again. -/
def dropZeros (plan : Plan) (t : TypeDecl) : TypeDecl :=
  { t with slots := t.slots.mapIdx fun i s =>
      if (plan.hoisted.find? i).any Expr.isZero then { s with initializer := none } else s }

/-- Marks the compiler-made fields that hold a parameter unchanged. -/
def markCaptured (t : TypeDecl) : TypeDecl :=
  { t with slots := t.slots.map fun s =>
      match s.kind, s.compilerGenerated, s.initializer with
      | .field, true, some (.param i) => { s with disposition := .captured i }
      | _, _, _ => s }

/-- Makes every constructor explicit that was written at or for a declaration, and declares every slot. -/
def clearPrimary (t : TypeDecl) : TypeDecl :=
  { t with
    primaryConstructor := none
    constructors := t.constructors.map fun c =>
      if c.form = .primary ∨ c.form = .forwarding then { c with form := .explicit } else c
    slots := t.slots.map fun s => { s with disposition := .declared } }

end TypeDecl

namespace Decision

/-- Carries a decision out on a type whose plan has been applied. -/
def apply : Decision → TypeDecl → Except OutOfRange TypeDecl
  | synthesized root overloads, t => do
    let formed ← t.withForms (overloads.add root .primary)
    return { formed with primaryConstructor := some root }.markCaptured
  | notApplicable, t | rejected _, t => return t.clearPrimary

end Decision

end DeclRecovery
