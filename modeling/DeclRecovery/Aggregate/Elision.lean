import DeclRecovery.Aggregate.Kind
import DeclRecovery.Hoist.Extraction
import DeclRecovery.Options.Basic
import DeclRecovery.TypeDecl.Forms

/-!
Whether the parameterless constructor of a type does only what the language supplies anyway, so that it need
not be written.
-/

namespace DeclRecovery

/-- What is known about a type as an aggregate. -/
structure Classification where
  kind : AggregateKind
  copyConstructor : Option CtorId
  /-- The parameterless constructor that is left out. -/
  elidedDefault : Option CtorId := none
  /-- Whether hoisted values that equal the zero a slot starts with are left out. -/
  dropZeroInitializers : Bool := false
  deriving DecidableEq, Repr

namespace Classification

/-- Whether what is left of a body is what an implicit constructor does. -/
def isTrivial (t : TypeDecl) (remaining : List Stmt) : Bool :=
  if t.isValueLayout then remaining.isEmpty else remaining == [.base []]

/-- Whether all slots start with a zero value or with none given, once the plan is carried out. -/
def startsZeroed (t : TypeDecl) (plan : Plan) : Bool :=
  t.slots.zipIdx.all fun (s, i) => ((plan.hoisted.find? i).or s.initializer).all Expr.isZero

/-- The constructor that need not be written, and whether zero initializers go with it. -/
def elision (t : TypeDecl) (chain : Chain) (plan : Plan) : Except OutOfRange (Option CtorId × Bool) := do
  match chain.root? with
  | none => return (none, false)
  | some root =>
    let c ← t.constructor root
    let sole := chain.order.length == 1
    if !c.parameters.isEmpty || c.accessibility != .isPublic || !isTrivial t (plan.remaining root c.body) then
      return (none, false)
    else if !t.isValueLayout then return (if sole then some root else none, false)
    else if startsZeroed t plan then return (some root, sole)
    else return (none, false)

def of (options : Options) (t : TypeDecl) (chain : Chain) (extraction : Extraction) :
    Except OutOfRange Classification := do
  let (elidedDefault, dropZeroInitializers) ←
    if options.elideDefaultConstructors then elision t chain extraction.withoutPrimary else pure (none, false)
  return {
    kind := Aggregate.classify t
    copyConstructor := Aggregate.copyConstructor? t
    elidedDefault, dropZeroInitializers }

/-- The constructors that are left out: the default one, and the copy constructor of a value-semantic type. -/
def elided (c : Classification) : PosMap Form :=
  let copied := match c.kind, c.copyConstructor with
    | .valueSemantic _, some id => [id]
    | _, _ => []
  .ofList ((c.elidedDefault.toList ++ copied).map (·, .elided))

/-- Notes the classification in a type: its kind, and which constructors are left out. -/
def apply (options : Options) (c : Classification) (t : TypeDecl) : Except OutOfRange TypeDecl :=
  let shown := if options.elideDefaultConstructors then
      t.mapForms fun _ ctor => if ctor.form = .elided ∧ ctor.isDeclared then .explicit else ctor.form
    else t
  { shown with aggregateKind := some c.kind }.withForms c.elided

end Classification

end DeclRecovery
