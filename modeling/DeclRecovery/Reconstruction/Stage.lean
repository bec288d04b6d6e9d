import DeclRecovery.Reconstruction.Draft
import DeclRecovery.Stmt.Shape

/-!
The stages of a reconstruction. Each one uses what earlier stages have found out and leaves a draft as it is
when that is missing.
-/

namespace DeclRecovery

namespace TypeDecl

/-- The constructor that the language supplies for a type that declares none. -/
def implicitConstructor (t : TypeDecl) : Constructor where
  parameters := []
  body := if t.isValueLayout then [] else [.base []]
  form := .elided

def declaresConstructor (t : TypeDecl) : Bool := t.constructors.any Constructor.isDeclared

/-- The type with the implicit constructor, if it declares none. -/
def completed (t : TypeDecl) : TypeDecl :=
  if t.declaresConstructor then t else t.pushConstructor t.implicitConstructor

/-- Writes every choice of values in its shape. -/
def shape (options : Options) (t : TypeDecl) : TypeDecl :=
  { t with
    slots := t.slots.map fun s => { s with initializer := s.initializer.map (·.shape options) }
    constructors := t.constructors.map fun c => { c with body := Stmt.shapeBlock options c.body } }

end TypeDecl

namespace Draft

/-- The start of a log message about a type. -/
def about (t : TypeDecl) (message : String) : String := t.name ++ ": " ++ message

/-- Finds how constructors hand over to each other. -/
def link (d : Draft) : Draft :=
  let started := if d.type.declaresConstructor then d
    else d.note .debug (about d.type "synthesizing implicit constructor")
  let d := { started with type := d.type.completed }
  match Chain.build d.type with
  | .ok chain =>
    { d with chain := some chain }.note .debug (about d.type
      (s!"{chain.order.length} constructor(s), roots " ++ LogEntry.showList (chain.roots.map LogEntry.showCtor)))
  | .error defect =>
    let cause := Diagnostic.malformedChain d.type.name defect
    { d with fallback := some cause }.note .warn cause.message

/-- Reports a slot that stays imperative. -/
def reportAmbiguity (d : Draft) (found : SlotId × Ambiguity) : Except OutOfRange Draft := do
  let slot ← d.type.slot found.1
  let diagnostic := Diagnostic.ambiguousInitializer d.type.name slot.name found.2
  return (d.note .debug diagnostic.message).report diagnostic

/-- Finds the stores that can become initializers. -/
def extract (options : Options) (d : Draft) : Except OutOfRange Draft := do
  match d.chain with
  | none => return d
  | some chain =>
    let extraction ← Extraction.of options.equivalenceDepth d.type chain
    let showSlots := fun (plan : Plan) => LogEntry.showList (plan.hoisted.keys.toList.map LogEntry.showSlot)
    let noted := d.note .debug (about d.type
      ("hoistable " ++ showSlots extraction.withPrimary ++ " (without primary " ++
        showSlots extraction.withoutPrimary ++ ")"))
    let reported ← extraction.ambiguities.foldlM reportAmbiguity noted
    return { reported with extraction := some extraction }

/-- Tells the kind of aggregate and which constructors are left out. -/
def classify (options : Options) (d : Draft) : Except OutOfRange Draft := do
  match d.chain, d.extraction with
  | some chain, some extraction =>
    let classification ← Classification.of options d.type chain extraction
    let noted := d.note .debug (about d.type
      (LogEntry.showKind classification.kind ++ ", elided default " ++
        LogEntry.showOption (classification.elidedDefault.map LogEntry.showCtor)))
    return { noted with
      type := ← classification.apply options d.type
      classification := some classification }
  | _, _ => return d

/-- Decides on a primary constructor and carries out the plan that goes with it. -/
def synthesize (options : Options) (d : Draft) : Except OutOfRange Draft := do
  match d.chain, d.extraction, d.classification with
  | some chain, some extraction, some classification =>
    let decision ← Decision.of options d.type chain extraction (some classification.kind)
    let noted := d.note .debug (about d.type ("primary constructor " ++ LogEntry.showDecision decision))
    let plan := decision.plan extraction
    let hoisted ← plan.apply d.type
    let trimmed := if classification.dropZeroInitializers then hoisted.dropZeros plan else hoisted
    let done := { noted with type := ← decision.apply trimmed, decision := some decision }
    match decision with
    | .rejected reason =>
      let diagnostic := Diagnostic.synthesisRejected d.type.name reason
      return (done.note .warn diagnostic.message).report diagnostic
    | _ => return done
  | _, _, _ => return d

/-- Writes choices of values in their shapes. -/
def shape (options : Options) (d : Draft) : Draft :=
  { d with type := d.type.shape options }.note .debug (about d.type "expression shapes inferred")

end Draft

inductive Stage where
  | chain
  | extraction
  | classification
  | synthesis
  | shapes
  deriving DecidableEq, Repr

namespace Stage

def all : List Stage := [chain, extraction, classification, synthesis, shapes]

def name : Stage → String
  | chain => "constructor_chain"
  | extraction => "initializer_extraction"
  | classification => "aggregate_classification"
  | synthesis => "primary_constructor"
  | shapes => "expression_shapes"

def ofName? (name : String) : Option Stage := all.find? (·.name == name)

/-- Carries out one stage. -/
def run (options : Options) : Stage → Draft → Except OutOfRange Draft
  | chain, d => return d.link
  | extraction, d => d.extract options
  | classification, d => d.classify options
  | synthesis, d => d.synthesize options
  | shapes, d => return d.shape options

end Stage

end DeclRecovery
