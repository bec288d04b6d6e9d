import DeclRecovery.Reconstruction.Stage

/-!
Reconstructing types. The stages run one after the other; when one gives the type up, what came in is what
goes out.
-/

namespace DeclRecovery

inductive Outcome where
  | reconstructed
  /-- Given up, for the reason stated; the type is as it came in. -/
  | fallback (cause : Diagnostic)
  /-- Not started; the type is as it came in. -/
  | cancelled
  deriving DecidableEq, Repr

namespace Outcome

def isReconstructed : Outcome → Bool
  | reconstructed => true
  | _ => false

end Outcome

/-- What becomes of a type. -/
structure Reconstruction where
  type : TypeDecl
  outcome : Outcome
  diagnostics : List Diagnostic
  deriving DecidableEq

/-- A reconstruction with the draft after each stage, and the log. -/
structure Run where
  result : Reconstruction
  steps : List (Stage × Draft) := []
  log : List LogEntry
  deriving DecidableEq

namespace Run

/-- Runs stages until one gives the type up. Gives the draft after each, and the last one. -/
def runStages (options : Options) : List Stage → Draft → Except OutOfRange (List (Stage × Draft) × Draft)
  | [], d => return ([], d)
  | stage :: rest, d => do
    let next ← stage.run options d
    if next.fallback.isSome then
      return ([(stage, next)],
        next.note .debug (Draft.about next.type ("stopped after `" ++ stage.name ++ "`")))
    else
      let (steps, last) ← runStages options rest next
      return ((stage, next) :: steps, last)

/-- The result for a type that came in as `given`. -/
def conclude (given : TypeDecl) (d : Draft) : Reconstruction :=
  match d.fallback with
  | some cause => ⟨given, .fallback cause, d.diagnostics⟩
  | none => ⟨d.type, .reconstructed, d.diagnostics⟩

/-- The last entry of the log. -/
def closing (given : TypeDecl) (d : Draft) : LogEntry :=
  match d.fallback with
  | some _ => ⟨.info, Draft.about given "kept imperative form"⟩
  | none => ⟨.info, Draft.about d.type s!"reconstructed with {d.diagnostics.length} diagnostic(s)"⟩

def of (options : Options) (stages : List Stage) (t : TypeDecl) : Except OutOfRange Run := do
  let (steps, last) ← runStages options stages { type := t }
  return ⟨conclude t last, steps, last.log ++ [closing t last]⟩

/-- What becomes of a type that is not started. -/
def cancelled (t : TypeDecl) : Run :=
  ⟨⟨t, .cancelled, []⟩, [], [⟨.debug, Draft.about t "cancelled"⟩]⟩

/-- Runs all stages on each type, or on none when that is no longer wanted. -/
def ofAll (options : Options) (cancel : Bool) (ts : List TypeDecl) : Except OutOfRange (List Run) :=
  ts.mapM fun t => if cancel then pure (cancelled t) else of options Stage.all t

end Run

/-- Reconstructs a type with all stages. -/
def reconstruct (options : Options) (t : TypeDecl) : Except OutOfRange Reconstruction := do
  return (← Run.of options Stage.all t).result

end DeclRecovery
