import DeclRecovery.Log

/-!
A type while it is worked on, with what the stages have found out about it so far.
-/

namespace DeclRecovery

structure Draft where
  type : TypeDecl
  chain : Option Chain := none
  extraction : Option Extraction := none
  classification : Option Classification := none
  decision : Option Decision := none
  /-- Why the type is given up; nothing is done to it after that. -/
  fallback : Option Diagnostic := none
  diagnostics : List Diagnostic := []
  log : List LogEntry := []
  deriving DecidableEq

namespace Draft

/-- Adds an entry about the type to the log. -/
def note (d : Draft) (level : Verbosity) (message : String) : Draft := { d with log := d.log ++ [⟨level, message⟩] }

def report (d : Draft) (diagnostic : Diagnostic) : Draft :=
  { d with diagnostics := d.diagnostics ++ [diagnostic] }

/-- How many findings are attached. -/
def findings (d : Draft) : Nat :=
  d.chain.isSome.toNat + d.extraction.isSome.toNat + d.classification.isSome.toNat + d.decision.isSome.toNat

def summary (d : Draft) : String := s!"Annotations({d.findings} entries)"

end Draft

end DeclRecovery
