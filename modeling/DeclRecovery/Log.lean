import DeclRecovery.Options.Basic
import DeclRecovery.Primary.Decision

/-!
What is written down about a reconstruction, and how the values in it are spelled out.
-/

namespace DeclRecovery

structure LogEntry where
  level : Verbosity
  message : String
  deriving DecidableEq, Repr

namespace LogEntry

/-- The entries that a reader of the given verbosity gets to see. -/
def visible (verbosity : Verbosity) (log : List LogEntry) : List LogEntry :=
  log.filter fun e => e.level.rank ≤ verbosity.rank

/-! ### Spelling of values -/

def showSlot (id : SlotId) : String := s!"SlotId({id})"

def showCtor (id : CtorId) : String := s!"CtorId({id})"

def showList (items : List String) : String := "[" ++ ", ".intercalate items ++ "]"

def showOption : Option String → String
  | none => "None"
  | some item => "Some(" ++ item ++ ")"

def showLayout : Layout → String
  | .byReference => "ByReference"
  | .byValue => "ByValue"

def showKind : AggregateKind → String
  | .reference => "ReferenceAggregate"
  | .valueSemantic layout => "ValueSemanticAggregate \x7b layout: " ++ showLayout layout ++ " \x7d"
  | .value => "ValueType"

def showForm : Form → String
  | .explicit => "Explicit"
  | .primary => "Primary"
  | .forwarding => "Forwarding"
  | .elided => "Elided"

def showRejection : Rejection → String
  | .multipleRoots => "MultipleRoots"
  | .rootRetainsLogic => "RootRetainsLogic"
  | .overloadHasBody c => "OverloadHasBody(" ++ showCtor c ++ ")"
  | .overloadArityMismatch c => "OverloadArityMismatch(" ++ showCtor c ++ ")"
  | .overloadReadsInstance c => "OverloadReadsInstance(" ++ showCtor c ++ ")"

def showDecision : Decision → String
  | .synthesized root overloads =>
    let forms := overloads.entries.map fun (id, form) => showCtor id ++ ": " ++ showForm form
    "Synthesized \x7b root: " ++ showCtor root ++ ", overloads: \x7b" ++ ", ".intercalate forms ++ "\x7d \x7d"
  | .notApplicable => "NotApplicable"
  | .rejected reason => "Rejected(" ++ showRejection reason ++ ")"

end LogEntry

end DeclRecovery
