import DeclRecovery.Position.Basic

/-!
What can keep a type, a slot or a constructor in its imperative form. Each cause is a value; its wording is
in the `message` function beside it.
-/

namespace DeclRecovery

/-- The name by which messages call a constructor. -/
def CtorId.label (id : CtorId) : String := s!"ctor#{id}"

/-- Why the constructors of a type do not form a chain. -/
inductive ChainDefect where
  | cycle (ctor : CtorId)
  | danglingTarget (source target : CtorId)
  /-- The target exists but takes no part in initialisation. -/
  | nonParticipatingTarget (source target : CtorId)
  | multipleDelegations (ctor : CtorId)
  | nestedDelegation (ctor : CtorId)
  deriving DecidableEq, Repr

namespace ChainDefect

def message : ChainDefect → String
  | cycle c => "delegation cycle through " ++ CtorId.label c
  | danglingTarget s t => CtorId.label s ++ " delegates to missing " ++ CtorId.label t
  | nonParticipatingTarget s t => CtorId.label s ++ " delegates to compiler-provided " ++ CtorId.label t
  | multipleDelegations c => CtorId.label c ++ " contains more than one delegation call"
  | nestedDelegation c => CtorId.label c ++ " delegates from inside a branch"

end ChainDefect

/-- Why a slot that is stored early gets no initializer. -/
inductive Ambiguity where
  /-- Two entry points store different values. -/
  | conflictingCandidates
  /-- An entry point does not store the slot before it delegates. -/
  | missingAtEntryPoint (ctor : CtorId)
  /-- A constructor stores the slot inside a branch. -/
  | conditionalAssignment (ctor : CtorId)
  deriving DecidableEq, Repr

namespace Ambiguity

def message : Ambiguity → String
  | conflictingCandidates => "entry points store different expressions"
  | missingAtEntryPoint c => CtorId.label c ++ " does not store it before delegating"
  | conditionalAssignment c => CtorId.label c ++ " assigns it conditionally"

end Ambiguity

/-- Why no constructor becomes the primary one. -/
inductive Rejection where
  | multipleRoots
  /-- The root keeps statements that a declaration cannot hold. -/
  | rootRetainsLogic
  | overloadHasBody (ctor : CtorId)
  | overloadArityMismatch (ctor : CtorId)
  | overloadReadsInstance (ctor : CtorId)
  deriving DecidableEq, Repr

namespace Rejection

def message : Rejection → String
  | multipleRoots => "constructors have more than one root"
  | rootRetainsLogic => "root constructor keeps a body"
  | overloadHasBody c => CtorId.label c ++ " has statements besides its delegation"
  | overloadArityMismatch c => CtorId.label c ++ " forwards the wrong number of arguments"
  | overloadReadsInstance c => CtorId.label c ++ " forwards an argument that reads the instance"

end Rejection

/-- A finding about a type, given by name. -/
inductive Diagnostic where
  | malformedChain (type : String) (reason : ChainDefect)
  | ambiguousInitializer (type slot : String) (reason : Ambiguity)
  | synthesisRejected (type : String) (reason : Rejection)
  deriving DecidableEq, Repr

namespace Diagnostic

def message : Diagnostic → String
  | malformedChain type reason => "malformed constructor chain in `" ++ type ++ "`: " ++ reason.message
  | ambiguousInitializer type slot reason =>
    "ambiguous initializer for `" ++ type ++ "." ++ slot ++ "`: " ++ reason.message
  | synthesisRejected type reason =>
    "primary constructor synthesis rejected for `" ++ type ++ "`: " ++ reason.message

end Diagnostic

end DeclRecovery
