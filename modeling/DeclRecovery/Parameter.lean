import DeclRecovery.Expr.Basic

/-!
Constructor parameters.
-/

namespace DeclRecovery

inductive Passing where
  | value | ref | readOnlyRef
  deriving DecidableEq, Repr

structure Parameter where
  name : String
  type : String
  passing : Passing := .value
  /-- The argument a caller may leave out. -/
  default : Option Literal := none
  deriving DecidableEq, Repr

namespace Parameter

/-- Whether an argument plays the same role for both: same type, passed the same way. -/
def sameRole (p q : Parameter) : Bool := p.type == q.type && p.passing == q.passing

end Parameter

end DeclRecovery
