import DeclRecovery.Expr.Footprint
import DeclRecovery.Expr.BottomUp
import DeclRecovery.Options.Basic

/-!
The written shape of a two-way choice of values: `value ?? fallback`, `target?.name` with or without a
fallback, or `cond ? a : b`. The condition and both values are taken as they are; no branch is swapped and
no condition negated.
-/

namespace DeclRecovery

/-- The shapes in which a choice can be written. -/
inductive BranchShape where
  | coalesce (value fallback : Expr)
  | access (target : Expr) (name : String) (fallback : Option Expr)
  | conditional (cond whenTrue whenFalse : Expr)
  deriving DecidableEq

namespace BranchShape

def toExpr : BranchShape → Expr
  | coalesce value fallback => .coalesce value fallback
  | access target name none => .access target name
  | access target name (some fallback) => .coalesce (.access target name) fallback
  | conditional cond whenTrue whenFalse => .conditional cond whenTrue whenFalse

/-- A test against null: what is tested, and whether the test holds when that is not null. -/
def nullTest? : Expr → Option (Expr × Bool)
  | .binary .ne value (.literal .null) => some (value, true)
  | .binary .eq value (.literal .null) => some (value, false)
  | .binary .ne (.literal .null) value => some (value, true)
  | .binary .eq (.literal .null) value => some (value, false)
  | _ => none

/-- A null test with the values it chooses between, sorted by the outcome of the test. -/
structure NullChoice where
  subject : Expr
  whenPresent : Expr
  whenNull : Expr

def NullChoice.of? (cond thenValue elseValue : Expr) : Option NullChoice :=
  (nullTest? cond).map fun
    | (subject, true) => ⟨subject, thenValue, elseValue⟩
    | (subject, false) => ⟨subject, elseValue, thenValue⟩

/-- A choice of the tested value itself is `value ?? fallback`. -/
def coalesce? (c : NullChoice) : Option BranchShape :=
  if c.whenPresent = c.subject ∧ c.subject.isDuplicable ∧ c.whenNull.occurrences c.subject ≤ 1 then
    some (.coalesce c.subject c.whenNull)
  else none

/-- A choice of a member of the tested value is `target?.name`. With a fallback other than null the member
must not be null itself, since `??` would then take the fallback, too. -/
def access? (c : NullChoice) : Option BranchShape :=
  match c.whenPresent with
  | .field target name nonNull =>
    if target = c.subject ∧ c.subject.isDuplicable then
      if c.whenNull = .literal .null then some (.access c.subject name none)
      else if nonNull ∧ c.whenNull.occurrences c.subject ≤ 1 then
        some (.access c.subject name (some c.whenNull))
      else none
    else none
  | _ => none

/-- The shape of `cond` choosing between two values, under the rules that the options allow. -/
def classify (options : Options) (cond thenValue elseValue : Expr) : BranchShape :=
  let choice := NullChoice.of? cond thenValue elseValue
  let coalesced := if options.inferNullCoalescing then choice.bind coalesce? else none
  let accessed := if options.inferConditionalAccess then choice.bind access? else none
  (coalesced.or accessed).getD (.conditional cond thenValue elseValue)

end BranchShape

namespace Expr

/-- Writes one choice in its shape; any other node stays. -/
def shapeNode (options : Options) : Expr → Expr
  | .select cond thenValue elseValue => (BranchShape.classify options cond thenValue elseValue).toExpr
  | e => e

/-- Writes every choice in its shape, innermost first. -/
def shape (options : Options) (e : Expr) : Expr := e.bottomUp (shapeNode options)

end Expr

end DeclRecovery
