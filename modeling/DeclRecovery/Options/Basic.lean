/-!
What a caller may choose about a reconstruction.
-/

namespace DeclRecovery

/-- How much of the log is wanted; `off` wants nothing. -/
inductive Verbosity where
  | off | error | warn | info | debug | trace
  deriving DecidableEq, Repr

namespace Verbosity

/-- From nothing at all to everything. -/
def rank : Verbosity → Nat
  | off => 0
  | error => 1
  | warn => 2
  | info => 3
  | debug => 4
  | trace => 5

def name : Verbosity → String
  | off => "OFF"
  | error => "ERROR"
  | warn => "WARN"
  | info => "INFO"
  | debug => "DEBUG"
  | trace => "TRACE"

def all : List Verbosity := [off, error, warn, info, debug, trace]

/-- The verbosity of the given name, in upper or lower case letters. -/
def ofName? (name : String) : Option Verbosity := all.find? fun v => v.name == name.map Char.toUpper

end Verbosity

structure Options where
  verbosity : Verbosity := .info
  /-- How deep two values are compared before they count as different; `none` compares whole trees. -/
  equivalenceDepth : Option Nat := none
  /-- Whether a null test around its own subject may become `x ?? y`. -/
  inferNullCoalescing : Bool := true
  /-- Whether a null test around a member of its subject may become `x?.m`. -/
  inferConditionalAccess : Bool := true
  /-- Whether a parameterless constructor that the language supplies anyway is left out. -/
  elideDefaultConstructors : Bool := true
  /-- Whether an overload may keep statements after its delegation next to a primary constructor. -/
  keepBodiedOverloads : Bool := false
  /-- Whether several types may be worked on at once. Results do not depend on it. -/
  parallel : Bool := true
  deriving DecidableEq, Repr

end DeclRecovery
