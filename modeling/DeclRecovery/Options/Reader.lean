import DeclRecovery.Options.Basic
import DeclRecovery.Toml.Document

/-!
Options from the text of a TOML document. Every option may be left out; a name that is no option, or a value
of the wrong kind, makes the whole document invalid.
-/

namespace DeclRecovery

/-- Why there are no options. -/
inductive OptionsError where
  /-- The text is no document, or not one of options. -/
  | invalid
  /-- The file does not exist or does not hold text. -/
  | unreadable (path : String)
  deriving DecidableEq, Repr

namespace OptionsError

def message : OptionsError → String
  | invalid => "invalid reconstruction options"
  | unreadable path => "cannot read options from `" ++ path ++ "`"

end OptionsError

namespace Options

def boolean? : Toml.Value → Option Bool
  | .boolean b => some b
  | _ => none

def natural? : Toml.Value → Option Nat
  | .integer n => n.toNat?
  | _ => none

/-- A verbosity is given by its name. A table with the name as its only key and nothing in it does as well. -/
def verbosity? : Toml.Value → Option Verbosity
  | .string name => Verbosity.ofName? name
  | .table _ [(name, .table _ [])] => Verbosity.ofName? name
  | _ => none

/-- Takes one entry of a document over. -/
def withEntry (o : Options) : String × Toml.Value → Option Options
  | ("verbosity_level", v) => (verbosity? v).map fun x => { o with verbosity := x }
  | ("equivalence_depth", v) => (natural? v).map fun x => { o with equivalenceDepth := some x }
  | ("infer_null_coalescing", v) => (boolean? v).map fun x => { o with inferNullCoalescing := x }
  | ("infer_conditional_access", v) => (boolean? v).map fun x => { o with inferConditionalAccess := x }
  | ("elide_default_constructors", v) => (boolean? v).map fun x => { o with elideDefaultConstructors := x }
  | ("keep_bodied_overloads", v) => (boolean? v).map fun x => { o with keepBodiedOverloads := x }
  | ("parallel", v) => (boolean? v).map fun x => { o with parallel := x }
  | _ => none

def ofToml (source : String) : Except OptionsError Options :=
  match (Toml.parse source).bind fun entries => entries.foldlM withEntry {} with
  | some o => .ok o
  | none => .error .invalid

/-- The options in a file, given by its bytes if it exists. -/
def ofFile (path : String) (content : Option ByteArray) : Except OptionsError Options :=
  match content.bind String.fromUTF8? with
  | some source => ofToml source
  | none => .error (.unreadable path)

end Options

end DeclRecovery
