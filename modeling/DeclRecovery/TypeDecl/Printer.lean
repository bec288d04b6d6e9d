import DeclRecovery.Stmt.Printer
import DeclRecovery.TypeDecl.Basic

/-!
A type as the text of its declaration. Constructors that the language supplies, slots that only back a
parameter, and members that the parameter list declares are left out.
-/

namespace DeclRecovery

namespace Accessibility

def keyword : Accessibility → String
  | isPublic => "public"
  | isProtected => "protected"
  | isInternal => "internal"
  | isPrivate => "private"

end Accessibility

namespace Parameter

def render (p : Parameter) : String :=
  let passing := match p.passing with
    | .value => ""
    | .ref => "ref "
    | .readOnlyRef => "ref readonly "
  let value := match p.default with
    | some v => " = " ++ v.render
    | none => ""
  passing ++ p.type ++ " " ++ p.name ++ value

def renderList (ps : List Parameter) : String := ", ".intercalate (ps.map render)

end Parameter

namespace TypeDecl

/-- The names in force where `params` are the parameters. -/
def scope (t : TypeDecl) (params : List Parameter) : Scope := ⟨t.slots.map (·.name), params.map (·.name)⟩

/-- The constructor whose parameters stand at the declaration. -/
def primary (t : TypeDecl) : Except OutOfRange (Option Constructor) := t.primaryConstructor.mapM t.constructor

def keyword (t : TypeDecl) : String :=
  match t.aggregateKind, t.layout with
  | some (.valueSemantic .byReference), _ => "record"
  | some (.valueSemantic .byValue), _ => "record struct"
  | some .value, _ | none, .byValue => "struct"
  | some .reference, _ | none, .byReference => "class"

/-- Whether a slot of a value-semantic type is declared by the primary parameter of the same name that it
stores. -/
def isPositional (t : TypeDecl) (params : List Parameter) (s : Slot) : Bool :=
  match t.aggregateKind, s.kind, s.initializer.bind Expr.asParam? with
  | some (.valueSemantic _), .property, some i => params[i]?.any (·.name == s.name)
  | _, _, _ => false

def renderHeader (t : TypeDecl) (primary : Option Constructor) : String :=
  let params := match primary with
    | some c => "(" ++ Parameter.renderList c.parameters ++ ")"
    | none => ""
  let base := match t.base with
    | none => ""
    | some name =>
      let args := match primary.bind fun c => c.delegation?.map fun (_, call) => (c.parameters, call.args) with
        | some (params, args) => Expr.renderArgs (t.scope params) args
        | none => ""
      " : " ++ name ++ if args.isEmpty then "" else "(" ++ args ++ ")"
  t.keyword ++ " " ++ t.name ++ params ++ base

/-- The accessors of a property. -/
def accessors : Mutability → String
  | .mutable => "\x7b get; set; \x7d"
  | .initOnce => "\x7b get; init; \x7d"
  | .immutable => "\x7b get; \x7d"

def renderSlot (scope : Scope) (s : Slot) : String :=
  let declaration := match s.kind with
    | .field =>
      let modifier := match s.mutability with
        | .mutable => ""
        | .initOnce | .immutable => "readonly "
      s.accessibility.keyword ++ " " ++ modifier ++ s.type ++ " " ++ s.name
    | .property => s.accessibility.keyword ++ " " ++ s.type ++ " " ++ s.name ++ " " ++ accessors s.mutability
  let ending := match s.initializer, s.kind with
    | some value, _ => " = " ++ value.render scope ++ ";"
    | none, .field => ";"
    | none, .property => ""
  Stmt.line 4 (declaration ++ ending)

/-- A delegation that opens the body stands in the heading, where `base()` need not be written. -/
def renderConstructor (t : TypeDecl) (c : Constructor) : String :=
  let scope := t.scope c.parameters
  let heading := c.accessibility.keyword ++ " " ++ t.name ++ "(" ++ Parameter.renderList c.parameters ++ ")"
  let (delegation, rest) := match c.body with
    | .delegate ⟨.base, []⟩ :: rest => ("", rest)
    | .delegate call :: rest => (" : " ++ call.render scope, rest)
    | body => ("", body)
  if rest.isEmpty then Stmt.line 4 (heading ++ delegation ++ " \x7b \x7d")
  else
    Stmt.line 4 (heading ++ delegation) ++ Stmt.line 4 "\x7b" ++ Stmt.renderBlock scope 8 rest ++
      Stmt.line 4 "\x7d"

def isWritten (c : Constructor) : Bool := c.form == .explicit || c.form == .forwarding

/-- The declaration of a type. It fails when the type names a primary constructor that it does not have. -/
def render (t : TypeDecl) : Except OutOfRange String := do
  let primary ← t.primary
  let params := (primary.map (·.parameters)).getD []
  let slots := t.slots.filter fun s => s.disposition == .declared && !t.isPositional params s
  let constructors := t.constructors.filter isWritten
  return Stmt.line 0 (t.renderHeader primary) ++ Stmt.line 0 "\x7b" ++
    String.join (slots.map (renderSlot (t.scope params))) ++
    String.join (constructors.map t.renderConstructor) ++ Stmt.line 0 "\x7d"

end TypeDecl

end DeclRecovery
