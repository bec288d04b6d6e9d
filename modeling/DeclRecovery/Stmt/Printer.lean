import DeclRecovery.Expr.Printer
import DeclRecovery.Stmt.Basic

/-!
Statements as indented lines.
-/

namespace DeclRecovery

def Delegation.render (scope : Scope) (call : Delegation) : String :=
  let keyword := match call.target with
    | .base => "base"
    | .ctor _ => "this"
  keyword ++ "(" ++ Expr.renderArgs scope call.args ++ ")"

namespace Stmt

/-- `text` on a line of its own, `indent` blanks from the left. -/
def line (indent : Nat) (text : String) : String := String.ofList (List.replicate indent ' ') ++ text ++ "\n"

mutual

def render (scope : Scope) (indent : Nat) : Stmt → String
  | assign slot value => line indent (scope.slotName slot ++ " = " ++ value.render scope ++ ";")
  | delegate call => line indent (call.render scope ++ ";")
  | eval value => line indent (value.render scope ++ ";")
  | raise value => line indent ("throw " ++ value.render scope ++ ";")
  | branch cond t e =>
    line indent ("if (" ++ cond.render scope ++ ")") ++ line indent "\x7b" ++
      renderBlock scope (indent + 4) t ++ line indent "\x7d" ++
      if e.isEmpty then ""
      else line indent "else" ++ line indent "\x7b" ++ renderBlock scope (indent + 4) e ++ line indent "\x7d"

def renderBlock (scope : Scope) (indent : Nat) : List Stmt → String
  | [] => ""
  | s :: ss => render scope indent s ++ renderBlock scope indent ss

end

end Stmt

end DeclRecovery
