import DeclRecovery.Parameter
import DeclRecovery.Text.Quoted

/-!
Expressions as text. Operator forms are put in parentheses where they stand as operands, so the text shows
how an expression is grouped.
-/

namespace DeclRecovery

namespace Literal

def render : Literal → String
  | null => "null"
  | bool b => if b then "true" else "false"
  | int n => toString n
  | str s => Text.quote s
  | default type => "default(" ++ type ++ ")"

end Literal

namespace BinaryOp

def symbol : BinaryOp → String
  | add => "+"
  | sub => "-"
  | mul => "*"
  | div => "/"
  | rem => "%"
  | bitAnd => "&"
  | bitOr => "|"
  | and => "&&"
  | or => "||"
  | eq => "=="
  | ne => "!="
  | lt => "<"
  | le => "<="
  | gt => ">"
  | ge => ">="

end BinaryOp

namespace UnaryOp

def symbol : UnaryOp → String
  | not => "!"
  | neg => "-"

end UnaryOp

/-- The names that slots and parameters go by in a piece of text. -/
structure Scope where
  slotNames : List String
  paramNames : List String

namespace Scope

def slotName (s : Scope) (slot : SlotId) : String := s.slotNames[slot]?.getD s!"slot#{slot}"

def paramName (s : Scope) (i : Nat) : String := s.paramNames[i]?.getD s!"arg{i}"

end Scope

namespace Expr

/-- The forms that need parentheses as operands. -/
def isCompound : Expr → Bool
  | binary .. | conditional .. | coalesce .. | raise _ => true
  | _ => false

/-- The text of `e` where it stands as an operand. -/
def grouped (e : Expr) (text : String) : String := if e.isCompound then "(" ++ text ++ ")" else text

mutual

def render (s : Scope) : Expr → String
  | literal v => v.render
  | param i => s.paramName i
  | self => "this"
  | member slot => s.slotName slot
  | field target name _ => target.grouped (render s target) ++ "." ++ name
  | call callee args => callee.name ++ "(" ++ ", ".intercalate (renderEach s args) ++ ")"
  | invoke receiver callee args =>
    receiver.grouped (render s receiver) ++ "." ++ callee.name ++ "(" ++ ", ".intercalate (renderEach s args) ++ ")"
  | new type args => "new " ++ type ++ "(" ++ ", ".intercalate (renderEach s args) ++ ")"
  | binary op lhs rhs => lhs.grouped (render s lhs) ++ " " ++ op.symbol ++ " " ++ rhs.grouped (render s rhs)
  | unary op operand => op.symbol ++ operand.grouped (render s operand)
  | convert type value => "(" ++ type ++ ")" ++ value.grouped (render s value)
  | select cond thenValue elseValue =>
    "select(" ++ render s cond ++ ", " ++ render s thenValue ++ ", " ++ render s elseValue ++ ")"
  | conditional cond whenTrue whenFalse =>
    cond.grouped (render s cond) ++ " ? " ++ whenTrue.grouped (render s whenTrue) ++ " : " ++
      whenFalse.grouped (render s whenFalse)
  | coalesce value fallback => value.grouped (render s value) ++ " ?? " ++ fallback.grouped (render s fallback)
  | access target name => target.grouped (render s target) ++ "?." ++ name
  | raise value => "throw " ++ value.grouped (render s value)

def renderEach (s : Scope) : List Expr → List String
  | [] => []
  | e :: es => render s e :: renderEach s es

end

/-- The arguments of a call, between its parentheses. -/
def renderArgs (s : Scope) (args : List Expr) : String := ", ".intercalate (renderEach s args)

end Expr

end DeclRecovery
