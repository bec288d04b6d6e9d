import DeclRecovery.Position.Basic

/-!
Expressions as they stand in constructor bodies and slot initializers.

An expression is a node with a `Head`, which holds everything but the subexpressions, and its `children` in
evaluation order; the two determine it (`Expr.ext`). Recursion over expressions goes through `Expr.para`,
whose value at a node is computed from the node and the values at its children (`para_eq`), and proofs go
through `Expr.induct`. Equality of expressions is decided that way, too.
-/

namespace DeclRecovery

inductive Literal where
  | null
  | bool (value : Bool)
  | int (value : Int)
  | str (value : String)
  /-- The zero value of the named type. -/
  | default (type : String)
  deriving DecidableEq, Repr

namespace Literal

/-- Whether storing the literal into a freshly zeroed slot changes nothing. -/
def isZero : Literal → Bool
  | null | default _ => true
  | bool b => !b
  | int n => n == 0
  | str _ => false

end Literal

inductive BinaryOp where
  | add | sub | mul | div | rem | bitAnd | bitOr | and | or | eq | ne | lt | le | gt | ge
  deriving DecidableEq, Repr

namespace BinaryOp

/-- Division and remainder fail on a zero divisor; no other operator does. -/
def mayThrow : BinaryOp → Bool
  | div | rem => true
  | _ => false

end BinaryOp

inductive UnaryOp where
  | not | neg
  deriving DecidableEq, Repr

/-- What a call names. A pure callee computes a value from its arguments and does nothing else. -/
structure Callee where
  name : String
  pure : Bool := false
  deriving DecidableEq, Repr

inductive Expr where
  | literal (value : Literal)
  /-- The constructor parameter at the given position. -/
  | param (index : Nat)
  /-- The instance under construction. -/
  | self
  /-- The value of a slot of the instance under construction. -/
  | member (slot : SlotId)
  /-- A member of another object. `nonNull` says that the member itself is never null. -/
  | field (target : Expr) (name : String) (nonNull : Bool)
  | call (callee : Callee) (args : List Expr)
  | invoke (receiver : Expr) (callee : Callee) (args : List Expr)
  | new (type : String) (args : List Expr)
  | binary (op : BinaryOp) (lhs rhs : Expr)
  | unary (op : UnaryOp) (operand : Expr)
  | convert (type : String) (value : Expr)
  /-- A two-way choice of values, as a branch leaves it behind. -/
  | select (cond thenValue elseValue : Expr)
  /-- A choice that is written as one: `cond ? a : b`. -/
  | conditional (cond whenTrue whenFalse : Expr)
  /-- `value ?? fallback`. -/
  | coalesce (value fallback : Expr)
  /-- `target?.name`. -/
  | access (target : Expr) (name : String)
  | raise (value : Expr)
  deriving Inhabited, Repr

/-- A node without its children: which kind of expression it is, and its own data. -/
inductive Head where
  | literal (value : Literal)
  | param (index : Nat)
  | self
  | member (slot : SlotId)
  | field (name : String) (nonNull : Bool)
  | call (callee : Callee)
  | invoke (callee : Callee)
  | new (type : String)
  | binary (op : BinaryOp)
  | unary (op : UnaryOp)
  | convert (type : String)
  | select
  | conditional
  | coalesce
  | access (name : String)
  | raise
  deriving DecidableEq, Repr

namespace Expr

def head : Expr → Head
  | literal v => .literal v
  | param i => .param i
  | self => .self
  | member s => .member s
  | field _ name nonNull => .field name nonNull
  | call callee _ => .call callee
  | invoke _ callee _ => .invoke callee
  | new type _ => .new type
  | binary op _ _ => .binary op
  | unary op _ => .unary op
  | convert type _ => .convert type
  | select .. => .select
  | conditional .. => .conditional
  | coalesce .. => .coalesce
  | access _ name => .access name
  | raise _ => .raise

/-- The subexpressions, in the order in which they are evaluated. -/
def children : Expr → List Expr
  | literal _ | param _ | self | member _ => []
  | field target _ _ => [target]
  | call _ args => args
  | invoke receiver _ args => receiver :: args
  | new _ args => args
  | binary _ lhs rhs => [lhs, rhs]
  | unary _ operand => [operand]
  | convert _ value => [value]
  | select cond thenValue elseValue => [cond, thenValue, elseValue]
  | conditional cond whenTrue whenFalse => [cond, whenTrue, whenFalse]
  | coalesce value fallback => [value, fallback]
  | access target _ => [target]
  | raise value => [value]

/-- The node with the same head over other children. A list that does not fit the head changes nothing. -/
def withChildren : Expr → List Expr → Expr
  | field _ name nonNull, [target] => field target name nonNull
  | call callee _, args => call callee args
  | invoke _ callee _, receiver :: args => invoke receiver callee args
  | new type _, args => new type args
  | binary op _ _, [lhs, rhs] => binary op lhs rhs
  | unary op _, [operand] => unary op operand
  | convert type _, [value] => convert type value
  | select _ _ _, [cond, thenValue, elseValue] => select cond thenValue elseValue
  | conditional _ _ _, [cond, whenTrue, whenFalse] => conditional cond whenTrue whenFalse
  | coalesce _ _, [value, fallback] => coalesce value fallback
  | access _ name, [target] => access target name
  | raise _, [value] => raise value
  | e, _ => e

/-- An expression is its head together with its children. -/
theorem ext {a b : Expr} (hh : a.head = b.head) (hc : a.children = b.children) : a = b := by
  cases a <;> cases b <;> simp_all [head, children]

theorem ext_iff {a b : Expr} : a = b ↔ a.head = b.head ∧ a.children = b.children :=
  ⟨fun h => h ▸ ⟨rfl, rfl⟩, fun h => ext h.1 h.2⟩

theorem sizeOf_lt_of_mem_children {c e : Expr} (h : c ∈ e.children) : sizeOf c < sizeOf e := by
  have inList : ∀ {l : List Expr}, c ∈ l → sizeOf c < sizeOf l := List.sizeOf_lt_of_mem
  cases e <;> simp only [children, List.mem_cons, List.not_mem_nil, or_false] at h <;> grind

/-- Induction over the children of a node. -/
theorem induct {motive : Expr → Prop} (step : ∀ e, (∀ c ∈ e.children, motive c) → motive e) (e : Expr) :
    motive e :=
  step e fun c _h => induct step c
termination_by sizeOf e
decreasing_by exact sizeOf_lt_of_mem_children _h

/-! ### Recursion -/

section Para

variable {α : Type} (f : Expr → List α → α)

mutual

/-- The value at a node, computed by `f` from the node and the values at its children. -/
def para : Expr → α
  | literal v => f (literal v) []
  | param i => f (param i) []
  | self => f self []
  | member s => f (member s) []
  | field target name nonNull => f (field target name nonNull) [para target]
  | call callee args => f (call callee args) (paraAll args)
  | invoke receiver callee args => f (invoke receiver callee args) (para receiver :: paraAll args)
  | new type args => f (new type args) (paraAll args)
  | binary op lhs rhs => f (binary op lhs rhs) [para lhs, para rhs]
  | unary op operand => f (unary op operand) [para operand]
  | convert type value => f (convert type value) [para value]
  | select c t e => f (select c t e) [para c, para t, para e]
  | conditional c t e => f (conditional c t e) [para c, para t, para e]
  | coalesce value fallback => f (coalesce value fallback) [para value, para fallback]
  | access target name => f (access target name) [para target]
  | raise value => f (raise value) [para value]

/-- The values at each expression of a list. -/
def paraAll : List Expr → List α
  | [] => []
  | e :: es => para e :: paraAll es

end

theorem paraAll_eq (es : List Expr) : paraAll f es = es.map (para f) := by
  induction es with
  | nil => rw [paraAll, List.map_nil]
  | cons e es ih => rw [paraAll, ih, List.map_cons]

theorem para_eq (e : Expr) : para f e = f e (e.children.map (para f)) := by
  cases e <;> simp [para, paraAll_eq, children]

/-- Two functions that agree at every node with a property that children share compute the same. -/
theorem para_congr {f g : Expr → List α → α} {P : Expr → Prop} (hchild : ∀ {e c : Expr}, P e → c ∈ e.children → P c)
    (hnode : ∀ {e : Expr}, P e → f e = g e) {e : Expr} (h : P e) : para f e = para g e := by
  induction e using induct with
  | step e ih =>
    have hchildren : e.children.map (para f) = e.children.map (para g) :=
      List.map_congr_left fun c hc => ih c hc (hchild h hc)
    rw [para_eq, para_eq, hchildren, hnode h]

end Para

/-! ### Equality -/

/-- Whether two trees are the same, node by node. -/
def same : Expr → Expr → Bool :=
  para fun a subs b =>
    a.head == b.head && subs.length == b.children.length && (subs.zipWith (fun s c => s c) b.children).all id

theorem zipWith_same_iff {l r : List Expr} (ih : ∀ c ∈ l, ∀ b, same c b = true ↔ c = b) :
    (l.length = r.length ∧ ((l.map same).zipWith (fun s c => s c) r).all id = true) ↔ l = r := by
  induction l generalizing r with
  | nil => cases r <;> simp
  | cons a as iha =>
    cases r with
    | nil => simp
    | cons b bs =>
      have ha := ih a List.mem_cons_self b
      have has := iha (r := bs) fun c hc => ih c (List.mem_cons_of_mem _ hc)
      simp only [List.length_cons, List.map_cons, List.zipWith_cons_cons, List.all_cons, id, Bool.and_eq_true,
        List.cons.injEq, Nat.add_right_cancel_iff] at has ⊢
      grind

theorem same_iff (a b : Expr) : same a b = true ↔ a = b := by
  induction a using induct generalizing b with
  | step a ih =>
    rw [same, para_eq]
    simp only [Bool.and_eq_true, beq_iff_eq, List.length_map]
    rw [and_assoc]
    rw [ext_iff]
    exact and_congr_right fun _ => zipWith_same_iff ih

instance : DecidableEq Expr := fun a b => decidable_of_iff _ (same_iff a b)

/-! ### Views -/

def asLiteral? : Expr → Option Literal
  | literal v => some v
  | _ => none

def asParam? : Expr → Option Nat
  | param i => some i
  | _ => none

/-- Whether the expression is a literal of zero value. -/
def isZero (e : Expr) : Bool := e.asLiteral?.any Literal.isZero

end Expr

end DeclRecovery
