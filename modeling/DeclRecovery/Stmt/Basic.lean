import DeclRecovery.Expr.Basic

/-!
Constructor bodies: stores into slots of the instance, calls that hand over to another constructor,
evaluations, branches and throws.

A branch that does nothing but store one slot on either side counts as a single store of a choice
(`twoWayStore?`); any other store inside a branch happens conditionally.
-/

namespace DeclRecovery

/-- Which constructor a delegation runs: the one of the base type, or another one of the same type. -/
inductive DelegationTarget where
  | base
  | ctor (id : CtorId)
  deriving DecidableEq, Repr

/-- A call that hands over to another constructor. -/
structure Delegation where
  target : DelegationTarget
  args : List Expr
  deriving DecidableEq, Repr

inductive Stmt where
  | assign (slot : SlotId) (value : Expr)
  | delegate (call : Delegation)
  | eval (value : Expr)
  | branch (cond : Expr) (thenBranch elseBranch : List Stmt)
  | raise (value : Expr)
  deriving Inhabited, Repr

namespace Stmt

/-- Hands over to the constructor of the base type. -/
def base (args : List Expr) : Stmt := delegate ⟨.base, args⟩

/-- Hands over to another constructor of the same type. -/
def chain (target : CtorId) (args : List Expr) : Stmt := delegate ⟨.ctor target, args⟩

theorem sizeOf_lt_of_mem_branches {s : Stmt} {c : Expr} {t e : List Stmt} (h : s ∈ t ++ e) :
    sizeOf s < sizeOf (branch c t e) := by
  rcases List.mem_append.1 h with h | h <;> have := List.sizeOf_lt_of_mem h <;> simp <;> omega

/-- Induction that reaches the statements inside a branch. -/
theorem induct {motive : Stmt → Prop} (assign : ∀ slot value, motive (.assign slot value))
    (delegate : ∀ call, motive (.delegate call)) (eval : ∀ value, motive (.eval value))
    (branch : ∀ c t e, (∀ s ∈ t, motive s) → (∀ s ∈ e, motive s) → motive (.branch c t e))
    (raise : ∀ value, motive (.raise value)) : ∀ s, motive s
  | .assign slot value => assign slot value
  | .delegate call => delegate call
  | .eval value => eval value
  | .branch c t e =>
    branch c t e (fun s _hs => induct assign delegate eval branch raise s)
      (fun s _hs => induct assign delegate eval branch raise s)
  | .raise value => raise value
termination_by s => sizeOf s
decreasing_by
  · exact sizeOf_lt_of_mem_branches (List.mem_append_left _ _hs)
  · exact sizeOf_lt_of_mem_branches (List.mem_append_right _ _hs)

/-! ### Equality -/

mutual

/-- Whether two statements are the same. -/
def same : Stmt → Stmt → Bool
  | assign slot value, assign slot' value' => slot == slot' && value == value'
  | delegate call, delegate call' => call == call'
  | eval value, eval value' => value == value'
  | branch c t e, branch c' t' e' => c == c' && sameBlock t t' && sameBlock e e'
  | raise value, raise value' => value == value'
  | _, _ => false

def sameBlock : List Stmt → List Stmt → Bool
  | [], [] => true
  | s :: ss, s' :: ss' => same s s' && sameBlock ss ss'
  | _, _ => false

end

theorem sameBlock_iff {l r : List Stmt} (ih : ∀ s ∈ l, ∀ b, same s b = true ↔ s = b) :
    sameBlock l r = true ↔ l = r := by
  induction l generalizing r with
  | nil => cases r <;> simp [sameBlock]
  | cons s ss ihs =>
    cases r with
    | nil => simp [sameBlock]
    | cons b bs =>
      simp [sameBlock, ih s List.mem_cons_self b, ihs fun c hc => ih c (List.mem_cons_of_mem _ hc)]

theorem same_iff (a b : Stmt) : same a b = true ↔ a = b := by
  induction a using induct generalizing b with
  | branch c t e iht ihe => cases b <;> simp [same, sameBlock_iff iht, sameBlock_iff ihe, and_assoc]
  | _ => cases b <;> simp [same]

instance : DecidableEq Stmt := fun a b => decidable_of_iff _ (same_iff a b)

/-! ### Stores -/

def assignedSlot? : Stmt → Option SlotId
  | assign slot _ => some slot
  | _ => none

mutual

/-- Whether the statement stores `slot`, at the top or inside a branch. -/
def stores (slot : SlotId) : Stmt → Bool
  | assign target _ => target == slot
  | branch _ t e => anyStores slot t || anyStores slot e
  | _ => false

def anyStores (slot : SlotId) : List Stmt → Bool
  | [] => false
  | s :: ss => stores slot s || anyStores slot ss

end

theorem anyStores_eq (slot : SlotId) (block : List Stmt) : anyStores slot block = block.any (stores slot) := by
  induction block with
  | nil => rfl
  | cons s ss ih => rw [anyStores, ih, List.any_cons]

/-- `if (c) s = a; else s = b;`, as the single store of a choice. -/
def twoWayStore? : Stmt → Option (SlotId × Expr)
  | branch cond [assign slot thenValue] [assign other elseValue] =>
    if slot = other then some (slot, .select cond thenValue elseValue) else none
  | _ => none

/-- The slot and the value of a statement that is one store and nothing else. -/
def singleStore? : Stmt → Option (SlotId × Expr)
  | assign slot value => some (slot, value)
  | s => s.twoWayStore?

/-- Whether some way through the statement stores `slot` and another may not. -/
def assignsConditionally (slot : SlotId) (s : Stmt) : Bool :=
  match s with
  | branch .. => s.stores slot && s.twoWayStore?.map Prod.fst != some slot
  | _ => false

/-! ### Delegations -/

def delegation? : Stmt → Option Delegation
  | delegate call => some call
  | _ => none

mutual

/-- Whether a delegation stands inside a branch of the statement. -/
def hasNestedDelegation : Stmt → Bool
  | branch _ t e => anyDelegation t || anyDelegation e
  | _ => false

/-- Whether one of the statements is a delegation or has one inside. -/
def anyDelegation : List Stmt → Bool
  | [] => false
  | s :: ss => (delegation? s).isSome || hasNestedDelegation s || anyDelegation ss

end

/-! ### Expressions -/

mutual

/-- Applies `f` to every expression of the statement, inside branches, too. -/
def mapExprs (f : Expr → Expr) : Stmt → Stmt
  | assign slot value => assign slot (f value)
  | delegate call => delegate { call with args := call.args.map f }
  | eval value => eval (f value)
  | branch cond t e => branch (f cond) (mapExprsEach f t) (mapExprsEach f e)
  | raise value => raise (f value)

def mapExprsEach (f : Expr → Expr) : List Stmt → List Stmt
  | [] => []
  | s :: ss => mapExprs f s :: mapExprsEach f ss

end

end Stmt

end DeclRecovery
