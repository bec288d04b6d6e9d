/-!
Slots and constructors are named by their position in the type that holds them. A position may be too large
for the type, so reading at one either gives the element or says how long the list was: `nth` is the one
place where that is decided.
-/

namespace DeclRecovery

/-- A slot, as its position among the slots of its type. -/
abbrev SlotId := Nat

/-- A constructor, as its position among the constructors of its type. -/
abbrev CtorId := Nat

/-- A position that does not exist in a list of the given length. -/
structure OutOfRange where
  length : Nat
  index : Nat
  deriving DecidableEq, Repr

namespace OutOfRange

def message (e : OutOfRange) : String :=
  s!"index out of bounds: the len is {e.length} but the index is {e.index}"

end OutOfRange

/-- The element at position `i`, or the reason why there is none. -/
def nth {α : Type} (xs : List α) (i : Nat) : Except OutOfRange α :=
  match xs[i]? with
  | some x => .ok x
  | none => .error ⟨xs.length, i⟩

theorem nth_eq_ok_iff {α : Type} {xs : List α} {i : Nat} {x : α} : nth xs i = .ok x ↔ xs[i]? = some x := by
  unfold nth
  split <;> simp_all

theorem nth_eq_error_iff {α : Type} {xs : List α} {i : Nat} {e : OutOfRange} :
    nth xs i = .error e ↔ xs.length ≤ i ∧ e = ⟨xs.length, i⟩ := by
  unfold nth
  split
  · next x h =>
    have := (List.getElem?_eq_some_iff.1 h).1
    simp
    omega
  · next h => simp_all [eq_comm]

end DeclRecovery
