import DeclRecovery.Expr.Printer
import Mathlib.Data.List.Nodup

/-!
Names in the text of an expression. Between them stand only `Text.marks`, so a name ends where no name goes on, and a row
of parts can be cut in one way (`Text.row_append_inj`) if each part can be told where it ends.
-/

namespace DeclRecovery

namespace Text

/-- The characters that stand between the names of a text. -/
def marks : List Char := [' ', '(', ')', '.', '?', ':', '!', '-', '+', '*', '/', '%', '&', '|', '=', '<', '>']

def IsName (name : String) : Prop := name.toList ≠ [] ∧ ∀ c ∈ name.toList, c ∉ marks

-- decided along the name: the search for an instance may find one that goes through all characters
instance : DecidablePred IsName := fun name => @instDecidableAnd _ _ _ (List.decidableBAll (· ∉ marks) name.toList)

/-- What stands between two operands, with a space on each side. -/
def IsWord (word : List Char) : Prop := ∀ c ∈ word, c ∈ marks ∧ c ≠ ' ' ∧ c ≠ '('

instance : DecidablePred IsWord := List.decidableBAll fun c => c ∈ marks ∧ c ≠ ' ' ∧ c ≠ '('

/-- Here no name goes on. -/
def Stops (rest : List Char) : Prop := ∀ c ∈ rest.head?, c ∈ marks

/-- Here no operand goes on. -/
def Ends (rest : List Char) : Prop := ∀ c ∈ rest.head?, c = ' ' ∨ c = ')'

/-- Here no operator form goes on. -/
def Closes (rest : List Char) : Prop := ∀ c ∈ rest.head?, c = ')'

theorem Closes.ends {rest : List Char} (h : Closes rest) : Ends rest := fun c hc => .inr (h c hc)

theorem Ends.stops {rest : List Char} (h : Ends rest) : Stops rest := fun c hc => by
  rcases h c hc with rfl | rfl <;> decide

theorem stops_cons {c : Char} {rest : List Char} : Stops (c :: rest) ↔ c ∈ marks := by simp [Stops]

theorem ends_cons {c : Char} {rest : List Char} : Ends (c :: rest) ↔ c = ' ' ∨ c = ')' := by simp [Ends]

theorem closes_nil : Closes [] := by simp [Closes]

theorem closes_cons {c : Char} {rest : List Char} : Closes (c :: rest) ↔ c = ')' := by simp [Closes]

/-- A text is cut in one way before the first character that has the property. -/
theorem append_inj_of_head {p : Char → Prop} {l l' r r' : List Char} (hl : ∀ c ∈ l, ¬p c) (hl' : ∀ c ∈ l', ¬p c)
    (hr : ∀ c ∈ r.head?, p c) (hr' : ∀ c ∈ r'.head?, p c) (h : l ++ r = l' ++ r') : l = l' ∧ r = r' := by
  induction l generalizing l' with
  | nil =>
    cases l' with
    | nil => exact ⟨rfl, h⟩
    | cons c l' =>
      subst h
      exact absurd (hr c rfl) (hl' c List.mem_cons_self)
  | cons c l ih =>
    cases l' with
    | nil =>
      subst h
      exact absurd (hr' c rfl) (hl c List.mem_cons_self)
    | cons c' l' =>
      obtain ⟨rfl, htail⟩ := List.cons.inj h
      obtain ⟨rfl, rfl⟩ := ih (fun x hx => hl x (.tail _ hx)) (fun x hx => hl' x (.tail _ hx)) htail
      exact ⟨rfl, rfl⟩

theorem IsName.append_inj {name name' : String} (hname : IsName name) (hname' : IsName name') {r r' : List Char}
    (hr : Stops r) (hr' : Stops r') (h : name.toList ++ r = name'.toList ++ r') : name = name' ∧ r = r' := by
  obtain ⟨hnames, hrest⟩ := append_inj_of_head (p := (· ∈ marks)) hname.2 hname'.2 hr hr' h
  exact ⟨String.toList_injective hnames, hrest⟩

/-- A name does not start as anything else does. -/
theorem IsName.append_ne_cons {name : String} (hname : IsName name) {c : Char} (hc : c ∈ marks) (r r' : List Char) :
    name.toList ++ r ≠ c :: r' := by
  obtain ⟨x, xs, hx⟩ := List.exists_cons_of_ne_nil hname.1
  intro h
  rw [hx] at h
  cases h
  exact hname.2 c (hx ▸ List.mem_cons_self) hc

theorem IsWord.paren_ne_append {word : List Char} (hword : IsWord word) (r rest : List Char) :
    '(' :: r ≠ word ++ ' ' :: rest := by
  intro h
  rcases word with _ | ⟨c, word⟩
  · cases h
  · cases h
    exact (hword '(' List.mem_cons_self).2.2 rfl

theorem IsName.append_ne_word {name : String} (hname : IsName name) {word : List Char} (hword : IsWord word)
    (r rest : List Char) : name.toList ++ r ≠ word ++ ' ' :: rest := by
  rcases word with _ | ⟨c, word⟩
  · exact hname.append_ne_cons (by decide) _ _
  · exact hname.append_ne_cons (hword c List.mem_cons_self).1 _ _

theorem next_row_append {α : Type} {text : α → List Char} {Next : List Char → Prop} (hnext : ∀ a x, Next (text a ++ x))
    (l : List α) {r : List Char} (hr : Next r) : Next (l.flatMap text ++ r) := by
  cases l with
  | nil => exact hr
  | cons a l =>
    rw [List.flatMap_cons, List.append_assoc]
    exact hnext a _

/-- A row of parts, of which each can be told where it ends, ends before a rest that is not a further part. -/
theorem row_append_inj {α β : Type} {text : α → List Char} (key : α → β) (Next : List Char → Prop)
    (hnext : ∀ a x, Next (text a ++ x)) {l l' : List α} {r r' : List Char} (hr : Next r) (hr' : Next r')
    (hlast : ∀ a ∈ l, ∀ x, text a ++ x ≠ r') (hlast' : ∀ a ∈ l', ∀ x, text a ++ x ≠ r)
    (hpart : ∀ a ∈ l, ∀ a' ∈ l', ∀ x x', Next x → Next x' → text a ++ x = text a' ++ x' → key a = key a' ∧ x = x')
    (h : l.flatMap text ++ r = l'.flatMap text ++ r') : l.map key = l'.map key ∧ r = r' := by
  induction l generalizing l' with
  | nil =>
    cases l' with
    | nil => exact ⟨rfl, h⟩
    | cons a' l' =>
      rw [List.flatMap_cons, List.append_assoc] at h
      exact absurd h.symm (hlast' a' List.mem_cons_self _)
  | cons a l ih =>
    rw [List.flatMap_cons, List.append_assoc] at h
    cases l' with
    | nil => exact absurd h (hlast a List.mem_cons_self _)
    | cons a' l' =>
      rw [List.flatMap_cons, List.append_assoc] at h
      obtain ⟨hkey, hrest⟩ := hpart a List.mem_cons_self a' List.mem_cons_self _ _
        (next_row_append hnext l hr) (next_row_append hnext l' hr') h
      obtain ⟨hkeys, rfl⟩ := ih (fun x hx => hlast x (.tail _ hx)) (fun x hx => hlast' x (.tail _ hx))
        (fun x hx x' hx' => hpart x (.tail _ hx) x' (.tail _ hx')) hrest
      rw [List.map_cons, List.map_cons, hkey, hkeys]
      exact ⟨rfl, rfl⟩

end Text

/-- The parameters can be told apart by what they are called. -/
structure Scope.Clear (s : Scope) : Prop where
  names : ∀ name ∈ s.paramNames, Text.IsName name
  nodup : s.paramNames.Nodup

namespace Scope.Clear

variable {s : Scope}

theorem isName_paramName (hs : s.Clear) {i : Nat} (hi : i < s.paramNames.length) : Text.IsName (s.paramName i) := by
  rw [paramName, List.getElem?_eq_getElem hi]
  exact hs.names _ (List.getElem_mem hi)

theorem paramName_inj (hs : s.Clear) {i j : Nat} (hi : i < s.paramNames.length) (hj : j < s.paramNames.length)
    (h : s.paramName i = s.paramName j) : i = j := by
  rw [paramName, paramName, List.getElem?_eq_getElem hi, List.getElem?_eq_getElem hj] at h
  exact (hs.nodup.getElem_inj_iff).mp h

end Scope.Clear

end DeclRecovery
