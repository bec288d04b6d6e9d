/-!
Finite sets of positions. A set is its members in strictly ascending order, so two sets with the same
members are equal (`PosSet.ext_mem`) and listing a set needs no sorting.
-/

namespace DeclRecovery

/-- A finite set of positions, listed in ascending order. -/
structure PosSet where
  toList : List Nat
  ascending : toList.Pairwise (· < ·)
  deriving DecidableEq

namespace PosSet

instance : Membership Nat PosSet := ⟨fun s n => n ∈ s.toList⟩

instance (n : Nat) (s : PosSet) : Decidable (n ∈ s) := inferInstanceAs (Decidable (n ∈ s.toList))

theorem mem_def {n : Nat} {s : PosSet} : n ∈ s ↔ n ∈ s.toList := Iff.rfl

/-! ### Insertion into an ascending list -/

/-- `n` put in its place; a list that has it already is left as it is. -/
def insertAsc (n : Nat) : List Nat → List Nat
  | [] => [n]
  | m :: ms => if n < m then n :: m :: ms else if n = m then m :: ms else m :: insertAsc n ms

theorem mem_insertAsc {n k : Nat} {l : List Nat} : k ∈ insertAsc n l ↔ k = n ∨ k ∈ l := by
  induction l with
  | nil => simp [insertAsc]
  | cons m ms ih =>
    rw [insertAsc]
    split
    · simp
    · split
      · subst_vars
        simp
      · simp only [List.mem_cons, ih]
        grind

theorem pairwise_insertAsc {n : Nat} {l : List Nat} (h : l.Pairwise (· < ·)) :
    (insertAsc n l).Pairwise (· < ·) := by
  induction l with
  | nil => simp [insertAsc]
  | cons m ms ih =>
    obtain ⟨hm, hms⟩ := List.pairwise_cons.1 h
    rw [insertAsc]
    split
    · next hlt =>
      refine List.pairwise_cons.2 ⟨fun k hk => ?_, h⟩
      rcases List.mem_cons.1 hk with rfl | hk
      · exact hlt
      · exact Nat.lt_trans hlt (hm k hk)
    · split
      · exact h
      · refine List.pairwise_cons.2 ⟨fun k hk => ?_, ih hms⟩
        rcases mem_insertAsc.1 hk with rfl | hk
        · omega
        · exact hm k hk

/-! ### Operations -/

def empty : PosSet := ⟨[], .nil⟩

instance : EmptyCollection PosSet := ⟨empty⟩

def insert (n : Nat) (s : PosSet) : PosSet := ⟨insertAsc n s.toList, pairwise_insertAsc s.ascending⟩

def singleton (n : Nat) : PosSet := ⟨[n], by simp⟩

def ofList (l : List Nat) : PosSet := l.foldl (fun s n => s.insert n) empty

def union (s t : PosSet) : PosSet := t.toList.foldl (fun s n => s.insert n) s

def filter (p : Nat → Bool) (s : PosSet) : PosSet := ⟨s.toList.filter p, s.ascending.filter _⟩

def isEmpty (s : PosSet) : Bool := s.toList.isEmpty

def all (s : PosSet) (p : Nat → Bool) : Bool := s.toList.all p

def size (s : PosSet) : Nat := s.toList.length

@[simp] theorem not_mem_empty {n : Nat} : n ∉ empty := by simp [mem_def, empty]

@[simp] theorem mem_insert {n k : Nat} {s : PosSet} : k ∈ s.insert n ↔ k = n ∨ k ∈ s := mem_insertAsc

@[simp] theorem mem_singleton {n k : Nat} : k ∈ singleton n ↔ k = n := by simp [mem_def, singleton]

theorem mem_foldl_insert {l : List Nat} {s : PosSet} {k : Nat} :
    k ∈ l.foldl (fun s n => s.insert n) s ↔ k ∈ s ∨ k ∈ l := by
  induction l generalizing s with
  | nil => simp
  | cons n ns ih => grind [mem_insert]

@[simp] theorem mem_ofList {l : List Nat} {k : Nat} : k ∈ ofList l ↔ k ∈ l := by
  simp [ofList, mem_foldl_insert]

@[simp] theorem mem_union {s t : PosSet} {k : Nat} : k ∈ s.union t ↔ k ∈ s ∨ k ∈ t := mem_foldl_insert

@[simp] theorem mem_filter {p : Nat → Bool} {s : PosSet} {k : Nat} : k ∈ s.filter p ↔ k ∈ s ∧ p k = true := by
  simp [mem_def, filter]

theorem size_filter_le {p : Nat → Bool} {s : PosSet} : (s.filter p).size ≤ s.size := List.length_filter_le ..

/-- Two ascending lists with the same members are equal. -/
theorem eq_of_mem_iff {l r : List Nat} (hl : l.Pairwise (· < ·)) (hr : r.Pairwise (· < ·))
    (h : ∀ n, n ∈ l ↔ n ∈ r) : l = r := by
  induction l generalizing r with
  | nil =>
    cases r with
    | nil => rfl
    | cons m ms => simpa using h m
  | cons n ns ih =>
    cases r with
    | nil => simpa using h n
    | cons m ms =>
      obtain ⟨hn, hns⟩ := List.pairwise_cons.1 hl
      obtain ⟨hm, hms⟩ := List.pairwise_cons.1 hr
      have heads : n = m := by
        have h₁ := (h n).1 List.mem_cons_self
        have h₂ := (h m).2 List.mem_cons_self
        rcases List.mem_cons.1 h₁ with e | h₁
        · exact e
        · rcases List.mem_cons.1 h₂ with e | h₂
          · exact e.symm
          · have := hn m h₂
            have := hm n h₁
            omega
      subst heads
      rw [ih hns hms fun k => ?_]
      have hk := h k
      simp only [List.mem_cons] at hk
      constructor
      · intro hkn
        have := hn k hkn
        exact (hk.1 (.inr hkn)).resolve_left (by omega)
      · intro hkm
        have := hm k hkm
        exact (hk.2 (.inr hkm)).resolve_left (by omega)

theorem ext_mem {s t : PosSet} (h : ∀ n, n ∈ s ↔ n ∈ t) : s = t := by
  obtain ⟨l, hl⟩ := s
  obtain ⟨r, hr⟩ := t
  have : l = r := eq_of_mem_iff hl hr h
  subst this
  rfl

end PosSet

end DeclRecovery
