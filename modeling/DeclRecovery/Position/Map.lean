import DeclRecovery.Position.Set

/-!
Finite maps from positions, listed by ascending key. The first value given for a key stays: `add` never
replaces one.
-/

namespace DeclRecovery

/-- A finite map from positions to `α`, listed by ascending key. -/
structure PosMap (α : Type) where
  entries : List (Nat × α)
  ascending : (entries.map Prod.fst).Pairwise (· < ·)

instance {α : Type} [DecidableEq α] : DecidableEq (PosMap α) := fun a b =>
  decidable_of_iff (a.entries = b.entries) (by cases a; cases b; simp)

namespace PosMap

variable {α : Type}

/-- The entry for `k` put in its place, unless `k` has one. -/
def addAsc (k : Nat) (v : α) : List (Nat × α) → List (Nat × α)
  | [] => [(k, v)]
  | (m, w) :: rest =>
    if k < m then (k, v) :: (m, w) :: rest
    else if k = m then (m, w) :: rest
    else (m, w) :: addAsc k v rest

theorem map_fst_addAsc {k : Nat} {v : α} {l : List (Nat × α)} :
    (addAsc k v l).map Prod.fst = PosSet.insertAsc k (l.map Prod.fst) := by
  induction l with
  | nil => rfl
  | cons e rest ih =>
    simp only [addAsc, PosSet.insertAsc, List.map_cons]
    split
    · rfl
    · split
      · rfl
      · simp [ih]

def empty : PosMap α := ⟨[], by simp⟩

instance : EmptyCollection (PosMap α) := ⟨empty⟩

/-- The map with `v` at `k`, unless it has a value there already. -/
def add (m : PosMap α) (k : Nat) (v : α) : PosMap α :=
  ⟨addAsc k v m.entries, by rw [map_fst_addAsc]; exact PosSet.pairwise_insertAsc m.ascending⟩

def ofList (l : List (Nat × α)) : PosMap α := l.foldl (fun m e => m.add e.1 e.2) empty

def find? (m : PosMap α) (k : Nat) : Option α := (m.entries.find? fun e => e.1 == k).map Prod.snd

def contains (m : PosMap α) (k : Nat) : Bool := (m.find? k).isSome

def keys (m : PosMap α) : PosSet := ⟨m.entries.map Prod.fst, m.ascending⟩

def values (m : PosMap α) : List α := m.entries.map Prod.snd

theorem find?_add {m : PosMap α} {k j : Nat} {v : α} :
    (m.add k v).find? j = if j = k then some ((m.find? k).getD v) else m.find? j := by
  obtain ⟨l, hl⟩ := m
  simp only [add, find?]
  induction l with
  | nil =>
    by_cases h : j = k
    · simp [addAsc, h]
    · simp [addAsc, h, Ne.symm h]
  | cons e rest ih =>
    obtain ⟨c, w⟩ := e
    have hrest := (List.pairwise_cons.1 hl).2
    have hc := (List.pairwise_cons.1 hl).1
    have ih := ih hrest
    have absent : k < c → (rest.find? fun e => e.1 == k) = none := by
      intro hk
      rw [List.find?_eq_none]
      intro e he
      have := hc e.1 (List.mem_map_of_mem he)
      simp only [beq_iff_eq]
      omega
    simp only [addAsc]
    split
    · next hk =>
      by_cases h : j = k
      · subst h
        have hne : c ≠ j := by omega
        simp [hne, absent hk]
      · simp [List.find?_cons, h, Ne.symm h]
    · split
      · next hk =>
        subst hk
        by_cases h : j = k
        · simp [h]
        · simp [h, Ne.symm h]
      · next hlt hne =>
        by_cases h : c = j
        · subst h
          simp [Ne.symm hne]
        · have hck : c ≠ k := Ne.symm hne
          have hcj : (c == j) = false := by simpa using h
          have hck' : (c == k) = false := by simpa using hck
          simpa only [List.find?_cons, hcj, hck'] using ih

@[simp] theorem mem_keys_add {m : PosMap α} {k j : Nat} {v : α} : j ∈ (m.add k v).keys ↔ j = k ∨ j ∈ m.keys := by
  simp only [keys, add, PosSet.mem_def, map_fst_addAsc]
  exact PosSet.mem_insertAsc

theorem contains_iff {m : PosMap α} {k : Nat} : m.contains k = true ↔ k ∈ m.keys := by
  simp only [contains, find?, Option.isSome_map, List.find?_isSome, beq_iff_eq, PosSet.mem_def, keys,
    List.mem_map]

end PosMap

end DeclRecovery
