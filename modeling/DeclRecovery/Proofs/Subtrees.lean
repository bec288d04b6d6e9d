import DeclRecovery.Expr.BottomUp
import Mathlib.Data.Set.Card

/-!
Where the subexpressions of an expression stand. A position is the way down from the root, as the indices of the children
on it (`Expr.at?`), so equal subexpressions in different places are told apart. All positions are listed with what is
inside a node before the node itself (`Expr.postOrder`, `Expr.Precedes`).

An expression stands nowhere inside itself. So to count one in another it is enough to look on from where it is not found
(`Expr.encard_positions`).
-/

namespace DeclRecovery.Expr

/-! ### Positions -/

/-- The subexpression at a position, if there is one. -/
def at? (e : Expr) : List Nat → Option Expr
  | [] => some e
  | i :: rest => e.children[i]?.bind fun c => c.at? rest

theorem at?_cons_eq_some_iff {e sub : Expr} {i : Nat} {p : List Nat} :
    e.at? (i :: p) = some sub ↔ ∃ c, e.children[i]? = some c ∧ c.at? p = some sub := by
  rw [at?, Option.bind_eq_some_iff]

theorem sizeOf_le_of_at? {e sub : Expr} {p : List Nat} (h : e.at? p = some sub) : sizeOf sub ≤ sizeOf e := by
  induction p generalizing e with
  | nil =>
    cases h
    exact Nat.le_refl _
  | cons i p ih =>
    obtain ⟨c, hc, hsub⟩ := at?_cons_eq_some_iff.mp h
    exact Nat.le_trans (ih hsub) (Nat.le_of_lt (sizeOf_lt_of_mem_children (List.mem_of_getElem? hc)))

/-- No expression stands inside itself. -/
theorem at?_cons_ne_self (e : Expr) (i : Nat) (p : List Nat) : e.at? (i :: p) ≠ some e := by
  intro h
  obtain ⟨c, hc, hsub⟩ := at?_cons_eq_some_iff.mp h
  have := sizeOf_le_of_at? hsub
  have := sizeOf_lt_of_mem_children (List.mem_of_getElem? hc)
  omega

/-! ### The order of positions -/

/-- A position comes before another one: it is inside of it, or at the place where they part it goes to an earlier
child. -/
inductive Precedes : List Nat → List Nat → Prop
  | inside {i : Nat} {p : List Nat} : Precedes (i :: p) []
  | earlier {i j : Nat} {p q : List Nat} (h : i < j) : Precedes (i :: p) (j :: q)
  | within {i : Nat} {p q : List Nat} (h : Precedes p q) : Precedes (i :: p) (i :: q)

theorem Precedes.irrefl (p : List Nat) : ¬Precedes p p := by
  intro h
  induction p with
  | nil => cases h
  | cons i p ih =>
    cases h with
    | earlier h => omega
    | within h => exact ih h

/-- All positions of an expression: those inside its children, child by child, then that of the expression itself. -/
def postOrder : Expr → List (List Nat) :=
  para fun _ orders => (orders.zipIdx.flatMap fun x => x.1.map (x.2 :: ·)) ++ [[]]

theorem postOrder_eq (e : Expr) :
    e.postOrder = (e.children.zipIdx.flatMap fun x => x.1.postOrder.map (x.2 :: ·)) ++ [[]] := by
  rw [postOrder, para_eq, List.zipIdx_map, List.flatMap_map]
  rfl

theorem mem_postOrder {e : Expr} {p : List Nat} : p ∈ e.postOrder ↔ ∃ sub, e.at? p = some sub := by
  induction e using induct generalizing p with
  | step e ih =>
    rw [postOrder_eq, List.mem_append, List.mem_flatMap, List.mem_singleton]
    cases p with
    | nil => simp [at?]
    | cons i p =>
      simp only [List.mem_zipIdx_iff_getElem?, List.mem_map, List.cons.injEq, reduceCtorEq, or_false,
        at?_cons_eq_some_iff]
      constructor
      · rintro ⟨⟨c, j⟩, hc, q, hq, rfl, rfl⟩
        obtain ⟨sub, hsub⟩ := (ih c (List.mem_of_getElem? hc)).mp hq
        exact ⟨sub, c, hc, hsub⟩
      · rintro ⟨sub, c, hc, hsub⟩
        exact ⟨(c, i), hc, p, (ih c (List.mem_of_getElem? hc)).mpr ⟨sub, hsub⟩, rfl, rfl⟩

theorem pairwise_postOrder (e : Expr) : e.postOrder.Pairwise Precedes := by
  induction e using induct with
  | step e ih =>
    have hindices : e.children.zipIdx.Pairwise fun x y => x.2 < y.2 := by
      rw [← List.pairwise_map, List.zipIdx_map_snd]
      exact List.pairwise_lt_range'
    rw [postOrder_eq, List.pairwise_append, List.pairwise_flatMap]
    refine ⟨⟨fun x hx => ?_, hindices.imp fun hlt => ?_⟩, List.pairwise_singleton _ _, ?_⟩
    · exact List.pairwise_map.mpr ((ih x.1 (List.fst_mem_of_mem_zipIdx hx)).imp .within)
    · simp only [List.forall_mem_map]
      exact fun p _ q _ => .earlier hlt
    · simp only [List.mem_flatMap, List.mem_map, List.mem_singleton]
      rintro _ ⟨x, -, p, -, rfl⟩ _ rfl
      exact .inside

theorem nodup_postOrder (e : Expr) : e.postOrder.Nodup :=
  (pairwise_postOrder e).imp fun {p q} h => by
    rintro rfl
    exact Precedes.irrefl p h

/-- The subexpressions in the order of their positions. -/
def subtrees : Expr → List Expr := para fun e subs => subs.flatten ++ [e]

theorem subtrees_eq (e : Expr) : e.subtrees = e.children.flatMap subtrees ++ [e] := by
  rw [subtrees, para_eq, List.flatMap_def]

theorem map_at?_postOrder (e : Expr) : e.postOrder.map e.at? = e.subtrees.map some := by
  induction e using induct with
  | step e ih =>
    rw [postOrder_eq, subtrees_eq, List.map_append, List.map_append, List.map_flatMap, List.map_flatMap]
    congr 1
    conv_rhs => rw [← List.zipIdx_map_fst 0 e.children, List.flatMap_map]
    refine List.flatMap_congr fun x hx => ?_
    have hx' := List.mem_zipIdx_iff_getElem?.mp hx
    rw [← ih x.1 (List.fst_mem_of_mem_zipIdx hx), List.map_map]
    refine List.map_congr_left fun p _ => ?_
    rw [Function.comp_apply, at?, hx', Option.bind_some]

/-! ### Counting -/

theorem count_subtrees (e n : Expr) :
    e.subtrees.count n = (e.children.map fun c => c.subtrees.count n).sum + if e = n then 1 else 0 := by
  rw [subtrees_eq, List.count_append, List.count_flatMap, List.count_singleton]
  simp only [beq_iff_eq]
  rfl

theorem mem_subtrees {e sub : Expr} : sub ∈ e.subtrees ↔ ∃ p, e.at? p = some sub := by
  have hmem : sub ∈ e.subtrees ↔ some sub ∈ e.postOrder.map e.at? := by simp [map_at?_postOrder]
  rw [hmem, List.mem_map]
  exact exists_congr fun p => and_iff_right_of_imp fun h => mem_postOrder.mpr ⟨sub, h⟩

theorem not_mem_subtrees_of_mem_children {e c : Expr} (h : c ∈ e.children) : e ∉ c.subtrees := by
  intro hmem
  obtain ⟨p, hp⟩ := mem_subtrees.mp hmem
  obtain ⟨i, hi⟩ := List.getElem?_of_mem h
  exact at?_cons_ne_self e i p (at?_cons_eq_some_iff.mpr ⟨c, hi, hp⟩)

theorem count_subtrees_eq_occurrences (e n : Expr) : e.subtrees.count n = e.occurrences n := by
  induction e using induct with
  | step e ih =>
    rw [count_subtrees, occurrences_eq]
    split
    · next heq =>
      subst heq
      -- Where the search stops there is nothing more to find.
      have hzero : ∀ c ∈ e.children, c.subtrees.count e = 0 :=
        fun c hc => List.count_eq_zero.mpr (not_mem_subtrees_of_mem_children hc)
      rw [List.map_congr_left hzero]
      simp
    · rw [Nat.add_zero, List.map_congr_left ih]
      rfl

/-- The number of times that an expression is found in another one is the number of positions at which it stands there. -/
theorem encard_positions (e n : Expr) : {p | e.at? p = some n}.encard = e.occurrences n := by
  have hlisted : {p | e.at? p = some n} = (e.postOrder.filter fun p => e.at? p == some n).toFinset := by
    ext p
    simp only [Set.mem_ofPred_eq, List.coe_toFinset, List.mem_filter, beq_iff_eq, mem_postOrder]
    exact ⟨fun h => ⟨⟨n, h⟩, h⟩, fun h => h.2⟩
  have hcount : (e.postOrder.filter fun p => e.at? p == some n).length = e.subtrees.count n := by
    rw [← List.countP_eq_length_filter]
    calc e.postOrder.countP (fun p => e.at? p == some n)
        = (e.postOrder.map e.at?).count (some n) := by
          rw [List.count, List.countP_map]
          rfl
      _ = e.subtrees.count n := by
          rw [map_at?_postOrder, List.count_map_of_injective _ _ (Option.some_injective _)]
  rw [hlisted, Set.encard_coe_eq_coe_finsetCard, List.toFinset_card_of_nodup ((nodup_postOrder e).filter _), hcount,
    count_subtrees_eq_occurrences]

end DeclRecovery.Expr
