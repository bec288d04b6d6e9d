import DeclRecovery.Proofs.Hoist.Hoisting

/-!
Hoisting as a change of order. A root first ran the initializers of its type and then its first stores; once those
stores are initializers too, all of them run in declaration order. The change is a sequence of moves: the store
that is declared first goes to the front, past stores that it commutes with (`Sortable.induction`). Whatever such
a move keeps, hoisting keeps.
-/

namespace DeclRecovery

namespace Hoist

/-- Whether two stores commute, by what their values read and do. -/
def Swappable (y x : SlotId × Expr) : Prop := commutes (y.1, y.2.footprint) (x.1, x.2.footprint) = true

theorem Swappable.observable {y x : SlotId × Expr} (h : Swappable y x) (hx : x.2.footprint.observable = true) :
    y.2.footprint.observable = false := by
  simp only [Swappable, commutes, Bool.and_eq_true, Bool.not_eq_true'] at h
  simpa [hx] using h.1.1.1.1

theorem Swappable.readsSelf {y x : SlotId × Expr} (h : Swappable y x) :
    y.2.footprint.readsSelf = false ∧ x.2.footprint.readsSelf = false := by
  simp only [Swappable, commutes, Bool.and_eq_true, Bool.not_eq_true'] at h
  exact ⟨h.1.1.1.2, h.1.1.2⟩

theorem Swappable.members {y x : SlotId × Expr} (h : Swappable y x) :
    x.1 ∉ y.2.footprint.members ∧ y.1 ∉ x.2.footprint.members := by
  simp only [Swappable, commutes, Bool.and_eq_true, Bool.not_eq_true', decide_eq_false_iff_not] at h
  exact ⟨h.1.2, h.2⟩

/-- Stores that can run in declaration order: where one stands before another that is declared earlier, the two
commute. -/
def Sortable (stores : List (SlotId × Expr)) : Prop := stores.Pairwise fun y x => x.1 < y.1 → Swappable y x

/-- Induction over bringing stores into declaration order: the one that is declared first moves to the front. -/
theorem Sortable.induction {motive : List (SlotId × Expr) → List (SlotId × Expr) → Prop} (nil : motive [] [])
    (move : ∀ before x after rest, (∀ y ∈ before ++ after, x.1 < y.1) → (∀ y ∈ before, Swappable y x) →
      motive (before ++ after) rest → motive (before ++ x :: after) (x :: rest))
    {stores sorted : List (SlotId × Expr)} (h : Sortable stores) (hperm : sorted.Perm stores)
    (hsorted : sorted.Pairwise fun x y => x.1 < y.1) : motive stores sorted := by
  induction sorted generalizing stores with
  | nil =>
    cases hperm.nil_eq
    exact nil
  | cons x rest ih =>
    obtain ⟨before, after, rfl⟩ := List.append_of_mem (hperm.subset List.mem_cons_self)
    have hrest : rest.Perm (before ++ after) := (hperm.trans List.perm_middle).cons_inv
    obtain ⟨hlt, hsorted⟩ := List.pairwise_cons.mp hsorted
    have hfirst : ∀ y ∈ before ++ after, x.1 < y.1 := fun y hy => hlt y (hrest.mem_iff.mpr hy)
    obtain ⟨-, -, hcross⟩ := List.pairwise_append.mp h
    refine move before x after rest hfirst (fun y hy => ?_) (ih (h.sublist ?_) hrest hsorted)
    · exact hcross y hy x List.mem_cons_self (hfirst y (List.mem_append_left _ hy))
    · exact (List.Sublist.refl before).append (List.sublist_cons_self x after)

end Hoist

namespace Plan
open Hoist

variable {p : Plan} {t : TypeDecl} {id : CtorId} {c : Constructor} {heads : List (SlotId × Expr)}

theorem HoistsAt.sortable (h : p.HoistsAt t id c heads) : Sortable (t.initializers ++ heads) := by
  refine List.pairwise_append.mpr ⟨?_, ?_, fun y hy x hx => ?_⟩
  · exact TypeDecl.initializers_pairwise.imp fun hlt hgt => absurd hgt (Nat.lt_asymm hlt)
  · rw [List.pairwise_iff_getElem]
    intro i j hi hj hij
    -- Split `heads` at the later store, so that the earlier one is among those before it.
    have hsplit : heads = heads.take j ++ heads[j] :: heads.drop (j + 1) := by
      rw [← List.drop_eq_getElem_cons hj, List.take_append_drop]
    have hmem : heads[i] ∈ heads.take j := List.mem_take_iff_getElem.mpr ⟨i, by omega, rfl⟩
    exact (h.clean _ _ _ hsplit).swaps _ (List.mem_append_right _ hmem)
  · obtain ⟨before, after, rfl⟩ := List.append_of_mem hx
    exact (h.clean _ _ _ rfl).swaps y (List.mem_append_left _ hy)

theorem HoistsAt.initializers_perm (h : p.HoistsAt t id c heads) :
    (p.hoist t).initializers.Perm (t.initializers ++ heads) :=
  initializers_hoist_perm h.nodup h.hoisted h.fresh

/-- What every move keeps holds between the stores that a root ran at first and the initializers after the plan. -/
theorem HoistsAt.induction {motive : List (SlotId × Expr) → List (SlotId × Expr) → Prop}
    (h : p.HoistsAt t id c heads) (nil : motive [] [])
    (move : ∀ before x after rest, (∀ y ∈ before ++ after, x.1 < y.1) → (∀ y ∈ before, Swappable y x) →
      motive (before ++ after) rest → motive (before ++ x :: after) (x :: rest)) :
    motive (t.initializers ++ heads) (p.hoist t).initializers :=
  h.sortable.induction nil move h.initializers_perm TypeDecl.initializers_pairwise

end Plan

end DeclRecovery
