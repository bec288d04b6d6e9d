import DeclRecovery.Hoist.Settle
import DeclRecovery.Proofs.Positions

/-!
The initializers of a type as a list of stores in declaration order, which is the order in which they run, and
what carrying out a plan makes of that list.
-/

namespace DeclRecovery

namespace TypeDecl
variable {t : TypeDecl}

/-- The initializers in declaration order, each with its slot. -/
def initializers (t : TypeDecl) : List (SlotId × Expr) :=
  t.slots.zipIdx.filterMap fun (s, i) => s.initializer.map (i, ·)

theorem mem_initializers {x : SlotId × Expr} :
    x ∈ t.initializers ↔ ∃ s, t.slots[x.1]? = some s ∧ s.initializer = some x.2 := by
  simp only [initializers, List.mem_filterMap, Prod.exists, List.mk_mem_zipIdx_iff_getElem?, Option.map_eq_some_iff]
  constructor
  · rintro ⟨s, i, hs, e, he, rfl⟩
    exact ⟨s, hs, he⟩
  · rintro ⟨s, hs, he⟩
    exact ⟨s, x.1, hs, x.2, he, rfl⟩

theorem initializers_pairwise : t.initializers.Pairwise fun x y => x.1 < y.1 := by
  refine List.Pairwise.filterMap _ (R := fun x y : Slot × Nat => x.2 < y.2) (fun x y hxy b hb b' hb' => ?_) ?_
  · obtain ⟨_, -, rfl⟩ := Option.map_eq_some_iff.mp hb
    obtain ⟨_, -, rfl⟩ := Option.map_eq_some_iff.mp hb'
    exact hxy
  · rw [← List.pairwise_map (f := Prod.snd), List.zipIdx_map_snd]
    exact List.pairwise_lt_range'

theorem initializers_nodup : t.initializers.Nodup := by
  refine initializers_pairwise.imp fun {x y} h => ?_
  rintro rfl
  exact Nat.lt_irrefl _ h

end TypeDecl

theorem Hoist.existing_eq {t : TypeDecl} : existing t = t.initializers.map fun x => (x.1, x.2.footprint) := by
  simp [existing, TypeDecl.initializers, List.map_filterMap, Function.comp_def]

/-- The slot is one of the type and has no initializer. -/
def TypeDecl.Fresh (t : TypeDecl) (slot : SlotId) : Prop := ∃ s, t.slots[slot]? = some s ∧ s.initializer = none

theorem TypeDecl.Fresh.not_mem {t : TypeDecl} {slot : SlotId} (h : t.Fresh slot) {e : Expr} :
    (slot, e) ∉ t.initializers := by
  intro hmem
  obtain ⟨s, hs, he⟩ := TypeDecl.mem_initializers.mp hmem
  obtain ⟨s', hs', he'⟩ := h
  rw [hs] at hs'
  cases hs'
  rw [he] at he'
  cases he'

namespace Plan
variable {p : Plan} {t : TypeDecl}

theorem getElem?_hoist_slots {i : SlotId} : (p.hoist t).slots[i]? = t.slots[i]?.map fun s =>
    match p.hoisted.find? i with
    | some value => { s with initializer := some value }
    | none => s :=
  List.getElem?_mapIdx

/-- The initializers after a plan are those before it together with the hoisted stores. -/
theorem initializers_hoist_perm {heads : List (SlotId × Expr)} (hnd : (heads.map Prod.fst).Nodup)
    (hp : ∀ s v, p.hoisted.find? s = some v ↔ (s, v) ∈ heads) (hfresh : ∀ x ∈ heads, t.Fresh x.1) :
    (p.hoist t).initializers.Perm (t.initializers ++ heads) := by
  have hdisjoint : t.initializers.Disjoint heads := fun x hx hx' => (hfresh x hx').not_mem hx
  rw [List.perm_ext_iff_of_nodup TypeDecl.initializers_nodup
    (List.nodup_append'.mpr ⟨TypeDecl.initializers_nodup, List.Nodup.of_map _ hnd, hdisjoint⟩)]
  intro x
  rw [TypeDecl.mem_initializers, List.mem_append, TypeDecl.mem_initializers, getElem?_hoist_slots]
  constructor
  · rintro ⟨s, hs, he⟩
    obtain ⟨s', hs', rfl⟩ := Option.map_eq_some_iff.mp hs
    cases hfind : p.hoisted.find? x.1 with
    | none =>
      rw [hfind] at he
      exact Or.inl ⟨s', hs', he⟩
    | some v =>
      rw [hfind] at he
      cases he
      exact Or.inr ((hp x.1 x.2).mp hfind)
  · rintro (⟨s, hs, he⟩ | hx)
    · have hnone : p.hoisted.find? x.1 = none := by
        rw [Option.eq_none_iff_forall_ne_some]
        intro v hv
        exact (hfresh _ ((hp _ _).mp hv)).not_mem (TypeDecl.mem_initializers.mpr ⟨s, hs, he⟩)
      exact ⟨s, by rw [hs, hnone]; rfl, he⟩
    · obtain ⟨s, hs, -⟩ := hfresh x hx
      exact ⟨{ s with initializer := some x.2 }, by rw [hs, (hp x.1 x.2).mpr hx]; rfl, rfl⟩

end Plan

end DeclRecovery
