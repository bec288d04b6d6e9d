import DeclRecovery.Proofs.Reconstruction.Structure
import DeclRecovery.Proofs.Semantics.Exec

/-!
What a slot holds when constructors are entered. If every constructor hands over before it changes a slot
(`Stmt.handsOverFirst`), all constructors that are entered in a run find there what the run started with.
-/

namespace DeclRecovery

namespace Stmt
open Effect

/-- Whether another constructor of the type is called. -/
def handsOver (s : Stmt) : Bool := s.calls.any (·.target.ctor?.isSome)

/-- Whether the slot may be changed, by a store or by a constructor that is called. -/
def mayChange (slot : SlotId) (s : Stmt) : Bool := s.stores slot || !s.calls.isEmpty

mutual

/-- Whether the slot is left alone until there is no other constructor to be called any more. -/
def handsOverFirst (slot : SlotId) : Stmt → Bool
  | branch _ t e => handsOverFirstEach slot t && handsOverFirstEach slot e
  | _ => true

def handsOverFirstEach (slot : SlotId) : List Stmt → Bool
  | [] => true
  | s :: ss => handsOverFirst slot s && (!s.mayChange slot || !ss.any handsOver) && handsOverFirstEach slot ss

end

theorem mayChange_eq_false_iff {slot : SlotId} {s : Stmt} :
    s.mayChange slot = false ↔ s.stores slot = false ∧ s.calls = [] := by
  rw [mayChange, Bool.or_eq_false_iff, Bool.not_eq_false', List.isEmpty_iff]

theorem mayChange_of_mem_branches {slot : SlotId} {c : Expr} {t e : List Stmt}
    (h : (branch c t e).mayChange slot = false) {s : Stmt} (hs : s ∈ t ++ e) : s.mayChange slot = false := by
  rw [mayChange_eq_false_iff, stores, anyStores_eq, anyStores_eq, ← List.any_append, calls, callsEach_eq, callsEach_eq,
    ← List.flatMap_append, List.any_eq_false, List.flatMap_eq_nil_iff] at h
  rw [mayChange_eq_false_iff, Bool.eq_false_iff]
  exact ⟨h.1 s hs, h.2 s hs⟩

theorem handsOver_branch (c : Expr) (t e : List Stmt) :
    handsOver (branch c t e) = (t ++ e).any handsOver := by
  rw [handsOver, calls, callsEach_eq, callsEach_eq, ← List.flatMap_append, List.any_flatMap]
  rfl

variable {I : Interp} {enter : Enter I} {args : List I.Value} {slot : SlotId}

/-! ### Slots that are left alone -/

theorem execBlock_slot_of {block : List Stmt}
    (ih : ∀ s ∈ block, ∀ σ σ' τ τ', exec enter args s σ τ = (.ok σ', τ') → σ' slot = σ slot) {σ σ' : I.Store}
    {τ τ' : I.Trace} (h : execBlock enter args block σ τ = (.ok σ', τ')) : σ' slot = σ slot := by
  induction block generalizing σ τ with
  | nil =>
    cases h
    rfl
  | cons s block ihblock =>
    obtain ⟨ihs, ih⟩ := List.forall_mem_cons.mp ih
    obtain ⟨σ₁, τ₁, hs, hblock⟩ := exists_of_bind_eq_ok h
    rw [ihblock ih hblock, ihs σ σ₁ τ τ₁ hs]

/-- A statement that cannot change a slot leaves it as it is. -/
theorem exec_slot {s : Stmt} (hs : s.mayChange slot = false) {σ σ' : I.Store} {τ τ' : I.Trace}
    (h : exec enter args s σ τ = (.ok σ', τ')) : σ' slot = σ slot := by
  induction s using induct generalizing σ σ' τ τ' with
  | assign target value =>
    obtain ⟨v, τ₁, -, h⟩ := exists_of_bind_eq_ok h
    cases h
    have hne : slot ≠ target := by
      rintro rfl
      simp [mayChange, stores] at hs
    exact Function.update_of_ne hne _ _
  | delegate call => cases hs
  | eval value =>
    obtain ⟨v, τ₁, -, h⟩ := exists_of_bind_eq_ok h
    cases h
    rfl
  | branch c t e iht ihe =>
    have hbranches := fun s => mayChange_of_mem_branches (s := s) hs
    obtain ⟨v, τ₁, -, h⟩ := exists_of_bind_eq_ok h
    split at h
    · exact execBlock_slot_of (fun s hmem _ _ _ _ => iht s hmem (hbranches s (List.mem_append_left e hmem))) h
    · exact execBlock_slot_of (fun s hmem _ _ _ _ => ihe s hmem (hbranches s (List.mem_append_right t hmem))) h
  | raise value =>
    obtain ⟨v, τ₁, -, h⟩ := exists_of_bind_eq_ok h
    cases h

/-! ### Calls of other constructors -/

theorem exists_of_mem_handOversEach {block : List Stmt} {σ : I.Store} {τ : I.Trace} {x : HandOver I}
    (h : x ∈ handOversEach enter args block σ τ) : ∃ s ∈ block, ∃ σ' τ', x ∈ handOvers enter args s σ' τ' := by
  induction block generalizing σ τ with
  | nil => cases h
  | cons s block ih =>
    rw [handOversEach, List.mem_append] at h
    rcases h with hs | hblock
    · exact ⟨s, List.mem_cons_self, σ, τ, hs⟩
    · obtain ⟨σ', τ', -, hblock⟩ := exists_of_mem_after hblock
      obtain ⟨s', hs', hx⟩ := ih hblock
      exact ⟨s', List.mem_cons_of_mem s hs', hx⟩

theorem handsOver_of_mem_handOvers {s : Stmt} {σ : I.Store} {τ : I.Trace} {x : HandOver I}
    (h : x ∈ handOvers enter args s σ τ) : s.handsOver = true := by
  induction s using induct generalizing σ τ with
  | delegate call =>
    obtain ⟨vs, τ', -, h⟩ := exists_of_mem_after h
    obtain ⟨target, htarget, -⟩ := List.mem_map.mp h
    simp [handsOver, calls, Option.mem_toList.mp htarget]
  | branch c t e iht ihe =>
    rw [handsOver_branch, List.any_eq_true]
    obtain ⟨v, τ', -, h⟩ := exists_of_mem_after h
    split at h
    · obtain ⟨s, hs, _, _, h⟩ := exists_of_mem_handOversEach h
      exact ⟨s, List.mem_append_left e hs, iht s hs h⟩
    · obtain ⟨s, hs, _, _, h⟩ := exists_of_mem_handOversEach h
      exact ⟨s, List.mem_append_right t hs, ihe s hs h⟩
  | _ => cases h

theorem handsOver_of_mem_handOversEach {block : List Stmt} {σ : I.Store} {τ : I.Trace} {x : HandOver I}
    (h : x ∈ handOversEach enter args block σ τ) : block.any handsOver = true := by
  obtain ⟨s, hs, _, _, h⟩ := exists_of_mem_handOversEach h
  exact List.any_eq_true.mpr ⟨s, hs, handsOver_of_mem_handOvers h⟩

theorem handOversEach_slot_of {block : List Stmt} {x : HandOver I} (ih : ∀ s ∈ block, s.handsOverFirst slot = true →
      ∀ σ τ, x ∈ handOvers enter args s σ τ → x.store slot = σ slot)
    (hfirst : handsOverFirstEach slot block = true) {σ : I.Store} {τ : I.Trace}
    (h : x ∈ handOversEach enter args block σ τ) : x.store slot = σ slot := by
  induction block generalizing σ τ with
  | nil => cases h
  | cons s block ihblock =>
    obtain ⟨ihs, ih⟩ := List.forall_mem_cons.mp ih
    rw [handsOverFirstEach, Bool.and_eq_true, Bool.and_eq_true, Bool.or_eq_true] at hfirst
    obtain ⟨⟨hs, hrest⟩, hblock⟩ := hfirst
    rw [handOversEach, List.mem_append] at h
    rcases h with h | h
    · exact ihs hs σ τ h
    · obtain ⟨σ', τ', hexec, h⟩ := exists_of_mem_after h
      -- there is a call left after `s`, so `s` leaves the slot alone
      have hchange : s.mayChange slot = false := by simpa [handsOver_of_mem_handOversEach h] using hrest
      rw [ihblock ih hblock h, exec_slot hchange hexec]

/-- Where the slot is left alone until the last call, all calls find in it what it held before. -/
theorem handOvers_slot {s : Stmt} (hfirst : s.handsOverFirst slot = true) {σ : I.Store} {τ : I.Trace} {x : HandOver I}
    (h : x ∈ handOvers enter args s σ τ) : x.store slot = σ slot := by
  induction s using induct generalizing σ τ with
  | delegate call =>
    obtain ⟨vs, τ', -, h⟩ := exists_of_mem_after h
    obtain ⟨target, -, rfl⟩ := List.mem_map.mp h
    rfl
  | branch c t e iht ihe =>
    rw [handsOverFirst, Bool.and_eq_true] at hfirst
    obtain ⟨v, τ', -, h⟩ := exists_of_mem_after h
    split at h
    · exact handOversEach_slot_of (fun s hs hfirst _ _ => iht s hs hfirst) hfirst.1 h
    · exact handOversEach_slot_of (fun s hs hfirst _ _ => ihe s hs hfirst) hfirst.2 h
  | _ => cases h

theorem handOversEach_slot {block : List Stmt} (hfirst : handsOverFirstEach slot block = true) {σ : I.Store} {τ : I.Trace}
    {x : HandOver I} (h : x ∈ handOversEach enter args block σ τ) : x.store slot = σ slot :=
  handOversEach_slot_of (fun _ _ hfirst _ _ => handOvers_slot hfirst) hfirst h

end Stmt

namespace TypeDecl

variable {I : Interp} {t : TypeDecl} {slot : SlotId}

/-- If all constructors hand over before they change a slot, it still holds what it held whenever one is entered. -/
theorem entries_slot (hfirst : ∀ c ∈ t.constructors, Stmt.handsOverFirstEach slot (t.lowered c) = true) {fuel : Nat}
    {id : CtorId} {args : List I.Value} {σ : I.Store} {τ : I.Trace} {entry : CtorId × I.Store}
    (h : entry ∈ t.entries I fuel id args σ τ) : entry.2 slot = σ slot := by
  induction fuel generalizing id args σ τ with
  | zero => cases h
  | succ fuel ih =>
    cases hc : t.constructors[id]? with
    | none =>
      rw [entries, hc, List.mem_singleton] at h
      rw [h]
    | some c =>
      rw [entries_succ hc, List.mem_cons, List.mem_flatMap] at h
      rcases h with rfl | ⟨x, hx, h⟩
      · rfl
      · rw [ih h, Stmt.handOversEach_slot (hfirst c (List.mem_of_getElem? hc)) hx]

/-- A constructor that does not hand over is the only one that is entered. -/
theorem eq_of_mem_entries {id : CtorId} {c : Constructor} (hc : t.constructors[id]? = some c)
    (hcalls : ∀ s ∈ t.lowered c, s.calls = []) {fuel : Nat} {args : List I.Value} {σ : I.Store} {τ : I.Trace}
    {entry : CtorId × I.Store} (h : entry ∈ t.entries I fuel id args σ τ) : entry = (id, σ) := by
  cases fuel with
  | zero => cases h
  | succ fuel =>
    rw [entries_succ hc, List.mem_cons, List.mem_flatMap] at h
    rcases h with rfl | ⟨x, hx, -⟩
    · rfl
    · obtain ⟨s, hs, hover⟩ := List.any_eq_true.mp (Stmt.handsOver_of_mem_handOversEach hx)
      rw [Stmt.handsOver, hcalls s hs] at hover
      cases hover

end TypeDecl

end DeclRecovery
