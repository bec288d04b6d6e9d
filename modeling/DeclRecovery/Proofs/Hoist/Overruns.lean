import DeclRecovery.Proofs.Lowering

/-!
When a search for initializers ends without an answer: exactly when some root begins with stores that could be hoisted up
to one that goes to a slot which does not exist (`TypeDecl.Overruns`). Other stores of that kind, such as those after a
delegation, do no harm.
-/

namespace DeclRecovery

namespace Candidate

variable {t : TypeDecl} {region rest : List Stmt} {s : Stmt} {slot : SlotId}

/-- A single store to a slot that has no initializer and is stored by nothing else in the region. -/
def Hoistable (t : TypeDecl) (region : List Stmt) (s : Stmt) : Prop :=
  ∃ x, s.singleStore? = some x ∧ t.Fresh x.1 ∧ region.countP (Stmt.stores x.1) ≤ 1

/-- After nothing but such stores there is one to a slot that the type does not have. -/
def Overruns (t : TypeDecl) (region rest : List Stmt) (slot : SlotId) : Prop :=
  ∃ before s after value, rest = before ++ s :: after ∧ (∀ b ∈ before, Hoistable t region b) ∧
    s.singleStore? = some (slot, value) ∧ t.slots.length ≤ slot

theorem not_overruns_nil : ¬Overruns t region [] slot := by
  rintro ⟨before, s, after, value, hsplit, -⟩
  cases before <;> cases hsplit

theorem overruns_cons : Overruns t region (s :: rest) slot ↔
    (∃ value, s.singleStore? = some (slot, value) ∧ t.slots.length ≤ slot) ∨
      Hoistable t region s ∧ Overruns t region rest slot := by
  constructor
  · rintro ⟨_ | ⟨b, before⟩, s', after, value, hsplit, hbefore, hstore, hslot⟩
    · cases hsplit
      exact Or.inl ⟨value, hstore, hslot⟩
    · cases hsplit
      rcases List.forall_mem_cons.mp hbefore with ⟨hb, hbefore⟩
      exact Or.inr ⟨hb, before, s', after, value, rfl, hbefore, hstore, hslot⟩
  · rintro (⟨value, hstore, hslot⟩ | ⟨hs, before, s', after, value, rfl, hbefore, hstore, hslot⟩)
    · exact ⟨[], s, rest, value, rfl, by simp, hstore, hslot⟩
    · exact ⟨s :: before, s', after, value, rfl, List.forall_mem_cons.mpr ⟨hs, hbefore⟩, hstore, hslot⟩

theorem leading_eq_error_iff (ctor : CtorId) (n : Nat) {e : OutOfRange} :
    leading t ctor region (rest.zipIdx n) = .error e ↔ ∃ slot, Overruns t region rest slot ∧ e = ⟨t.slots.length, slot⟩ := by
  induction rest generalizing n with
  | nil => simp [leading, not_overruns_nil]
  | cons s rest ih =>
    rw [List.zipIdx_cons, leading]
    cases hs : s.singleStore? with
    | none => simp [overruns_cons, Hoistable, hs]
    | some x =>
      rcases x with ⟨target, value⟩
      rw [bind_eq_error_iff]
      constructor
      · rintro (h | ⟨found, hfound, h⟩)
        · rcases nth_eq_error_iff.mp h with ⟨htarget, rfl⟩
          exact ⟨target, overruns_cons.mpr (Or.inl ⟨value, hs, htarget⟩), rfl⟩
        · split at h
          · cases h
          · next hcond =>
            simp only [Bool.or_eq_true, decide_eq_true_eq, not_or, Nat.not_lt, Bool.not_eq_true,
              Option.isSome_eq_false_iff, Option.isNone_iff_eq_none] at hcond
            rcases bind_eq_error_iff.mp h with h | ⟨cs, -, h⟩
            · rcases (ih (n + 1)).mp h with ⟨slot, hover, rfl⟩
              have hs : Hoistable t region s := ⟨_, hs, ⟨found, slot_eq_ok.mp hfound, hcond.1⟩, hcond.2⟩
              exact ⟨slot, overruns_cons.mpr (Or.inr ⟨hs, hover⟩), rfl⟩
            · cases h
      · rintro ⟨slot, hover, rfl⟩
        rcases overruns_cons.mp hover with ⟨value, hstore, hslot⟩ | ⟨⟨x, hx, ⟨found, hfound, hnone⟩, honce⟩, hover⟩
        · cases hs.symm.trans hstore
          exact Or.inl (nth_eq_error_iff.mpr ⟨hslot, rfl⟩)
        · cases hs.symm.trans hx
          refine Or.inr ⟨found, slot_eq_ok.mpr hfound, ?_⟩
          rw [if_neg (by simpa [hnone] using honce), bind_eq_error_iff]
          exact Or.inl ((ih (n + 1)).mpr ⟨slot, hover, rfl⟩)

end Candidate

/-- A root stores a slot that the type does not have, after nothing but stores that could be hoisted. -/
def TypeDecl.Overruns (t : TypeDecl) (slot : SlotId) : Prop :=
  ∃ c ∈ t.constructors, c.runsInitializers = true ∧
    Candidate.Overruns t (Candidate.region c) (Candidate.region c) slot

namespace EntryPoint

theorem of_eq_error_iff {t : TypeDecl} {id : CtorId} {c : Constructor} (hc : t.constructors[id]? = some c)
    {e : OutOfRange} : EntryPoint.of t id = .error e ↔
      ∃ slot, Candidate.Overruns t (Candidate.region c) (Candidate.region c) slot ∧ e = ⟨t.slots.length, slot⟩ := by
  constructor
  · intro h
    rcases bind_eq_error_iff.mp h with h | ⟨c', hc', h⟩
    · rw [constructor_eq_ok.mpr hc] at h
      cases h
    · cases (constructor_eq_ok.mp hc').symm.trans hc
      rcases bind_eq_error_iff.mp h with h | ⟨cs, -, h⟩
      · exact (Candidate.leading_eq_error_iff id 0).mp h
      · cases h
  · intro h
    refine bind_eq_error_iff.mpr (Or.inr ⟨c, constructor_eq_ok.mpr hc, bind_eq_error_iff.mpr (Or.inl ?_)⟩)
    exact (Candidate.leading_eq_error_iff id 0).mpr h

end EntryPoint

namespace Extraction

variable {t : TypeDecl} {chain : Chain} {maxDepth : Option Nat} (hchain : Chain.build t = .ok chain)
include hchain

/-- Nothing but a root that overruns can stop an extraction. -/
theorem overruns_of_eq_error {e : OutOfRange} (h : Extraction.of maxDepth t chain = .error e) :
    ∃ slot, t.Overruns slot ∧ e = ⟨t.slots.length, slot⟩ := by
  rcases bind_eq_error_iff.mp h with h | ⟨es, -, h⟩
  · rcases exists_of_mapM_eq_error h with ⟨id, hid, herror⟩
    rcases (Chain.mem_roots_iff hchain).mp hid with ⟨c, hc, -⟩
    rcases (EntryPoint.of_eq_error_iff hc).mp herror with ⟨slot, hover, rfl⟩
    exact ⟨slot, ⟨c, List.mem_of_getElem? hc, (Chain.mem_roots_iff_runs hchain hc).mp hid, hover⟩, rfl⟩
  · rcases bind_eq_error_iff.mp h with h | ⟨ordered, -, h⟩
    · rcases exists_of_mapM_eq_error h with ⟨id, hid, herror⟩
      rcases (Chain.mem_order_iff hchain).mp hid with ⟨c, hc, -⟩
      rw [constructor_eq_ok.mpr hc] at herror
      cases herror
    · cases h

theorem not_overruns_of_eq_ok {extraction : Extraction} (h : Extraction.of maxDepth t chain = .ok extraction)
    (slot : SlotId) : ¬t.Overruns slot := by
  rintro ⟨c, hmem, hruns, hover⟩
  rcases List.getElem?_of_mem hmem with ⟨id, hc⟩
  rcases bind_eq_ok_iff.mp h with ⟨es, hes, -⟩
  rcases exists_eq_ok_of_mapM hes ((Chain.mem_roots_iff_runs hchain hc).mpr hruns) with ⟨e, he⟩
  rw [(EntryPoint.of_eq_error_iff hc).mpr ⟨slot, hover, rfl⟩] at he
  cases he

/-- There is an extraction, or a root overruns. -/
theorem exists_or_overruns (maxDepth : Option Nat) : (∃ extraction, Extraction.of maxDepth t chain = .ok extraction) ∨
    ∃ slot, t.Overruns slot ∧ Extraction.of maxDepth t chain = .error ⟨t.slots.length, slot⟩ := by
  cases h : Extraction.of maxDepth t chain with
  | ok extraction => exact Or.inl ⟨extraction, rfl⟩
  | error e =>
    obtain ⟨slot, hover, rfl⟩ := overruns_of_eq_error hchain h
    exact Or.inr ⟨slot, hover, rfl⟩

end Extraction

end DeclRecovery
