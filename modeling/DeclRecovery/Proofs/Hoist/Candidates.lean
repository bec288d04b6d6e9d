import DeclRecovery.Hoist.Extraction
import DeclRecovery.Proofs.Initializers
import DeclRecovery.Proofs.Results
import Mathlib.Data.List.Nodup

/-!
What the candidates of an entry point are: the first statements of its body, each a single store to a slot
that has no initializer and is stored by no other statement before the delegation (`Leads`). Hence their
slots are distinct, and their positions count up from the start of the body.
-/

namespace DeclRecovery

namespace Stmt

/-- A single store is an assignment, or a branch with one to the same slot on either side. -/
theorem singleStore?_cases {s : Stmt} {slot : SlotId} {value : Expr} (h : s.singleStore? = some (slot, value)) :
    s = assign slot value ∨ ∃ c a b, s = branch c [assign slot a] [assign slot b] ∧ value = .select c a b := by
  cases s with
  | assign =>
    cases h
    exact Or.inl rfl
  | branch c t e =>
    simp only [singleStore?, twoWayStore?] at h
    split at h
    · next heq =>
      cases heq
      split at h
      · next hslot =>
        cases hslot
        cases h
        exact Or.inr ⟨_, _, _, rfl, rfl⟩
      · cases h
    · cases h
  | delegate | eval | raise => cases h

theorem stores_of_singleStore? {s : Stmt} {slot : SlotId} {value : Expr} (h : s.singleStore? = some (slot, value))
    (other : SlotId) : s.stores other = (slot == other) := by
  rcases singleStore?_cases h with rfl | ⟨c, a, b, rfl, -⟩
  · rfl
  · simp [stores, anyStores]

theorem delegation?_of_singleStore? {s : Stmt} {x : SlotId × Expr} (h : s.singleStore? = some x) :
    s.delegation? = none := by
  rcases singleStore?_cases h with rfl | ⟨c, a, b, rfl, -⟩ <;> rfl

end Stmt

theorem slot_eq_ok {t : TypeDecl} {id : SlotId} {s : Slot} : t.slot id = .ok s ↔ t.slots[id]? = some s :=
  nth_eq_ok_iff

theorem constructor_eq_ok {t : TypeDecl} {id : CtorId} {c : Constructor} :
    t.constructor id = .ok c ↔ t.constructors[id]? = some c :=
  nth_eq_ok_iff

namespace Candidate

/-- The candidates `cs` are the first of the statements `rest`, which count from `n` and end `region`. -/
structure Leads (t : TypeDecl) (ctor : CtorId) (region rest : List Stmt) (n : Nat) (cs : List Candidate) : Prop where
  stores : (rest.take cs.length).map Stmt.singleStore? = cs.map fun c => some (c.slot, c.value)
  length : cs.length ≤ rest.length
  indices : cs.map (·.index) = List.range' n cs.length
  ctors : ∀ c ∈ cs, c.ctor = ctor
  fresh : ∀ c ∈ cs, t.Fresh c.slot
  once : ∀ c ∈ cs, region.countP (Stmt.stores c.slot) ≤ 1

theorem leads_nil {t : TypeDecl} {ctor : CtorId} {region rest : List Stmt} {n : Nat} :
    Leads t ctor region rest n [] := by
  constructor <;> simp

theorem Leads.cons {t : TypeDecl} {ctor : CtorId} {region rest : List Stmt} {n : Nat} {cs : List Candidate}
    (h : Leads t ctor region rest (n + 1) cs) {s : Stmt} {slot : SlotId} {value : Expr}
    (hs : s.singleStore? = some (slot, value)) (hf : t.Fresh slot) (ho : region.countP (Stmt.stores slot) ≤ 1) :
    Leads t ctor region (s :: rest) n (⟨slot, ctor, n, value⟩ :: cs) where
  stores := by simp [hs, h.stores]
  length := by simpa using h.length
  indices := by simp [h.indices, List.range'_succ]
  ctors := List.forall_mem_cons.mpr ⟨rfl, h.ctors⟩
  fresh := List.forall_mem_cons.mpr ⟨hf, h.fresh⟩
  once := List.forall_mem_cons.mpr ⟨ho, h.once⟩

theorem leads_of_leading {t : TypeDecl} {ctor : CtorId} {region rest : List Stmt} {n : Nat} {cs : List Candidate}
    (h : leading t ctor region (rest.zipIdx n) = .ok cs) : Leads t ctor region rest n cs := by
  induction rest generalizing n cs with
  | nil =>
    cases h
    exact leads_nil
  | cons s rest ih =>
    rw [List.zipIdx_cons, leading] at h
    split at h
    · cases h
      exact leads_nil
    · next slot value hs =>
      obtain ⟨target, htarget, h⟩ := bind_eq_ok_iff.mp h
      split at h
      · cases h
        exact leads_nil
      · next hcond =>
        obtain ⟨cs', hcs', h⟩ := bind_eq_ok_iff.mp h
        cases h
        simp only [Bool.or_eq_true, decide_eq_true_eq, not_or, Option.isSome_iff_ne_none, ne_eq,
          Decidable.not_not] at hcond
        exact (ih hcs').cons hs ⟨target, slot_eq_ok.mp htarget, hcond.1⟩ (by omega)

namespace Leads
variable {t : TypeDecl} {ctor : CtorId} {region rest : List Stmt} {n : Nat} {cs : List Candidate}

/-- No two candidates store the same slot: the region would store it twice. -/
theorem nodup_slots (h : Leads t ctor region rest n cs) (hr : rest.Sublist region) : (cs.map (·.slot)).Nodup := by
  rw [List.nodup_iff_count_le_one]
  intro slot
  by_cases hmem : slot ∈ cs.map (·.slot)
  · obtain ⟨c, hc, rfl⟩ := List.mem_map.mp hmem
    refine Nat.le_trans ?_ (h.once c hc)
    calc (cs.map (·.slot)).count c.slot
        = (cs.map fun c => some (c.slot, c.value)).countP (fun x => x.map Prod.fst == some c.slot) := by
          rw [List.count, List.countP_map, List.countP_map]
          rfl
      _ = (rest.take cs.length).countP (fun s => s.singleStore?.map Prod.fst == some c.slot) := by
          rw [← h.stores, List.countP_map]
          rfl
      _ ≤ (rest.take cs.length).countP (Stmt.stores c.slot) := by
          refine List.countP_mono_left fun s _ hs => ?_
          obtain ⟨⟨slot, value⟩, hst, hslot⟩ := Option.map_eq_some_iff.mp (beq_iff_eq.mp hs)
          exact (Stmt.stores_of_singleStore? hst _).trans (beq_iff_eq.mpr hslot)
      _ ≤ region.countP (Stmt.stores c.slot) := ((List.take_sublist _ _).trans hr).countP_le
  · rw [List.count_eq_zero.mpr hmem]
    omega

end Leads

end Candidate

namespace EntryPoint

/-- The candidates of an entry point lead its constructor. -/
theorem of_eq_ok {t : TypeDecl} {id : CtorId} {e : EntryPoint} (h : EntryPoint.of t id = .ok e) :
    e.ctor = id ∧ ∃ c, t.constructors[id]? = some c ∧ e.params = c.parameters ∧
      Candidate.Leads t id (Candidate.region c) (Candidate.region c) 0 e.candidates := by
  obtain ⟨c, hc, h⟩ := bind_eq_ok_iff.mp h
  obtain ⟨cs, hcs, h⟩ := bind_eq_ok_iff.mp h
  cases h
  exact ⟨rfl, c, constructor_eq_ok.mp hc, rfl, Candidate.leads_of_leading hcs⟩

theorem mem_candidateSlots {es : List EntryPoint} {slot : SlotId} :
    slot ∈ candidateSlots es ↔ ∃ e ∈ es, ∃ c ∈ e.candidates, c.slot = slot := by
  simp only [candidateSlots, PosSet.mem_ofList, List.mem_flatMap, List.mem_map]

end EntryPoint

end DeclRecovery
