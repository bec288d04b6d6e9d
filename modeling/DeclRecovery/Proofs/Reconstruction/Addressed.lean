import DeclRecovery.Proofs.Delegation.Chains
import DeclRecovery.Proofs.Reconstruction.Fallback
import DeclRecovery.Proofs.Reconstruction.Synthesis
import DeclRecovery.TypeDecl.Printer

/-!
What a type has to offer so that a reconstruction never looks for a slot or a constructor that does not exist: only that
the stores at the start of its roots go to slots that do (`TypeDecl.WellAddressed`). Everything else may name what it
likes. What comes out can then be printed, since the only constructor that printing looks for is the primary one, and that
is one of those which the reconstruction has found itself.
-/

namespace DeclRecovery

/-! ### Addresses -/

/-- Another constructor of the type is called, at the top of the body or inside of a branch. -/
def Constructor.CallsOther (c : Constructor) : Prop :=
  ∃ target args, .chain target args ∈ c.body ∨ ∃ s ∈ c.body, (Stmt.chain target args).Inside s

/-- In a declared constructor that calls no other one, every single store before the delegation goes to a slot that the
type has. -/
def TypeDecl.WellAddressed (t : TypeDecl) : Prop :=
  ∀ c ∈ t.constructors, c.isDeclared = true → ¬c.CallsOther → ∀ s ∈ Candidate.region c, ∀ slot value,
    s.singleStore? = some (slot, value) → slot < t.slots.length

/-- In a chain, a constructor that hands over to no other one calls none. -/
theorem Chain.Linked.not_callsOther {t : TypeDecl} {id : CtorId} {c : Constructor} (h : Linked t id c)
    (hroot : c.chainTarget? = none) : ¬c.CallsOther := by
  rintro ⟨target, args, hs | ⟨s, hs, hinside⟩⟩
  · have hcall : ⟨.ctor target, args⟩ ∈ c.delegations := List.mem_filterMap.mpr ⟨_, hs, rfl⟩
    have htarget := (Constructor.chainTarget?_eq_some_iff (c.length_delegations ▸ h.single)).mpr ⟨args, hcall⟩
    rw [hroot] at htarget
    cases htarget
  · exact Chain.any_hasNestedDelegation_eq_false_iff.mp h.flat s hs _ hinside

theorem TypeDecl.WellAddressed.not_overruns {t : TypeDecl} {chain : Chain} (h : t.WellAddressed)
    (hchain : Chain.build t = .ok chain) (slot : SlotId) : ¬t.Overruns slot := by
  rintro ⟨c, hmem, hruns, before, s, after, value, hsplit, -, hstore, hslot⟩
  rw [Constructor.runsInitializers, Bool.and_eq_true, Option.isNone_iff_eq_none] at hruns
  obtain ⟨id, hc⟩ := List.getElem?_of_mem hmem
  have hother := (Chain.linked hchain hc hruns.1).not_callsOther hruns.2
  have hregion : s ∈ Candidate.region c := by simp [hsplit]
  exact Nat.not_lt.mpr hslot (h c hmem hruns.1 hother s hregion slot value hstore)

/-! ### Text -/

theorem TypeDecl.exists_primary_iff {t : TypeDecl} :
    (∃ primary, t.primary = .ok primary) ↔ ∀ id ∈ t.primaryConstructor, id < t.constructors.length := by
  rw [primary]
  cases t.primaryConstructor with
  | none => simp [pure, Except.pure]
  | some id =>
    cases h : t.constructor id with
    | ok c => simp [h, Functor.map, Except.map, (List.getElem?_eq_some_iff.mp (constructor_eq_ok.mp h)).1]
    | error e => simp [h, Functor.map, Except.map, (nth_eq_error_iff.mp h).1]

/-- Printing looks for the primary constructor only. -/
theorem TypeDecl.exists_render_iff {t : TypeDecl} :
    (∃ text, t.render = .ok text) ↔ ∀ id ∈ t.primaryConstructor, id < t.constructors.length := by
  rw [← exists_primary_iff]
  constructor
  · rintro ⟨text, h⟩
    obtain ⟨primary, hprimary, -⟩ := bind_eq_ok_iff.mp h
    exact ⟨primary, hprimary⟩
  · rintro ⟨primary, hprimary⟩
    exact exists_bind_eq_ok hprimary ⟨_, rfl⟩

theorem Recovery.exists_render {options : Options} {t : TypeDecl} (r : Recovery options t) :
    ∃ text, r.type.render = .ok text := by
  rw [TypeDecl.exists_render_iff, r.primaryConstructor_type]
  intro root hroot
  obtain ⟨forms, hdecision⟩ := Decision.exists_eq_synthesized hroot
  obtain ⟨c, hc, -⟩ := (r.hasPrimary hdecision).primary
  exact (List.getElem?_eq_some_iff.mp hc).1

/-- The stores at the start of the roots are all that a type has to have right: either its chain has a defect, and then it
goes out as it came in, or it is reconstructed, and what comes out has a text. -/
theorem reconstruct_of_wellAddressed (options : Options) {t : TypeDecl} (h : t.WellAddressed) :
    (∃ defect, Chain.build t = .error defect ∧
      reconstruct options t = .ok ⟨t, .fallback (.malformedChain t.name defect), []⟩) ∨
    ∃ t' diagnostics text, reconstruct options t = .ok ⟨t', .reconstructed, diagnostics⟩ ∧ t'.render = .ok text := by
  cases hchain : Chain.build t with
  | error defect =>
    exact Or.inl ⟨defect, rfl, reconstruct_of_build_eq_error (Chain.build_completed_eq_error_iff.mpr hchain)⟩
  | ok chain =>
    obtain ⟨chain', hcompleted⟩ : ∃ chain', Chain.build t.completed = .ok chain' := by
      cases hcompleted : Chain.build t.completed with
      | ok chain' => exact ⟨chain', rfl⟩
      | error defect => cases hchain.symm.trans (Chain.build_completed_eq_error_iff.mp hcompleted)
    rcases Extraction.exists_or_overruns hcompleted options.equivalenceDepth with ⟨extraction, hextraction⟩ | ⟨slot, hover, -⟩
    · obtain ⟨r, -⟩ := Recovery.exists_of_extraction hcompleted hextraction
      obtain ⟨diagnostics, hr⟩ := exists_reconstruct_iff.mpr ⟨r, rfl⟩
      obtain ⟨text, htext⟩ := r.exists_render
      exact Or.inr ⟨r.type, diagnostics, text, hr, htext⟩
    · exact absurd (TypeDecl.overruns_completed.mp hover) (h.not_overruns hchain slot)

/-- A type in which little more than the first store is where it should be: parameters, members, slots and constructors are
named that it does not have. -/
def TypeDecl.battered : TypeDecl where
  name := "Battered"
  base := some "Case"
  layout := .byReference
  slots := [{ name := "a", kind := .field, type := "int" }]
  constructors :=
    let p : Parameter := { name := "p", type := "int" }
    [{ parameters := [p], body := [.assign 0 (.param 7), .base [.field (.param 3) "b" false]] },
      { parameters := [p, p], body := [.assign 9 (.member 8), .chain 0 [.param 5], .assign 6 .self] },
      { parameters := [p], body := [.chain 5 [], .assign 4 (.member 3)], origin := .copy }]
  synthesized := { equality := some [2, 3], hashCode := some [2, 3], deconstruct := some [3] }
  primaryConstructor := some 6

/-- As it comes in it has no text, since its primary constructor does not exist. -/
theorem reconstruct_of_wellAddressed_battered : TypeDecl.battered.WellAddressed ∧
    TypeDecl.battered.render = .error ⟨3, 6⟩ ∧ ∃ t' diagnostics text,
      reconstruct {} .battered = .ok ⟨t', .reconstructed, diagnostics⟩ ∧ t'.render = .ok text := by
  have h : TypeDecl.battered.WellAddressed := by
    intro c hc hdeclared hother s hs slot value hstore
    simp only [TypeDecl.battered, List.mem_cons, List.not_mem_nil, or_false] at hc
    rcases hc with rfl | rfl | rfl
    · cases List.mem_singleton.mp hs
      cases hstore
      decide
    · exact absurd ⟨0, [.param 5], Or.inl (by simp)⟩ hother
    · cases hdeclared
  refine ⟨h, rfl, ?_⟩
  rcases reconstruct_of_wellAddressed {} h with ⟨defect, hdefect, -⟩ | hdone
  · cases hdefect
  · exact hdone

end DeclRecovery
