import DeclRecovery.Proofs.Delegation.Walks
import DeclRecovery.Proofs.Hoist.Overruns
import DeclRecovery.Proofs.Reconstruction.Total

/-!
When a type is given up: exactly when its chain cannot be built, and then it goes out as it came in. The implicit
constructor, which is added before, neither causes a defect nor hides one, and no later stage gives a type up.

With a chain there is a reconstruction, unless a root begins with stores that could be hoisted up to one that goes to a
slot which does not exist (`TypeDecl.Overruns`).
-/

namespace DeclRecovery

theorem TypeDecl.overruns_completed {t : TypeDecl} {slot : SlotId} : t.completed.Overruns slot ↔ t.Overruns slot := by
  have hslots : ∀ region rest : List Stmt, Candidate.Overruns t.completed region rest slot ↔
      Candidate.Overruns t region rest slot := by
    intro region rest
    simp only [Candidate.Overruns, Candidate.Hoistable, Fresh, completed_slots]
  simp only [Overruns, hslots]
  constructor
  · rintro ⟨c, hc, hruns, hover⟩
    rcases List.getElem?_of_mem hc with ⟨id, hid⟩
    rcases getElem?_completed hid with hid | rfl
    · exact ⟨c, List.mem_of_getElem? hid, hruns, hover⟩
    · -- The implicit constructor stores nothing.
      have hregion : Candidate.region t.implicitConstructor = [] := by
        rw [Constructor.region_eq, implicitConstructor]
        split <;> rfl
      rw [hregion] at hover
      exact absurd hover Candidate.not_overruns_nil
  · rintro ⟨c, hc, hruns, hover⟩
    rcases List.getElem?_of_mem hc with ⟨id, hid⟩
    exact ⟨c, List.mem_of_getElem? (getElem?_completed_of_some hid), hruns, hover⟩

/-! ### The chain of the completed type -/

namespace Chain

variable {t : TypeDecl}

/-- Constructors that hand over to none of the type make a chain. -/
theorem exists_build_of_forall (h : ∀ id c, t.constructors[id]? = some c → c.isDeclared = true →
    Linked t id c ∧ c.chainTarget? = none) : ∃ chain, build t = .ok chain := by
  have hlinked : ∀ id c, t.constructors[id]? = some c → c.isDeclared = true → Linked t id c := fun id c hc hd =>
    (h id c hc hd).1
  refine exists_build_iff.mpr ⟨hlinked, fun id hid => ?_⟩
  rcases hid with ⟨c, hc, hd⟩
  exact ⟨id, (isRoot_iff (delegatesOnce_of_linked hlinked)).mpr ⟨c, hc, hd, (h id c hc hd).2⟩, .refl⟩

/-- The implicit constructor has no defect, and it is added only where no other one can have any. -/
theorem build_completed_eq_error_iff {defect : ChainDefect} :
    build t.completed = .error defect ↔ build t = .error defect := by
  by_cases hdeclares : t.declaresConstructor = true
  · rw [TypeDecl.completed, if_pos hdeclares]
  · have hnone : ∀ (id : CtorId) c, t.constructors[id]? = some c → ¬c.isDeclared = true := fun id c hc hdeclared =>
      hdeclares (List.any_eq_true.mpr ⟨c, List.mem_of_getElem? hc, hdeclared⟩)
    have hbuild : ∃ chain, build t = .ok chain :=
      exists_build_of_forall fun id c hc hdeclared => absurd hdeclared (hnone id c hc)
    have hcompleted : ∃ chain, build t.completed = .ok chain := by
      refine exists_build_of_forall fun id c hc hdeclared => ?_
      rcases TypeDecl.getElem?_completed hc with hc | rfl
      · exact absurd hdeclared (hnone id c hc)
      · have htarget : t.implicitConstructor.chainTarget? = none := by
          rw [TypeDecl.implicitConstructor]
          split <;> rfl
        refine ⟨⟨?_, ?_, fun j hj => ?_⟩, htarget⟩
        · rw [TypeDecl.implicitConstructor]
          split <;> simp [Stmt.base, Stmt.delegation?]
        · rw [TypeDecl.implicitConstructor]
          split <;> rfl
        · cases htarget.symm.trans hj
    rcases hbuild with ⟨chain, hbuild⟩
    rcases hcompleted with ⟨chain', hcompleted⟩
    rw [hbuild, hcompleted]
    exact ⟨fun h => (by cases h), fun h => (by cases h)⟩

end Chain

/-! ### The run -/

theorem Draft.diagnostics_link (d : Draft) : d.link.diagnostics = d.diagnostics := by
  unfold link
  dsimp only
  cases Chain.build d.type.completed <;> simp only <;> split <;> rfl

namespace Run

variable {options : Options} {stage : Stage} {rest : List Stage} {d next : Draft} {e : OutOfRange}

theorem runStages_of_fallback {cause : Diagnostic} (h : stage.run options d = .ok next)
    (hcause : next.fallback = some cause) :
    ∃ steps message, runStages options (stage :: rest) d = .ok (steps, next.note .debug message) := by
  rw [runStages, h]
  refine ⟨_, _, if_pos ?_⟩
  rw [hcause]
  rfl

theorem runStages_of_error (h : stage.run options d = .error e) : runStages options (stage :: rest) d = .error e :=
  bind_eq_error_iff.mpr (Or.inl h)

theorem runStages_of_later_error (h : stage.run options d = .ok next) (hnext : next.fallback = none)
    (hrest : runStages options rest next = .error e) : runStages options (stage :: rest) d = .error e := by
  refine bind_eq_error_iff.mpr (Or.inr ⟨next, h, ?_⟩)
  rw [hnext]
  exact bind_eq_error_iff.mpr (Or.inl hrest)

end Run

section Reconstruct

variable {options : Options} {t : TypeDecl}

/-- A type without a chain goes out as it came in. -/
theorem reconstruct_of_build_eq_error {defect : ChainDefect} (h : Chain.build t.completed = .error defect) :
    reconstruct options t = .ok ⟨t, .fallback (.malformedChain t.name defect), []⟩ := by
  have hname : t.completed.name = t.name := by
    unfold TypeDecl.completed
    split <;> rfl
  have hfacts := Draft.facts_link (d := { type := t })
  simp only [h, hname] at hfacts
  have hfallback : (Draft.link { type := t }).fallback = some (.malformedChain t.name defect) :=
    (congrArg Draft.fallback hfacts :)
  obtain ⟨steps, message, hrun⟩ : ∃ steps message, Run.runStages options Stage.all { type := t } =
      .ok (steps, (Draft.link { type := t }).note .debug message) := Run.runStages_of_fallback rfl hfallback
  have hconclude : Run.conclude t ((Draft.link { type := t }).note .debug message) =
      ⟨t, .fallback (.malformedChain t.name defect), []⟩ := by
    rw [Run.conclude, Draft.note, hfallback, Draft.diagnostics_link]
  rw [reconstruct, Run.of, hrun, ← hconclude]
  rfl

/-- What stops the search for stores stops the reconstruction. -/
theorem reconstruct_of_extraction_eq_error {chain : Chain} {e : OutOfRange}
    (hchain : Chain.build t.completed = .ok chain)
    (h : Extraction.of options.equivalenceDepth t.completed chain = .error e) : reconstruct options t = .error e := by
  have hfacts := Draft.facts_link (d := { type := t })
  simp only [hchain] at hfacts
  have htype : (Draft.link { type := t }).type = t.completed := (congrArg Draft.type hfacts :)
  have hlink : (Draft.link { type := t }).chain = some chain := (congrArg Draft.chain hfacts :)
  have hfallback : (Draft.link { type := t }).fallback = none := (congrArg Draft.fallback hfacts :)
  have hextract : Stage.extraction.run options (Draft.link { type := t }) = .error e := by
    rw [Stage.run, Draft.extract, hlink, htype]
    exact bind_eq_error_iff.mpr (Or.inl h)
  have hrun : Run.runStages options Stage.all { type := t } = .error e :=
    Run.runStages_of_later_error rfl hfallback (Run.runStages_of_error hextract)
  rw [reconstruct, Run.of, hrun]
  rfl

end Reconstruct

/-- A type is given up if and only if its chain has a defect, and then it goes out as it came in, with the defect and no
other diagnostics. A type with a chain is reconstructed, unless one of its roots overruns. -/
theorem reconstruct_eq_fallback_iff (options : Options) (t : TypeDecl) :
    (∀ t' cause diagnostics, reconstruct options t = .ok ⟨t', .fallback cause, diagnostics⟩ ↔
      t' = t ∧ diagnostics = [] ∧ ∃ defect, Chain.build t = .error defect ∧ cause = .malformedChain t.name defect) ∧
    ∀ chain, Chain.build t = .ok chain →
      (∃ t' diagnostics, reconstruct options t = .ok ⟨t', .reconstructed, diagnostics⟩) ∧ (∀ slot, ¬t.Overruns slot) ∨
        ∃ slot, t.Overruns slot ∧ reconstruct options t = .error ⟨t.slots.length, slot⟩ := by
  cases hbuild : Chain.build t.completed with
  | error defect =>
    have hdefect := Chain.build_completed_eq_error_iff.mp hbuild
    rw [reconstruct_of_build_eq_error hbuild, hdefect]
    refine ⟨fun t' cause diagnostics => ⟨fun h => ?_, ?_⟩, fun chain h => (by cases h)⟩
    · cases h
      exact ⟨rfl, rfl, defect, rfl, rfl⟩
    · rintro ⟨rfl, rfl, defect', hdefect', rfl⟩
      cases hdefect'
      rfl
  | ok chain =>
    have hok : ∀ defect, ¬Chain.build t = .error defect := fun defect h => by
      rw [Chain.build_completed_eq_error_iff.mpr h] at hbuild
      cases hbuild
    cases hextraction : Extraction.of options.equivalenceDepth t.completed chain with
    | error e =>
      rcases Extraction.overruns_of_eq_error hbuild hextraction with ⟨slot, hover, rfl⟩
      rw [TypeDecl.overruns_completed] at hover
      rw [reconstruct_of_extraction_eq_error hbuild hextraction, TypeDecl.completed_slots]
      exact ⟨by simp [hok], fun _ _ => Or.inr ⟨slot, hover, rfl⟩⟩
    | ok extraction =>
      rcases Recovery.exists_of_extraction hbuild hextraction with ⟨r, -⟩
      rcases exists_reconstruct_iff.mpr ⟨r, rfl⟩ with ⟨diagnostics, h⟩
      have hover : ∀ slot, ¬t.Overruns slot := fun slot hover =>
        Extraction.not_overruns_of_eq_ok hbuild hextraction slot (TypeDecl.overruns_completed.mpr hover)
      exact ⟨by simp [h, hok], fun _ _ => Or.inl ⟨⟨_, _, h⟩, hover⟩⟩

/-- A type that stores what it does not have. -/
def TypeDecl.stray : TypeDecl where
  name := "Stray"
  layout := .byReference
  constructors := [{ parameters := [], body := [.assign 0 (.literal (.int 1)), .base []] }]

/-- The chain has no defect, and still there is no reconstruction. -/
theorem reconstruct_stops_stray :
    (∃ chain, Chain.build .stray = .ok chain) ∧ reconstruct {} .stray = .error ⟨0, 0⟩ :=
  ⟨⟨_, rfl⟩, rfl⟩

end DeclRecovery
