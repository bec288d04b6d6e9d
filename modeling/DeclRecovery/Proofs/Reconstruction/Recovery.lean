import DeclRecovery.Proofs.Reconstruction.Bare

/-!
What a reconstruction that succeeds has found out and done (`Recovery`), without the log and the diagnostics:
reconstructing gives a type exactly when there is such a record for it (`exists_reconstruct_iff`).
-/

namespace DeclRecovery

/-- The type with the hoisted values as initializers, the zeros among them left out if that is wanted. -/
def Plan.carriedOut (p : Plan) (withoutZeros : Bool) (t : TypeDecl) : TypeDecl :=
  if withoutZeros then (p.hoist t).dropZeros p else p.hoist t

/-- A reconstruction that succeeds, with what its stages find. -/
structure Recovery (options : Options) (t : TypeDecl) where
  chain : Chain
  extraction : Extraction
  classification : Classification
  formed : TypeDecl
  decision : Decision
  decided : TypeDecl
  chain_eq : Chain.build t.completed = .ok chain
  extraction_eq : Extraction.of options.equivalenceDepth t.completed chain = .ok extraction
  classification_eq : Classification.of options t.completed chain extraction = .ok classification
  formed_eq : classification.apply options t.completed = .ok formed
  decision_eq : Decision.of options formed chain extraction (some classification.kind) = .ok decision
  decided_eq : decision.apply
    ((decision.plan extraction).carriedOut classification.dropZeroInitializers formed) = .ok decided

namespace Draft

/-- A draft without the log and the diagnostics. -/
def facts (d : Draft) : Draft := { d with diagnostics := [], log := [] }

variable {options : Options} {d : Draft} {chain : Chain} {extraction : Extraction} {classification : Classification}

theorem facts_link : d.link.facts =
    match Chain.build d.type.completed with
    | .ok chain => { d.facts with type := d.type.completed, chain := some chain }
    | .error defect =>
      { d.facts with type := d.type.completed, fallback := some (.malformedChain d.type.completed.name defect) } := by
  unfold link
  dsimp only
  cases hbuild : Chain.build d.type.completed <;> simp only <;> split <;> rfl

theorem facts_reportAmbiguity {found : SlotId × Ambiguity} (h : d.type.Fresh found.1) :
    ∃ d', d.reportAmbiguity found = .ok d' ∧ d'.facts = d.facts := by
  obtain ⟨s, hs, -⟩ := h
  refine ⟨_, bind_eq_ok_iff.mpr ⟨s, slot_eq_ok.mpr hs, rfl⟩, rfl⟩

theorem facts_reportAmbiguities {found : List (SlotId × Ambiguity)} (h : ∀ f ∈ found, d.type.Fresh f.1) :
    ∃ d', found.foldlM reportAmbiguity d = .ok d' ∧ d'.facts = d.facts := by
  induction found generalizing d with
  | nil => exact ⟨d, rfl, rfl⟩
  | cons f rest ih =>
    obtain ⟨d₁, h₁, hfacts₁⟩ := facts_reportAmbiguity (h f List.mem_cons_self)
    have htype : d₁.type = d.type := (congrArg Draft.type hfacts₁ :)
    obtain ⟨d₂, h₂, hfacts₂⟩ := ih (d := d₁) fun f' hf' => htype ▸ h f' (List.mem_cons_of_mem _ hf')
    exact ⟨d₂, by rw [List.foldlM_cons, h₁]; exact h₂, hfacts₂.trans hfacts₁⟩

theorem exists_extract_iff (hchain : d.chain = some chain) {f : Draft} :
    (∃ next, d.extract options = .ok next ∧ next.facts = f) ↔
      ∃ e, Extraction.of options.equivalenceDepth d.type chain = .ok e ∧ { d.facts with extraction := some e } = f := by
  have hreported : ∀ (e : Extraction) level message,
      Extraction.of options.equivalenceDepth d.type chain = .ok e →
        ∃ d', e.ambiguities.foldlM reportAmbiguity (d.note level message) = .ok d' ∧ d'.facts = d.facts :=
    fun e level message he => facts_reportAmbiguities (d := d.note level message) fun f hf =>
      Extraction.fresh_of_mem_ambiguities he hf
  have hadd : ∀ (d' : Draft) (e : Extraction), d'.facts = d.facts →
      { d'.facts with extraction := some e } = { d.facts with extraction := some e } :=
    fun d' e h => congrArg (fun f : Draft => { f with extraction := some e }) h
  rw [extract, hchain]
  constructor
  · rintro ⟨next, h, rfl⟩
    obtain ⟨e, he, h⟩ := bind_eq_ok_iff.mp h
    obtain ⟨d₁, h₁, h⟩ := bind_eq_ok_iff.mp h
    obtain ⟨d₂, h₂, hfacts⟩ := hreported e _ _ he
    rw [h₁] at h₂
    cases h₂
    cases h
    exact ⟨e, he, (hadd d₁ e hfacts).symm⟩
  · rintro ⟨e, he, rfl⟩
    obtain ⟨d₁, h₁, hfacts⟩ := hreported e _ _ he
    exact ⟨_, bind_eq_ok_iff.mpr ⟨e, he, bind_eq_ok_iff.mpr ⟨d₁, h₁, rfl⟩⟩, hadd d₁ e hfacts⟩

theorem exists_classify_iff (hchain : d.chain = some chain) (hextraction : d.extraction = some extraction) {f : Draft} :
    (∃ next, d.classify options = .ok next ∧ next.facts = f) ↔
      ∃ c t, Classification.of options d.type chain extraction = .ok c ∧ c.apply options d.type = .ok t ∧
        { d.facts with type := t, classification := some c } = f := by
  rw [classify, hchain, hextraction]
  constructor
  · rintro ⟨next, h, rfl⟩
    obtain ⟨c, hc, h⟩ := bind_eq_ok_iff.mp h
    obtain ⟨t, ht, h⟩ := bind_eq_ok_iff.mp h
    cases h
    exact ⟨c, t, hc, ht, rfl⟩
  · rintro ⟨c, t, hc, ht, rfl⟩
    exact ⟨_, bind_eq_ok_iff.mpr ⟨c, hc, bind_eq_ok_iff.mpr ⟨t, ht, rfl⟩⟩, rfl⟩

theorem exists_synthesize_iff (hchain : d.chain = some chain) (hextraction : d.extraction = some extraction)
    (hclassification : d.classification = some classification) {f : Draft} :
    (∃ next, d.synthesize options = .ok next ∧ next.facts = f) ↔
      ∃ decision hoisted t, Decision.of options d.type chain extraction (some classification.kind) = .ok decision ∧
        (decision.plan extraction).apply d.type = .ok hoisted ∧
        decision.apply ((decision.plan extraction).carriedOut classification.dropZeroInitializers d.type) = .ok t ∧
        { d.facts with type := t, decision := some decision } = f := by
  have hcarried : ∀ {p : Plan} {hoisted : TypeDecl}, p.apply d.type = .ok hoisted →
      (if classification.dropZeroInitializers then hoisted.dropZeros p else hoisted) =
        p.carriedOut classification.dropZeroInitializers d.type :=
    fun h => by rw [(Plan.apply_eq_ok_iff.mp h).1, Plan.carriedOut]
  rw [synthesize, hchain, hextraction, hclassification]
  constructor
  · rintro ⟨next, h, rfl⟩
    obtain ⟨decision, hdecision, h⟩ := bind_eq_ok_iff.mp h
    obtain ⟨hoisted, hhoisted, h⟩ := bind_eq_ok_iff.mp h
    obtain ⟨t, ht, h⟩ := bind_eq_ok_iff.mp h
    refine ⟨decision, hoisted, t, hdecision, hhoisted, hcarried hhoisted ▸ ht, ?_⟩
    cases decision <;> cases h <;> rfl
  · rintro ⟨decision, hoisted, t, hdecision, hhoisted, ht, rfl⟩
    rw [← hcarried hhoisted] at ht
    cases decision <;> exact ⟨_, bind_eq_ok_iff.mpr ⟨_, hdecision, bind_eq_ok_iff.mpr ⟨hoisted, hhoisted,
      bind_eq_ok_iff.mpr ⟨t, ht, rfl⟩⟩⟩, rfl⟩

end Draft

namespace Run

/-- Running the stages gives the draft `last`, and none of them gives the type up. -/
def Completes (options : Options) (stages : List Stage) (d last : Draft) : Prop :=
  (∃ steps, runStages options stages d = .ok (steps, last)) ∧ last.fallback = none

variable {options : Options} {stage : Stage} {rest : List Stage} {d last : Draft}

theorem completes_nil : Completes options [] d last ↔ last = d ∧ d.fallback = none := by
  constructor
  · rintro ⟨⟨steps, h⟩, hlast⟩
    cases h
    exact ⟨rfl, hlast⟩
  · rintro ⟨rfl, hlast⟩
    exact ⟨⟨[], rfl⟩, hlast⟩

theorem completes_cons : Completes options (stage :: rest) d last ↔
    ∃ next, stage.run options d = .ok next ∧ next.fallback = none ∧ Completes options rest next last := by
  constructor
  · rintro ⟨⟨steps, h⟩, hlast⟩
    obtain ⟨next, hnext, h⟩ := bind_eq_ok_iff.mp h
    cases hfallback : next.fallback with
    | some cause =>
      -- The draft that is given up only gets a log entry, so it is given up in the end.
      rw [hfallback] at h
      cases h
      cases hfallback.symm.trans hlast
    | none =>
      rw [hfallback] at h
      obtain ⟨⟨steps', last'⟩, hrest, h⟩ := bind_eq_ok_iff.mp h
      cases h
      exact ⟨next, hnext, hfallback, ⟨steps', hrest⟩, hlast⟩
  · rintro ⟨next, hnext, hfallback, ⟨steps, hrest⟩, hlast⟩
    refine ⟨⟨(stage, next) :: steps, bind_eq_ok_iff.mpr ⟨next, hnext, ?_⟩⟩, hlast⟩
    rw [hfallback]
    exact bind_eq_ok_iff.mpr ⟨_, hrest, rfl⟩

end Run

theorem exists_reconstruct_iff_completes {options : Options} {t t' : TypeDecl} :
    (∃ diagnostics, reconstruct options t = .ok ⟨t', .reconstructed, diagnostics⟩) ↔
      ∃ last, Run.Completes options Stage.all { type := t } last ∧ last.type = t' := by
  constructor
  · rintro ⟨diagnostics, h⟩
    obtain ⟨run, hrun, h⟩ := bind_eq_ok_iff.mp h
    obtain ⟨⟨steps, last⟩, hsteps, hrun⟩ := bind_eq_ok_iff.mp hrun
    cases hrun
    have hconclude : Run.conclude t last = ⟨t', .reconstructed, diagnostics⟩ := pure_eq_ok_iff.mp h
    rw [Run.conclude] at hconclude
    cases hlast : last.fallback with
    | some cause =>
      rw [hlast] at hconclude
      cases hconclude
    | none =>
      rw [hlast] at hconclude
      cases hconclude
      exact ⟨last, ⟨⟨steps, hsteps⟩, hlast⟩, rfl⟩
  · rintro ⟨last, ⟨⟨steps, hsteps⟩, hlast⟩, rfl⟩
    refine ⟨last.diagnostics, bind_eq_ok_iff.mpr ⟨_, bind_eq_ok_iff.mpr ⟨_, hsteps, rfl⟩, ?_⟩⟩
    rw [pure_eq_ok_iff]
    show Run.conclude t last = _
    rw [Run.conclude, hlast]

namespace Recovery

variable {options : Options} {t t' : TypeDecl}

/-- The type that comes out. -/
def type (r : Recovery options t) : TypeDecl := r.decided.shape options

/-- The plan that is carried out. -/
def plan (r : Recovery options t) : Plan := r.decision.plan r.extraction

theorem bare_formed (r : Recovery options t) : r.formed.bare = t.completed.bare := TypeDecl.bare_classify r.formed_eq

theorem plan_hoists (r : Recovery options t) : r.plan.Hoists t.completed r.chain.roots := by
  obtain ⟨hwith, hwithout⟩ := Extraction.hoists r.chain_eq r.extraction_eq
  unfold plan Decision.plan
  split
  · exact hwith
  · exact hwithout
  · exact hwithout

theorem apply_formed (r : Recovery options t) : r.plan.apply r.formed = .ok (r.plan.hoist r.formed) := by
  obtain ⟨-, -, -, hslots, hctors, -⟩ := TypeDecl.bare_eq_iff.mp r.bare_formed
  have hslots := congrArg List.length hslots
  have hctors := congrArg List.length hctors
  simp only [List.length_map] at hslots hctors
  rw [Plan.apply_eq_ok_iff, hslots, hctors]
  exact ⟨rfl, (Plan.apply_eq_ok_iff.mp r.plan_hoists.apply_eq).2⟩

theorem exists_of_completes {last : Draft} (h : Run.Completes options Stage.all { type := t } last) :
    ∃ r : Recovery options t, r.type = last.type := by
  simp only [Stage.all, Run.completes_cons, Run.completes_nil, Stage.run, pure_eq_ok_iff] at h
  obtain ⟨d₁, rfl, hfallback, d₂, h₂, -, d₃, h₃, -, d₄, h₄, -, d₅, rfl, -, rfl, -⟩ := h
  have f₁ := Draft.facts_link (d := { type := t })
  cases hchain : Chain.build t.completed with
  | error defect =>
    simp only [hchain] at f₁
    cases (congrArg Draft.fallback f₁).symm.trans hfallback
  | ok chain =>
    simp only [hchain] at f₁
    generalize Draft.link { type := t } = d₁ at f₁ h₂
    have htype₁ : d₁.type = t.completed := (congrArg Draft.type f₁ :)
    have hchain₁ : d₁.chain = some chain := (congrArg Draft.chain f₁ :)
    obtain ⟨extraction, hextraction, f₂⟩ := (Draft.exists_extract_iff hchain₁).mp ⟨d₂, h₂, rfl⟩
    have htype₂ : d₂.type = t.completed := (congrArg Draft.type f₂ :).symm.trans htype₁
    have hchain₂ : d₂.chain = some chain := (congrArg Draft.chain f₂ :).symm.trans hchain₁
    have hextraction₂ : d₂.extraction = some extraction := (congrArg Draft.extraction f₂ :).symm
    obtain ⟨classification, formed, hclassification, hformed, f₃⟩ :=
      (Draft.exists_classify_iff hchain₂ hextraction₂).mp ⟨d₃, h₃, rfl⟩
    have htype₃ : d₃.type = formed := (congrArg Draft.type f₃ :).symm
    have hchain₃ : d₃.chain = some chain := (congrArg Draft.chain f₃ :).symm.trans hchain₂
    have hextraction₃ : d₃.extraction = some extraction := (congrArg Draft.extraction f₃ :).symm.trans hextraction₂
    have hclassification₃ : d₃.classification = some classification := (congrArg Draft.classification f₃ :).symm
    obtain ⟨decision, hoisted, decided, hdecision, -, hdecided, f₄⟩ :=
      (Draft.exists_synthesize_iff hchain₃ hextraction₃ hclassification₃).mp ⟨d₄, h₄, rfl⟩
    have htype₄ : d₄.type = decided := (congrArg Draft.type f₄ :).symm
    rw [htype₁] at hextraction
    rw [htype₂] at hclassification hformed
    rw [htype₃] at hdecision hdecided
    subst htype₄
    exact ⟨⟨chain, extraction, classification, formed, decision, d₄.type, hchain, hextraction, hclassification, hformed,
      hdecision, hdecided⟩, rfl⟩

theorem exists_completes (r : Recovery options t) :
    ∃ last, Run.Completes options Stage.all { type := t } last ∧ last.type = r.type := by
  have f₁ := Draft.facts_link (d := { type := t })
  simp only [r.chain_eq] at f₁
  generalize hd₁ : Draft.link { type := t } = d₁ at f₁
  have htype₁ : d₁.type = t.completed := (congrArg Draft.type f₁ :)
  have hchain₁ : d₁.chain = some r.chain := (congrArg Draft.chain f₁ :)
  have hfallback₁ : d₁.fallback = none := (congrArg Draft.fallback f₁ :)
  obtain ⟨d₂, h₂, f₂⟩ := (Draft.exists_extract_iff hchain₁).mpr ⟨r.extraction, htype₁ ▸ r.extraction_eq, rfl⟩
  have htype₂ : d₂.type = t.completed := (congrArg Draft.type f₂ :).trans htype₁
  have hchain₂ : d₂.chain = some r.chain := (congrArg Draft.chain f₂ :).trans hchain₁
  have hextraction₂ : d₂.extraction = some r.extraction := (congrArg Draft.extraction f₂ :)
  have hfallback₂ : d₂.fallback = none := (congrArg Draft.fallback f₂ :).trans hfallback₁
  obtain ⟨d₃, h₃, f₃⟩ := (Draft.exists_classify_iff hchain₂ hextraction₂).mpr
    ⟨r.classification, r.formed, htype₂ ▸ r.classification_eq, htype₂ ▸ r.formed_eq, rfl⟩
  have htype₃ : d₃.type = r.formed := (congrArg Draft.type f₃ :)
  have hchain₃ : d₃.chain = some r.chain := (congrArg Draft.chain f₃ :).trans hchain₂
  have hextraction₃ : d₃.extraction = some r.extraction := (congrArg Draft.extraction f₃ :).trans hextraction₂
  have hclassification₃ : d₃.classification = some r.classification := (congrArg Draft.classification f₃ :)
  have hfallback₃ : d₃.fallback = none := (congrArg Draft.fallback f₃ :).trans hfallback₂
  obtain ⟨d₄, h₄, f₄⟩ := (Draft.exists_synthesize_iff hchain₃ hextraction₃ hclassification₃).mpr
    ⟨r.decision, _, r.decided, htype₃ ▸ r.decision_eq, htype₃ ▸ r.apply_formed, htype₃ ▸ r.decided_eq, rfl⟩
  have htype₄ : d₄.type = r.decided := (congrArg Draft.type f₄ :)
  have hfallback₄ : d₄.fallback = none := (congrArg Draft.fallback f₄ :).trans hfallback₃
  refine ⟨d₄.shape options, ?_, ?_⟩
  · simp only [Stage.all, Run.completes_cons, Run.completes_nil, Stage.run, pure_eq_ok_iff]
    exact ⟨d₁, hd₁, hfallback₁, d₂, h₂, hfallback₂, d₃, h₃, hfallback₃, d₄, h₄, hfallback₄, _, rfl, hfallback₄, rfl,
      hfallback₄⟩
  · rw [type, ← htype₄]
    rfl

end Recovery

/-- Reconstructing succeeds with a type exactly when the stages find what a `Recovery` of that type records. -/
theorem exists_reconstruct_iff {options : Options} {t t' : TypeDecl} :
    (∃ diagnostics, reconstruct options t = .ok ⟨t', .reconstructed, diagnostics⟩) ↔
      ∃ r : Recovery options t, r.type = t' := by
  rw [exists_reconstruct_iff_completes]
  constructor
  · rintro ⟨last, hlast, rfl⟩
    exact Recovery.exists_of_completes hlast
  · rintro ⟨r, rfl⟩
    exact r.exists_completes

end DeclRecovery
