import DeclRecovery.Proofs.Primary
import DeclRecovery.Proofs.Reconstruction.Elision

/-!
A reconstruction goes through once the chain is built and the candidates are found: no later stage looks for a slot or
a constructor that does not exist.
-/

namespace DeclRecovery

variable {options : Options} {t : TypeDecl} {chain : Chain} {extraction : Extraction}

theorem Classification.exists_elision (hchain : Chain.build t = .ok chain) (plan : Plan) :
    ∃ x, elision t chain plan = .ok x := by
  unfold elision
  split
  · exact ⟨_, rfl⟩
  · next root hroot =>
    have hmem := Chain.mem_roots_of_root? hroot
    obtain ⟨c, hc, -⟩ := (Chain.mem_roots_iff hchain).mp hmem
    refine exists_bind_eq_ok (constructor_eq_ok.mpr hc) ?_
    dsimp only
    split
    · exact ⟨_, rfl⟩
    · split
      · exact ⟨_, rfl⟩
      · split <;> exact ⟨_, rfl⟩

theorem Classification.exists_of (hchain : Chain.build t = .ok chain) (extraction : Extraction) :
    ∃ cls, Classification.of options t chain extraction = .ok cls := by
  obtain ⟨⟨elided, drop⟩, helision⟩ := exists_elision hchain extraction.withoutPrimary
  by_cases helide : options.elideDefaultConstructors = true
  · exact ⟨_, of_eq_ok_iff.mpr ⟨elided, drop, by rw [if_pos helide, helision], rfl⟩⟩
  · exact ⟨_, of_eq_ok_iff.mpr ⟨none, false, by rw [if_neg helide], rfl⟩⟩

/-- The forms of a decision are those of constructors that exist. -/
theorem Decision.lt_of_mem_forms {kind : Option AggregateKind} {d : Decision} (hchain : Chain.build t = .ok chain)
    (h : Decision.of options t chain extraction kind = .ok d) {id : CtorId} (hid : id ∈ d.forms.keys) :
    id < t.constructors.length := by
  cases d with
  | synthesized root forms =>
    obtain ⟨hroot, c, hc, -, -, -, listed, hlisted, rfl⟩ := of_eq_synthesized_iff.mp h
    rcases PosMap.mem_keys_add.mp hid with rfl | hid
    · exact (List.getElem?_eq_some_iff.mp hc).1
    · rw [PosMap.mem_keys_ofList, map_fst_overloads hlisted] at hid
      obtain ⟨d, hd, -⟩ := (Chain.mem_order_iff hchain).mp (List.mem_of_mem_filter hid)
      exact (List.getElem?_eq_some_iff.mp hd).1
  | notApplicable | rejected => exact absurd hid PosMap.not_mem_keys_empty

/-- With a chain and candidates there is a reconstruction. -/
theorem Recovery.exists_of_extraction (hchain : Chain.build t.completed = .ok chain)
    (hextraction : Extraction.of options.equivalenceDepth t.completed chain = .ok extraction) :
    ∃ r : Recovery options t, r.chain = chain ∧ r.extraction = extraction := by
  obtain ⟨cls, hcls⟩ : ∃ cls, Classification.of options t.completed chain extraction = .ok cls :=
    Classification.exists_of hchain extraction
  obtain ⟨formed, hformed⟩ : ∃ formed, cls.apply options t.completed = .ok formed := by
    refine ⟨_, Classification.apply_eq_ok_iff.mpr ⟨rfl, fun id hid => ?_⟩⟩
    obtain ⟨c, hc, -⟩ := Classification.mem_elided hcls hid
    exact (List.getElem?_eq_some_iff.mp hc).1
  have hbuild : Chain.build formed = .ok chain := Chain.build_of_bare_eq (TypeDecl.bare_classify hformed) hchain
  obtain ⟨d, hd⟩ : ∃ d, Decision.of options formed chain extraction (some cls.kind) = .ok d :=
    Decision.exists_of hbuild extraction _
  obtain ⟨decided, hdecided⟩ :
      ∃ decided, d.apply ((d.plan extraction).carriedOut cls.dropZeroInitializers formed) = .ok decided := by
    refine ⟨_, Decision.apply_eq_ok_iff.mpr ⟨rfl, fun id hid => ?_⟩⟩
    rw [Plan.length_carriedOut_constructors]
    exact Decision.lt_of_mem_forms hbuild hd hid
  exact ⟨⟨chain, extraction, cls, formed, d, decided, hchain, hextraction, hcls, hformed, hd, hdecided⟩, rfl, rfl⟩

end DeclRecovery
