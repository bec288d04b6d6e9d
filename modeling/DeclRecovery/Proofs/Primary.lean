import DeclRecovery.Primary.Decision
import DeclRecovery.Proofs.Shaped

/-!
When the parameters of the root move to the declaration (`Decision.of_eq_synthesized_iff`), and that shapes make no
difference to what is asked of the root and of its overloads for that.
-/

namespace DeclRecovery

variable {options : Options}

/-- Reading a constructor of one type and of another, and going on alike. -/
theorem TypeDecl.constructor_bind_congr {t t' : TypeDecl} {id : CtorId} {α : Type} {f f' : Constructor → Except OutOfRange α}
    (hlength : t'.constructors.length = t.constructors.length)
    (h : ∀ c c', t.constructors[id]? = some c → t'.constructors[id]? = some c' → f' c' = f c) :
    t'.constructor id >>= f' = t.constructor id >>= f := by
  unfold TypeDecl.constructor nth
  rw [hlength]
  cases hc : t.constructors[id]? with
  | none =>
    rw [List.getElem?_eq_none_iff, ← hlength, ← List.getElem?_eq_none_iff] at hc
    rw [hc]
    rfl
  | some c =>
    have hid : id < t'.constructors.length := hlength ▸ (List.getElem?_eq_some_iff.mp hc).1
    rw [List.getElem?_eq_getElem hid]
    exact h c _ hc (List.getElem?_eq_getElem hid)

theorem Constructor.getElem?_of_delegation? {c : Constructor} {index : Nat} {call : Delegation}
    (h : c.delegation? = some (index, call)) : c.body[index]? = some (.delegate call) := by
  obtain ⟨⟨s, i⟩, hmem, hs⟩ := List.exists_of_findSome?_eq_some h
  obtain ⟨call', hcall, heq⟩ := Option.map_eq_some_iff.mp hs
  cases heq
  cases s with
  | delegate =>
    cases hcall
    exact List.mk_mem_zipIdx_iff_getElem?.mp hmem
  | _ => cases hcall

namespace Decision

theorem readsInstance_shape (args : List Expr) : readsInstance (args.map (·.shape options)) = readsInstance args := by
  simp [readsInstance, Function.comp_def, Expr.readsInstance_shape]

theorem hasValueEvidence_congr {t t' : TypeDecl} (hlayout : t'.layout = t.layout) :
    hasValueEvidence t' = hasValueEvidence t := by
  funext chain roots kind
  simp only [hasValueEvidence, TypeDecl.isValueLayout, hlayout]

theorem rootFits_iff {t : TypeDecl} {rest : List Stmt} : rootFits t rest = true ↔
    t.isValueLayout = true ∧ rest = [] ∨
      t.isValueLayout = false ∧ ∃ args, rest = [.base args] ∧ readsInstance args = false := by
  unfold rootFits
  split
  · simp
  · simp [Stmt.base]
  · next hnil hbase =>
    constructor
    · rintro ⟨⟩
    · rintro (⟨-, rfl⟩ | ⟨-, args, rfl, -⟩)
      · exact absurd rfl hnil
      · exact absurd rfl (hbase args)

/-- A root that can stand at the declaration stores nothing. -/
theorem region_of_rootFits {t : TypeDecl} {c : Constructor} (h : rootFits t c.body = true) : Candidate.region c = [] := by
  rw [Constructor.region_eq]
  rcases rootFits_iff.mp h with ⟨-, hbody⟩ | ⟨-, args, hbody, -⟩ <;> rw [hbody] <;> rfl

theorem rootFits_congr {t t' : TypeDecl} (hlayout : t'.layout = t.layout) (rest : List Stmt) :
    rootFits t' rest = rootFits t rest := by
  rw [Bool.eq_iff_iff, rootFits_iff, rootFits_iff, TypeDecl.isValueLayout, hlayout, TypeDecl.isValueLayout]

theorem rootFits_shape {t t' : TypeDecl} (hlayout : t'.layout = t.layout) (rest : List Stmt) :
    rootFits t' (Stmt.shapeBlock options rest) = rootFits t rest := by
  rw [rootFits_congr hlayout, Bool.eq_iff_iff, rootFits_iff, rootFits_iff, Stmt.shapeBlock_eq_nil_iff]
  refine or_congr Iff.rfl (and_congr_right fun _ => ?_)
  constructor
  · rintro ⟨_, hrest, hargs⟩
    obtain ⟨args, rfl, rfl⟩ := Stmt.shapeBlock_eq_base_iff.mp hrest
    exact ⟨args, rfl, readsInstance_shape args ▸ hargs⟩
  · rintro ⟨args, rfl, hargs⟩
    exact ⟨_, Stmt.shapeBlock_eq_base_iff.mpr ⟨args, rfl, rfl⟩, (readsInstance_shape args).trans hargs⟩

variable {t t' : TypeDecl} {chain : Chain}

theorem overload_congr {id : CtorId}
    (hparams : t'.constructors.map (·.parameters) = t.constructors.map (·.parameters))
    (hbody : t'.constructors[id]?.map (·.body) = t.constructors[id]?.map (·.shape options |>.body)) :
    overload options t' id = overload options t id := by
  have hlength : t'.constructors.length = t.constructors.length := by simpa using congrArg List.length hparams
  refine TypeDecl.constructor_bind_congr hlength fun c c' hc hc' => ?_
  rw [hc, hc', Option.map_some, Option.map_some, Option.some_inj] at hbody
  have hdelegation : c'.delegation? = (c.shape options).delegation? := by
    rw [Constructor.delegation?, hbody, Constructor.delegation?]
  rw [hdelegation, Constructor.delegation?_shape]
  rcases c.delegation? with _ | ⟨index, _ | target, args⟩
  · rfl
  · rfl
  · have hsize : c'.body.length = c.body.length := by
      rw [hbody, Constructor.shape, Stmt.shapeBlock_eq, List.length_map]
    simp only [Option.map_some, Delegation.shape, hsize, readsInstance_shape, List.length_map]
    split
    · rfl
    · refine TypeDecl.constructor_bind_congr hlength fun d d' hd hd' => ?_
      have hparams := congrArg (·[target]?) hparams
      simp only [List.getElem?_map, hd, hd', Option.map_some, Option.some_inj] at hparams
      rw [hparams]

theorem overloads_congr {ids : List CtorId}
    (hparams : t'.constructors.map (·.parameters) = t.constructors.map (·.parameters))
    (hbody : ∀ id ∈ ids, t'.constructors[id]?.map (·.body) = t.constructors[id]?.map (·.shape options |>.body)) :
    overloads options t' ids = overloads options t ids := by
  induction ids with
  | nil => rfl
  | cons id ids ih =>
    rw [overloads, overloads, overload_congr hparams (hbody id List.mem_cons_self),
      ih fun id hid => hbody id (List.mem_cons_of_mem _ hid)]

theorem map_fst_overloads {ids : List CtorId} {listed : List (CtorId × Form)}
    (h : overloads options t ids = .ok (.ok listed)) : listed.map Prod.fst = ids := by
  induction ids generalizing listed with
  | nil =>
    cases h
    rfl
  | cons id ids ih =>
    obtain ⟨_ | form, -, h⟩ := bind_eq_ok_iff.mp h
    · cases h
    · obtain ⟨_ | rest, hrest, h⟩ := bind_eq_ok_iff.mp h
      · cases h
      · cases h
        rw [List.map_cons, ih hrest]

theorem overload_of_mem {ids : List CtorId} {listed : List (CtorId × Form)}
    (h : overloads options t ids = .ok (.ok listed)) {x : CtorId × Form} (hx : x ∈ listed) :
    overload options t x.1 = .ok (.ok x.2) := by
  induction ids generalizing listed with
  | nil =>
    cases h
    cases hx
  | cons id ids ih =>
    obtain ⟨_ | form, hform, h⟩ := bind_eq_ok_iff.mp h
    · cases h
    · obtain ⟨_ | rest, hrest, h⟩ := bind_eq_ok_iff.mp h
      · cases h
      · cases h
        rcases List.mem_cons.mp hx with rfl | hx
        · exact hform
        · exact ih hrest hx

theorem body_of_overloadForm? {c : Constructor} {index : Nat} {call : Delegation} {form : Form}
    (hdelegation : c.delegation? = some (index, call)) (h : overloadForm? options c.body.length index = some form) :
    ∃ rest, c.body = .delegate call :: rest ∧
      (form = .forwarding ∧ rest = [] ∨ options.keepBodiedOverloads = true ∧ form = .explicit ∧ rest ≠ []) := by
  have hindex := Constructor.getElem?_of_delegation? hdelegation
  rcases hbody : c.body with _ | ⟨s, rest⟩
  · rw [hbody] at hindex
    cases hindex
  · rw [hbody] at hindex h
    unfold overloadForm? at h
    split at h
    · next hlength =>
      cases h
      rcases rest with _ | _
      · -- The only statement is the delegation.
        have hzero : index = 0 := by simpa using (List.getElem?_eq_some_iff.mp hindex).1
        cases hzero
        cases hindex
        exact ⟨[], rfl, Or.inl ⟨rfl, rfl⟩⟩
      · cases hlength
    · next hlength =>
      split at h
      · next hkept =>
        cases h
        rcases hkept with ⟨hkept, rfl⟩
        cases hindex
        refine ⟨rest, rfl, Or.inr ⟨hkept, rfl, ?_⟩⟩
        rintro rfl
        exact hlength rfl
      · cases h

/-- An overload that gets a form hands over first, with an argument for each parameter and without a look at the
instance. What it does then, if anything, is only kept where that is asked for. -/
theorem overload_eq_ok {id : CtorId} {form : Form} (h : overload options t id = .ok (.ok form)) :
    ∃ c target args rest d, t.constructors[id]? = some c ∧ c.body = .chain target args :: rest ∧
      t.constructors[target]? = some d ∧ args.length = d.parameters.length ∧ readsInstance args = false ∧
      (form = .forwarding ∧ rest = [] ∨ options.keepBodiedOverloads = true ∧ form = .explicit ∧ rest ≠ []) := by
  obtain ⟨c, hc, h⟩ := bind_eq_ok_iff.mp h
  split at h
  · next index target args hdelegation =>
    split at h
    · cases h
    · next kept hkept =>
      obtain ⟨d, hd, h⟩ := bind_eq_ok_iff.mp h
      obtain ⟨rest, hbody, hform⟩ := body_of_overloadForm? hdelegation hkept
      split at h
      · cases h
      · next harity =>
        split at h
        · cases h
        · next hreads =>
          cases h
          exact ⟨c, target, args, rest, d, constructor_eq_ok.mp hc, hbody, constructor_eq_ok.mp hd, by simpa using harity,
            by simpa using hreads, hform⟩
  · cases h

/-- When there is a primary constructor: the only root has parameters, there is evidence that they stood at the
declaration, and the root and all others can be written so. -/
theorem of_eq_synthesized_iff {extraction : Extraction} {kind : Option AggregateKind} {root : CtorId} {forms : PosMap Form} :
    Decision.of options t chain extraction kind = .ok (.synthesized root forms) ↔
      chain.root? = some root ∧ ∃ c, t.constructors[root]? = some c ∧ c.parameters ≠ [] ∧
        hasEvidence t chain root c extraction.withPrimary kind = true ∧
        rootFits t (extraction.withPrimary.remaining root c.body) = true ∧
        ∃ listed, overloads options t (chain.order.filter (· != root)) = .ok (.ok listed) ∧ .ofList listed = forms := by
  have hroot : ∀ root', ofRoot options t chain extraction.withPrimary kind root' = .ok (.synthesized root forms) ↔
      root' = root ∧ ∃ c, t.constructors[root]? = some c ∧ c.parameters ≠ [] ∧
        hasEvidence t chain root c extraction.withPrimary kind = true ∧
        rootFits t (extraction.withPrimary.remaining root c.body) = true ∧
        ∃ listed, overloads options t (chain.order.filter (· != root)) = .ok (.ok listed) ∧ .ofList listed = forms := by
    intro root'
    rw [ofRoot, bind_eq_ok_iff]
    constructor
    · rintro ⟨c, hc, h⟩
      split at h
      · cases h
      · next happlicable =>
        simp only [Bool.or_eq_true, List.isEmpty_iff, Bool.not_eq_true', not_or, Bool.not_eq_false] at happlicable
        split at h
        · cases h
        · next hfits =>
          obtain ⟨_ | listed, hlisted, h⟩ := bind_eq_ok_iff.mp h
          · cases h
          · cases h
            exact ⟨rfl, c, constructor_eq_ok.mp hc, happlicable.1, happlicable.2, by simpa using hfits, listed, hlisted, rfl⟩
    · rintro ⟨rfl, c, hc, hparams, hevidence, hfits, listed, hlisted, rfl⟩
      refine ⟨c, constructor_eq_ok.mpr hc, ?_⟩
      rw [hevidence, hfits, hlisted]
      simp [hparams]
      rfl
  unfold Decision.of
  cases hchain : chain.root? with
  | some root' => simp [hroot]
  | none =>
    simp
    split <;> simp

/-! ### A decision is always reached -/

theorem exists_overload {id : CtorId} {c : Constructor} (hc : t.constructors[id]? = some c)
    (htarget : ∀ j, c.chainTarget? = some j → j < t.constructors.length) : ∃ x, overload options t id = .ok x := by
  refine exists_bind_eq_ok (constructor_eq_ok.mpr hc) ?_
  split
  · next index target args hdelegation =>
    split
    · exact ⟨_, rfl⟩
    · have hlt : target < t.constructors.length := htarget target (by rw [Constructor.chainTarget?, hdelegation])
      refine exists_bind_eq_ok (constructor_eq_ok.mpr (List.getElem?_eq_getElem hlt)) ?_
      split
      · exact ⟨_, rfl⟩
      · split <;> exact ⟨_, rfl⟩
  · exact ⟨_, rfl⟩

theorem exists_overloads {ids : List CtorId} (h : ∀ id ∈ ids, ∃ x, overload options t id = .ok x) :
    ∃ x, overloads options t ids = .ok x := by
  induction ids with
  | nil => exact ⟨_, rfl⟩
  | cons id ids ih =>
    obtain ⟨x, hx⟩ := h id List.mem_cons_self
    obtain ⟨xs, hxs⟩ := ih fun id hid => h id (List.mem_cons_of_mem _ hid)
    refine exists_bind_eq_ok hx ?_
    split
    · exact ⟨_, rfl⟩
    · refine exists_bind_eq_ok hxs ?_
      split <;> exact ⟨_, rfl⟩

/-- With a chain there is a decision. -/
theorem exists_of (hchain : Chain.build t = .ok chain) (extraction : Extraction) (kind : Option AggregateKind) :
    ∃ d, Decision.of options t chain extraction kind = .ok d := by
  have hoverload : ∀ id ∈ chain.order, ∃ x, overload options t id = .ok x := by
    intro id hid
    obtain ⟨c, hc, hdeclared⟩ := (Chain.mem_order_iff hchain).mp hid
    refine exists_overload hc fun j hj => ?_
    obtain ⟨-, d, hd, -⟩ := (Chain.linked hchain hc hdeclared).target j hj
    exact (List.getElem?_eq_some_iff.mp hd).1
  unfold Decision.of
  split
  · next root hroot =>
    have hmem := Chain.mem_roots_of_root? hroot
    obtain ⟨c, hc, -⟩ := (Chain.mem_roots_iff hchain).mp hmem
    refine exists_bind_eq_ok (constructor_eq_ok.mpr hc) ?_
    split
    · exact ⟨_, rfl⟩
    · split
      · exact ⟨_, rfl⟩
      · obtain ⟨x, hx⟩ := exists_overloads fun id hid => hoverload id (List.mem_of_mem_filter hid)
        refine exists_bind_eq_ok hx ?_
        split <;> exact ⟨_, rfl⟩
  · dsimp only
    split <;> exact ⟨_, rfl⟩

end Decision

end DeclRecovery
