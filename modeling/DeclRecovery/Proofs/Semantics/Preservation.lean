import DeclRecovery.Proofs.Reconstruction.Elision
import DeclRecovery.Proofs.Semantics.HandOvers
import DeclRecovery.Proofs.Semantics.Hoisting
import DeclRecovery.Proofs.Semantics.Shapes
import DeclRecovery.Proofs.Shaped

/-!
A reconstruction keeps the meaning of a type: from a zeroed instance, every constructor gives the same result or throws
the same exception, with the same events in the same order, as it did in the type that came in.

There is one thing that gets lost. When the one declared constructor of a value type is left out, the zeros that it stored
are left out as well (`TypeDecl.OmitsStore`). That makes no difference where the slots hold these zeros anyway, and so
none to the constructor itself if all slots start with zeros (`Interp.StartsZeroed`). But a copy constructor may have
stored something else before it hands over. So what a run depends on is what the slots hold whenever a constructor is
entered (`TypeDecl.entries`).
-/

namespace DeclRecovery

namespace TypeDecl
open Effect Stmt

variable {I : Interp} {t t' : TypeDecl} {options : Options}

theorem lowered_of_bare_eq (h : t.bare = t'.bare) {c c' : Constructor} (hc : c.bare = c'.bare) :
    t.lowered c = t'.lowered c' := by
  have hruns : c.runsInitializers = c'.runsInitializers := by
    rw [← Constructor.bare_runsInitializers c, hc, Constructor.bare_runsInitializers]
  have hbody : c.body = c'.body := (congrArg Constructor.body hc :)
  rw [lowered, lowered, hruns, hbody, initializers_of_bare_eq h]

/-- Notes on how a type is written make no difference to a run. -/
theorem run_of_bare_eq (h : t.bare = t'.bare) (fuel : Nat) : t.run I fuel = t'.run I fuel := by
  induction fuel with
  | zero => rfl
  | succ fuel ih =>
    funext id args σ
    have hid := getElem?_constructors_of_bare_eq h id
    cases hc : t.constructors[id]? with
    | none =>
      rw [hc, Option.map_none, eq_comm, Option.map_eq_none_iff] at hid
      rw [run_of_none hc, run_of_none hid]
    | some c =>
      rw [hc] at hid
      obtain ⟨c', hc', hbare⟩ := Option.map_eq_some_iff.mp hid.symm
      rw [run_succ hc, run_succ hc', ih, lowered_of_bare_eq h hbare.symm]

/-- The implicit constructor makes no difference to the others. -/
theorem run_refines_completed (fuel : Nat) (id : CtorId) (args : List I.Value) (σ : I.Store) :
    Refines (t.run I fuel id args σ) (t.completed.run I fuel id args σ) := by
  induction fuel generalizing id args σ with
  | zero => exact .refl _
  | succ fuel ih =>
    cases hc : t.constructors[id]? with
    | none =>
      rw [run_of_none hc]
      exact .undefined _
    | some c =>
      rw [run_succ hc, run_succ (getElem?_completed_of_some hc), completed_lowered]
      exact fun τ => execBlock_refinesAt fun x _ => ih x.target x.args x.store x.trace

theorem AccessFree.completed (h : t.AccessFree) : t.completed.AccessFree := by
  constructor
  case initializers =>
    rw [completed_initializers]
    exact h.initializers
  case bodies =>
    intro c hc s hs
    obtain ⟨id, hid⟩ := List.getElem?_of_mem hc
    rcases getElem?_completed hid with hid | rfl
    · exact h.bodies c (List.mem_of_getElem? hid) s hs
    · rw [implicitConstructor] at hs
      split at hs
      · cases hs
      · cases List.mem_singleton.mp hs
        rfl

end TypeDecl

/-! ### Zeros that are left out -/

theorem TypeDecl.nodup_slots_initializers (t : TypeDecl) : (t.initializers.map Prod.fst).Nodup :=
  List.pairwise_map.mpr (initializers_pairwise.imp fun h => Nat.ne_of_lt h)

/-- Stores of zeros put them where they belong and leave all other slots as they are. -/
theorem Stmt.exists_execBlock_zeros {I : Interp} {l : List (SlotId × Expr)} (h : ∀ x ∈ l, x.2.isZero = true)
    (hnodup : (l.map Prod.fst).Nodup) (σ : I.Store) : ∃ σ' : I.Store,
      (∀ (enter : Enter I) args, execBlock enter args (l.map ofStore) σ = pure σ') ∧
      (∀ slot v, (slot, .literal v) ∈ l → σ' slot = I.stored slot (I.literal v)) ∧
      ∀ slot, slot ∉ l.map Prod.fst → σ' slot = σ slot := by
  induction l generalizing σ with
  | nil => exact ⟨σ, fun _ _ => rfl, fun _ _ hmem => absurd hmem List.not_mem_nil, fun _ _ => rfl⟩
  | cons x l ih =>
    obtain ⟨slot, e⟩ := x
    obtain ⟨hx, hl⟩ := List.forall_mem_cons.mp h
    obtain ⟨literal, rfl, -⟩ := Expr.isZero_iff.mp hx
    rw [List.map_cons, List.nodup_cons] at hnodup
    obtain ⟨σ', hexec, hin, hout⟩ := ih hl hnodup.2 (Function.update σ slot (I.stored slot (I.literal literal)))
    refine ⟨σ', fun enter args => ?_, fun slot' v hmem => ?_, fun slot' hslot' => ?_⟩
    · rw [List.map_cons, execBlock, exec_ofStore, Expr.eval_literal, pure_bind, pure_bind]
      exact hexec enter args
    · rcases List.mem_cons.mp hmem with heq | hmem
      · cases heq
        rw [hout slot hnodup.1, Function.update_self]
      · exact hin slot' v hmem
    · rw [List.map_cons, List.mem_cons, not_or] at hslot'
      rw [hout slot' hslot'.2, Function.update_of_ne hslot'.1]

theorem Plan.HoistsAt.find?_of_mem_initializers {p : Plan} {t : TypeDecl} {id : CtorId} {c : Constructor}
    {heads : List (SlotId × Expr)} (h : p.HoistsAt t id c heads) {x : SlotId × Expr} (hx : x ∈ t.initializers) :
    p.hoisted.find? x.1 = none :=
  Option.eq_none_iff_forall_ne_some.mpr fun v hv => (h.fresh _ ((h.hoisted x.1 v).mp hv)).not_mem hx

namespace Classification.LeavesOutZeros
open Effect Stmt

variable {I : Interp} {t : TypeDecl} {chain : Chain} {p : Plan} {root : CtorId} {c : Constructor}

theorem isZero_of_hoisted (hp : p.Hoists t chain.roots) (h : LeavesOutZeros t chain p root c) {slot : SlotId} {v : Expr}
    (hv : p.hoisted.find? slot = some v) : v.isZero = true := by
  obtain ⟨_, _, _, -, hat, hmem⟩ := hp.exists_hoistsAt hv
  obtain ⟨s, hs, -⟩ := hat.fresh _ hmem
  exact startsZeroed_iff.mp h.zeros slot s v hs (by rw [hv, Option.some_or])

theorem initializer_eq (hp : p.Hoists t chain.roots) (h : LeavesOutZeros t chain p root c) {i : SlotId} {s : Slot}
    (hs : t.slots[i]? = some s) : p.initializer true i s.initializer = s.initializer := by
  rw [Plan.initializer]
  cases hfind : p.hoisted.find? i with
  | none => rfl
  | some v =>
    obtain ⟨_, _, _, -, hat, hmem⟩ := hp.exists_hoistsAt hfind
    obtain ⟨s', hs', hnone⟩ := hat.fresh _ hmem
    cases hs.symm.trans hs'
    simp [h.isZero_of_hoisted hp hfind, hnone]

/-- All hoisted values are left out again. -/
theorem initializers_carriedOut (hp : p.Hoists t chain.roots) (h : LeavesOutZeros t chain p root c) :
    (p.carriedOut true t).initializers = t.initializers := by
  have hslots : (p.carriedOut true t).slots = t.slots := by
    refine List.ext_getElem? fun i => ?_
    rw [Plan.getElem?_carriedOut_slots]
    cases hs : t.slots[i]? with
    | none => rfl
    | some s => rw [Option.map_some, h.initializer_eq hp hs]
  rw [TypeDecl.initializers, hslots, TypeDecl.initializers]

theorem runsInitializers (hchain : Chain.build t = .ok chain) (h : LeavesOutZeros t chain p root c) :
    c.runsInitializers = true :=
  (Chain.mem_roots_iff_runs hchain h.ctor).mp h.mem_roots

/-- The root consists of stores, first those of the initializers and then those that are hoisted. -/
theorem exists_lowered_eq (hchain : Chain.build t = .ok chain) (hp : p.Hoists t chain.roots)
    (h : LeavesOutZeros t chain p root c) : ∃ heads first, p.HoistsAt t root c heads ∧
      first.map singleStore? = heads.map some ∧ t.lowered c = t.initializers.map ofStore ++ first := by
  obtain ⟨heads, hat⟩ := hp.hoistsAt h.mem_roots h.ctor
  obtain ⟨first, hbody, hfirst⟩ := hat.split
  rw [h.remaining, List.append_nil] at hbody
  exact ⟨heads, first, hat, hfirst, by rw [TypeDecl.lowered_of_runs (h.runsInitializers hchain), hbody]⟩

/-- Only the stores of the initializers remain of it. -/
theorem lowered_carriedOut (hchain : Chain.build t = .ok chain) (hp : p.Hoists t chain.roots)
    (h : LeavesOutZeros t chain p root c) :
    (p.carriedOut true t).lowered { c with body := p.remaining root c.body } = t.initializers.map ofStore := by
  rw [TypeDecl.lowered_of_runs ((hp.runsInitializers h.ctor).trans (h.runsInitializers hchain)),
    h.initializers_carriedOut hp, h.remaining, List.append_nil]

theorem calls_eq_nil (hchain : Chain.build t = .ok chain) (hp : p.Hoists t chain.roots)
    (h : LeavesOutZeros t chain p root c) : ∀ s ∈ t.lowered c, s.calls = [] := by
  obtain ⟨heads, first, -, hfirst, hlowered⟩ := h.exists_lowered_eq hchain hp
  intro s hs
  rw [hlowered, List.mem_append] at hs
  rcases hs with hinit | hhead
  · obtain ⟨x, -, rfl⟩ := List.mem_map.mp hinit
    rfl
  · obtain ⟨x, -, hstore⟩ := List.mem_map.mp (hfirst ▸ List.mem_map_of_mem hhead : s.singleStore? ∈ heads.map some)
    exact calls_of_singleStore? hstore.symm

/-- What the root leaves, with the zeros and without them: it is the same but for the slots that have lost theirs. -/
theorem exists_execBlock (hchain : Chain.build t = .ok chain) (hp : p.Hoists t chain.roots)
    (h : LeavesOutZeros t chain p root c) (σ : I.Store) : ∃ σ₁ σ₂ : I.Store,
      (∀ (enter : Enter I) args, execBlock enter args (t.lowered c) σ = pure σ₁) ∧
      (∀ (enter : Enter I) args,
        execBlock enter args ((p.carriedOut true t).lowered { c with body := p.remaining root c.body }) σ = pure σ₂) ∧
      (∀ slot l, p.hoisted.find? slot = some (.literal l) → σ₁ slot = I.stored slot (I.literal l) ∧ σ₂ slot = σ slot) ∧
      ∀ slot, (∀ l, p.hoisted.find? slot ≠ some (.literal l)) → σ₁ slot = σ₂ slot := by
  obtain ⟨heads, first, hat, hfirst, hlowered⟩ := h.exists_lowered_eq hchain hp
  have hinits : ∀ x ∈ t.initializers, x.2.isZero = true := by
    intro x hx
    obtain ⟨s, hs, hinit⟩ := TypeDecl.mem_initializers.mp hx
    exact startsZeroed_iff.mp h.zeros x.1 s x.2 hs (by rw [hat.find?_of_mem_initializers hx, Option.none_or, hinit])
  have hheads : ∀ x ∈ heads, x.2.isZero = true :=
    fun x hx => h.isZero_of_hoisted hp ((hat.hoisted x.1 x.2).mpr hx)
  obtain ⟨σ₂, hexec₂, -, hout₂⟩ := exists_execBlock_zeros hinits t.nodup_slots_initializers σ
  obtain ⟨σ₁, hexec₁, hin₁, hout₁⟩ := exists_execBlock_zeros hheads hat.nodup σ₂
  refine ⟨σ₁, σ₂, fun enter args => ?_, fun enter args => ?_, fun slot l hfind => ?_, fun slot hfind => ?_⟩
  · rw [hlowered, execBlock_append, hexec₂, pure_bind, execBlock_of_singleStore? hfirst]
    exact hexec₁ enter args
  · rw [h.lowered_carriedOut hchain hp]
    exact hexec₂ enter args
  · have hmem := (hat.hoisted slot (.literal l)).mp hfind
    refine ⟨hin₁ slot l hmem, hout₂ slot fun hslot => ?_⟩
    obtain ⟨x, hx, rfl⟩ := List.mem_map.mp hslot
    exact (hat.fresh _ hmem).not_mem hx
  · refine hout₁ slot fun hslot => ?_
    obtain ⟨⟨_, e⟩, hx, rfl⟩ := List.mem_map.mp hslot
    obtain ⟨l, rfl, -⟩ := Expr.isZero_iff.mp (hheads _ hx)
    exact hfind l ((hat.hoisted _ _).mpr hx)

end Classification.LeavesOutZeros

theorem Stmt.assign_mem_map_ofStore {slot : SlotId} {value : Expr} {l : List (SlotId × Expr)} :
    assign slot value ∈ l.map ofStore ↔ (slot, value) ∈ l := by
  simp [ofStore]

theorem Stmt.eq_assign_of_literal {s : Stmt} {slot : SlotId} {l : Literal} (h : s.singleStore? = some (slot, .literal l)) :
    s = assign slot (.literal l) := by
  rcases singleStore?_cases h with rfl | ⟨_, _, _, -, heq⟩
  · rfl
  · cases heq

theorem Plan.mem_initializers_carriedOut {p : Plan} {t : TypeDecl} {withoutZeros : Bool} {x : SlotId × Expr} {s : Slot}
    (hs : t.slots[x.1]? = some s) :
    x ∈ (p.carriedOut withoutZeros t).initializers ↔ p.initializer withoutZeros x.1 s.initializer = some x.2 := by
  rw [TypeDecl.mem_initializers, getElem?_carriedOut_slots, hs]
  simp

/-- A store that is gone was a zero that a root stored. -/
theorem Plan.Hoists.omitted {p : Plan} {t : TypeDecl} {chain : Chain} {withoutZeros : Bool}
    (hchain : Chain.build t = .ok chain) (hp : p.Hoists t chain.roots) {id : CtorId} {c : Constructor}
    (hc : t.constructors[id]? = some c) {slot : SlotId} {value : Expr} (hmem : .assign slot value ∈ t.lowered c)
    (hnot : .assign slot value ∉ (p.carriedOut withoutZeros t).lowered { c with body := p.remaining id c.body }) :
    withoutZeros = true ∧ c.isDeclared = true ∧ p.hoisted.find? slot = some value := by
  have hroot := Chain.mem_roots_iff_runs hchain hc
  have hruns' := hp.runsInitializers hc
  cases hruns : c.runsInitializers with
  | false =>
    have hid : id ∉ chain.roots := fun hid => by simp [hroot.mp hid] at hruns
    rw [hruns] at hruns'
    rw [TypeDecl.lowered_of_not_runs hruns', hp.other id hid] at hnot
    rw [TypeDecl.lowered_of_not_runs hruns] at hmem
    exact absurd hmem hnot
  | true =>
    obtain ⟨heads, hat⟩ := hp.hoistsAt (hroot.mpr hruns) hc
    obtain ⟨first, hbody, hfirst⟩ := hat.split
    rw [hruns] at hruns'
    rw [TypeDecl.lowered_of_runs hruns', List.mem_append, not_or, Stmt.assign_mem_map_ofStore] at hnot
    rw [TypeDecl.lowered_of_runs hruns, hbody, List.mem_append, List.mem_append, Stmt.assign_mem_map_ofStore] at hmem
    rcases hmem with hinit | hhead | hrest
    · obtain ⟨s, hs, hgiven⟩ := TypeDecl.mem_initializers.mp hinit
      have hfind : p.hoisted.find? slot = none := hat.find?_of_mem_initializers hinit
      exact absurd ((mem_initializers_carriedOut hs).mpr (by simp [initializer, hfind, hgiven])) hnot.1
    · have hstore : some (slot, value) ∈ heads.map some := hfirst ▸ List.mem_map_of_mem (f := Stmt.singleStore?) hhead
      have hmem : (slot, value) ∈ heads := by simpa using hstore
      have hfind := (hat.hoisted slot value).mpr hmem
      rw [Constructor.runsInitializers, Bool.and_eq_true] at hruns
      cases withoutZeros with
      | true => exact ⟨rfl, hruns.1, hfind⟩
      | false =>
        obtain ⟨s, hs, -⟩ := hat.fresh _ hmem
        exact absurd ((mem_initializers_carriedOut hs).mpr (by simp [initializer, hfind])) hnot.1
    · exact absurd hrest hnot.2

/-- The constructor stores the literal in the slot in `t`, and it stores nothing there in `t'`. -/
structure TypeDecl.OmitsStore (t t' : TypeDecl) (id : CtorId) (slot : SlotId) (l : Literal) : Prop where
  stored : ∃ c, t.constructors[id]? = some c ∧ .assign slot (.literal l) ∈ t.lowered c
  omitted : ∀ c, t'.constructors[id]? = some c → ∀ value, .assign slot value ∉ t'.lowered c

/-- Where a constructor is entered, all that `t'` leaves out of it is in the slots anyway. -/
def TypeDecl.OmitsIdly (t t' : TypeDecl) (I : Interp) (entry : CtorId × I.Store) : Prop :=
  ∀ slot l, t.OmitsStore t' entry.1 slot l → entry.2 slot = I.stored slot (I.literal l)

namespace Recovery
open Effect Stmt

variable {I : Interp} {options : Options} {t : TypeDecl} (r : Recovery options t)

/-- What a constructor runs in the end, as it was before it was written in its shapes. -/
theorem lowered_constructorOf (id : CtorId) (c : Constructor) : r.type.lowered (r.constructorOf id c) =
    shapeBlock options ((r.plan.carriedOut r.classification.dropZeroInitializers t.completed).lowered
      { c with body := r.plan.remaining id c.body }) := by
  rw [← TypeDecl.lowered_shape]
  exact TypeDecl.lowered_of_bare_eq r.bare_type rfl

theorem carriedOut_constructor {id : CtorId} {c : Constructor} (hc : t.constructors[id]? = some c) :
    (r.plan.carriedOut r.classification.dropZeroInitializers t.completed).constructors[id]? =
      some { c with body := r.plan.remaining id c.body } := by
  rw [Plan.getElem?_carriedOut_constructors, TypeDecl.getElem?_completed_of_some hc]
  rfl

/-- Where zeros are left out, that happens to every declared constructor, since there is but one. -/
theorem leavesOutZeros_of_isDeclared (hdrop : r.classification.dropZeroInitializers = true) {id : CtorId} {c : Constructor}
    (hc : t.constructors[id]? = some c) (hdeclared : c.isDeclared = true) :
    Classification.LeavesOutZeros t.completed r.chain r.plan id c ∧ r.type.ElidedAlone id := by
  have hcompleted := TypeDecl.getElem?_completed_of_some hc
  obtain ⟨root, d, hzeros, halone⟩ := r.leavesOutZeros hdrop
  cases hzeros.alone r.chain_eq hcompleted hdeclared
  cases hcompleted.symm.trans hzeros.ctor
  exact ⟨hzeros, halone⟩

theorem omitsStore_iff {id : CtorId} {c : Constructor} (hc : t.constructors[id]? = some c) {slot : SlotId} {l : Literal} :
    t.OmitsStore r.type id slot l ↔ r.classification.dropZeroInitializers = true ∧ c.isDeclared = true ∧
      r.plan.hoisted.find? slot = some (.literal l) := by
  have hcompleted := TypeDecl.getElem?_completed_of_some hc
  have htype := r.type_constructor hcompleted
  constructor
  · rintro ⟨⟨c', hc', hstored⟩, homitted⟩
    cases hc.symm.trans hc'
    have hnot : ∀ value, .assign slot value ∉ (r.plan.carriedOut r.classification.dropZeroInitializers t.completed).lowered
        { c with body := r.plan.remaining id c.body } := by
      intro value hmem
      refine homitted _ htype (value.shape options) ?_
      rw [r.lowered_constructorOf, shapeBlock_eq]
      exact List.mem_map_of_mem hmem
    rw [← TypeDecl.completed_lowered] at hstored
    exact r.plan_hoists.omitted r.chain_eq hcompleted hstored (hnot _)
  · rintro ⟨hdrop, hdeclared, hfind⟩
    obtain ⟨hzeros, -⟩ := r.leavesOutZeros_of_isDeclared hdrop hc hdeclared
    obtain ⟨heads, first, hat, hfirst, hlowered⟩ := hzeros.exists_lowered_eq r.chain_eq r.plan_hoists
    have hhead := (hat.hoisted slot (.literal l)).mp hfind
    constructor
    case stored =>
      obtain ⟨s, hs, hstore⟩ := List.mem_map.mp (hfirst ▸ List.mem_map_of_mem hhead : some _ ∈ first.map singleStore?)
      cases eq_assign_of_literal hstore
      refine ⟨c, hc, ?_⟩
      rw [← TypeDecl.completed_lowered, hlowered]
      exact List.mem_append_right _ hs
    case omitted =>
      intro c' hc' value hmem
      cases htype.symm.trans hc'
      rw [r.lowered_constructorOf, hdrop, hzeros.lowered_carriedOut r.chain_eq r.plan_hoists, shapeBlock_eq,
        List.map_map] at hmem
      obtain ⟨x, hx, heq⟩ := List.mem_map.mp hmem
      cases heq
      exact (hat.fresh _ hhead).not_mem hx

/-- In the world of `τ`, a run does what it did where all that is left out is in the slots anyway. -/
theorem run_refinesAt_carriedOut (hdrop : r.classification.dropZeroInitializers = true) {fuel : Nat} {id : CtorId}
    {args : List I.Value} {σ : I.Store} {τ : I.Trace}
    (hidle : ∀ entry ∈ t.entries I fuel id args σ τ, t.OmitsIdly r.type I entry) : RefinesAt τ (t.run I fuel id args σ)
      ((r.plan.carriedOut r.classification.dropZeroInitializers t.completed).run I fuel id args σ) := by
  induction fuel generalizing id args σ τ with
  | zero => exact .refl _
  | succ fuel ih =>
    cases hc : t.constructors[id]? with
    | none =>
      rw [TypeDecl.run_of_none hc]
      exact Or.inl rfl
    | some c =>
      have hcompleted := TypeDecl.getElem?_completed_of_some hc
      rw [TypeDecl.entries_succ hc, List.forall_mem_cons, List.forall_mem_flatMap] at hidle
      rw [TypeDecl.run_succ hc, TypeDecl.run_succ (r.carriedOut_constructor hc)]
      cases hdeclared : c.isDeclared with
      | true =>
        obtain ⟨hzeros, -⟩ := r.leavesOutZeros_of_isDeclared hdrop hc hdeclared
        obtain ⟨σ₁, σ₂, hexec₁, hexec₂, hlost, hkept⟩ := hzeros.exists_execBlock r.chain_eq r.plan_hoists σ
        -- the slots that have lost their zeros are the ones that `hidle` speaks of
        have hsame : σ₁ = σ₂ := by
          funext slot
          by_cases hfind : ∃ l, r.plan.hoisted.find? slot = some (.literal l)
          · obtain ⟨l, hl⟩ := hfind
            have hslot : σ slot = I.stored slot (I.literal l) :=
              hidle.1 slot l ((r.omitsStore_iff hc).mpr ⟨hdrop, hdeclared, hl⟩)
            rw [(hlost slot l hl).1, (hlost slot l hl).2, hslot]
          · exact hkept slot (not_exists.mp hfind)
        rw [← TypeDecl.completed_lowered, hdrop, hexec₁, hexec₂, hsame]
        exact .refl _
      | false =>
        have hruns : c.runsInitializers = false := by rw [Constructor.runsInitializers, hdeclared, Bool.false_and]
        have hid : id ∉ r.chain.roots := fun hid => by
          simp [(Chain.mem_roots_iff_runs r.chain_eq hcompleted).mp hid] at hruns
        rw [r.plan_hoists.other id hid, TypeDecl.lowered_of_not_runs hruns, TypeDecl.lowered_of_not_runs hruns]
        rw [TypeDecl.lowered_of_not_runs hruns] at hidle
        -- a copy constructor is what it was, and each of its calls is entered with one unit of fuel less
        exact execBlock_refinesAt fun x hx => ih (hidle.2 x hx)

/-- The result of a reconstruction does what was carried out. -/
theorem run_refines_type (fuel : Nat) (id : CtorId) (args : List I.Value) (σ : I.Store) :
    Refines ((r.plan.carriedOut r.classification.dropZeroInitializers t.completed).run I fuel id args σ)
      (r.type.run I fuel id args σ) := by
  rw [TypeDecl.run_of_bare_eq r.bare_type]
  exact TypeDecl.run_refines_shape fuel id args σ

theorem run_refinesAt (hfree : t.AccessFree) {fuel : Nat} {id : CtorId} {args : List I.Value} {σ : I.Store} {τ : I.Trace}
    (hidle : ∀ entry ∈ t.entries I fuel id args σ τ, t.OmitsIdly r.type I entry) :
    RefinesAt τ (t.run I fuel id args σ) (r.type.run I fuel id args σ) := by
  refine RefinesAt.trans ?_ (r.run_refines_type fuel id args σ τ)
  cases hdrop : r.classification.dropZeroInitializers with
  | false =>
    have hrun : t.completed.run I fuel = (r.plan.carriedOut false t.completed).run I fuel :=
      r.plan_hoists.run_eq r.chain_eq hfree.completed fuel
    rw [← hrun]
    exact TypeDecl.run_refines_completed fuel id args σ τ
  | true =>
    rw [← hdrop]
    exact r.run_refinesAt_carriedOut hdrop hidle

theorem isZero_of_omitsStore {id : CtorId} {slot : SlotId} {l : Literal} (h : t.OmitsStore r.type id slot l) :
    l.isZero = true := by
  obtain ⟨c, hc, -⟩ := h.stored
  obtain ⟨hdrop, hdeclared, hfind⟩ := (r.omitsStore_iff hc).mp h
  obtain ⟨hzeros, -⟩ := r.leavesOutZeros_of_isDeclared hdrop hc hdeclared
  exact hzeros.isZero_of_hoisted r.plan_hoists hfind

/-- If all slots start with zeros, a declared constructor finds there what is left out of it. -/
theorem omitsIdly_of_isDeclared (hzero : I.StartsZeroed) {id : CtorId} {c : Constructor}
    (hc : t.constructors[id]? = some c) (hdeclared : c.isDeclared = true) {fuel : Nat} {args : List I.Value} {τ : I.Trace} :
    ∀ entry ∈ t.entries I fuel id args I.zero τ, t.OmitsIdly r.type I entry := by
  intro entry hentry slot l homits
  obtain ⟨d, hd, -⟩ := homits.stored
  obtain ⟨hdrop, -, -⟩ := (r.omitsStore_iff hd).mp homits
  obtain ⟨hzeros, -⟩ := r.leavesOutZeros_of_isDeclared hdrop hc hdeclared
  have hcalls := hzeros.calls_eq_nil r.chain_eq r.plan_hoists
  rw [TypeDecl.completed_lowered] at hcalls
  rw [TypeDecl.eq_of_mem_entries hc hcalls hentry, hzero slot l (r.isZero_of_omitsStore homits)]

/-- If all slots start with zeros, these are still there where all constructors hand over before they change them. -/
theorem omitsIdly_of_handsOverFirst (hzero : I.StartsZeroed)
    (hfirst : ∀ id slot l, t.OmitsStore r.type id slot l →
      ∀ c ∈ t.constructors, Stmt.handsOverFirstEach slot (t.lowered c) = true)
    {fuel : Nat} {id : CtorId} {args : List I.Value} {τ : I.Trace} :
    ∀ entry ∈ t.entries I fuel id args I.zero τ, t.OmitsIdly r.type I entry := by
  intro entry hentry slot l homits
  rw [TypeDecl.entries_slot (hfirst entry.1 slot l homits) hentry, hzero slot l (r.isZero_of_omitsStore homits)]

/-- With the store and without it, a constructor comes to its end and leaves the zero there or what the slot held. -/
theorem run_of_omitsStore {id : CtorId} {slot : SlotId} {l : Literal} (h : t.OmitsStore r.type id slot l) (fuel : Nat)
    (args : List I.Value) (σ : I.Store) (τ : I.Trace) : ∃ σ₁ σ₂ : I.Store,
      t.run I (fuel + 1) id args σ τ = (.ok σ₁, τ) ∧ r.type.run I (fuel + 1) id args σ τ = (.ok σ₂, τ) ∧
        σ₁ slot = I.stored slot (I.literal l) ∧ σ₂ slot = σ slot := by
  obtain ⟨c, hc, -⟩ := h.stored
  obtain ⟨hdrop, hdeclared, hfind⟩ := (r.omitsStore_iff hc).mp h
  obtain ⟨hzeros, -⟩ := r.leavesOutZeros_of_isDeclared hdrop hc hdeclared
  obtain ⟨σ₁, σ₂, hexec₁, hexec₂, hlost, -⟩ := hzeros.exists_execBlock r.chain_eq r.plan_hoists σ
  refine ⟨σ₁, σ₂, ?_, ?_, hlost slot l hfind⟩
  · rw [TypeDecl.run_succ hc, ← TypeDecl.completed_lowered, hexec₁]
    rfl
  · have hrun : (r.plan.carriedOut r.classification.dropZeroInitializers t.completed).run I (fuel + 1) id args σ τ =
        (.ok σ₂, τ) := by
      rw [TypeDecl.run_succ (r.carriedOut_constructor hc), hdrop, hexec₂]
      rfl
    rcases r.run_refines_type (fuel + 1) id args σ τ with hundefined | heq
    · rw [hrun] at hundefined
      cases hundefined
    · rw [heq, hrun]

end Recovery

/-- A reconstruction of a type from the front end keeps what its constructors do, whatever the language and the world
around it do. A run from a zeroed instance has the same result or exception, the same world and events and, if it comes
to its end, the same slots as before, unless nothing is said about what it did before. This takes that whenever a
constructor is entered, the slots hold what the stores would put there that are left out of it. If slots start with what
zeros would store in them, that is the case for all declared constructors, and for copy constructors if they hand over
before they change such a slot. Only stores of zeros are left out, with the one declared constructor of a value type, and
then a slot keeps what it held. -/
theorem reconstruct_preserves_runs {options : Options} {t t' : TypeDecl} {diagnostics : List Diagnostic}
    (h : reconstruct options t = .ok ⟨t', .reconstructed, diagnostics⟩) (hfree : t.AccessFree) (I : Interp) :
    (∀ fuel id args w, (∀ entry ∈ t.entries I fuel id args I.zero ⟨w, []⟩, t.OmitsIdly t' I entry) →
      Effect.RefinesAt ⟨w, []⟩ (t.run I fuel id args I.zero) (t'.run I fuel id args I.zero)) ∧
    (I.StartsZeroed → ∀ id c, t.constructors[id]? = some c → (c.isDeclared = true ∨ ∀ j slot l, t.OmitsStore t' j slot l →
        ∀ d ∈ t.constructors, Stmt.handsOverFirstEach slot (t.lowered d) = true) → ∀ fuel args w,
      Effect.RefinesAt ⟨w, []⟩ (t.run I fuel id args I.zero) (t'.run I fuel id args I.zero)) ∧
    ∀ id slot l, t.OmitsStore t' id slot l → t'.ElidedAlone id ∧ l.isZero = true ∧ ∀ fuel args σ τ, ∃ σ₁ σ₂,
      t.run I (fuel + 1) id args σ τ = (.ok σ₁, τ) ∧ t'.run I (fuel + 1) id args σ τ = (.ok σ₂, τ) ∧
        σ₁ slot = I.stored slot (I.literal l) ∧ σ₂ slot = σ slot := by
  obtain ⟨r, rfl⟩ := exists_reconstruct_iff.mp ⟨diagnostics, h⟩
  refine ⟨fun fuel id args w => r.run_refinesAt hfree, fun hzero id c hc hid fuel args w => ?_, fun id slot l homits => ?_⟩
  · rcases hid with hdeclared | hfirst
    · exact r.run_refinesAt hfree (r.omitsIdly_of_isDeclared hzero hc hdeclared)
    · exact r.run_refinesAt hfree (r.omitsIdly_of_handsOverFirst hzero hfirst)
  · obtain ⟨c, hc, -⟩ := homits.stored
    obtain ⟨hdrop, hdeclared, -⟩ := (r.omitsStore_iff hc).mp homits
    exact ⟨(r.leavesOutZeros_of_isDeclared hdrop hc hdeclared).2, r.isZero_of_omitsStore homits, r.run_of_omitsStore homits⟩

/-- A value type whose copy constructor hands over to the default constructor first. -/
def TypeDecl.copyAfterZero : TypeDecl where
  name := "Cell"
  layout := .byValue
  slots := [{ name := "value", kind := .field, type := "int" }]
  constructors := [{ parameters := [], body := [.assign 0 (.literal (.int 0))] },
    { parameters := [{ name := "other", type := "Cell" }], origin := .copy,
      body := [.chain 0 [], .assign 0 (.field (.param 0) "value" false)] }]

/-- The zero is left out with the default constructor, and the copy constructor copies as before. -/
theorem reconstruct_preserves_runs_copyAfterZero : ∃ t' diagnostics,
    reconstruct {} .copyAfterZero = .ok ⟨t', .reconstructed, diagnostics⟩ ∧
      TypeDecl.copyAfterZero.OmitsStore t' 0 0 (.int 0) ∧
      (TypeDecl.copyAfterZero.run .counting 2 1 [some 3] Interp.counting.zero ⟨(5 : Int), []⟩).1.map (· 0) =
        .ok (some 5) ∧
      t'.run .counting 2 1 [some 3] Interp.counting.zero ⟨(5 : Int), []⟩ =
        TypeDecl.copyAfterZero.run .counting 2 1 [some 3] Interp.counting.zero ⟨(5 : Int), []⟩ := by
  obtain ⟨t', diagnostics, h, homits⟩ : ∃ t' diagnostics,
      reconstruct {} .copyAfterZero = .ok ⟨t', .reconstructed, diagnostics⟩ ∧
        TypeDecl.copyAfterZero.OmitsStore t' 0 0 (.int 0) := by
    refine ⟨_, _, rfl, ⟨_, rfl, .head _⟩, ?_⟩
    rintro c ⟨⟩ value hmem
    cases hmem
  have hfirst : ∀ slot, ∀ c ∈ TypeDecl.copyAfterZero.constructors,
      Stmt.handsOverFirstEach slot (TypeDecl.copyAfterZero.lowered c) = true := by
    intro slot
    simp [TypeDecl.copyAfterZero, TypeDecl.lowered, Constructor.runsInitializers, TypeDecl.initializers,
      Stmt.handsOverFirstEach, Stmt.handsOverFirst, Stmt.handsOver, Stmt.calls, Stmt.chain]
  refine ⟨t', diagnostics, h, homits, rfl, ?_⟩
  refine ((reconstruct_preserves_runs h ⟨by decide, by decide⟩ .counting).2.1 Interp.counting_startsZeroed 1 _ rfl
    (Or.inr fun _ slot _ _ => hfirst slot) 2 [some 3] (5 : Int)).resolve_left ?_
  rintro ⟨⟩

/-- A value type whose copy constructor stores something before it hands over to the default constructor. -/
def TypeDecl.copyOverZero : TypeDecl where
  name := "Cell"
  layout := .byValue
  slots := [{ name := "value", kind := .field, type := "int" }]
  constructors := [{ parameters := [], body := [.assign 0 (.literal (.int 0))] },
    { parameters := [{ name := "other", type := "Cell" }], origin := .copy,
      body := [.assign 0 (.literal (.int 7)), .chain 0 []] }]

/-- The zero is left out with the default constructor, and the copy constructor keeps its seven. -/
theorem reconstruct_loses_zero_after_copy : TypeDecl.copyOverZero.AccessFree ∧ Interp.counting.StartsZeroed ∧
    ∃ t' diagnostics, reconstruct {} .copyOverZero = .ok ⟨t', .reconstructed, diagnostics⟩ ∧
      (TypeDecl.copyOverZero.run .counting 2 1 [none] Interp.counting.zero ⟨(0 : Int), []⟩).1.map (· 0) = .ok (some 0) ∧
      (t'.run .counting 2 1 [none] Interp.counting.zero ⟨(0 : Int), []⟩).1.map (· 0) = .ok (some 7) := by
  refine ⟨⟨by decide, by decide⟩, Interp.counting_startsZeroed, { TypeDecl.copyOverZero with
    constructors := [{ parameters := [], body := [], form := .elided },
      { parameters := [{ name := "other", type := "Cell" }], origin := .copy,
        body := [.assign 0 (.literal (.int 7)), .chain 0 []] }]
    aggregateKind := some .value }, _, rfl, rfl, rfl⟩

end DeclRecovery
