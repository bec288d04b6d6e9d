import DeclRecovery.Proofs.Reconstruction.Result

/-!
What a reconstruction leaves alone. Names, layouts, slots and constructors with all that their signatures say are those
of the completed type (`TypeDecl.signature`), and so is the way in which constructors hand over: the calls are the same
ones at the same places, with their arguments in shape (`Constructor.CallsLike`). Hence the chain is the same, too.
-/

namespace DeclRecovery

/-! ### Signatures -/

/-- A slot without what a reconstruction fills in. -/
def Slot.signature (s : Slot) : Slot := { s with initializer := none, disposition := .declared }

/-- A constructor without its body and without how it is written. -/
def Constructor.signature (c : Constructor) : Constructor := { c with body := [], form := .explicit }

/-- A type without what a reconstruction changes. -/
def TypeDecl.signature (t : TypeDecl) : TypeDecl :=
  { t with
    slots := t.slots.map Slot.signature
    constructors := t.constructors.map Constructor.signature
    aggregateKind := none
    primaryConstructor := none }

/-! ### Calls -/

namespace Stmt

mutual

/-- The calls that hand over, inside of branches, too. -/
def calls : Stmt → List Delegation
  | delegate call => [call]
  | branch _ t e => callsEach t ++ callsEach e
  | _ => []

def callsEach : List Stmt → List Delegation
  | [] => []
  | s :: ss => calls s ++ callsEach ss

end

theorem callsEach_eq (block : List Stmt) : callsEach block = block.flatMap calls := by
  induction block with
  | nil => rfl
  | cons s block ih => rw [callsEach, ih, List.flatMap_cons]

theorem calls_of_singleStore? {s : Stmt} {x : SlotId × Expr} (h : s.singleStore? = some x) : s.calls = [] := by
  rcases singleStore?_cases h with rfl | ⟨c, a, b, rfl, -⟩ <;> rfl

theorem hasNestedDelegation_of_singleStore? {s : Stmt} {x : SlotId × Expr} (h : s.singleStore? = some x) :
    s.hasNestedDelegation = false := by
  rcases singleStore?_cases h with rfl | ⟨c, a, b, rfl, -⟩ <;> rfl

variable {options : Options}

theorem calls_shape (s : Stmt) : (s.shape options).calls = s.calls.map (·.shape options) := by
  have block : ∀ {block : List Stmt}, (∀ s ∈ block, (s.shape options).calls = s.calls.map (·.shape options)) →
      callsEach (shapeBlock options block) = (callsEach block).map (·.shape options) := by
    intro block h
    rw [callsEach_eq, callsEach_eq, shapeBlock_eq, List.flatMap_map, List.map_flatMap]
    exact List.flatMap_congr h
  induction s using induct with
  | branch c t e iht ihe =>
    rw [calls, List.map_append, ← block iht, ← block ihe, shape]
    rcases shapedBranch_cases options (c.shape options) (shapeBlock options t) (shapeBlock options e) with
      h | ⟨_, _, _, ht, he, h⟩
    · rw [h, calls]
    · rw [h, ht, he]
      rfl
  | _ =>
    rw [shape]
    rfl

end Stmt

/-- A constructor hands over as another one does: by the same calls, none of them moved into a branch or out of one, with
their arguments in shape. -/
structure Constructor.CallsLike (options : Options) (c' c : Constructor) : Prop where
  delegation : c'.delegation?.map Prod.snd = c.delegation?.map (·.2.shape options)
  calls : Stmt.callsEach c'.body = (Stmt.callsEach c.body).map (·.shape options)
  nested : c'.body.any Stmt.hasNestedDelegation = c.body.any Stmt.hasNestedDelegation

theorem Constructor.callsLike_shape (options : Options) (c : Constructor) : (c.shape options).CallsLike options c where
  delegation := by
    rw [delegation?_shape, Option.map_map]
    rfl
  calls := by
    rw [shape, Stmt.shapeBlock_eq, Stmt.callsEach_eq, Stmt.callsEach_eq, List.flatMap_map, List.map_flatMap]
    exact List.flatMap_congr fun s _ => s.calls_shape
  nested := by
    rw [shape, Stmt.shapeBlock_eq, List.any_map]
    exact congrArg c.body.any (funext Stmt.hasNestedDelegation_shape)

namespace Plan

variable {p : Plan} {t : TypeDecl} {roots : List CtorId} {id : CtorId} {c : Constructor}

/-- Nothing but single stores at the start of a body goes. -/
theorem Hoists.split (h : p.Hoists t roots) (hc : t.constructors[id]? = some c) :
    ∃ first, c.body = first ++ p.remaining id c.body ∧ ∀ s ∈ first, ∃ x, s.singleStore? = some x := by
  by_cases hid : id ∈ roots
  · obtain ⟨heads, hat⟩ := h.hoistsAt hid hc
    obtain ⟨first, hbody, hfirst⟩ := hat.split
    refine ⟨first, hbody, fun s hs => ?_⟩
    obtain ⟨x, -, hx⟩ := List.mem_map.mp (hfirst ▸ List.mem_map_of_mem hs : s.singleStore? ∈ heads.map some)
    exact ⟨x, hx.symm⟩
  · exact ⟨[], (h.other id hid c.body).symm, by simp⟩

theorem Hoists.callsEach_remaining (h : p.Hoists t roots) (hc : t.constructors[id]? = some c) :
    Stmt.callsEach (p.remaining id c.body) = Stmt.callsEach c.body := by
  obtain ⟨first, hbody, hfirst⟩ := h.split hc
  have hnone : first.flatMap Stmt.calls = [] := by
    refine List.flatMap_eq_nil_iff.mpr fun s hs => ?_
    obtain ⟨x, hx⟩ := hfirst s hs
    exact Stmt.calls_of_singleStore? hx
  conv => rhs; rw [hbody, Stmt.callsEach_eq, List.flatMap_append, hnone, List.nil_append]
  exact Stmt.callsEach_eq _

theorem Hoists.any_hasNestedDelegation_remaining (h : p.Hoists t roots) (hc : t.constructors[id]? = some c) :
    (p.remaining id c.body).any Stmt.hasNestedDelegation = c.body.any Stmt.hasNestedDelegation := by
  obtain ⟨first, hbody, hfirst⟩ := h.split hc
  have hnone : first.any Stmt.hasNestedDelegation = false := by
    refine List.any_eq_false.mpr fun s hs => ?_
    obtain ⟨x, hx⟩ := hfirst s hs
    simp [Stmt.hasNestedDelegation_of_singleStore? hx]
  conv => rhs; rw [hbody, List.any_append, hnone, Bool.false_or]

end Plan

namespace Recovery

variable {options : Options} {t : TypeDecl} (r : Recovery options t)

theorem signature_type : r.type.signature = t.completed.signature := by
  have hslots : r.type.slots.map Slot.signature = t.completed.slots.map Slot.signature := by
    refine List.ext_getElem? fun i => ?_
    rw [List.getElem?_map, List.getElem?_map, r.getElem?_type_slots, TypeDecl.completed_slots, Option.map_map]
    rfl
  have hconstructors : r.type.constructors.map Constructor.signature =
      t.completed.constructors.map Constructor.signature := by
    refine List.ext_getElem? fun id => ?_
    rw [List.getElem?_map, List.getElem?_map, r.getElem?_type_constructors, Option.map_map]
    rfl
  rw [TypeDecl.signature, hslots, hconstructors, r.type_eq]
  rfl

theorem callsLike {id : CtorId} {c : Constructor} (hc : t.completed.constructors[id]? = some c) :
    (r.constructorOf id c).CallsLike options c := by
  have hshape := Constructor.callsLike_shape options { c with body := r.plan.remaining id c.body }
  refine ⟨?_, ?_, ?_⟩
  · have hdelegation := r.plan_hoists.delegation hc
    rw [← Constructor.delegationIn?_snd, ← Constructor.delegationIn?_snd] at hdelegation
    calc (r.constructorOf id c).delegation?.map Prod.snd
        = ((Constructor.delegationIn? (r.plan.remaining id c.body)).map Prod.snd).map (·.shape options) := by
          rw [Option.map_map]
          exact hshape.delegation
      _ = c.delegation?.map (·.2.shape options) := by
          rw [hdelegation, Option.map_map]
          rfl
  · exact hshape.calls.trans (congrArg _ (r.plan_hoists.callsEach_remaining hc))
  · exact hshape.nested.trans (r.plan_hoists.any_hasNestedDelegation_remaining hc)

end Recovery

/-- What comes out of a reconstruction hands over as the type did that went in, completed by the constructor that the
language supplies if it declares none: it has the same chain, with the same calls, and every signature is the same. -/
theorem reconstruct_keeps_structure {options : Options} {t t' : TypeDecl} {diagnostics : List Diagnostic}
    (h : reconstruct options t = .ok ⟨t', .reconstructed, diagnostics⟩) :
    (∃ chain, Chain.build t.completed = .ok chain ∧ Chain.build t' = .ok chain) ∧
      (∀ (id : CtorId) c, t.completed.constructors[id]? = some c →
        ∃ c', t'.constructors[id]? = some c' ∧ c'.CallsLike options c) ∧
      t'.signature = t.completed.signature := by
  obtain ⟨r, rfl⟩ := exists_reconstruct_iff.mp ⟨diagnostics, h⟩
  refine ⟨⟨r.chain, r.chain_eq, r.build_type⟩, fun id c hc => ?_, r.signature_type⟩
  exact ⟨r.constructorOf id c, r.type_constructor hc, r.callsLike hc⟩

/-- A type whose root hands a choice over to the base constructor. -/
def TypeDecl.reader : TypeDecl where
  name := "Reader"
  layout := .byReference
  slots := [{ name := "source", kind := .field, type := "string" }]
  constructors :=
    let text : Expr := .param 0
    [{ parameters := [{ name := "text", type := "string" }]
       body := [.assign 0 text,
        .base [.select (.binary .ne text (.literal .null)) text (.literal (.str ""))]] },
      { parameters := [], body := [.chain 0 [.literal (.str "none")]] }]

/-- The choice is written by `??`, and the call stays the only one of the root. -/
theorem reconstruct_keeps_structure_reader : ∃ t' diagnostics,
    reconstruct {} .reader = .ok ⟨t', .reconstructed, diagnostics⟩ ∧
      (∃ chain, Chain.build t' = .ok chain ∧ chain.roots = [0] ∧ chain.order = [0, 1]) ∧
      (∃ c', t'.constructors[0]? = some c' ∧
        Stmt.callsEach c'.body = [⟨.base, [.coalesce (.param 0) (.literal (.str ""))]⟩]) ∧
      t'.signature = TypeDecl.reader.signature := by
  obtain ⟨t', diagnostics, h⟩ : ∃ t' diagnostics,
    reconstruct {} .reader = .ok ⟨t', .reconstructed, diagnostics⟩ := ⟨_, _, rfl⟩
  obtain ⟨⟨chain, hchain, hchain'⟩, hcalls, hsignature⟩ := reconstruct_keeps_structure h
  obtain ⟨c', hc', hlike⟩ := hcalls 0 _ rfl
  cases hchain
  exact ⟨t', diagnostics, h, ⟨_, hchain', rfl, rfl⟩, ⟨c', hc', hlike.calls.trans (by decide)⟩, hsignature⟩

end DeclRecovery
