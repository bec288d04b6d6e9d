import DeclRecovery.Proofs.Hoist.Leftover
import DeclRecovery.Proofs.Hoist.Permuted

/-!
What is reported about slots that a root stores early and that get no initializer. The entry points are looked at one
after the other, so the reason for a slot is the first one that comes up (`Ambiguity.Genuine`): a constructor that stores
it inside a branch, or else the first entry point that does not store it like those before it. Every slot with a
candidate is either agreed on or reported, with just this reason.
-/

namespace DeclRecovery

/-- A statement of the constructor stores the slot on some ways through it and maybe not on others. -/
def TypeDecl.AssignsConditionally (t : TypeDecl) (ctor : CtorId) (slot : SlotId) : Prop :=
  ∃ c, t.constructors[ctor]? = some c ∧ ∃ s ∈ c.body, s.assignsConditionally slot = true

/-! ### The first entry point that disagrees -/

namespace EntryPoint

variable {maxDepth : Option Nat} {slot : SlotId} {es : List EntryPoint} {reason : Ambiguity}

/-- The entry points all store the slot, and any two of them alike. -/
def Agree (maxDepth : Option Nat) (slot : SlotId) (es : List EntryPoint) : Prop :=
  (∀ e ∈ es, ∃ c, e.candidate? slot = some c) ∧ es.Pairwise (AgreesOn maxDepth slot)

/-- An entry point after some that agree does not store the slot, or not like one of them. -/
inductive Disagreement (maxDepth : Option Nat) (slot : SlotId) (es : List EntryPoint) : Ambiguity → Prop
  | missing {before after : List EntryPoint} {e : EntryPoint} (split : es = before ++ e :: after)
      (agree : Agree maxDepth slot before) (absent : e.candidate? slot = none) :
      Disagreement maxDepth slot es (.missingAtEntryPoint e.ctor)
  | conflicting {before after : List EntryPoint} {b e : EntryPoint} {c c' : Candidate} (split : es = before ++ e :: after)
      (agree : Agree maxDepth slot before) (mem : b ∈ before) (first : b.candidate? slot = some c)
      (second : e.candidate? slot = some c')
      (differ : Site.alike maxDepth ⟨b.params, c.value⟩ ⟨e.params, c'.value⟩ = false) :
      Disagreement maxDepth slot es .conflictingCandidates

/-- Why an entry point does not fit the value that those before it store. -/
def objection? (maxDepth : Option Nat) (slot : SlotId) (r : Site) (e : EntryPoint) : Option Ambiguity :=
  match e.candidate? slot with
  | none => some (.missingAtEntryPoint e.ctor)
  | some c => if r.alike maxDepth ⟨e.params, c.value⟩ then none else some .conflictingCandidates

theorem objection?_eq_some_iff {r : Site} {e : EntryPoint} : objection? maxDepth slot r e = some reason ↔
    (e.candidate? slot = none ∧ .missingAtEntryPoint e.ctor = reason) ∨
      ∃ c, e.candidate? slot = some c ∧ r.alike maxDepth ⟨e.params, c.value⟩ = false ∧
        .conflictingCandidates = reason := by
  rw [objection?]
  cases e.candidate? slot with
  | none => simp
  | some c => by_cases h : r.alike maxDepth ⟨e.params, c.value⟩ = true <;> simp [h]

theorem disagreement?_eq_findSome? {r : Site} :
    disagreement? maxDepth slot (some r) es = es.findSome? (objection? maxDepth slot r) := by
  induction es with
  | nil => rfl
  | cons e es ih =>
    rw [disagreement?, List.findSome?_cons, objection?]
    cases e.candidate? slot with
    | none => rfl
    | some c => by_cases h : r.alike maxDepth ⟨e.params, c.value⟩ = true <;> simp [h, ih]

theorem disagreement?_cons {e : EntryPoint} {c : Candidate} (hc : e.candidate? slot = some c) :
    disagreement? maxDepth slot none (e :: es) = es.findSome? (objection? maxDepth slot ⟨e.params, c.value⟩) := by
  rw [← disagreement?_eq_findSome?, disagreement?, hc]

theorem agree_cons_iff {e : EntryPoint} {c : Candidate} (hc : e.candidate? slot = some c) :
    Agree maxDepth slot (e :: es) ↔ ∀ e' ∈ es, objection? maxDepth slot ⟨e.params, c.value⟩ e' = none := by
  rw [Agree, ← disagreement?_none_iff_pairwise, disagreement?_cons hc, List.findSome?_eq_none_iff]

theorem disagreement_of_disagreement? (h : disagreement? maxDepth slot none es = some reason) :
    Disagreement maxDepth slot es reason := by
  cases es with
  | nil => cases h
  | cons first es =>
    cases hfirst : first.candidate? slot with
    | none =>
      rw [disagreement?, hfirst] at h
      cases h
      exact .missing (List.nil_append _).symm ⟨by simp, .nil⟩ hfirst
    | some c =>
      rw [disagreement?_cons hfirst, List.findSome?_eq_some_iff] at h
      obtain ⟨before, e, after, rfl, he, hbefore⟩ := h
      have hagree : Agree maxDepth slot (first :: before) := (agree_cons_iff hfirst).mpr hbefore
      obtain ⟨habsent, rfl⟩ | ⟨c', hc', hdiffer, rfl⟩ := objection?_eq_some_iff.mp he
      · exact .missing rfl hagree habsent
      · exact .conflicting rfl hagree List.mem_cons_self hfirst hc' hdiffer

/-- Where all of those before it agree, an entry point that differs from one of them differs from the first. -/
theorem differs_of_agree {first b e : EntryPoint} {c d c' : Candidate} {bs : List EntryPoint}
    (hagree : Agree maxDepth slot (first :: bs)) (hfirst : first.candidate? slot = some c) (hb : b ∈ first :: bs)
    (hd : b.candidate? slot = some d) (hdiffer : Site.alike maxDepth ⟨b.params, d.value⟩ ⟨e.params, c'.value⟩ = false) :
    Site.alike maxDepth ⟨first.params, c.value⟩ ⟨e.params, c'.value⟩ = false := by
  rcases List.mem_cons.mp hb with rfl | hb
  · cases hfirst.symm.trans hd
    exact hdiffer
  · obtain ⟨c₁, d₁, hc₁, hd₁, halike⟩ := (List.pairwise_cons.mp hagree.2).1 b hb
    cases hfirst.symm.trans hc₁
    cases hd.symm.trans hd₁
    by_contra hsame
    rw [Bool.not_eq_false] at hsame
    rw [Site.alike_trans (Site.alike_symm halike) hsame] at hdiffer
    cases hdiffer

theorem disagreement?_of_objection {first e : EntryPoint} {c : Candidate} {bs after : List EntryPoint}
    (hfirst : first.candidate? slot = some c) (hagree : Agree maxDepth slot (first :: bs))
    (he : objection? maxDepth slot ⟨first.params, c.value⟩ e = some reason) :
    disagreement? maxDepth slot none (first :: bs ++ e :: after) = some reason := by
  rw [List.cons_append, disagreement?_cons hfirst, List.findSome?_eq_some_iff]
  exact ⟨bs, e, after, rfl, he, (agree_cons_iff hfirst).mp hagree⟩

theorem disagreement?_eq_some_iff :
    disagreement? maxDepth slot none es = some reason ↔ Disagreement maxDepth slot es reason := by
  refine ⟨disagreement_of_disagreement?, fun h => ?_⟩
  cases h with
  | @missing before after e split agree absent =>
    subst split
    cases before with
    | nil => rw [List.nil_append, disagreement?, absent]
    | cons first bs =>
      obtain ⟨c, hfirst⟩ := agree.1 first List.mem_cons_self
      exact disagreement?_of_objection hfirst agree (objection?_eq_some_iff.mpr (.inl ⟨absent, rfl⟩))
  | @conflicting before after b e d c' split agree mem hd hc' differ =>
    subst split
    cases before with
    | nil => cases mem
    | cons first bs =>
      obtain ⟨c, hfirst⟩ := agree.1 first List.mem_cons_self
      have hdiffer := differs_of_agree agree hfirst mem hd differ
      exact disagreement?_of_objection hfirst agree (objection?_eq_some_iff.mpr (.inr ⟨c', hc', hdiffer, rfl⟩))

end EntryPoint

/-! ### Reasons -/

/-- The reason holds of the slot, and it is the first one: a store inside a branch comes before what entry points do, and
of several constructors or entry points the first one is named. -/
inductive Ambiguity.Genuine (maxDepth : Option Nat) (t : TypeDecl) (chain : Chain) (es : List EntryPoint)
    (slot : SlotId) : Ambiguity → Prop
  | conditional {before after : List CtorId} {ctor : CtorId} (split : chain.order = before ++ ctor :: after)
      (assigns : t.AssignsConditionally ctor slot) (first : ∀ id ∈ before, ¬t.AssignsConditionally id slot) :
      Genuine maxDepth t chain es slot (.conditionalAssignment ctor)
  | disagreement {reason : Ambiguity} (unconditional : ∀ id ∈ chain.order, ¬t.AssignsConditionally id slot)
      (disagree : EntryPoint.Disagreement maxDepth slot es reason) : Genuine maxDepth t chain es slot reason

namespace Extraction

variable {t : TypeDecl} {chain : Chain} {ordered : List (CtorId × Constructor)} {slot : SlotId}

section Ordered
variable (hordered : chain.order.mapM (fun id => do return (id, ← t.constructor id)) = .ok ordered)
include hordered

theorem assignsConditionally_iff {x : CtorId × Constructor} (hx : x ∈ ordered) :
    t.AssignsConditionally x.1 slot ↔ x.2.body.any (Stmt.assignsConditionally slot) = true := by
  rw [TypeDecl.AssignsConditionally, (ordered_eq_ok_iff.mp hordered).2 x hx]
  simp

theorem conditionalWriter?_none_iff :
    conditionalWriter? ordered slot = none ↔ ∀ id ∈ chain.order, ¬t.AssignsConditionally id slot := by
  rw [conditionalWriter?_eq_none_iff, ← (ordered_eq_ok_iff.mp hordered).1, List.forall_mem_map]
  refine forall₂_congr fun x hx => ?_
  rw [assignsConditionally_iff hordered hx, Bool.not_eq_true]

theorem conditionalWriter?_eq_some_iff {ctor : CtorId} : conditionalWriter? ordered slot = some ctor ↔
    ∃ before after, chain.order = before ++ ctor :: after ∧ t.AssignsConditionally ctor slot ∧
      ∀ id ∈ before, ¬t.AssignsConditionally id slot := by
  have hassigns : ∀ x ∈ ordered, (t.AssignsConditionally x.1 slot ↔ _) := fun x hx => assignsConditionally_iff hordered hx
  rw [conditionalWriter?, Option.map_eq_some_iff, ← (ordered_eq_ok_iff.mp hordered).1]
  constructor
  · rintro ⟨x, hx, rfl⟩
    obtain ⟨hany, before, after, rfl, hbefore⟩ := List.find?_eq_some_iff_append.mp hx
    refine ⟨before.map Prod.fst, after.map Prod.fst, by simp, (hassigns x (by simp)).mpr hany, ?_⟩
    refine List.forall_mem_map.mpr fun b hb => ?_
    rw [hassigns b (by simp [hb])]
    simpa using hbefore b hb
  · rintro ⟨before, after, hsplit, hctor, hbefore⟩
    obtain ⟨before, rest, rfl, rfl, hrest⟩ := List.map_eq_append_iff.mp hsplit
    obtain ⟨x, after, rfl, rfl, rfl⟩ := List.map_eq_cons_iff.mp hrest
    refine ⟨x, List.find?_eq_some_iff_append.mpr ⟨(hassigns x (by simp)).mp hctor, before, after, rfl, fun b hb => ?_⟩, rfl⟩
    have := List.forall_mem_map.mp hbefore b hb
    rw [hassigns b (by simp [hb])] at this
    simpa using this

theorem obstacle?_eq_some_iff {maxDepth : Option Nat} {es : List EntryPoint} {reason : Ambiguity} :
    Agreement.obstacle? maxDepth (conditionalWriter? ordered) es slot = some reason ↔
      reason.Genuine maxDepth t chain es slot := by
  rw [Agreement.obstacle?]
  cases hwriter : conditionalWriter? ordered slot with
  | some ctor =>
    obtain ⟨before, after, hsplit, hassigns, hfirst⟩ := (conditionalWriter?_eq_some_iff hordered).mp hwriter
    constructor
    · intro h
      cases h
      exact .conditional hsplit hassigns hfirst
    · intro h
      cases h with
      | conditional split assigns first =>
        have hfound := (conditionalWriter?_eq_some_iff hordered).mpr ⟨_, _, split, assigns, first⟩
        cases hwriter.symm.trans hfound
        rfl
      | disagreement unconditional => exact absurd hassigns (unconditional ctor (by simp [hsplit]))
  | none =>
    have hnone := (conditionalWriter?_none_iff hordered).mp hwriter
    rw [EntryPoint.disagreement?_eq_some_iff]
    constructor
    · exact .disagreement hnone
    · intro h
      cases h with
      | conditional split assigns => exact absurd assigns (hnone _ (by simp [split]))
      | disagreement _ disagree => exact disagree

end Ordered

section
variable {maxDepth : Option Nat} {blocked : SlotId → Option CtorId} {es : List EntryPoint}

theorem mem_map_fst_ambiguities : slot ∈ (Agreement.of maxDepth blocked es).ambiguities.map Prod.fst ↔
    slot ∈ EntryPoint.candidateSlots es ∧ slot ∉ (Agreement.of maxDepth blocked es).agreed := by
  rw [Agreement.map_fst_ambiguities, List.mem_filter, ← PosSet.mem_def, Agreement.of, PosSet.mem_filter]
  cases Agreement.obstacle? maxDepth blocked es slot <;> simp

theorem mem_ambiguities {reason : Ambiguity} : (slot, reason) ∈ (Agreement.of maxDepth blocked es).ambiguities ↔
    slot ∈ EntryPoint.candidateSlots es ∧ Agreement.obstacle? maxDepth blocked es slot = some reason := by
  simp [Agreement.of, List.mem_filterMap, PosSet.mem_def]

theorem not_mem_hoisted (initialized : List (SlotId × Footprint))
    (h : slot ∉ (Agreement.of maxDepth blocked es).agreed) (allowParams : Bool) :
    slot ∉ (plan initialized es (Agreement.of maxDepth blocked es).agreed allowParams).hoisted.keys := by
  rw [keys_hoisted_plan Hoist.agreed_subset_commonSlots]
  exact fun hslot => h (Hoist.eligible_subset slot (Hoist.settle_subset slot hslot))

end

/-- How an extraction accounts for the slots that its entry points have candidates for: its plans are made from those in
`agreed`, and the others are reported. -/
structure Accounts (maxDepth : Option Nat) (t : TypeDecl) (chain : Chain) (extraction : Extraction) (agreed : PosSet) :
    Prop where
  entryPoints : List.Forall₂ (fun id e => EntryPoint.of t id = .ok e) chain.roots extraction.entryPoints
  withPrimary : extraction.withPrimary = plan (Hoist.existing t) extraction.entryPoints agreed true
  withoutPrimary : extraction.withoutPrimary = plan (Hoist.existing t) extraction.entryPoints agreed false
  mem_agreed : ∀ slot, slot ∈ agreed ↔ slot ∈ EntryPoint.candidateSlots extraction.entryPoints ∧
    (∀ id ∈ chain.order, ¬t.AssignsConditionally id slot) ∧ EntryPoint.Agree maxDepth slot extraction.entryPoints
  ascending : (extraction.ambiguities.map Prod.fst).Pairwise (· < ·)
  notHoisted : ∀ slot ∈ extraction.ambiguities.map Prod.fst,
    slot ∉ extraction.withPrimary.hoisted.keys ∧ slot ∉ extraction.withoutPrimary.hoisted.keys
  complete : ∀ slot, slot ∈ EntryPoint.candidateSlots extraction.entryPoints ↔
    slot ∈ agreed ∨ slot ∈ extraction.ambiguities.map Prod.fst
  apart : ∀ slot ∈ extraction.ambiguities.map Prod.fst, slot ∉ agreed
  genuine : ∀ slot reason, (slot, reason) ∈ extraction.ambiguities ↔
    slot ∈ EntryPoint.candidateSlots extraction.entryPoints ∧
      reason.Genuine maxDepth t chain extraction.entryPoints slot

/-- Unless a root overruns there is an extraction. Every slot with a candidate is either one of those that its plans are
made from, or reported; the reports come in the order of the slots, none is about a slot that is hoisted, and each gives
the first reason that holds. -/
theorem ambiguities_genuine (maxDepth : Option Nat) (hchain : Chain.build t = .ok chain) :
    (∃ slot, t.Overruns slot ∧ Extraction.of maxDepth t chain = .error ⟨t.slots.length, slot⟩) ∨
    ∃ extraction agreed, Extraction.of maxDepth t chain = .ok extraction ∧
      extraction.Accounts maxDepth t chain agreed := by
  refine (exists_or_overruns hchain maxDepth).symm.imp_right ?_
  rintro ⟨extraction, h⟩
  obtain ⟨es, ordered, hes, hordered, rfl⟩ := of_eq_ok h
  have hagreed : ∀ slot, slot ∈ (Agreement.of maxDepth (conditionalWriter? ordered) es).agreed ↔ _ :=
    fun slot => Agreement.mem_agreed
  refine ⟨_, (Agreement.of maxDepth (conditionalWriter? ordered) es).agreed, h, ?_⟩
  exact {
    entryPoints := hes
    withPrimary := rfl
    withoutPrimary := rfl
    mem_agreed := fun slot => by
      rw [hagreed, conditionalWriter?_none_iff hordered, EntryPoint.disagreement?_none_iff_pairwise, EntryPoint.Agree]
    ascending := by
      rw [Agreement.map_fst_ambiguities]
      exact (EntryPoint.candidateSlots es).ascending.filter _
    notHoisted := fun slot hslot =>
      have hnot := (mem_map_fst_ambiguities.mp hslot).2
      ⟨not_mem_hoisted _ hnot true, not_mem_hoisted _ hnot false⟩
    complete := fun slot => by
      rw [mem_map_fst_ambiguities]
      have := fun h => ((hagreed slot).mp h).1
      tauto
    apart := fun slot hslot => (mem_map_fst_ambiguities.mp hslot).2
    genuine := fun slot reason => mem_ambiguities.trans (and_congr_right fun _ => obstacle?_eq_some_iff hordered) }

end Extraction

/-- Two roots and an overload of each. The roots store the same in `a`, different values in `b`, and only one of them
stores `c`; both overloads store `d` inside a branch. -/
def TypeDecl.contested : TypeDecl where
  name := "Sample"
  layout := .byReference
  slots := [{ name := "a", kind := .field, type := "int" }, { name := "b", kind := .field, type := "int" },
    { name := "c", kind := .field, type := "int" }, { name := "d", kind := .field, type := "int" }]
  constructors :=
    let a : Stmt := .assign 0 (.literal (.int 1))
    let d : Stmt := .assign 3 (.literal (.int 4))
    let reset : Stmt := .branch (.param 0) [.assign 3 (.literal (.int 0))] []
    let size : Parameter := { name := "size", type := "int" }
    let clear : Parameter := { name := "clear", type := "bool" }
    [{ parameters := [], body := [a, .assign 1 (.literal (.int 2)), .assign 2 (.literal (.int 3)), d, .base []] },
      { parameters := [size], body := [a, d, .assign 1 (.param 0), .base []] },
      { parameters := [clear], body := [.chain 0 [], reset] },
      { parameters := [clear, size], body := [.chain 1 [.param 1], reset] }]

/-- Of the two overloads that store `d` inside a branch the one that comes first in the chain is named. -/
theorem Extraction.ambiguities_genuine_contested : ∃ chain extraction agreed,
    Chain.build .contested = .ok chain ∧ Extraction.of none .contested chain = .ok extraction ∧
      chain.order = [1, 3, 0, 2] ∧ extraction.withPrimary.hoisted.keys = .ofList [0] ∧
      extraction.ambiguities =
        [(1, .conflictingCandidates), (2, .missingAtEntryPoint 1), (3, .conditionalAssignment 3)] ∧
      extraction.Accounts none .contested chain agreed := by
  obtain ⟨chain, extraction, hchain, h, horder, hkeys, hambiguities⟩ : ∃ chain extraction,
      Chain.build .contested = .ok chain ∧ Extraction.of none .contested chain = .ok extraction ∧
        chain.order = [1, 3, 0, 2] ∧ extraction.withPrimary.hoisted.keys = .ofList [0] ∧
        extraction.ambiguities =
          [(1, .conflictingCandidates), (2, .missingAtEntryPoint 1), (3, .conditionalAssignment 3)] :=
    ⟨_, _, rfl, rfl, rfl, rfl, rfl⟩
  rcases Extraction.ambiguities_genuine none hchain with ⟨slot, -, herror⟩ | ⟨found, agreed, hfound, haccounts⟩
  · cases h.symm.trans herror
  · cases h.symm.trans hfound
    exact ⟨chain, extraction, agreed, hchain, h, horder, hkeys, hambiguities, haccounts⟩

end DeclRecovery
