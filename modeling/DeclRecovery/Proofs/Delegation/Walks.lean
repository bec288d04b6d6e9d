import DeclRecovery.Proofs.Delegation.Exploration
import DeclRecovery.Proofs.Shapes

/-!
Chains read as walks from constructor to constructor (`TypeDecl.DelegatesTo`). Where no constructor hands over twice, a
walk has no choice, so it ends in one root or goes round in a circle. A chain is built when all walks end
(`Chain.exists_build_iff`), and a target that comes late in the order is on a circle (`Chain.transGen_of_late`).
-/

namespace DeclRecovery

/-! ### Delegations in a body -/

namespace Stmt

/-- `s` stands inside of a branch, at any depth. -/
inductive Inside (s : Stmt) : Stmt → Prop where
  | direct {c : Expr} {t e : List Stmt} : s ∈ t ++ e → Inside s (branch c t e)
  | deeper {b : Stmt} {c : Expr} {t e : List Stmt} : b ∈ t ++ e → Inside s b → Inside s (branch c t e)

theorem inside_branch_iff {s : Stmt} {c : Expr} {t e : List Stmt} :
    s.Inside (branch c t e) ↔ ∃ b ∈ t ++ e, b = s ∨ s.Inside b := by
  refine ⟨fun h => ?_, fun h => ?_⟩
  · cases h with
    | direct hs => exact ⟨s, hs, Or.inl rfl⟩
    | deeper hb h => exact ⟨_, hb, Or.inr h⟩
  · rcases h with ⟨b, hb, rfl | h⟩
    · exact .direct hb
    · exact .deeper hb h

theorem delegation?_eq_some_iff {s : Stmt} {call : Delegation} : s.delegation? = some call ↔ s = delegate call := by
  cases s <;> simp [delegation?]

theorem hasNestedDelegation_iff (s : Stmt) : s.hasNestedDelegation = true ↔ ∃ call, (delegate call).Inside s := by
  induction s using induct with
  | branch c t e iht ihe =>
    have ih : ∀ b ∈ t ++ e, b.hasNestedDelegation = true ↔ ∃ call, (delegate call).Inside b := fun b hb =>
      (List.mem_append.mp hb).elim (iht b) (ihe b)
    rw [hasNestedDelegation, anyDelegation_eq, anyDelegation_eq, ← List.any_append, List.any_eq_true]
    simp only [inside_branch_iff, Bool.or_eq_true, Option.isSome_iff_exists, delegation?_eq_some_iff]
    constructor
    · rintro ⟨b, hb, ⟨call, h⟩ | h⟩
      · exact ⟨call, b, hb, Or.inl h⟩
      · obtain ⟨call, h⟩ := (ih b hb).mp h
        exact ⟨call, b, hb, Or.inr h⟩
    · rintro ⟨call, b, hb, h | h⟩
      · exact ⟨b, hb, Or.inl ⟨call, h⟩⟩
      · exact ⟨b, hb, Or.inr ((ih b hb).mpr ⟨call, h⟩)⟩
  | _ =>
    refine ⟨fun h => ?_, fun h => ?_⟩
    · cases h
    · obtain ⟨_, h⟩ := h
      cases h

end Stmt

namespace Constructor

variable {c : Constructor}

/-- The delegations at the top of the body. -/
def delegations (c : Constructor) : List Delegation := c.body.filterMap Stmt.delegation?

theorem length_delegations (c : Constructor) : c.delegations.length = c.body.countP (·.delegation?.isSome) :=
  List.length_filterMap_eq_countP

theorem chainTarget?_eq_some_iff (h : c.delegations.length ≤ 1) {target : CtorId} :
    c.chainTarget? = some target ↔ ∃ args, ⟨.ctor target, args⟩ ∈ c.delegations := by
  have hhead : c.chainTarget? = c.delegations.head?.bind fun call => call.target.ctor? := by
    rw [chainTarget?_eq, delegations, List.head?_filterMap]
  rcases hcalls : c.delegations with _ | ⟨⟨_ | id, args⟩, rest⟩
  · simp [hhead, hcalls]
  · obtain rfl : rest = [] := by simpa [hcalls] using h
    simp [hhead, hcalls, DelegationTarget.ctor?]
  · obtain rfl : rest = [] := by simpa [hcalls] using h
    simp [hhead, hcalls, DelegationTarget.ctor?, eq_comm]

end Constructor

/-! ### Walks -/

namespace TypeDecl

def Declares (t : TypeDecl) (id : CtorId) : Prop := ∃ c, t.constructors[id]? = some c ∧ c.isDeclared = true

/-- No declared constructor hands over twice at the top of its body. -/
def DelegatesOnce (t : TypeDecl) : Prop := ∀ c ∈ t.constructors, c.isDeclared = true → c.delegations.length ≤ 1

/-- The declared constructor `id` hands over to `target`, which need not exist. -/
def DelegatesTo (t : TypeDecl) (id target : CtorId) : Prop :=
  ∃ c args, t.constructors[id]? = some c ∧ c.isDeclared = true ∧ ⟨.ctor target, args⟩ ∈ c.delegations

/-- A declared constructor that hands over to the base type, or not at all. -/
def IsRoot (t : TypeDecl) (id : CtorId) : Prop := t.Declares id ∧ ∀ target, ¬t.DelegatesTo id target

end TypeDecl

namespace Chain

variable {t : TypeDecl} {chain : Chain} {id : CtorId}

theorem declares_of_transGen {target : CtorId} (h : Relation.TransGen t.DelegatesTo id target) : t.Declares id := by
  obtain ⟨_, ⟨c, _, hc, hd, -⟩, -⟩ := Relation.TransGen.head'_iff.mp h
  exact ⟨c, hc, hd⟩

section Once

variable (honce : t.DelegatesOnce)
include honce

theorem delegatesTo_iff {target : CtorId} : t.DelegatesTo id target ↔
    ∃ c, t.constructors[id]? = some c ∧ c.isDeclared = true ∧ c.chainTarget? = some target := by
  refine ⟨fun h => ?_, fun h => ?_⟩
  · obtain ⟨c, args, hc, hd, hmem⟩ := h
    exact ⟨c, hc, hd, (Constructor.chainTarget?_eq_some_iff (honce c (List.mem_of_getElem? hc) hd)).mpr ⟨args, hmem⟩⟩
  · obtain ⟨c, hc, hd, htarget⟩ := h
    obtain ⟨args, hmem⟩ := (Constructor.chainTarget?_eq_some_iff (honce c (List.mem_of_getElem? hc) hd)).mp htarget
    exact ⟨c, args, hc, hd, hmem⟩

theorem delegatesTo_rightUnique : Relator.RightUnique t.DelegatesTo := by
  intro id j k hj hk
  obtain ⟨c, hc, -, hj⟩ := (delegatesTo_iff honce).mp hj
  obtain ⟨d, hd, -, hk⟩ := (delegatesTo_iff honce).mp hk
  cases hc.symm.trans hd
  exact Option.some.inj (hj.symm.trans hk)

theorem isRoot_iff : t.IsRoot id ↔ ∃ c, t.constructors[id]? = some c ∧ c.isDeclared = true ∧ c.chainTarget? = none := by
  refine ⟨fun h => ?_, fun h => ?_⟩
  · obtain ⟨⟨c, hc, hd⟩, hnone⟩ := h
    refine ⟨c, hc, hd, Option.eq_none_iff_forall_ne_some.mpr fun j hj => hnone j ?_⟩
    exact (delegatesTo_iff honce).mpr ⟨c, hc, hd, hj⟩
  · obtain ⟨c, hc, hd, hnone⟩ := h
    refine ⟨⟨c, hc, hd⟩, fun j hj => ?_⟩
    obtain ⟨d, hd, -, hj⟩ := (delegatesTo_iff honce).mp hj
    cases hc.symm.trans hd
    cases hnone.symm.trans hj

/-- A walk that ends in a root starts on no circle. -/
theorem not_transGen_of_isRoot {root : CtorId} (hwalk : Relation.ReflTransGen t.DelegatesTo id root)
    (hroot : t.IsRoot root) : ¬Relation.TransGen t.DelegatesTo id id := by
  induction hwalk using Relation.ReflTransGen.head_induction_on with
  | refl =>
    intro hcircle
    obtain ⟨target, hstep, -⟩ := Relation.TransGen.head'_iff.mp hcircle
    exact hroot.2 target hstep
  | head hstep _ ih =>
    intro hcircle
    obtain ⟨target, hstep', hback⟩ := Relation.TransGen.head'_iff.mp hcircle
    obtain rfl := delegatesTo_rightUnique honce hstep hstep'
    exact ih (.tail' hback hstep)

theorem eq_of_isRoot {root root' : CtorId} (hroot : t.IsRoot root) (hroot' : t.IsRoot root')
    (hwalk : Relation.ReflTransGen t.DelegatesTo id root) (hwalk' : Relation.ReflTransGen t.DelegatesTo id root') :
    root = root' := by
  have hstays : ∀ {a b}, t.IsRoot a → Relation.ReflTransGen t.DelegatesTo a b → a = b := by
    intro a b ha hab
    rcases hab.cases_head with heq | ⟨target, hstep, -⟩
    · exact heq
    · exact absurd hstep (ha.2 target)
  rcases Relation.ReflTransGen.total_of_right_unique (delegatesTo_rightUnique honce) hwalk hwalk' with h | h
  · exact hstays hroot h
  · exact (hstays hroot' h).symm

/-! ### Links -/

theorem mem_delegatesIn_iff {target : CtorId} : id ∈ delegatesIn (linksOf t) target ↔ t.DelegatesTo id target := by
  rw [delegatesTo_iff honce, ← mem_linksOf]
  simp [delegatesIn]

theorem targetIn?_eq_some_iff {target : CtorId} : targetIn? (linksOf t) id = some target ↔ t.DelegatesTo id target := by
  rw [delegatesTo_iff honce, targetIn?_linksOf_eq_some_iff]

end Once

section Linked

variable (hlinked : ∀ id c, t.constructors[id]? = some c → c.isDeclared = true → Linked t id c)
include hlinked

theorem delegatesOnce_of_linked : t.DelegatesOnce := by
  intro c hc hd
  obtain ⟨id, hid⟩ := List.getElem?_of_mem hc
  rw [c.length_delegations]
  exact (hlinked id c hid hd).single

theorem declares_target {target : CtorId} (h : t.DelegatesTo id target) : t.Declares target := by
  obtain ⟨c, hc, hd, htarget⟩ := (delegatesTo_iff (delegatesOnce_of_linked hlinked)).mp h
  exact ((hlinked id c hc hd).target target htarget).2

/-- A target that comes late in the order is reached again on the walk that starts there. -/
theorem transGen_of_late
    (h : Delegation.late? (targetIn? (linksOf t)) []
      (Delegation.order (delegatesIn (linksOf t)) ((linksOf t).map Prod.fst)) = some id) :
    Relation.TransGen t.DelegatesTo id id := by
  have honce := delegatesOnce_of_linked hlinked
  have htarget : ∀ n target, targetIn? (linksOf t) n = some target →
      n ∈ delegatesIn (linksOf t) target ∧ target ∈ (linksOf t).map Prod.fst := by
    intro n target hn
    have hdelegates := (targetIn?_eq_some_iff honce).mp hn
    exact ⟨(mem_delegatesIn_iff honce).mpr hdelegates, mem_map_fst_linksOf.mpr (declares_target hlinked hdelegates)⟩
  obtain ⟨n, hn, hleads⟩ := Delegation.exists_circle_of_late delegatesIn_subset htarget h
  have hwalk : Relation.ReflTransGen t.DelegatesTo id n :=
    Relation.ReflTransGen.mono (fun _ _ hmem => (mem_delegatesIn_iff honce).mp hmem) _ _ hleads.swap
  exact .tail' hwalk ((targetIn?_eq_some_iff honce).mp hn)

end Linked

theorem ofLinks_eq_error_iff {links : List (CtorId × Option CtorId)} {defect : ChainDefect} :
    ofLinks links = .error defect ↔ ∃ c, defect = .cycle c ∧
      Delegation.late? (targetIn? links) [] (Delegation.order (delegatesIn links) (links.map Prod.fst)) = some c := by
  unfold ofLinks
  cases hlate : Delegation.late? (targetIn? links) [] (Delegation.order (delegatesIn links) (links.map Prod.fst)) with
  | none => simp [hlate]
  | some n => simp [hlate, eq_comm]

/-- In a chain each walk ends, since it goes back in the order. -/
theorem exists_isRoot (h : build t = .ok chain) (hid : t.Declares id) :
    ∃ root, t.IsRoot root ∧ Relation.ReflTransGen t.DelegatesTo id root := by
  have honce := delegatesOnce_of_linked (build_eq_ok_iff.mp h).1
  suffices hbefore : ∀ before after, chain.order = before ++ after → ∀ id ∈ before,
      ∃ root, t.IsRoot root ∧ Relation.ReflTransGen t.DelegatesTo id root from
    hbefore chain.order [] (List.append_nil _).symm id ((mem_order_iff h).mpr hid)
  intro before
  induction before using List.reverseRecOn with
  | nil => exact fun _ _ _ hid => absurd hid List.not_mem_nil
  | append_singleton before n ih =>
    intro after horder id hid
    rw [List.append_assoc, List.singleton_append] at horder
    rcases List.mem_append.mp hid with hid | hid
    · exact ih _ horder id hid
    · obtain rfl := List.mem_singleton.mp hid
      obtain ⟨c, hc, hd⟩ := (mem_order_iff h).mp (by simp [horder] : id ∈ chain.order)
      cases htarget : c.chainTarget? with
      | none => exact ⟨id, (isRoot_iff honce).mpr ⟨c, hc, hd, htarget⟩, .refl⟩
      | some target =>
        obtain ⟨root, hroot, hwalk⟩ := ih _ horder target (target_before h hc hd htarget horder)
        exact ⟨root, hroot, .head ((delegatesTo_iff honce).mpr ⟨c, hc, hd, htarget⟩) hwalk⟩

/-- A chain is built exactly when each declared constructor has a link and every walk ends in a root. -/
theorem exists_build_iff : (∃ chain, build t = .ok chain) ↔
    (∀ id c, t.constructors[id]? = some c → c.isDeclared = true → Linked t id c) ∧
      ∀ id, t.Declares id → ∃ root, t.IsRoot root ∧ Relation.ReflTransGen t.DelegatesTo id root := by
  refine ⟨fun ⟨chain, h⟩ => ⟨(build_eq_ok_iff.mp h).1, fun id hid => exists_isRoot h hid⟩, fun ⟨hlinked, hends⟩ => ?_⟩
  cases hofLinks : ofLinks (linksOf t) with
  | ok chain => exact ⟨chain, build_eq_ok_iff.mpr ⟨hlinked, hofLinks⟩⟩
  | error defect =>
    obtain ⟨id, -, hlate⟩ := ofLinks_eq_error_iff.mp hofLinks
    have hcircle := transGen_of_late hlinked hlate
    obtain ⟨root, hroot, hwalk⟩ := hends id (declares_of_transGen hcircle)
    exact absurd hcircle (not_transGen_of_isRoot (delegatesOnce_of_linked hlinked) hwalk hroot)

end Chain

end DeclRecovery
