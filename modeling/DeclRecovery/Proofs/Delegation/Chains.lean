import DeclRecovery.Proofs.Delegation.Loops
import DeclRecovery.Proofs.Delegation.Walks

/-!
Which types have a chain (`TypeDecl.WellChained`), what a defect says about the type that has none
(`ChainDefect.Genuine`), and what a chain that is built looks like (`Chain.Forest`): all of it told through the bodies of
the constructors and the walks from one to the next, and not through the search that finds it.
-/

namespace DeclRecovery

/-- Every declared constructor hands over at most once, outside of branches and to a declared constructor, and the walk
from it ends in a root. -/
structure TypeDecl.WellChained (t : TypeDecl) : Prop where
  single : ∀ c ∈ t.constructors, c.isDeclared = true → c.delegations.length ≤ 1
  flat : ∀ c ∈ t.constructors, c.isDeclared = true → ∀ s ∈ c.body, ∀ call, ¬(Stmt.delegate call).Inside s
  target : ∀ id target, t.DelegatesTo id target → t.Declares target
  ends : ∀ id, t.Declares id → ∃ root, t.IsRoot root ∧ Relation.ReflTransGen t.DelegatesTo id root

/-- The type has the defect. -/
def ChainDefect.Genuine (t : TypeDecl) : ChainDefect → Prop
  | cycle id => t.Declares id ∧ Relation.TransGen t.DelegatesTo id id
  | multipleDelegations id => ∃ c, t.constructors[id]? = some c ∧ c.isDeclared = true ∧ 2 ≤ c.delegations.length
  | nestedDelegation id => ∃ c, t.constructors[id]? = some c ∧ c.isDeclared = true ∧
      ∃ s ∈ c.body, ∃ call, (Stmt.delegate call).Inside s
  | danglingTarget source target => (∃ c args, t.constructors[source]? = some c ∧ c.isDeclared = true ∧
      c.delegations = [⟨.ctor target, args⟩]) ∧ t.constructors.length ≤ target
  | nonParticipatingTarget source target => (∃ c args, t.constructors[source]? = some c ∧ c.isDeclared = true ∧
      c.delegations = [⟨.ctor target, args⟩]) ∧ target < t.constructors.length ∧ ¬t.Declares target

namespace Chain

variable {t : TypeDecl} {chain : Chain} {id : CtorId} {c : Constructor}

/-! ### Acceptance -/

theorem any_hasNestedDelegation_eq_false_iff {body : List Stmt} :
    body.any Stmt.hasNestedDelegation = false ↔ ∀ s ∈ body, ∀ call, ¬(Stmt.delegate call).Inside s := by
  simp [List.any_eq_false, Stmt.hasNestedDelegation_iff]

theorem wellChained_iff : t.WellChained ↔
    (∀ id c, t.constructors[id]? = some c → c.isDeclared = true → Linked t id c) ∧
      ∀ id, t.Declares id → ∃ root, t.IsRoot root ∧ Relation.ReflTransGen t.DelegatesTo id root := by
  refine ⟨fun h => ⟨fun id c hc hd => ?_, h.ends⟩, fun ⟨hlinked, hends⟩ => ?_⟩
  · have hmem := List.mem_of_getElem? hc
    refine ⟨c.length_delegations ▸ h.single c hmem hd, any_hasNestedDelegation_eq_false_iff.mpr (h.flat c hmem hd),
      fun j hj => ?_⟩
    have hstep := (delegatesTo_iff h.single).mpr ⟨c, hc, hd, hj⟩
    refine ⟨?_, h.target id j hstep⟩
    -- A constructor that hands over to itself is on a circle, and its walk has no end.
    rintro rfl
    obtain ⟨root, hroot, hwalk⟩ := h.ends j ⟨c, hc, hd⟩
    exact not_transGen_of_isRoot h.single hwalk hroot (.single hstep)
  · refine ⟨delegatesOnce_of_linked hlinked, fun c hc hd => ?_, fun id target => declares_target hlinked, hends⟩
    obtain ⟨id, hid⟩ := List.getElem?_of_mem hc
    exact any_hasNestedDelegation_eq_false_iff.mp (hlinked id c hid hd).flat

/-- Where each constructor has a link, the chain or the circle is what the two loops of a topological sort find. -/
theorem build_eq_loops (hlinked : ∀ id c, t.constructors[id]? = some c → c.isDeclared = true → Linked t id c) :
    ∃ s ∈ StateTransition.eval (Delegation.Search.step (delegatesIn (linksOf t))) (.start ((linksOf t).map Prod.fst)),
      ∃ k ∈ StateTransition.eval (Delegation.Check.step (targetIn? (linksOf t))) (.start s.visit.finished),
        build t = k.reported.elim (.ok ⟨linksOf t, s.visit.finished⟩) fun id => .error (.cycle id) := by
  have hself : ∀ n, targetIn? (linksOf t) n ≠ some n := by
    intro n hn
    obtain ⟨c, hc, hd, htarget⟩ := targetIn?_linksOf_eq_some_iff.mp hn
    exact ((hlinked n c hc hd).target n htarget).1 rfl
  have hnext : ∀ n, delegatesIn (linksOf t) n ⊆ (linksOf t).map Prod.fst := delegatesIn_subset
  obtain ⟨s, hs, hfinished⟩ := Delegation.Search.exists_mem_eval hnext
  obtain ⟨k, hk, hreported⟩ := Delegation.Check.exists_mem_eval hself (hfinished ▸ Delegation.order_nodup _)
  refine ⟨s, hs, k, hk, ?_⟩
  rw [build_eq_ofLinks hlinked, ofLinks, hreported, hfinished]
  cases Delegation.late? (targetIn? (linksOf t)) []
    (Delegation.order (delegatesIn (linksOf t)) ((linksOf t).map Prod.fst)) <;> rfl

/-- A type has a chain exactly when it is well chained. Its chain, or the circle that it has, is the one that a
topological sort by depth-first search finds, in two loops that come to an end in either case. -/
theorem exists_build_iff_wellChained (t : TypeDecl) : ((∃ chain, build t = .ok chain) ↔ t.WellChained) ∧
    ((∀ id c, t.constructors[id]? = some c → c.isDeclared = true → Linked t id c) →
      ∃ s ∈ StateTransition.eval (Delegation.Search.step (delegatesIn (linksOf t))) (.start ((linksOf t).map Prod.fst)),
        ∃ k ∈ StateTransition.eval (Delegation.Check.step (targetIn? (linksOf t))) (.start s.visit.finished),
          build t = k.reported.elim (.ok ⟨linksOf t, s.visit.finished⟩) fun id => .error (.cycle id)) :=
  ⟨exists_build_iff.trans wellChained_iff.symm, build_eq_loops⟩

/-! ### Defects -/

theorem genuine_of_link_eq_error {defect : ChainDefect} (hc : t.constructors[id]? = some c) (hd : c.isDeclared = true)
    (h : link t id c = .error defect) : defect.Genuine t := by
  unfold link at h
  split at h
  · next hmultiple =>
    cases h
    exact ⟨c, hc, hd, c.length_delegations ▸ hmultiple⟩
  split at h
  · next hnested =>
    cases h
    obtain ⟨s, hs, hnested⟩ := List.any_eq_true.mp hnested
    exact ⟨c, hc, hd, s, hs, (Stmt.hasNestedDelegation_iff s).mp hnested⟩
  next hsingle _ =>
    rw [← c.length_delegations, Nat.not_lt] at hsingle
    split at h
    · cases h
    · next target htarget =>
      obtain ⟨args, hmem⟩ := (Constructor.chainTarget?_eq_some_iff hsingle).mp htarget
      have honly : c.delegations = [⟨.ctor target, args⟩] := by
        obtain ⟨call, hcall⟩ := List.length_eq_one_iff.mp (Nat.le_antisymm hsingle (List.length_pos_of_mem hmem))
        simp_all
      split at h
      · next hself =>
        cases h
        subst hself
        exact ⟨⟨c, hc, hd⟩, .single ⟨c, args, hc, hd, hmem⟩⟩
      · split at h
        · next hnone =>
          cases h
          exact ⟨⟨c, args, hc, hd, honly⟩, List.getElem?_eq_none_iff.mp hnone⟩
        · next other hother =>
          split at h
          · cases h
          · next hdeclared =>
            cases h
            refine ⟨⟨c, args, hc, hd, honly⟩, (List.getElem?_eq_some_iff.mp hother).1, fun hdeclares => ?_⟩
            obtain ⟨other', hother', hdeclares⟩ := hdeclares
            cases hother.symm.trans hother'
            exact hdeclared hdeclares

/-- A defect that is reported is one that the type has. -/
theorem build_error_genuine {defect : ChainDefect} (h : build t = .error defect) : defect.Genuine t := by
  rcases build_eq_error h with ⟨id, c, hc, hd, hlink⟩ | ⟨hlinked, hofLinks⟩
  · exact genuine_of_link_eq_error hc hd hlink
  · obtain ⟨id, rfl, hlate⟩ := ofLinks_eq_error_iff.mp hofLinks
    have hcircle := transGen_of_late hlinked hlate
    exact ⟨declares_of_transGen hcircle, hcircle⟩

/-- A type with two circles, 2 and 4 and 5 and 6, with walks that lead into the first one from 1 and 3. -/
def tangle : TypeDecl where
  name := "Tangle"
  layout := .byReference
  constructors :=
    [{ parameters := [], body := [.base []] }, { parameters := [], body := [.chain 2 []] },
      { parameters := [], body := [.chain 4 []] }, { parameters := [], body := [.chain 2 []] },
      { parameters := [], body := [.chain 2 []] }, { parameters := [], body := [.chain 6 []] },
      { parameters := [], body := [.chain 5 []] }]

theorem build_error_genuine_tangle : build tangle = .error (.cycle 6) ∧
    tangle.Declares 6 ∧ Relation.TransGen tangle.DelegatesTo 6 6 :=
  have h : build tangle = .error (.cycle 6) := rfl
  ⟨h, build_error_genuine h⟩

/-! ### Chains -/

/-- The chain lists the declared constructors as a forest, with its roots first. -/
structure Forest (t : TypeDecl) (chain : Chain) : Prop where
  /-- The order lists each declared constructor once. -/
  nodup : chain.order.Nodup
  mem_order : ∀ id, id ∈ chain.order ↔ t.Declares id
  /-- Targets come first. -/
  before : ∀ id target before after, t.DelegatesTo id target → chain.order = before ++ id :: after → target ∈ before
  /-- A declared constructor is a root, or a delegate of one constructor. -/
  rootOrDelegate : ∀ id, t.Declares id → id ∈ chain.roots ∧ (∀ target, id ∉ chain.delegatesOf target) ∨
    id ∉ chain.roots ∧ ∃! target, id ∈ chain.delegatesOf target
  /-- The delegates of any position, ascending. -/
  pairwise_delegates : ∀ target, (chain.delegatesOf target).Pairwise (· < ·)
  mem_delegates : ∀ id target, id ∈ chain.delegatesOf target ↔ t.DelegatesTo id target
  /-- Every walk ends in one root. -/
  ends : ∀ id, t.Declares id → ∃! root, root ∈ chain.roots ∧ Relation.ReflTransGen t.DelegatesTo id root
  roots_ne_nil : (∃ id, t.Declares id) → chain.roots ≠ []

section Built

variable (h : build t = .ok chain)
include h

theorem delegatesOnce : t.DelegatesOnce := delegatesOnce_of_linked (build_eq_ok_iff.mp h).1

theorem mem_delegatesOf_iff {target : CtorId} : id ∈ chain.delegatesOf target ↔ t.DelegatesTo id target := by
  rw [delegatesOf, links_eq h, mem_delegatesIn_iff (delegatesOnce h)]

theorem mem_roots_iff_isRoot : id ∈ chain.roots ↔ t.IsRoot id := by
  rw [mem_roots_iff h, isRoot_iff (delegatesOnce h)]

theorem root_or_delegate (hid : t.Declares id) : id ∈ chain.roots ∧ (∀ target, id ∉ chain.delegatesOf target) ∨
    id ∉ chain.roots ∧ ∃! target, id ∈ chain.delegatesOf target := by
  simp only [mem_roots_iff_isRoot h, mem_delegatesOf_iff h]
  by_cases hroot : t.IsRoot id
  · exact Or.inl ⟨hroot, hroot.2⟩
  · obtain ⟨target, htarget⟩ := not_forall_not.mp fun hnone => hroot ⟨hid, hnone⟩
    exact Or.inr ⟨hroot, target, htarget, fun _ hother => delegatesTo_rightUnique (delegatesOnce h) hother htarget⟩

theorem existsUnique_root (hid : t.Declares id) :
    ∃! root, root ∈ chain.roots ∧ Relation.ReflTransGen t.DelegatesTo id root := by
  obtain ⟨root, hroot, hwalk⟩ := exists_isRoot h hid
  refine ⟨root, ⟨(mem_roots_iff_isRoot h).mpr hroot, hwalk⟩, fun root' hroot' => ?_⟩
  exact eq_of_isRoot (delegatesOnce h) ((mem_roots_iff_isRoot h).mp hroot'.1) hroot hroot'.2 hwalk

end Built

/-- A chain that is built is a forest of all declared constructors, in topological order. -/
theorem forest_of_build (h : build t = .ok chain) : Forest t chain where
  nodup := order_nodup h
  mem_order _ := mem_order_iff h
  before id target before after htarget horder := by
    obtain ⟨c, hc, hd, htarget⟩ := (delegatesTo_iff (delegatesOnce h)).mp htarget
    exact target_before h hc hd htarget horder
  rootOrDelegate _ hid := root_or_delegate h hid
  pairwise_delegates _ := (links_pairwise h).sublist (List.filter_sublist.map Prod.fst)
  mem_delegates _ _ := mem_delegatesOf_iff h
  ends _ hid := existsUnique_root h hid
  roots_ne_nil hdeclares := by
    obtain ⟨id, hid⟩ := hdeclares
    obtain ⟨root, hroot, -⟩ := existsUnique_root h hid
    exact List.ne_nil_of_mem hroot.1

/-- A type with two roots and a copy constructor: 3 and 6 hand over to 0, that one to 2, and 5 to 1. -/
def shelf : TypeDecl where
  name := "Shelf"
  layout := .byReference
  constructors :=
    [{ parameters := [], body := [.chain 2 []] }, { parameters := [], body := [.base []] },
      { parameters := [], body := [] }, { parameters := [], body := [.chain 0 []] },
      { parameters := [], body := [.base []], origin := .copy }, { parameters := [], body := [.chain 1 []] },
      { parameters := [], body := [.chain 0 []] }]

theorem forest_of_build_shelf : ∃ chain, build shelf = .ok chain ∧ chain.order = [2, 1, 5, 0, 6, 3] ∧
    chain.roots = [1, 2] ∧ chain.delegatesOf 0 = [3, 6] ∧ Forest shelf chain :=
  ⟨_, rfl, rfl, rfl, rfl, forest_of_build rfl⟩

end Chain

end DeclRecovery
