import DeclRecovery.Proofs.Hoist.Reorder

/-!
What a constructor runs (`TypeDecl.lowered`): its body, and before that the initializers of its type in declaration
order if it is declared and hands over to no other constructor of the type. Also, what hoisting makes of that.
-/

namespace DeclRecovery

/-- The constructor of the same type that is run. -/
def DelegationTarget.ctor? : DelegationTarget → Option CtorId
  | base => none
  | ctor id => some id

namespace Constructor

theorem delegationIn?_snd (body : List Stmt) :
    (delegationIn? body).map Prod.snd = body.findSome? Stmt.delegation? := by
  rw [delegationIn?]
  generalize 0 = n
  induction body generalizing n with
  | nil => rfl
  | cons s body ih =>
    rw [List.zipIdx_cons, List.findSome?_cons, List.findSome?_cons]
    cases hs : s.delegation? with
    | none => simpa [hs] using ih (n + 1)
    | some call => simp [hs]

theorem chainTarget?_eq (c : Constructor) :
    c.chainTarget? = (c.body.findSome? Stmt.delegation?).bind fun call => call.target.ctor? := by
  rw [← delegationIn?_snd, chainTarget?, delegation?]
  cases delegationIn? c.body with
  | none => rfl
  | some found => rcases found with ⟨_, ⟨_ | _, _⟩⟩ <;> rfl

/-- The statements before the delegation are those that are none. -/
theorem region_eq (c : Constructor) : Candidate.region c = c.body.takeWhile fun s => s.delegation?.isNone := by
  have aux : ∀ (body : List Stmt) n,
      (∀ found, ((body.zipIdx n).findSome? fun x => x.1.delegation?.map fun call => (x.2, call)) = some found →
        n ≤ found.1 ∧ body.take (found.1 - n) = body.takeWhile fun s => s.delegation?.isNone) ∧
      (((body.zipIdx n).findSome? fun x => x.1.delegation?.map fun call => (x.2, call)) = none →
        body = body.takeWhile fun s => s.delegation?.isNone) := by
    intro body
    induction body with
    | nil => simp
    | cons s body ih =>
      intro n
      obtain ⟨hsome, hnone⟩ := ih (n + 1)
      rw [List.zipIdx_cons, List.findSome?_cons, List.takeWhile_cons]
      cases s.delegation? with
      | some call =>
        simp only [Option.map_some, Option.isNone_some, Bool.false_eq_true, if_false]
        refine ⟨fun found hfound => ?_, by rintro ⟨⟩⟩
        cases hfound
        exact ⟨Nat.le_refl n, by rw [Nat.sub_self, List.take_zero]⟩
      | none =>
        simp only [Option.map_none, Option.isNone_none, if_true]
        refine ⟨fun found hfound => ?_, fun hfound => ?_⟩
        · obtain ⟨hle, htake⟩ := hsome found hfound
          refine ⟨Nat.le_of_succ_le hle, ?_⟩
          rw [show found.1 - n = found.1 - (n + 1) + 1 by omega, List.take_succ_cons, htake]
        · exact congrArg (s :: ·) (hnone hfound)
  obtain ⟨hsome, hnone⟩ := aux c.body 0
  rw [Candidate.region, delegation?, delegationIn?]
  split
  · next heq => exact (hsome _ heq).2
  · next heq => exact hnone heq

/-- What stands before the delegation when the first statements, all before it, are gone. -/
theorem region_drop {c : Constructor} {k : Nat} (h : k ≤ (Candidate.region c).length) :
    Candidate.region { c with body := c.body.drop k } = (Candidate.region c).drop k := by
  have aux : ∀ (p : Stmt → Bool) (body : List Stmt) k, k ≤ (body.takeWhile p).length →
      (body.drop k).takeWhile p = (body.takeWhile p).drop k := by
    intro p body
    induction body with
    | nil => simp
    | cons s body ih =>
      intro k hk
      cases k with
      | zero => rfl
      | succ k =>
        rw [List.takeWhile_cons] at hk ⊢
        split at hk
        · next hs =>
          rw [if_pos hs, List.drop_succ_cons, List.drop_succ_cons]
          exact ih k (Nat.le_of_succ_le_succ hk)
        · cases hk
  rw [region_eq] at h ⊢
  rw [region_eq]
  exact aux _ _ k h

/-- Whether the initializers of the type run when this constructor does and no other one is handed over to. -/
def runsInitializers (c : Constructor) : Bool := c.isDeclared && c.chainTarget?.isNone

end Constructor

/-- A store as a statement. -/
def Stmt.ofStore (x : SlotId × Expr) : Stmt := .assign x.1 x.2

namespace TypeDecl

/-- All that a constructor runs. -/
def lowered (t : TypeDecl) (c : Constructor) : List Stmt :=
  (if c.runsInitializers then t.initializers.map .ofStore else []) ++ c.body

theorem lowered_of_runs {t : TypeDecl} {c : Constructor} (h : c.runsInitializers = true) :
    t.lowered c = t.initializers.map .ofStore ++ c.body := by
  rw [lowered, if_pos h]

theorem lowered_of_not_runs {t : TypeDecl} {c : Constructor} (h : c.runsInitializers = false) : t.lowered c = c.body := by
  rw [lowered, h]
  rfl

end TypeDecl

theorem Chain.mem_roots_iff_runs {t : TypeDecl} {chain : Chain} (hchain : Chain.build t = .ok chain) {id : CtorId}
    {c : Constructor} (hc : t.constructors[id]? = some c) : id ∈ chain.roots ↔ c.runsInitializers = true := by
  rw [Chain.mem_roots_iff hchain, Constructor.runsInitializers, Bool.and_eq_true, Option.isNone_iff_eq_none]
  constructor
  · rintro ⟨c', hc', hruns⟩
    rw [hc] at hc'
    cases hc'
    exact hruns
  · intro hruns
    exact ⟨c, hc, hruns⟩

namespace Plan

variable {p : Plan} {t : TypeDecl} {id : CtorId} {c : Constructor} {heads : List (SlotId × Expr)}

theorem getElem?_hoist_constructors :
    (p.hoist t).constructors[id]? = t.constructors[id]?.map fun c => { c with body := p.remaining id c.body } := by
  simp [hoist, List.getElem?_mapIdx]

/-- A root is its hoisted stores and what remains of it. -/
theorem HoistsAt.split (h : p.HoistsAt t id c heads) : ∃ first, c.body = first ++ p.remaining id c.body ∧
    first.map Stmt.singleStore? = heads.map some := by
  refine ⟨c.body.take heads.length, ?_, ?_⟩
  · rw [h.remaining, List.take_append_drop]
  · have hpre : Candidate.region c <+: c.body := Constructor.region_eq c ▸ List.takeWhile_prefix _
    obtain ⟨rest, hrest⟩ := hpre
    rw [← h.stores, ← hrest, List.take_append_of_le_length h.within]

theorem HoistsAt.delegation (h : p.HoistsAt t id c heads) :
    (p.remaining id c.body).findSome? Stmt.delegation? = c.body.findSome? Stmt.delegation? := by
  obtain ⟨first, hbody, hfirst⟩ := h.split
  have hnone : first.findSome? Stmt.delegation? = none := by
    rw [List.findSome?_eq_none_iff]
    intro s hs
    have hmem : s.singleStore? ∈ heads.map some := hfirst ▸ List.mem_map_of_mem hs
    obtain ⟨x, -, hx⟩ := List.mem_map.mp hmem
    exact Stmt.delegation?_of_singleStore? hx.symm
  conv => rhs; rw [hbody, List.findSome?_append, hnone]
  rfl

/-- A plan that hoists at least `k` stores of a root hoists no more where only the delegation is left after them. -/
theorem HoistsAt.remaining_eq_drop (h : p.HoistsAt t id c heads) {k : Nat} (hk : k ≤ heads.length)
    (hregion : Candidate.region { c with body := c.body.drop k } = []) : p.remaining id c.body = c.body.drop k := by
  rw [Constructor.region_drop (Nat.le_trans hk h.within), List.drop_eq_nil_iff] at hregion
  rw [h.remaining, Nat.le_antisymm (Nat.le_trans h.within hregion) hk]

theorem HoistsAt.length_le {q : Plan} {c' : Constructor} {heads' : List (SlotId × Expr)} (h : p.HoistsAt t id c heads)
    (h' : q.HoistsAt t id c' heads')
    (hsub : ∀ s v, p.hoisted.find? s = some v → q.hoisted.find? s = some v) : heads.length ≤ heads'.length :=
  (h.nodup.of_map.subperm fun x hx => (h'.hoisted x.1 x.2).mp (hsub _ _ ((h.hoisted x.1 x.2).mpr hx))).length_le

/-- No constructor hands over elsewhere than before the plan. -/
theorem Hoists.delegation {roots : List CtorId} (h : p.Hoists t roots) (hc : t.constructors[id]? = some c) :
    (p.remaining id c.body).findSome? Stmt.delegation? = c.body.findSome? Stmt.delegation? := by
  by_cases hid : id ∈ roots
  · obtain ⟨heads, hat⟩ := h.hoistsAt hid hc
    exact hat.delegation
  · rw [h.other id hid]

theorem Hoists.chainTarget? {roots : List CtorId} (h : p.Hoists t roots) (hc : t.constructors[id]? = some c) :
    Constructor.chainTarget? { c with body := p.remaining id c.body } = c.chainTarget? := by
  rw [Constructor.chainTarget?_eq, h.delegation hc, Constructor.chainTarget?_eq]

theorem Hoists.runsInitializers {roots : List CtorId} (h : p.Hoists t roots) (hc : t.constructors[id]? = some c) :
    Constructor.runsInitializers { c with body := p.remaining id c.body } = c.runsInitializers := by
  rw [Constructor.runsInitializers, h.chainTarget? hc]
  rfl

end Plan

/-- A type whose two roots store `a` and `b` in different orders, after the initializer of `c`. A third constructor
hands over to the second one. -/
def TypeDecl.twoRoots : TypeDecl where
  name := "Sample"
  layout := .byReference
  slots := [{ name := "a", kind := .field, type := "int" }, { name := "b", kind := .field, type := "int" },
    { name := "c", kind := .field, type := "int", initializer := some (.literal (.int 3)) }]
  constructors :=
    let count : Parameter := { name := "count", type := "int" }
    let a : Stmt := .assign 0 (.call { name := "next" } [])
    let b : Stmt := .branch (.call { name := "ready", pure := true } [])
      [.assign 1 (.literal (.int 1))] [.assign 1 (.literal (.int 2))]
    [{ parameters := [], body := [b, a, .base []] },
      { parameters := [count], body := [a, b, .base [.param 0], .assign 2 (.param 0)] },
      { parameters := [], body := [.chain 1 [.literal (.int 7)]] }]

end DeclRecovery
