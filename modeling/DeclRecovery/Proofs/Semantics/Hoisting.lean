import DeclRecovery.Proofs.Semantics.Commuting

/-!
Hoisting keeps the meaning. Two stores that commute can be run in either order (`exec_swap`), so bringing the
initializers and the hoisted stores into declaration order makes no difference, and every constructor of the type runs
as it did.
-/

namespace DeclRecovery

namespace Stmt
open Effect Hoist

variable {I : Interp} {enter : Enter I} {args : List I.Value} {x y : SlotId × Expr}

/-- A store can move to the front, past stores that it commutes with. -/
theorem execBlock_move {before : List (SlotId × Expr)} (hcomm : ∀ y ∈ before, Swappable y x) (hne : ∀ y ∈ before, x.1 ≠ y.1)
    (hfree : ∀ y ∈ before, y.2.accessFree = true) (hx : x.2.accessFree = true) (rest : List Stmt) (σ : I.Store) :
    execBlock enter args (before.map ofStore ++ ofStore x :: rest) σ =
      execBlock enter args (ofStore x :: (before.map ofStore ++ rest)) σ := by
  induction before generalizing σ with
  | nil => rfl
  | cons y before ih =>
    have ih := ih (fun z hz => hcomm z (List.mem_cons_of_mem _ hz)) (fun z hz => hne z (List.mem_cons_of_mem _ hz))
      fun z hz => hfree z (List.mem_cons_of_mem _ hz)
    calc execBlock enter args ((y :: before).map ofStore ++ ofStore x :: rest) σ
        = exec enter args (ofStore y) σ >>= execBlock enter args (ofStore x :: (before.map ofStore ++ rest)) := by
          rw [List.map_cons, List.cons_append, execBlock]
          exact bind_congr ih
      _ = (exec enter args (ofStore y) σ >>= exec enter args (ofStore x)) >>=
            execBlock enter args (before.map ofStore ++ rest) := by
          rw [bind_assoc]
          exact bind_congr fun σ' => by rw [execBlock]
      _ = (exec enter args (ofStore x) σ >>= exec enter args (ofStore y)) >>=
            execBlock enter args (before.map ofStore ++ rest) := by
          rw [exec_swap (hcomm y List.mem_cons_self) (hne y List.mem_cons_self) (fun _ => hfree y List.mem_cons_self)
            fun _ => hx]
      _ = execBlock enter args (ofStore x :: ((y :: before).map ofStore ++ rest)) σ := by
          rw [bind_assoc, execBlock]
          exact bind_congr fun σ' => by rw [List.map_cons, List.cons_append, execBlock]

/-! ### Code without `?.` -/

mutual

/-- Whether there is no `?.` in the statement. -/
def accessFree : Stmt → Bool
  | assign _ value | eval value | raise value => value.accessFree
  | delegate call => call.args.all Expr.accessFree
  | branch c t e => c.accessFree && accessFreeEach t && accessFreeEach e

def accessFreeEach : List Stmt → Bool
  | [] => true
  | s :: ss => accessFree s && accessFreeEach ss

end

theorem accessFree_of_singleStore? {s : Stmt} (h : s.accessFree = true) (hx : s.singleStore? = some x) :
    x.2.accessFree = true := by
  obtain ⟨slot, value⟩ := x
  rcases singleStore?_cases hx with rfl | ⟨c, a, b, rfl, rfl⟩
  · exact h
  · simpa [accessFree, accessFreeEach, Expr.accessFree_select, and_assoc] using h

end Stmt

/-- The form in which types come from the front end: there is no `?.` in it. -/
structure TypeDecl.AccessFree (t : TypeDecl) : Prop where
  initializers : ∀ x ∈ t.initializers, x.2.accessFree = true
  bodies : ∀ c ∈ t.constructors, ∀ s ∈ c.body, s.accessFree = true

namespace Plan
open Effect Stmt

variable {I : Interp} {enter : Enter I} {args : List I.Value} {p : Plan} {t : TypeDecl} {id : CtorId} {c : Constructor}
  {heads : List (SlotId × Expr)}

/-- The initializers after a plan run like those before it and the hoisted stores. -/
theorem HoistsAt.execBlock_initializers (h : p.HoistsAt t id c heads)
    (hfree : ∀ x ∈ t.initializers ++ heads, x.2.accessFree = true) (σ : I.Store) :
    execBlock enter args ((t.initializers ++ heads).map ofStore) σ =
      execBlock enter args ((p.hoist t).initializers.map ofStore) σ := by
  refine h.induction (motive := fun l l' => (∀ x ∈ l, x.2.accessFree = true) →
    ∀ σ, execBlock enter args (l.map ofStore) σ = execBlock enter args (l'.map ofStore) σ) (fun _ _ => rfl) ?_ hfree σ
  intro before x after rest hlt hcomm ih hfree σ
  have hne : ∀ y ∈ before, x.1 ≠ y.1 := fun y hy => Nat.ne_of_lt (hlt y (List.mem_append_left _ hy))
  have hbefore : ∀ y ∈ before, y.2.accessFree = true := fun y hy => hfree y (List.mem_append_left _ hy)
  have hx : x.2.accessFree = true := hfree x (List.mem_append_right _ List.mem_cons_self)
  have hrest : ∀ y ∈ before ++ after, y.2.accessFree = true := fun y hy => by
    rcases List.mem_append.mp hy with hy | hy
    · exact hbefore y hy
    · exact hfree y (List.mem_append_right _ (List.mem_cons_of_mem _ hy))
  rw [List.map_append, List.map_cons, execBlock_move hcomm hne hbefore hx, ← List.map_append, execBlock, List.map_cons,
    execBlock]
  exact bind_congr (ih hrest)

/-- A constructor runs the same before and after a plan. -/
theorem Hoists.execBlock_lowered {chain : Chain} (hchain : Chain.build t = .ok chain) (h : p.Hoists t chain.roots)
    (hfree : t.AccessFree) (hc : t.constructors[id]? = some c) (σ : I.Store) :
    execBlock enter args (t.lowered c) σ =
      execBlock enter args ((p.hoist t).lowered { c with body := p.remaining id c.body }) σ := by
  have hroot := Chain.mem_roots_iff_runs hchain hc
  have hruns' := h.runsInitializers hc
  cases hruns : c.runsInitializers with
  | false =>
    have hid : id ∉ chain.roots := fun hid => by simp [hroot.mp hid] at hruns
    rw [hruns] at hruns'
    rw [TypeDecl.lowered_of_not_runs hruns, TypeDecl.lowered_of_not_runs hruns', h.other id hid]
  | true =>
    obtain ⟨heads, hat⟩ := h.hoistsAt (hroot.mpr hruns) hc
    obtain ⟨first, hbody, hfirst⟩ := hat.split
    have hheads : ∀ x ∈ t.initializers ++ heads, x.2.accessFree = true := by
      intro x hx
      rcases List.mem_append.mp hx with hx | hx
      · exact hfree.initializers x hx
      · obtain ⟨s, hs, hsx⟩ := List.mem_map.mp (hfirst ▸ List.mem_map_of_mem hx : some x ∈ first.map singleStore?)
        refine accessFree_of_singleStore? (hfree.bodies c (List.mem_of_getElem? hc) s ?_) hsx
        rw [hbody]
        exact List.mem_append_left _ hs
    rw [hruns] at hruns'
    rw [TypeDecl.lowered_of_runs hruns, TypeDecl.lowered_of_runs hruns', execBlock_append, execBlock_append,
      ← hat.execBlock_initializers hheads, List.map_append, execBlock_append, bind_assoc]
    refine bind_congr fun σ' => ?_
    conv => lhs; rw [hbody]
    rw [execBlock_append, execBlock_of_singleStore? hfirst]

/-- So does every run. -/
theorem Hoists.run_eq {chain : Chain} (hchain : Chain.build t = .ok chain) (h : p.Hoists t chain.roots)
    (hfree : t.AccessFree) (fuel : Nat) : t.run I fuel = (p.hoist t).run I fuel := by
  induction fuel with
  | zero => rfl
  | succ fuel ih =>
    funext id args σ
    cases hc : t.constructors[id]? with
    | none =>
      have hc' : (p.hoist t).constructors[id]? = none := by
        rw [getElem?_hoist_constructors, hc]
        rfl
      rw [TypeDecl.run_of_none hc, TypeDecl.run_of_none hc']
    | some c =>
      have hc' : (p.hoist t).constructors[id]? = some { c with body := p.remaining id c.body } := by
        rw [getElem?_hoist_constructors, hc]
        rfl
      rw [TypeDecl.run_succ hc, TypeDecl.run_succ hc', ← ih]
      exact h.execBlock_lowered hchain hfree hc σ

end Plan

end DeclRecovery
