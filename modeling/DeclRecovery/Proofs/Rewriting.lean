import DeclRecovery.Proofs.Shaped
import DeclRecovery.Proofs.Subtrees

/-!
Rewriting from the leaves up goes through an expression as `children` describes it. The children are rewritten in their
order, with the state handed on from one to the next, and then the node that has the same head over the results
(`Expr.run_bottomUpM`). So the rewriter is given one node for each position of the expression, in the order of
`Expr.postOrder`, whatever it makes of them.
-/

namespace DeclRecovery

namespace Expr

variable {σ : Type}

theorem bottomUpM_eq_mapM {m : Type → Type} [Monad m] [LawfulMonad m] (f : Expr → m Expr) (e : Expr) :
    bottomUpM f e = e.children.mapM (bottomUpM f) >>= fun cs => f (e.withChildren cs) := by
  rw [bottomUpM_eq, List.mapM_map]
  rfl

/-- Without a state this is rewriting with a function. -/
theorem bottomUpM_pure {m : Type → Type} [Monad m] [LawfulMonad m] (f : Expr → Expr) (e : Expr) :
    bottomUpM (fun n => (pure (f n) : m Expr)) e = pure (bottomUp f e) := by
  induction e using induct with
  | step e ih =>
    rw [bottomUpM_eq, bottomUp_eq, List.map_congr_left ih, List.mapM_map]
    simp only [Function.comp_def, id, List.mapM_pure, pure_bind]

theorem bottomUp_id (e : Expr) : bottomUp id e = e := by
  induction e using induct with
  | step e ih =>
    have hchildren : e.children.map (bottomUp id) = e.children := (List.map_congr_left ih).trans (List.map_id _)
    rw [bottomUp_eq, hchildren, withChildren_children, id]

/-! ### State -/

theorem run_mapM_cons {α β : Type} (f : α → StateM σ β) (a : α) (l : List α) (s : σ) : ((a :: l).mapM f).run s =
    (((f a).run s).1 :: ((l.mapM f).run ((f a).run s).2).1, ((l.mapM f).run ((f a).run s).2).2) := by
  rw [List.mapM_cons]
  rfl

theorem length_mapM_run {α β : Type} (f : α → StateM σ β) (l : List α) (s : σ) :
    ((l.mapM f).run s).1.length = l.length := by
  induction l generalizing s with
  | nil => rfl
  | cons a l ih => rw [run_mapM_cons, List.length_cons, ih, List.length_cons]

theorem run_bottomUpM (f : Expr → StateM σ Expr) (e : Expr) (s : σ) : (bottomUpM f e).run s =
    (f (e.withChildren ((e.children.mapM (bottomUpM f)).run s).1)).run ((e.children.mapM (bottomUpM f)).run s).2 := by
  rw [bottomUpM_eq_mapM]
  rfl

/-- The node that a rewriter is given is the one with the same head over the rewritten children. -/
theorem run_bottomUpM_of_node (f : Expr → StateM σ Expr) {e node : Expr} {cs : List Expr} {s s' : σ}
    (hcs : (e.children.mapM (bottomUpM f)).run s = (cs, s')) (hhead : node.head = e.head) (hchildren : node.children = cs) :
    (bottomUpM f e).run s = (f node).run s' := by
  have hlength : cs.length = e.children.length := by
    rw [← length_mapM_run (bottomUpM f) e.children s, hcs]
  have hnode : e.withChildren cs = node :=
    ext ((head_withChildren e cs).trans hhead.symm) ((children_withChildren hlength).trans hchildren.symm)
  rw [run_bottomUpM, hcs, hnode]

/-! ### Visits -/

/-- Does what `f` does, and notes the node that it is done to. -/
def noting (f : Expr → StateM σ Expr) (e : Expr) : StateM (σ × List Expr) Expr := fun x =>
  let r := (f e).run x.1
  (r.1, r.2, x.2 ++ [e])

/-- What is noted on the way through a list is noted on the way through each of its members. -/
theorem exists_noted_mapM {α : Type} {f : Expr → StateM σ Expr} {g : Expr → α} {l : List Expr}
    (ih : ∀ c ∈ l, ∀ s seen, ∃ visited, (bottomUpM (noting f) c).run (s, seen) =
      (((bottomUpM f c).run s).1, ((bottomUpM f c).run s).2, seen ++ visited) ∧ visited.map g = c.subtrees.map g)
    (s : σ) (seen : List Expr) : ∃ visited, (l.mapM (bottomUpM (noting f))).run (s, seen) =
      (((l.mapM (bottomUpM f)).run s).1, ((l.mapM (bottomUpM f)).run s).2, seen ++ visited) ∧
      visited.map g = (l.flatMap subtrees).map g := by
  induction l generalizing s seen with
  | nil => exact ⟨[], by rw [List.append_nil]; rfl, rfl⟩
  | cons c l ihl =>
    obtain ⟨hc, hl⟩ := List.forall_mem_cons.mp ih
    obtain ⟨here, hhere, hsame⟩ := hc s seen
    obtain ⟨there, hthere, hsame'⟩ := ihl hl ((bottomUpM f c).run s).2 (seen ++ here)
    refine ⟨here ++ there, ?_, by rw [List.map_append, hsame, hsame', List.flatMap_cons, List.map_append]⟩
    rw [run_mapM_cons, run_mapM_cons, hhere, hthere, List.append_assoc]

/-- A function that tells the node over rewritten children from the original one by nothing cannot tell what is noted from
the subexpressions. -/
theorem exists_noted {α : Type} {f : Expr → StateM σ Expr} {g : Expr → α}
    (hg : ∀ e s, g (e.withChildren ((e.children.mapM (bottomUpM f)).run s).1) = g e) (e : Expr) (s : σ)
    (seen : List Expr) : ∃ visited, (bottomUpM (noting f) e).run (s, seen) =
      (((bottomUpM f e).run s).1, ((bottomUpM f e).run s).2, seen ++ visited) ∧ visited.map g = e.subtrees.map g := by
  induction e using induct generalizing s seen with
  | step e ih =>
    obtain ⟨visited, hvisited, hsame⟩ := exists_noted_mapM ih s seen
    refine ⟨visited ++ [e.withChildren ((e.children.mapM (bottomUpM f)).run s).1], ?_, ?_⟩
    · rw [run_bottomUpM, hvisited, run_bottomUpM, ← List.append_assoc]
      rfl
    · rw [subtrees_eq, List.map_append, List.map_append, hsame, List.map_singleton, List.map_singleton, hg]

/-! ### Rewriters that keep what they are given -/

theorem mapM_run_of_keeps {α : Type} {f : α → StateM σ α} {l : List α} (h : ∀ a ∈ l, ∀ s, ((f a).run s).1 = a) (s : σ) :
    ((l.mapM f).run s).1 = l := by
  induction l generalizing s with
  | nil => rfl
  | cons a l ih =>
    obtain ⟨ha, hl⟩ := List.forall_mem_cons.mp h
    rw [run_mapM_cons, ha, ih hl]

theorem bottomUpM_run_of_keeps {f : Expr → StateM σ Expr} (hf : ∀ n s, ((f n).run s).1 = n) (e : Expr) (s : σ) :
    ((bottomUpM f e).run s).1 = e := by
  induction e using induct generalizing s with
  | step e ih => rw [run_bottomUpM, hf, mapM_run_of_keeps ih, withChildren_children]

theorem withChildren_of_keeps {f : Expr → StateM σ Expr} (hf : ∀ n s, ((f n).run s).1 = n) (e : Expr) (s : σ) :
    e.withChildren ((e.children.mapM (bottomUpM f)).run s).1 = e := by
  rw [mapM_run_of_keeps fun c _ => bottomUpM_run_of_keeps hf c, withChildren_children]

/-- Rewriting goes through the tree that `children` describes. The children are rewritten in order, the state being handed
on, and then the one node with the same head over the results. A rewriter that changes nothing gives back the expression.
And any rewriter is given one node for each position, those inside a node before it and earlier children before later
ones: the node has the head of what stands there, and is just that if the rewriter keeps all nodes as they are. -/
theorem bottomUpM_traverses (f : Expr → StateM σ Expr) (e : Expr) (s : σ) :
    (∃ cs s', (e.children.mapM (bottomUpM f)).run s = (cs, s') ∧
      (∃! node : Expr, node.head = e.head ∧ node.children = cs) ∧
      ∀ node : Expr, node.head = e.head → node.children = cs → (bottomUpM f e).run s = (f node).run s') ∧
    (bottomUpM (m := StateM σ) pure e).run s = (e, s) ∧
    e.postOrder.Pairwise Precedes ∧ (∀ p, p ∈ e.postOrder ↔ ∃ sub, e.at? p = some sub) ∧
    ∃ visited, (bottomUpM (noting f) e).run (s, []) =
        (((bottomUpM f e).run s).1, ((bottomUpM f e).run s).2, visited) ∧
      visited.map (fun node => some node.head) = e.postOrder.map (fun p => (e.at? p).map head) ∧
      ((∀ n s, ((f n).run s).1 = n) → visited.map some = e.postOrder.map e.at?) := by
  refine ⟨⟨_, _, rfl, ?_, fun node => run_bottomUpM_of_node f rfl⟩, ?_, pairwise_postOrder e, fun p => mem_postOrder, ?_⟩
  · have hlength := length_mapM_run (bottomUpM f) e.children s
    refine ⟨_, ⟨head_withChildren e _, children_withChildren hlength⟩, fun node hnode => ?_⟩
    exact ext (hnode.1.trans (head_withChildren e _).symm) (hnode.2.trans (children_withChildren hlength).symm)
  · have hpure := bottomUpM_pure (m := StateM σ) id e
    rw [bottomUp_id] at hpure
    exact congrFun hpure s
  · obtain ⟨visited, hvisited, hheads⟩ := exists_noted (g := head) (fun e s => head_withChildren e _) e s []
    refine ⟨visited, hvisited, ?_, fun hf => ?_⟩
    · calc visited.map (fun node => some node.head)
          = (visited.map head).map some := (List.map_map ..).symm
        _ = (e.subtrees.map some).map (Option.map head) := by
            rw [hheads, List.map_map, List.map_map]
            rfl
        _ = e.postOrder.map (fun p => (e.at? p).map head) := by
            rw [← map_at?_postOrder, List.map_map]
            rfl
    · obtain ⟨visited', hvisited', hsame⟩ := exists_noted (g := id) (withChildren_of_keeps hf) e s []
      have heq : visited = visited' := congrArg (·.2.2) (hvisited.symm.trans hvisited')
      rw [List.map_id, List.map_id] at hsame
      rw [map_at?_postOrder, heq, hsame]

end Expr

/-! ### Members without marks -/

def Head.unmarked : Head → Head
  | field name _ => field name false
  | h => h

namespace Expr

def unmarkNode : Expr → Expr
  | field target name _ => field target name false
  | e => e

/-- The expression without the marks of members that are never null. -/
def unmarked : Expr → Expr := bottomUp unmarkNode

theorem head_unmarked (e : Expr) : e.unmarked.head = e.head.unmarked := by
  have hnode : ∀ e : Expr, e.unmarkNode.head = e.head.unmarked := fun e => by cases e <;> rfl
  rw [unmarked, bottomUp_eq, hnode, head_withChildren]

theorem children_unmarked (e : Expr) : e.unmarked.children = e.children.map unmarked := by
  have hnode : ∀ e : Expr, e.unmarkNode.children = e.children := fun e => by cases e <;> rfl
  rw [unmarked, bottomUp_eq, hnode, children_withChildren (List.length_map _)]

/-- What is computed without regard to the marks is the same without them. -/
theorem para_unmarked {α : Type} {f : Head → List α → α} (hf : ∀ h, f h.unmarked = f h) (e : Expr) :
    para (fun e subs => f e.head subs) e.unmarked = para (fun e subs => f e.head subs) e := by
  induction e using induct with
  | step e ih =>
    rw [para_eq, para_eq _ e, head_unmarked, hf, children_unmarked, List.map_map]
    exact congrArg _ (List.map_congr_left ih)

end Expr

end DeclRecovery
