import DeclRecovery.Proofs.Footprints
import DeclRecovery.Proofs.Semantics.Effects

/-!
Evaluating expressions. Children are evaluated in order and before the node itself, except that a choice evaluates
only the branch it takes, `??` its fallback only on null, and the logical operators their right side only if the left
one does not decide.

The footprint of an expression bounds what its evaluation reads (`eval_congr`) and does. Unless something is asked of
the outside, the world stays as it is (`still_eval`). Without observable effects the world is only looked at
(`exists_eval_eq_observe`), and without `?.` not even that (`exists_eval_eq_pure`).
-/

namespace DeclRecovery

/-- What an expression is evaluated in. -/
structure Env (I : Interp) where
  args : List I.Value
  store : I.Store

def Callee.run {I : Interp} (callee : Callee) (receiver : Option I.Value) (args : List I.Value) : Effect I I.Value :=
  if callee.pure then Pure.pure (I.apply callee.name receiver args)
  else .request (.call callee.name receiver args) (I.perform callee.name receiver args)

namespace Head
open Effect

variable {I : Interp} (env : Env I)

/-- What a node does with the values of its children. -/
def operate : Head → List I.Value → Effect I I.Value
  | literal l, _ => pure (I.literal l)
  | param i, _ => pure (env.args[i]?.getD I.absent)
  | self, _ => pure (I.self env.store)
  | member s, _ => pure (env.store s)
  | field name nonNull, [target] =>
    if I.isNull target then stop (.thrown I.nullReference)
    else do
      let value ← observe fun w => I.read w target name
      if nonNull && I.isNull value then stop .undefined else pure value
  | call callee, args => callee.run none args
  | invoke callee, receiver :: args =>
    if I.isNull receiver then stop (.thrown I.nullReference) else callee.run (some receiver) args
  | new type, args => request (.new type args) (I.create type args)
  | binary op, [l, r] => if op.mayThrow then ofExcept (I.divide op l r) else pure (I.binary op l r)
  | unary op, [v] => pure (I.unary op v)
  | convert type, [v] => ofExcept (I.convert type v)
  | access name, [target] =>
    if I.isNull target then pure (I.literal .null) else observe fun w => I.read w target name
  | raise, [v] => stop (.thrown v)
  | _, _ => stop .undefined

/-- What a node does with its children. -/
def combine : Head → List (Effect I I.Value) → Effect I I.Value
  | select, [cond, thenValue, elseValue] | conditional, [cond, thenValue, elseValue] => do
    if I.isTrue (← cond) then thenValue else elseValue
  | coalesce, [value, fallback] => do
    let v ← value
    if I.isNull v then fallback else pure v
  | binary .and, [lhs, rhs] => do
    let l ← lhs
    if I.isTrue l then rhs else pure l
  | binary .or, [lhs, rhs] => do
    let l ← lhs
    if I.isTrue l then pure l else rhs
  | h, children => do operate env h (← inOrder children)

/-- Whether a node asks something of the outside. -/
def asks : Head → Bool
  | call callee | invoke callee => !callee.pure
  | new _ => true
  | _ => false

def isAccess : Head → Bool
  | access _ => true
  | _ => false

/-- Whether a node may leave some of its children alone. -/
def isLazy : Head → Bool
  | select | conditional | coalesce | binary .and | binary .or => true
  | _ => false

end Head

namespace Expr
open Effect

variable {I : Interp} (env : Env I)

def eval : Expr → Effect I I.Value := para fun e subs => e.head.combine env subs

theorem eval_eq (e : Expr) : e.eval env = e.head.combine env (e.children.map (eval env)) := para_eq _ e

theorem eval_strict {e : Expr} (h : e.head.isLazy = false) :
    e.eval env = inOrder (e.children.map (eval env)) >>= e.head.operate env := by
  rw [eval_eq]
  generalize e.children.map (eval env) = children
  generalize e.head = node at h ⊢
  unfold Head.combine
  split
  case h_6 => rfl
  all_goals cases h

theorem eval_select (c t f : Expr) :
    (select c t f).eval env = c.eval env >>= fun v => if I.isTrue v then t.eval env else f.eval env :=
  eval_eq env _

theorem eval_conditional (c t f : Expr) :
    (conditional c t f).eval env = c.eval env >>= fun v => if I.isTrue v then t.eval env else f.eval env :=
  eval_eq env _

theorem eval_coalesce (a b : Expr) :
    (coalesce a b).eval env = a.eval env >>= fun v => if I.isNull v then b.eval env else pure v :=
  eval_eq env _

theorem eval_and (a b : Expr) :
    (binary .and a b).eval env = a.eval env >>= fun v => if I.isTrue v then b.eval env else pure v :=
  eval_eq env _

theorem eval_or (a b : Expr) :
    (binary .or a b).eval env = a.eval env >>= fun v => if I.isTrue v then pure v else b.eval env :=
  eval_eq env _

/-- Induction along evaluation: all nodes that need all of their children are one case. -/
theorem evalInduct {motive : Expr → Prop}
    (strict : ∀ e, e.head.isLazy = false → (∀ c ∈ e.children, motive c) → motive e)
    (select : ∀ c t f, motive c → motive t → motive f → motive (.select c t f))
    (conditional : ∀ c t f, motive c → motive t → motive f → motive (.conditional c t f))
    (coalesce : ∀ a b, motive a → motive b → motive (.coalesce a b))
    (and : ∀ a b, motive a → motive b → motive (.binary .and a b))
    (or : ∀ a b, motive a → motive b → motive (.binary .or a b)) (e : Expr) : motive e := by
  induction e using induct with
  | step e ih =>
    cases hlazy : e.head.isLazy with
    | false => exact strict e hlazy ih
    | true =>
      simp only [Head.isLazy] at hlazy
      cases e with
      | select c t f => exact select c t f (ih c (by simp [children])) (ih t (by simp [children])) (ih f (by simp [children]))
      | conditional c t f =>
        exact conditional c t f (ih c (by simp [children])) (ih t (by simp [children])) (ih f (by simp [children]))
      | coalesce a b => exact coalesce a b (ih a (by simp [children])) (ih b (by simp [children]))
      | binary op a b =>
        cases op with
        | and => exact and a b (ih a (by simp [children])) (ih b (by simp [children]))
        | or => exact or a b (ih a (by simp [children])) (ih b (by simp [children]))
        | _ => cases hlazy
      | _ => cases hlazy

/-! ### Code without `?.` -/

/-- Whether there is no `?.` in the expression. -/
def accessFree : Expr → Bool := para fun e subs =>
  match e with
  | access .. => false
  | _ => subs.all id

theorem accessFree_eq_para : accessFree = para fun e subs => !e.head.isAccess && subs.all id := by
  rw [accessFree]
  congr
  funext e subs
  cases e <;> simp [head, Head.isAccess]

theorem accessFree_select (c t f : Expr) :
    (select c t f).accessFree = (c.accessFree && (t.accessFree && f.accessFree)) := by
  simp [accessFree, para]

theorem accessFree_of_mem_children {e c : Expr} (h : e.accessFree = true) (hc : c ∈ e.children) :
    c.accessFree = true := by
  rw [accessFree, para_eq] at h
  split at h
  · cases h
  · rw [List.all_map, List.all_eq_true] at h
    exact h c hc

end Expr

/-! ### Code that asks nothing of the outside -/

theorem Head.asks_of_sideEffects {h : Head} (hh : (Footprint.ofHead h).sideEffects = false) : h.asks = false := by
  cases h with
  | call | invoke => exact hh
  | new => cases hh
  | _ => rfl

namespace Expr

/-- Whether something is asked of the outside anywhere in the expression. -/
def asks : Expr → Bool := para fun e subs => e.head.asks || subs.any id

theorem asks_eq (e : Expr) : e.asks = (e.head.asks || e.children.any asks) := by
  rw [asks, para_eq, List.any_map]
  rfl

theorem asks_of_sideEffects {e : Expr} (h : e.footprint.sideEffects = false) : e.asks = false := by
  induction e using induct with
  | step e ih =>
    have hhead := Head.asks_of_sideEffects (Footprint.isAspect_sideEffects.flag_head h)
    rw [asks_eq, hhead, Bool.false_or, List.any_eq_false]
    intro c hc
    rw [ih c hc (Footprint.isAspect_sideEffects.flag_child h hc)]
    exact Bool.false_ne_true

end Expr

/-! ### What the footprint bounds -/

/-- Two environments agree on all parameters and slots that a footprint lists. -/
structure Env.Agree {I : Interp} (f : Footprint) (env env' : Env I) : Prop where
  params : ∀ i ∈ f.params, env.args[i]?.getD I.absent = env'.args[i]?.getD I.absent
  members : ∀ s ∈ f.members, env.store s = env'.store s

namespace Env.Agree
open Footprint

variable {I : Interp} {env env' : Env I} {e : Expr} (h : env.Agree e.footprint env')
include h

theorem head : env.Agree (ofHead e.head) env' where
  params i hi := h.params i (((isAspect_params i).footprint_iff e).mpr (Or.inl hi))
  members s hs := h.members s (((isAspect_members s).footprint_iff e).mpr (Or.inl hs))

theorem child {c : Expr} (hc : c ∈ e.children) : env.Agree c.footprint env' where
  params i hi := h.params i (((isAspect_params i).footprint_iff e).mpr (Or.inr ⟨c, hc, hi⟩))
  members s hs := h.members s (((isAspect_members s).footprint_iff e).mpr (Or.inr ⟨c, hc, hs⟩))

end Env.Agree

namespace Head
open Effect Footprint

variable {I : Interp} {env : Env I}

theorem still_run {callee : Callee} (h : callee.pure = true) (receiver : Option I.Value) (args : List I.Value) :
    Still (callee.run receiver args) := by
  rw [Callee.run, if_pos h]
  exact still_pure _

theorem still_operate {h : Head} (hh : h.asks = false) (vs : List I.Value) : Still (h.operate env vs) := by
  unfold operate
  split
  case h_5 => exact .ite (still_stop _) ((still_observe _).bind fun value => .ite (still_stop _) (still_pure _))
  case h_6 callee args => exact still_run (by simpa [asks] using hh) _ _
  case h_7 callee receiver args => exact .ite (still_stop _) (still_run (by simpa [asks] using hh) _ _)
  case h_8 => cases hh
  case h_9 => exact .ite (still_ofExcept _) (still_pure _)
  case h_11 => exact still_ofExcept _
  case h_12 => exact .ite (still_pure _) (still_observe _)
  case h_13 => exact still_stop _
  case h_14 => exact still_stop _
  all_goals exact still_pure _

theorem operate_congr {env' : Env I} {h : Head} (hself : (ofHead h).readsSelf = false) (hagree : env.Agree (ofHead h) env')
    (vs : List I.Value) : h.operate env vs = h.operate env' vs := by
  unfold operate
  split
  case h_2 i => rw [hagree.params i (by simp [ofHead])]
  case h_3 => cases hself
  case h_4 s => rw [hagree.members s (by simp [ofHead])]
  all_goals simp only

theorem combine_congr {env' : Env I} {h : Head} (hself : (ofHead h).readsSelf = false) (hagree : env.Agree (ofHead h) env') :
    h.combine env = h.combine env' := by
  funext children
  unfold combine
  split <;> simp only [operate_congr hself hagree]

end Head

namespace Expr
open Effect Footprint

variable {I : Interp} {env env' : Env I}

/-- Evaluation reads no more than the footprint says. -/
theorem eval_congr {e : Expr} (hself : e.footprint.readsSelf = false) (hagree : env.Agree e.footprint env') :
    e.eval env = e.eval env' := by
  refine para_congr (P := fun e => e.footprint.readsSelf = false ∧ env.Agree e.footprint env') (fun he hc => ?_)
    (fun he => ?_) ⟨hself, hagree⟩
  · exact ⟨isAspect_readsSelf.flag_child he.1 hc, he.2.child hc⟩
  · exact Head.combine_congr (isAspect_readsSelf.flag_head he.1) he.2.head

/-- What holds of every step holds of an evaluation, if it holds of the nodes. -/
theorem eval_stepwise {Q : ∀ {α : Type}, Effect I α → Prop} (hQ : Stepwise Q) {P : Expr → Prop}
    (hchild : ∀ {e c : Expr}, P e → c ∈ e.children → P c)
    (hnode : ∀ {e : Expr} (vs : List I.Value), P e → e.head.isLazy = false → vs.length = e.children.length →
      Q (e.head.operate env vs)) {e : Expr} (h : P e) : Q (e.eval env) := by
  induction e using evalInduct with
  | strict e hlazy ih =>
    rw [eval_strict env hlazy]
    refine hQ.inOrder_bind (fun m hm => ?_) fun vs hvs => hnode vs h hlazy (by rw [hvs, List.length_map])
    obtain ⟨c, hc, rfl⟩ := List.mem_map.mp hm
    exact ih c hc (hchild h hc)
  | select c t f ihc iht ihf =>
    rw [eval_select]
    refine hQ.bind (ihc (hchild h (by simp [children]))) fun v => ?_
    split
    · exact iht (hchild h (by simp [children]))
    · exact ihf (hchild h (by simp [children]))
  | conditional c t f ihc iht ihf =>
    rw [eval_conditional]
    refine hQ.bind (ihc (hchild h (by simp [children]))) fun v => ?_
    split
    · exact iht (hchild h (by simp [children]))
    · exact ihf (hchild h (by simp [children]))
  | coalesce a b iha ihb =>
    rw [eval_coalesce]
    refine hQ.bind (iha (hchild h (by simp [children]))) fun v => ?_
    split
    · exact ihb (hchild h (by simp [children]))
    · exact hQ.pure v
  | and a b iha ihb =>
    rw [eval_and]
    refine hQ.bind (iha (hchild h (by simp [children]))) fun v => ?_
    split
    · exact ihb (hchild h (by simp [children]))
    · exact hQ.pure v
  | or a b iha ihb =>
    rw [eval_or]
    refine hQ.bind (iha (hchild h (by simp [children]))) fun v => ?_
    split
    · exact hQ.pure v
    · exact ihb (hchild h (by simp [children]))

theorem still_eval {e : Expr} (h : e.asks = false) : Still (e.eval env) := by
  refine eval_stepwise stepwise_still (P := fun e => e.asks = false) (fun he hc => ?_) (fun vs he _ _ => ?_) h
  · rw [asks_eq, Bool.or_eq_false_iff, List.any_eq_false] at he
    exact Bool.eq_false_iff.mpr (he.2 _ hc)
  · rw [asks_eq, Bool.or_eq_false_iff] at he
    exact Head.still_operate he.1 vs

/-- A node without observable effects of its own just computes, unless it is `?.`. -/
theorem exists_operate_eq_pure {e : Expr} (h : (ofHead e.head).observable = false) (hlazy : e.head.isLazy = false)
    (haccess : ∀ target name, e ≠ access target name) (env : Env I) {vs : List I.Value}
    (hvs : vs.length = e.children.length) : ∃ v, e.head.operate env vs = pure v := by
  rw [observable, Bool.or_eq_false_iff] at h
  obtain ⟨heffects, hthrow⟩ := h
  cases e with
  | literal | param | self | member => exact ⟨_, rfl⟩
  | call callee args =>
    have hpure : callee.pure = true := by simpa [ofHead, head] using heffects
    exact ⟨_, by rw [head, Head.operate, Callee.run, if_pos hpure]⟩
  | binary op l r =>
    obtain ⟨a, b, rfl⟩ := List.length_eq_two.mp hvs
    have hop : op.mayThrow = false := hthrow
    exact ⟨_, by rw [head, Head.operate, hop]; rfl⟩
  | unary op x =>
    obtain ⟨a, rfl⟩ := List.length_eq_one_iff.mp hvs
    exact ⟨_, rfl⟩
  | access target name => exact absurd rfl (haccess target name)
  | select | conditional | coalesce => cases hlazy
  | field | invoke | new | convert | raise => cases hthrow

/-- A node without observable effects of its own at most looks at the world. -/
theorem exists_operate_eq_observe {e : Expr} (h : (ofHead e.head).observable = false) (hlazy : e.head.isLazy = false)
    (env : Env I) {vs : List I.Value} (hvs : vs.length = e.children.length) :
    ∃ f, e.head.operate env vs = observe f := by
  by_cases haccess : ∃ target name, e = access target name
  · obtain ⟨target, name, rfl⟩ := haccess
    obtain ⟨v, rfl⟩ := List.length_eq_one_iff.mp hvs
    rw [head, Head.operate]
    split
    · exact ⟨fun _ => I.literal .null, rfl⟩
    · exact ⟨_, rfl⟩
  · obtain ⟨v, hv⟩ := exists_operate_eq_pure h hlazy (fun target name he => haccess ⟨target, name, he⟩) env hvs
    exact ⟨fun _ => v, hv⟩

theorem exists_eval_eq_observe {e : Expr} (h : e.footprint.observable = false) (env : Env I) :
    ∃ f, e.eval env = observe f :=
  eval_stepwise stepwise_observe (P := fun e => e.footprint.observable = false)
    (fun he hc => isAspect_observable.flag_child he hc)
    (fun _ he hlazy hvs => exists_operate_eq_observe (isAspect_observable.flag_head he) hlazy env hvs) h

/-- Nothing but a value can come of the expression. -/
structure Silent (e : Expr) : Prop where
  observable : e.footprint.observable = false
  accessFree : e.accessFree = true

theorem Silent.child {e c : Expr} (h : e.Silent) (hc : c ∈ e.children) : c.Silent :=
  ⟨isAspect_observable.flag_child h.observable hc, accessFree_of_mem_children h.accessFree hc⟩

theorem Silent.exists_eval_eq_pure {e : Expr} (h : e.Silent) (env : Env I) : ∃ v, e.eval env = pure v := by
  refine eval_stepwise stepwise_pure Silent.child (fun _ he hlazy hvs => ?_) h
  refine exists_operate_eq_pure (isAspect_observable.flag_head he.observable) hlazy (fun target name haccess => ?_) env hvs
  cases haccess ▸ he.accessFree

end Expr

end DeclRecovery
