import DeclRecovery.Proofs.Mentions
import DeclRecovery.Proofs.Semantics.Shapes

/-!
Shapes change nothing: an expression gives the same, and a block or a constructor ends in the same way with the same
slots, world and events, whatever the values, the slots, the world and the outside are. There is one proviso, which
code makes itself when it marks a member as never null. If the marks of the code are true, nothing that it does is
undefined (`eval_defined`, `performAll_defined`, `enact_defined`), so that a shape does exactly what the code did.
-/

namespace DeclRecovery

namespace Interp

/-- Some object has null in a member of this name. -/
def MayBeNull (I : Interp) (name : String) : Prop :=
  ∃ w v, I.isNull v = false ∧ I.isNull (I.read w v name) = true

/-- A member that is marked as never null in the code may be null. -/
def Breaks (I : Interp) (mentions : Head → Prop) : Prop :=
  ∃ name, mentions (.field name true) ∧ I.MayBeNull name

theorem Breaks.mono {I : Interp} {mentions mentions' : Head → Prop} (h : ∀ node, mentions node → mentions' node)
    (hbreaks : I.Breaks mentions) : I.Breaks mentions' := by
  rcases hbreaks with ⟨name, hmentions, hnull⟩
  exact ⟨name, h _ hmentions, hnull⟩

end Interp

/-! ### Expressions -/

namespace Effect

variable {I : Interp} {α β : Type}

/-- It is said what the computation does. -/
def Defined (m : Effect I α) : Prop := ∀ τ, (m τ).1 ≠ .error .undefined

theorem defined_pure (a : α) : Defined (pure a : Effect I α) := by
  intro τ h
  cases h

theorem defined_thrown (v : I.Value) : Defined (stop (.thrown v) : Effect I α) := by
  intro τ h
  cases h

theorem defined_ofExcept (x : Except I.Value α) : Defined (ofExcept x : Effect I α) := by
  rcases x with v | a
  · exact defined_thrown v
  · exact defined_pure a

theorem defined_observe (f : I.World → α) : Defined (observe f : Effect I α) := by
  intro τ h
  cases h

theorem defined_request (event : I.Event) (f : I.World → Except I.Value α × I.World) : Defined (request event f) := by
  intro τ h
  rcases hf : f τ.world with ⟨v | a, w⟩ <;> simp [request, hf] at h

theorem stepwise_defined : Stepwise (I := I) Defined where
  pure := defined_pure
  bind := by
    intro _ _ m f hm hf τ h
    rcases hτ : m τ with ⟨stop | a, τ'⟩
    · rw [bind_of_error hτ] at h
      cases h
      exact hm τ (by rw [hτ])
    · rw [bind_of_ok hτ] at h
      exact hf a τ' h

/-- The computations do the same, or nothing is said about what the first one does, and then `broken` is why. -/
def SameUnless (broken : Prop) (m m' : Effect I α) : Prop :=
  ∀ τ, ((m τ).1 = .error .undefined ∧ broken) ∨ m' τ = m τ

theorem Refines.sameUnless {m m' : Effect I α} {broken : Prop} (h : Refines m m') (hdefined : ¬broken → Defined m) :
    SameUnless broken m m' := by
  intro τ
  rcases h τ with hundef | heq
  · exact Or.inl ⟨hundef, by_contra fun hbroken => hdefined hbroken τ hundef⟩
  · exact Or.inr heq

end Effect

namespace Expr
open Effect

variable {I : Interp} {env : Env I} {options : Options}

theorem run_defined (callee : Callee) (receiver : Option I.Value) (args : List I.Value) :
    Defined (callee.run receiver args) := by
  rw [Callee.run]
  split
  · exact defined_pure _
  · exact defined_request _ _

theorem operate_defined {e : Expr} (h : ¬I.Breaks fun node => e.Mentions node) (hlazy : e.head.isLazy = false)
    {vs : List I.Value} (hvs : vs.length = e.children.length) : Defined (e.head.operate env vs) := by
  cases e with
  | field target name nonNull =>
    rcases List.length_eq_one_iff.mp hvs with ⟨v, rfl⟩
    intro τ hundef
    cases hnull : I.isNull v with
    | true =>
      rw [head, Head.operate, hnull] at hundef
      cases hundef
    | false =>
      rw [head, operate_field hnull] at hundef
      split at hundef
      · next hread =>
        rw [Bool.and_eq_true] at hread
        rcases hread with ⟨rfl, hread⟩
        exact h ⟨name, .here rfl, τ.world, v, hnull, hread⟩
      · cases hundef
  | call callee args => exact run_defined callee none vs
  | invoke receiver callee args =>
    rcases vs with _ | ⟨v, vs⟩
    · cases hvs
    · rw [head, Head.operate]
      split
      · exact defined_thrown _
      · exact run_defined callee (some v) vs
  | binary op l r =>
    rcases List.length_eq_two.mp hvs with ⟨a, b, rfl⟩
    rw [head, Head.operate]
    split
    · exact defined_ofExcept _
    · exact defined_pure _
  | unary op x =>
    rcases List.length_eq_one_iff.mp hvs with ⟨v, rfl⟩
    exact defined_pure _
  | convert type x =>
    rcases List.length_eq_one_iff.mp hvs with ⟨v, rfl⟩
    exact defined_ofExcept _
  | access target name =>
    rcases List.length_eq_one_iff.mp hvs with ⟨v, rfl⟩
    rw [head, Head.operate]
    split
    · exact defined_pure _
    · exact defined_observe _
  | raise x =>
    rcases List.length_eq_one_iff.mp hvs with ⟨v, rfl⟩
    exact defined_thrown v
  | new => exact defined_request _ _
  | select | conditional | coalesce => cases hlazy
  | literal | param | self | member => exact defined_pure _

theorem eval_defined {e : Expr} (h : ¬I.Breaks fun node => e.Mentions node) : Defined (e.eval env) :=
  eval_stepwise stepwise_defined (P := fun e => ¬I.Breaks fun node => e.Mentions node)
    (fun he hc hbreaks => he (hbreaks.mono fun _ => .inside hc))
    (fun _ he hlazy hvs => operate_defined he hlazy hvs) h

end Expr

/-! ### Statements and constructors -/

namespace Course

variable {I : Interp} {α : Type} {a b : Course I}

/-- It is said what happens. -/
def Defined (a : Course I) : Prop := ∀ σ τ, (a σ τ).stop ≠ some .undefined

theorem defined_done : Defined (done : Course I) := by
  intro σ τ h
  cases h

theorem defined_put (slot : SlotId) (v : I.Value) : Defined (put slot v : Course I) := by
  intro σ τ h
  cases h

theorem Defined.andThen (ha : Defined a) (hb : Defined b) : Defined (andThen a b) := by
  intro σ τ
  cases h : (a σ τ).stop with
  | none =>
    rw [andThen_of_none h]
    exact hb _ _
  | some stop =>
    rw [andThen_of_some h]
    exact ha σ τ

theorem Defined.evaluate {m : I.Store → Effect I α} {next : α → Course I} (hm : ∀ σ, Effect.Defined (m σ))
    (hnext : ∀ x, Defined (next x)) : Defined (evaluate m next) := by
  intro σ τ
  rcases h : m σ τ with ⟨stop | x, τ'⟩
  · rw [evaluate_of_error h]
    rintro ⟨⟩
    exact hm σ τ (by rw [h])
  · rw [evaluate_of_ok h]
    exact hnext x σ τ'

/-- As for computations. -/
def SameUnless (broken : Prop) (a a' : Course I) : Prop :=
  ∀ σ τ, ((a σ τ).stop = some .undefined ∧ broken) ∨ a' σ τ = a σ τ

theorem Refines.sameUnless {a' : Course I} {broken : Prop} (h : Refines a a') (hdefined : ¬broken → Defined a) :
    SameUnless broken a a' := by
  intro σ τ
  rcases h σ τ with hundef | heq
  · exact Or.inl ⟨hundef, by_contra fun hbroken => hdefined hbroken σ τ hundef⟩
  · exact Or.inr heq

end Course

/-- A host of which it is said what it does. -/
structure Outside (I : Interp) extends Host I where
  defined : ∀ target vs, (handOver target vs).Defined

namespace Stmt
open Course

variable {I : Interp} {host : Host I} (hhost : ∀ target vs, (host.handOver target vs).Defined) {args : List I.Value}

theorem performAll_defined_of {block : List Stmt} (h : ∀ s ∈ block, Defined (perform host args s)) :
    Defined (performAll host args block) := by
  induction block with
  | nil => exact defined_done
  | cons s block ih =>
    rw [performAll]
    exact (h s List.mem_cons_self).andThen (ih fun s' hs' => h s' (List.mem_cons_of_mem s hs'))

include hhost

theorem perform_defined {s : Stmt} (h : ∀ e ∈ s.exprs, ∀ σ, Effect.Defined (e.eval ⟨args, σ⟩)) :
    Defined (perform host args s) := by
  induction s using induct with
  | assign slot value =>
    rw [perform]
    exact .evaluate (h value (by simp [exprs])) fun v => defined_put slot _
  | delegate call =>
    rw [perform]
    refine .evaluate (fun σ => ?_) (hhost call.target)
    rw [← bind_pure (Effect.inOrder _)]
    refine Effect.stepwise_defined.inOrder_bind (fun m hm => ?_) fun vs _ => Effect.defined_pure vs
    rcases List.mem_map.mp hm with ⟨e, he, rfl⟩
    exact h e he σ
  | eval value =>
    rw [perform]
    exact .evaluate (h value (by simp [exprs])) fun v => defined_done
  | branch c t e iht ihe =>
    rw [perform]
    refine .evaluate (h c (by simp [exprs])) fun v => ?_
    split
    · refine performAll_defined_of fun s hs => iht s hs fun x hx => h x ?_
      simp [exprs, mem_exprsEach.mpr ⟨s, hs, hx⟩]
    · refine performAll_defined_of fun s hs => ihe s hs fun x hx => h x ?_
      simp [exprs, mem_exprsEach.mpr ⟨s, hs, hx⟩]
  | raise value =>
    rw [perform]
    refine .evaluate (h value (by simp [exprs])) fun v σ τ hundef => ?_
    cases hundef

theorem performAll_defined {block : List Stmt} (h : ¬I.Breaks fun node => ∃ s ∈ block, s.Mentions node) :
    Defined (performAll host args block) := by
  refine performAll_defined_of fun s hs => perform_defined hhost fun e he σ => Expr.eval_defined fun hbreaks => h ?_
  exact hbreaks.mono fun node hnode => ⟨s, hs, e, he, hnode⟩

end Stmt

namespace TypeDecl
open Course

variable {I : Interp} {host : Host I} {t : TypeDecl}

/-- Some constructor runs something that mentions the node. -/
def Mentions (t : TypeDecl) (node : Head) : Prop := ∃ c ∈ t.constructors, ∃ s ∈ t.lowered c, s.Mentions node

theorem enact_defined (hhost : ∀ target vs, (host.handOver target vs).Defined) (h : ¬I.Breaks t.Mentions) (fuel : Nat)
    (target : DelegationTarget) (args : List I.Value) : Defined (t.enact host fuel target args) := by
  induction fuel generalizing target args with
  | zero =>
    rcases target with _ | id
    · exact hhost .base args
    · intro σ τ hundef
      cases hundef
  | succ fuel ih =>
    rcases target with _ | id
    · exact hhost .base args
    · cases hc : t.constructors[id]? with
      | none =>
        rw [enact_of_none hc]
        exact hhost (.ctor id) args
      | some c =>
        rw [enact_of_some hc]
        refine Stmt.performAll_defined ih fun hbreaks => h ?_
        exact hbreaks.mono fun node hnode => ⟨c, List.mem_of_getElem? hc, hnode⟩

end TypeDecl

/-- Shapes change nothing that code does: not what an expression gives, not how a block ends and what it leaves in the
slots, and not what constructors and initializers do. Nothing is said only where the code finds null in a member that
it marks as never null. -/
theorem shape_preserves_meaning (I : Interp) (options : Options) :
    (∀ (e : Expr) (env : Env I),
      Effect.SameUnless (I.Breaks fun node => e.Mentions node) (e.eval env) ((e.shape options).eval env)) ∧
    (∀ (host : Outside I) (args : List I.Value) (block : List Stmt),
      Course.SameUnless (I.Breaks fun node => ∃ s ∈ block, s.Mentions node) (Stmt.performAll host.toHost args block)
        (Stmt.performAll host.toHost args (Stmt.shapeBlock options block))) ∧
    (∀ (host : Outside I) (t : TypeDecl) (fuel : Nat) (target : DelegationTarget) (args : List I.Value),
      Course.SameUnless (I.Breaks t.Mentions) (t.enact host.toHost fuel target args)
        ((t.shape options).enact host.toHost fuel target args)) ∧
    (∀ t : TypeDecl, List.Forall₂ (fun s s' : Slot => Option.Rel (fun e e' : Expr => ∀ env : Env I,
      Effect.SameUnless (I.Breaks fun node => e.Mentions node) (e.eval env) (e'.eval env)) s.initializer s'.initializer)
        t.slots (t.shape options).slots) := by
  have hexpr : ∀ (e : Expr) (env : Env I),
      Effect.SameUnless (I.Breaks fun node => e.Mentions node) (e.eval env) ((e.shape options).eval env) :=
    fun e env => (Expr.eval_refines_shape e).sameUnless Expr.eval_defined
  refine ⟨hexpr, fun host args block => ?_, fun host t fuel target args => ?_, fun t => ?_⟩
  · exact (Stmt.performAll_refines_shapeBlock rfl (fun _ _ => .refl _) block).sameUnless
      (Stmt.performAll_defined host.defined)
  · exact (TypeDecl.enact_refines_shape fuel target args).sameUnless fun h =>
      TypeDecl.enact_defined host.defined h fuel target args
  · refine List.forall₂_map_right_iff.mpr (List.forall₂_same.mpr fun s _ => ?_)
    rcases hs : s.initializer with _ | e
    · exact .none
    · exact .some (hexpr e)

/-- Does nothing when it is handed over to. -/
def Outside.idle (I : Interp) : Outside I := ⟨⟨I.stored, fun _ _ => .done⟩, fun _ _ => Course.defined_done⟩

/-- Stores the argument, or one for null, and then throws the argument. -/
def Stmt.storeAndThrow : List Stmt :=
  [.branch (.binary .ne (.param 0) (.literal .null)) [.assign 0 (.param 0)] [.assign 0 (.literal (.int 1))],
    .raise (.param 0)]

/-- The branch becomes one store, and whoever catches the exception finds the same in the slot. -/
theorem shape_preserves_meaning_storeAndThrow :
    Stmt.shapeBlock {} Stmt.storeAndThrow =
      [.assign 0 (.coalesce (.param 0) (.literal (.int 1))), .raise (.param 0)] ∧
    ∃ ending : Ending .counting, ending.stop = some (.thrown none) ∧ ending.store 0 = some 1 ∧
      Stmt.performAll (Outside.idle .counting).toHost [none] Stmt.storeAndThrow Interp.counting.zero ⟨(5 : Int), []⟩ =
        ending ∧
      Stmt.performAll (Outside.idle .counting).toHost [none] (Stmt.shapeBlock {} Stmt.storeAndThrow) Interp.counting.zero
        ⟨(5 : Int), []⟩ = ending := by
  refine ⟨by decide, _, ?_, ?_, rfl, ?_⟩
  · rfl
  · rfl
  · refine ((shape_preserves_meaning .counting {}).2.1 (.idle .counting) [none] Stmt.storeAndThrow Interp.counting.zero
      ⟨(5 : Int), []⟩).resolve_left ?_
    rintro ⟨⟨⟩, -⟩

end DeclRecovery
