import DeclRecovery.Proofs.Semantics.Commuting

/-!
The footprint of an expression says what its evaluation needs and does (`Expr.footprint_sound`). Only part of an expression
is evaluated where it makes a choice, and the footprint takes all of it together, so it may say too much; it never says too
little.

Evaluation as defined so far only ends when something is thrown. What is said here also holds if throwing does something
else first, or instead (`Expr.evalRaising`): as far as a footprint tells, a throw is a side effect.
-/

namespace DeclRecovery

namespace Effect

variable {I : Interp} {α : Type}

/-- Twice in a row, the computation does and gives no more than once. -/
def Repeats (m : Effect I α) : Prop :=
  ∀ ⦃γ : Type⦄ (k : α → α → Effect I γ), (m >>= fun a => m >>= fun b => k a b) = m >>= fun a => k a a

theorem Still.repeats {m : Effect I α} (hm : Still m) : m.Repeats := by
  intro γ k
  funext τ
  have hτ := hm τ
  rcases h : m τ with ⟨s | a, τ'⟩
  · rw [bind_of_error h, bind_of_error h]
  · rw [h] at hτ
    cases hτ
    rw [bind_of_ok h, bind_of_ok h, bind_of_ok h]

end Effect

/-! ### Throws with effects -/

section Raising
open Effect

-- What becomes of a value that is thrown.
variable {I : Interp} (raise : I.Value → Effect I I.Value)

def Head.combineRaising (env : Env I) : Head → List (Effect I I.Value) → Effect I I.Value
  | .raise, [value] => value >>= raise
  | h, children => h.combine env children

theorem Head.combineRaising_of_ne {h : Head} (hne : h ≠ .raise) (env : Env I) :
    h.combineRaising raise env = h.combine env := by
  funext children
  unfold combineRaising
  split
  · exact absurd rfl hne
  · rfl

theorem Head.combineRaising_congr {env env' : Env I} {h : Head} (hself : (Footprint.ofHead h).readsSelf = false)
    (hagree : env.Agree (Footprint.ofHead h) env') : h.combineRaising raise env = h.combineRaising raise env' := by
  funext children
  unfold combineRaising
  split
  · rfl
  · rw [combine_congr hself hagree]

namespace Expr

/-- Evaluation in which `raise` is done with what is thrown. -/
def evalRaising (env : Env I) : Expr → Effect I I.Value := para fun e subs => e.head.combineRaising raise env subs

/-- Where a throw just ends the run, this is evaluation. -/
theorem evalRaising_thrown (env : Env I) (e : Expr) : e.evalRaising (fun v => stop (.thrown v)) env = e.eval env := by
  refine para_congr (P := fun _ => True) (fun _ _ => trivial) (fun {e} _ => ?_) trivial
  by_cases hraise : e.head = .raise
  · funext children
    rw [hraise]
    unfold Head.combineRaising
    split
    · simp [Head.combine, inOrder, Head.operate]
    · rfl
  · exact Head.combineRaising_of_ne _ hraise env

theorem evalRaising_congr {env env' : Env I} {e : Expr} (hself : e.footprint.readsSelf = false)
    (hagree : env.Agree e.footprint env') : e.evalRaising raise env = e.evalRaising raise env' := by
  refine para_congr (P := fun e => e.footprint.readsSelf = false ∧ env.Agree e.footprint env') (fun he hc => ?_)
    (fun he => ?_) ⟨hself, hagree⟩
  · exact ⟨Footprint.isAspect_readsSelf.flag_child he.1 hc, he.2.child hc⟩
  · exact Head.combineRaising_congr raise (Footprint.isAspect_readsSelf.flag_head he.1) he.2.head

/-- Without side effects nothing is thrown on purpose. -/
theorem evalRaising_of_sideEffects {e : Expr} (h : e.footprint.sideEffects = false) (env : Env I) :
    e.evalRaising raise env = e.eval env := by
  refine para_congr (P := fun e => e.footprint.sideEffects = false)
    (fun he hc => Footprint.isAspect_sideEffects.flag_child he hc) (fun he => ?_) h
  refine Head.combineRaising_of_ne raise (fun hraise => ?_) env
  cases hraise ▸ Footprint.isAspect_sideEffects.flag_head he

end Expr

end Raising

/-! ### Soundness -/

namespace Footprint

variable {I : Interp}

/-- What the footprint leaves out has no part in an evaluation: it depends on the world and on what is listed, unless the
instance is read as a whole, it leaves the world as it is, unless there are side effects, and it gives a value, unless
something may be thrown. -/
structure Bounds (f : Footprint) (run : Env I → Effect I I.Value) : Prop where
  reads : f.readsSelf = false → ∀ env env', env.Agree f env' → ∀ τ, run env τ = run env' τ
  effects : f.sideEffects = false → ∀ env τ, (run env τ).2 = τ
  throws : f.mayThrow = false → ∀ env τ, ∃ v, run env τ = (.ok v, τ)

theorem sideEffects_of_mayThrow {h : Head} (hh : (ofHead h).mayThrow = false) : (ofHead h).sideEffects = false := by
  cases h <;> simp_all [ofHead]

end Footprint

namespace Expr
open Effect Footprint

/-- Every side effect may throw. -/
theorem sideEffects_of_mayThrow {e : Expr} (h : e.footprint.mayThrow = false) : e.footprint.sideEffects = false := by
  induction e using induct with
  | step e ih =>
    rw [← Bool.not_eq_true, isAspect_sideEffects.footprint_iff, not_or, Bool.not_eq_true]
    refine ⟨Footprint.sideEffects_of_mayThrow (isAspect_mayThrow.flag_head h), fun ⟨c, hc, hchild⟩ => ?_⟩
    rw [ih c hc (isAspect_mayThrow.flag_child h hc)] at hchild
    cases hchild

variable {I : Interp} (raise : I.Value → Effect I I.Value)

theorem still_evalRaising {e : Expr} (h : e.footprint.sideEffects = false) (env : Env I) :
    Still (e.evalRaising raise env) := by
  rw [evalRaising_of_sideEffects raise h]
  exact still_eval (asks_of_sideEffects h)

theorem bounds_evalRaising (e : Expr) : e.footprint.Bounds fun env => e.evalRaising raise env where
  reads hself env env' hagree τ := by rw [evalRaising_congr raise hself hagree]
  effects h env := still_evalRaising raise h env
  throws h env τ := by
    have heffects := sideEffects_of_mayThrow h
    obtain ⟨f, hf⟩ := exists_eval_eq_observe (by rw [observable, heffects, h]; rfl) env
    rw [evalRaising_of_sideEffects raise heffects, hf]
    exact ⟨f τ.world, rfl⟩

/-- Whatever is done with what is thrown, also if it just ends the run, the footprint bounds the evaluation, and what is
duplicable can be evaluated once or twice. That members which are marked as never null are never null need not be
assumed. -/
theorem footprint_sound (e : Expr) :
    (∀ env : Env I, e.evalRaising (fun v => stop (.thrown v)) env = e.eval env) ∧
    (e.footprint.Bounds fun env => e.evalRaising raise env) ∧
    (e.footprint.Bounds fun env => e.unmarked.evalRaising raise env) ∧
    (e.isDuplicable = true → ∀ env : Env I,
      (e.evalRaising raise env).Repeats ∧ (e.unmarked.evalRaising raise env).Repeats) := by
  refine ⟨fun env => evalRaising_thrown env e, bounds_evalRaising raise e, ?_, fun h env => ?_⟩
  · rw [← footprint_unmarked]
    exact bounds_evalRaising raise e.unmarked
  · have heffects : e.footprint.sideEffects = false := by simpa using (Bool.and_eq_true_iff.mp h).1
    refine ⟨(still_evalRaising raise heffects env).repeats, (still_evalRaising raise ?_ env).repeats⟩
    rw [footprint_unmarked]
    exact heffects

end Expr

end DeclRecovery
