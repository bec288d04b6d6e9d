import DeclRecovery.Proofs.Semantics.Eval
import Mathlib.Logic.Function.Basic

/-!
Running constructors. A store puts a value into a slot of the instance; a delegation evaluates its arguments and runs
the base constructor or another constructor of the type, with all that it runs. Runs are limited by fuel, one unit for
each constructor that is entered, since copy constructors may hand over in a circle.
-/

namespace DeclRecovery

/-- How another constructor of the type is run. -/
abbrev Enter (I : Interp) : Type := CtorId → List I.Value → I.Store → Effect I I.Store

/-- A call of another constructor of the type, with what it is made with. -/
structure HandOver (I : Interp) where
  target : CtorId
  args : List I.Value
  store : I.Store
  trace : I.Trace

/-- The second way to enter constructors does here what the first one does. -/
def HandOver.Refines {I : Interp} (enter enter' : Enter I) (h : HandOver I) : Prop :=
  Effect.RefinesAt h.trace (enter h.target h.args h.store) (enter' h.target h.args h.store)

namespace Stmt
open Effect

variable {I : Interp} (enter : Enter I) (args : List I.Value)

mutual

/-- Runs a statement; the result is what the slots hold then. -/
def exec : Stmt → I.Store → Effect I I.Store
  | assign slot value, σ => do
    let v ← value.eval ⟨args, σ⟩
    return Function.update σ slot (I.stored slot v)
  | delegate call, σ => do
    let vs ← inOrder (call.args.map (Expr.eval ⟨args, σ⟩))
    match call.target with
    | .base => request (.base vs) (I.base vs σ)
    | .ctor id => enter id vs σ
  | eval value, σ => do
    let _ ← value.eval ⟨args, σ⟩
    return σ
  | branch cond t e, σ => do
    if I.isTrue (← cond.eval ⟨args, σ⟩) then execBlock t σ else execBlock e σ
  | raise value, σ => do
    stop (.thrown (← value.eval ⟨args, σ⟩))

def execBlock : List Stmt → I.Store → Effect I I.Store
  | [], σ => pure σ
  | s :: ss, σ => do execBlock ss (← exec s σ)

end

mutual

/-- The calls of other constructors that are made while a statement runs. -/
def handOvers : Stmt → I.Store → I.Trace → List (HandOver I)
  | delegate call, σ, τ =>
    after (inOrder (call.args.map (Expr.eval ⟨args, σ⟩))) τ fun vs τ' => call.target.ctor?.toList.map (⟨·, vs, σ, τ'⟩)
  | branch cond t e, σ, τ =>
    after (cond.eval ⟨args, σ⟩) τ fun v τ' => if I.isTrue v then handOversEach t σ τ' else handOversEach e σ τ'
  | _, _, _ => []

def handOversEach : List Stmt → I.Store → I.Trace → List (HandOver I)
  | [], _, _ => []
  | s :: ss, σ, τ => handOvers s σ τ ++ after (exec enter args s σ) τ fun σ' τ' => handOversEach ss σ' τ'

end

variable {enter args}

theorem execBlock_append (a b : List Stmt) (σ : I.Store) :
    execBlock enter args (a ++ b) σ = execBlock enter args a σ >>= execBlock enter args b := by
  induction a generalizing σ with
  | nil => rw [List.nil_append, execBlock, pure_bind]
  | cons s a ih =>
    rw [List.cons_append, execBlock, execBlock, bind_assoc]
    congr 1
    funext σ'
    exact ih σ'

theorem execBlock_singleton (s : Stmt) (σ : I.Store) : execBlock enter args [s] σ = exec enter args s σ := by
  simp only [execBlock, bind_pure]

/-- A two-way branch of stores runs as the store of a choice. -/
theorem exec_of_singleStore? {s : Stmt} {x : SlotId × Expr} (h : s.singleStore? = some x) (σ : I.Store) :
    exec enter args s σ = exec enter args (ofStore x) σ := by
  obtain ⟨slot, value⟩ := x
  rcases singleStore?_cases h with rfl | ⟨c, a, b, rfl, rfl⟩
  · rfl
  · rw [ofStore, exec, exec, Expr.eval_select, bind_assoc]
    congr 1
    funext v
    split
    · rw [execBlock_singleton, exec]
    · rw [execBlock_singleton, exec]

theorem execBlock_of_singleStore? {first : List Stmt} {heads : List (SlotId × Expr)}
    (h : first.map singleStore? = heads.map some) (σ : I.Store) :
    execBlock enter args first σ = execBlock enter args (heads.map ofStore) σ := by
  induction first generalizing heads σ with
  | nil =>
    cases heads with
    | nil => rfl
    | cons => cases h
  | cons s first ih =>
    cases heads with
    | nil => cases h
    | cons x heads =>
      rw [List.map_cons, List.map_cons, List.cons.injEq] at h
      rw [List.map_cons, execBlock, execBlock, exec_of_singleStore? h.1]
      congr 1
      funext σ'
      exact ih h.2 σ'

/-! ### Refinement -/

variable {enter' : Enter I}

theorem execBlock_refinesAt_of {block : List Stmt} (ih : ∀ s ∈ block, ∀ σ τ,
      (∀ x ∈ handOvers enter args s σ τ, x.Refines enter enter') →
        RefinesAt τ (exec enter args s σ) (exec enter' args s σ))
    {σ : I.Store} {τ : I.Trace} (h : ∀ x ∈ handOversEach enter args block σ τ, x.Refines enter enter') :
    RefinesAt τ (execBlock enter args block σ) (execBlock enter' args block σ) := by
  induction block generalizing σ τ with
  | nil => exact .refl _
  | cons s block ihblock =>
    obtain ⟨ihs, ih⟩ := List.forall_mem_cons.mp ih
    rw [handOversEach, List.forall_mem_append] at h
    rw [execBlock, execBlock]
    refine (ihs σ τ h.1).bind fun σ' τ' hs => ?_
    rw [after_of_ok hs] at h
    exact ihblock ih h.2

/-- A statement does the same if the calls that it makes do. -/
theorem exec_refinesAt {s : Stmt} {σ : I.Store} {τ : I.Trace}
    (h : ∀ x ∈ handOvers enter args s σ τ, x.Refines enter enter') :
    RefinesAt τ (exec enter args s σ) (exec enter' args s σ) := by
  induction s using induct generalizing σ τ with
  | delegate call =>
    rw [exec, exec]
    refine (RefinesAt.refl _).bind fun vs τ' hvs => ?_
    rw [handOvers, after_of_ok hvs] at h
    rcases call with ⟨_ | id, _⟩
    · exact .refl _
    · exact h ⟨id, vs, σ, τ'⟩ (by simp [DelegationTarget.ctor?])
  | branch c t e iht ihe =>
    rw [exec, exec]
    refine (RefinesAt.refl _).bind fun v τ' hv => ?_
    rw [handOvers, after_of_ok hv] at h
    split
    · next htrue =>
      rw [if_pos htrue] at h
      exact execBlock_refinesAt_of (fun s hs _ _ => iht s hs) h
    · next hfalse =>
      rw [if_neg hfalse] at h
      exact execBlock_refinesAt_of (fun s hs _ _ => ihe s hs) h
  | _ => exact .refl _

theorem execBlock_refinesAt {block : List Stmt} {σ : I.Store} {τ : I.Trace}
    (h : ∀ x ∈ handOversEach enter args block σ τ, x.Refines enter enter') :
    RefinesAt τ (execBlock enter args block σ) (execBlock enter' args block σ) :=
  execBlock_refinesAt_of (fun _ _ _ _ => exec_refinesAt) h

end Stmt

namespace TypeDecl
open Effect

variable {I : Interp}

/-- Runs a constructor with all that it runs. -/
def run (I : Interp) (t : TypeDecl) : (fuel : Nat) → Enter I
  | 0, _, _, _ => stop .outOfFuel
  | fuel + 1, id, args, σ =>
    match t.constructors[id]? with
    | none => stop .undefined
    | some c => Stmt.execBlock (run I t fuel) args (t.lowered c) σ

/-- The constructors that are entered in a run, with what the slots hold then. -/
def entries (I : Interp) (t : TypeDecl) : (fuel : Nat) → CtorId → List I.Value → I.Store → I.Trace →
    List (CtorId × I.Store)
  | 0, _, _, _, _ => []
  | fuel + 1, id, args, σ, τ => (id, σ) ::
    match t.constructors[id]? with
    | none => []
    | some c => (Stmt.handOversEach (t.run I fuel) args (t.lowered c) σ τ).flatMap fun x =>
      entries I t fuel x.target x.args x.store x.trace

theorem run_of_none {t : TypeDecl} {id : CtorId} (hid : t.constructors[id]? = none) (fuel : Nat) (args : List I.Value)
    (σ : I.Store) : t.run I (fuel + 1) id args σ = stop .undefined := by
  rw [run, hid]

theorem run_succ {t : TypeDecl} {id : CtorId} {c : Constructor} (hc : t.constructors[id]? = some c) (fuel : Nat)
    (args : List I.Value) (σ : I.Store) :
    t.run I (fuel + 1) id args σ = Stmt.execBlock (t.run I fuel) args (t.lowered c) σ := by
  rw [run, hc]

theorem entries_succ {t : TypeDecl} {id : CtorId} {c : Constructor} (hc : t.constructors[id]? = some c) (fuel : Nat)
    (args : List I.Value) (σ : I.Store) (τ : I.Trace) : t.entries I (fuel + 1) id args σ τ = (id, σ) ::
      (Stmt.handOversEach (t.run I fuel) args (t.lowered c) σ τ).flatMap fun x =>
        t.entries I fuel x.target x.args x.store x.trace := by
  rw [entries, hc]

end TypeDecl

end DeclRecovery
