import DeclRecovery.Proofs.Semantics.Exec

/-!
Running statements, and keeping what the slots hold when a run throws. A constructor that throws leaves an instance
behind, and whoever has got hold of it sees the slots as they are then. A run of `exec` forgets them and is otherwise the
same (`forget_performAll`, `forget_enact`).

How a value goes into a slot and what is done by a constructor that is handed over to are left to a `Host`.
-/

namespace DeclRecovery

/-- How code ends, with the slots and the world as it leaves them. It has come to its end when there is no stop. -/
structure Ending (I : Interp) where
  stop : Option I.Stop
  store : I.Store
  trace : I.Trace

namespace Ending

variable {I : Interp}

/-- The ending without what the slots hold after a stop. -/
def forget (e : Ending I) : Except I.Stop I.Store × I.Trace :=
  (match e.stop with
    | none => .ok e.store
    | some stop => .error stop, e.trace)

/-- The ending of a computation that was started with the slots `σ`; a stop leaves them as they were. -/
def ofResult (σ : I.Store) : Except I.Stop I.Store × I.Trace → Ending I
  | (.ok σ', τ) => ⟨none, σ', τ⟩
  | (.error stop, τ) => ⟨some stop, σ, τ⟩

theorem forget_ofResult (σ : I.Store) (x : Except I.Stop I.Store × I.Trace) : (ofResult σ x).forget = x := by
  rcases x with ⟨_ | _, _⟩ <;> rfl

end Ending

/-- What code does, from the slots and the world that it finds. -/
def Course (I : Interp) : Type := I.Store → I.Trace → Ending I

namespace Course

variable {I : Interp} {α β : Type}

def done : Course I := fun σ τ => ⟨none, σ, τ⟩

def halt (stop : I.Stop) : Course I := fun σ τ => ⟨some stop, σ, τ⟩

def put (slot : SlotId) (value : I.Value) : Course I := fun σ τ => ⟨none, Function.update σ slot value, τ⟩

/-- Goes on with `b` where `a` comes to its end. -/
def andThen (a b : Course I) : Course I := fun σ τ =>
  match (a σ τ).stop with
  | none => b (a σ τ).store (a σ τ).trace
  | some _ => a σ τ

/-- Computes something that leaves the slots alone, and goes on with the result. -/
def evaluate (m : I.Store → Effect I α) (next : α → Course I) : Course I := fun σ τ =>
  match m σ τ with
  | (.ok a, τ') => next a σ τ'
  | (.error stop, τ') => ⟨some stop, σ, τ'⟩

variable {a b a' b' : Course I} {m m' : I.Store → Effect I α} {next next' : α → Course I} {σ : I.Store} {τ τ' : I.Trace}

theorem andThen_of_none (h : (a σ τ).stop = none) : andThen a b σ τ = b (a σ τ).store (a σ τ).trace := by
  simp only [andThen, h]

theorem andThen_of_some {stop : I.Stop} (h : (a σ τ).stop = some stop) : andThen a b σ τ = a σ τ := by
  simp only [andThen, h]

theorem evaluate_of_ok {x : α} (h : m σ τ = (.ok x, τ')) : evaluate m next σ τ = next x σ τ' := by
  simp only [evaluate, h]

theorem evaluate_of_error {stop : I.Stop} (h : m σ τ = (.error stop, τ')) : evaluate m next σ τ = ⟨some stop, σ, τ'⟩ := by
  simp only [evaluate, h]

theorem andThen_done (a : Course I) : andThen a done = a := by
  funext σ τ
  cases h : (a σ τ).stop with
  | none => rw [andThen_of_none h, done, ← h]
  | some stop => exact andThen_of_some h

theorem evaluate_bind (m : I.Store → Effect I α) (f : I.Store → α → Effect I β) (next : β → Course I) :
    evaluate (fun σ => m σ >>= f σ) next = evaluate m fun x => evaluate (fun σ => f σ x) next := by
  funext σ τ
  rcases h : m σ τ with ⟨stop | x, τ'⟩
  · rw [evaluate_of_error h, evaluate_of_error (Effect.bind_of_error h)]
  · rw [evaluate_of_ok h]
    simp only [evaluate, Effect.bind_of_ok h]

/-- The course as a computation, which forgets the slots where it stops. -/
def forget (a : Course I) (σ : I.Store) : Effect I I.Store := fun τ => (a σ τ).forget

theorem forget_of_none (h : (a σ τ).stop = none) : forget a σ τ = (.ok (a σ τ).store, (a σ τ).trace) := by
  simp only [forget, Ending.forget, h]

theorem forget_of_some {stop : I.Stop} (h : (a σ τ).stop = some stop) : forget a σ τ = (.error stop, (a σ τ).trace) := by
  simp only [forget, Ending.forget, h]

theorem forget_andThen (a b : Course I) (σ : I.Store) : forget (andThen a b) σ = forget a σ >>= forget b := by
  funext τ
  cases h : (a σ τ).stop with
  | none => rw [Effect.bind_of_ok (forget_of_none h), forget, andThen_of_none h, forget]
  | some stop => rw [Effect.bind_of_error (forget_of_some h), forget, andThen_of_some h, ← forget, forget_of_some h]

theorem forget_evaluate (m : I.Store → Effect I α) (next : α → Course I) (σ : I.Store) :
    forget (evaluate m next) σ = m σ >>= fun x => forget (next x) σ := by
  funext τ
  rcases h : m σ τ with ⟨stop | x, τ'⟩
  · rw [Effect.bind_of_error h, forget, evaluate_of_error h]
    rfl
  · rw [Effect.bind_of_ok h, forget, evaluate_of_ok h, forget]

/-! ### Refinement -/

/-- The course `a'` ends as `a` does, unless nothing is said about what `a` does. -/
def Refines (a a' : Course I) : Prop := ∀ σ τ, (a σ τ).stop = some .undefined ∨ a' σ τ = a σ τ

namespace Refines

theorem refl (a : Course I) : Refines a a := fun _ _ => Or.inr rfl

theorem trans {a'' : Course I} (h : Refines a a') (h' : Refines a' a'') : Refines a a'' := by
  intro σ τ
  rcases h σ τ with hundef | heq
  · exact Or.inl hundef
  · rcases h' σ τ with hundef' | heq'
    · exact Or.inl (heq ▸ hundef')
    · exact Or.inr (heq'.trans heq)

theorem ite {c : Prop} [Decidable c] (ha : Refines a a') (hb : Refines b b') :
    Refines (if c then a else b) (if c then a' else b') := by
  split
  · exact ha
  · exact hb

theorem andThen (ha : Refines a a') (hb : Refines b b') : Refines (andThen a b) (andThen a' b') := by
  intro σ τ
  rcases ha σ τ with hundef | heq
  · rw [andThen_of_some hundef]
    exact Or.inl hundef
  · cases h : (a σ τ).stop with
    | none =>
      rw [andThen_of_none h, andThen_of_none (heq ▸ h), heq]
      exact hb _ _
    | some stop =>
      rw [andThen_of_some h, andThen_of_some (heq ▸ h)]
      exact Or.inr heq

theorem evaluate (hm : ∀ σ, Effect.Refines (m σ) (m' σ)) (hnext : ∀ x, Refines (next x) (next' x)) :
    Refines (evaluate m next) (evaluate m' next') := by
  intro σ τ
  rcases h : m σ τ with ⟨stop | x, τ'⟩
  · rw [evaluate_of_error h]
    rcases hm σ τ with hundef | heq
    · rw [h] at hundef
      cases hundef
      exact Or.inl rfl
    · exact Or.inr (evaluate_of_error (heq.trans h))
  · rcases hm σ τ with hundef | heq
    · rw [h] at hundef
      cases hundef
    · rw [evaluate_of_ok h, evaluate_of_ok (heq.trans h)]
      exact hnext x σ τ'

theorem forget (h : Refines a a') (σ : I.Store) : Effect.Refines (a.forget σ) (a'.forget σ) := by
  intro τ
  rcases h σ τ with hundef | heq
  · exact Or.inl (by rw [forget_of_some hundef])
  · exact Or.inr (congrArg Ending.forget heq)

end Refines

end Course

/-- What statements leave to others. -/
structure Host (I : Interp) where
  /-- What a slot holds once a value is stored. -/
  stored : SlotId → I.Value → I.Value
  /-- What is done by a constructor that is handed over to. -/
  handOver : DelegationTarget → List I.Value → Course I

namespace Stmt
open Course

variable {I : Interp} (host : Host I) (args : List I.Value)

mutual

/-- Runs a statement. -/
def perform : Stmt → Course I
  | assign slot value => evaluate (fun σ => value.eval ⟨args, σ⟩) fun v => put slot (host.stored slot v)
  | delegate call => evaluate (fun σ => Effect.inOrder (call.args.map (Expr.eval ⟨args, σ⟩))) (host.handOver call.target)
  | eval value => evaluate (fun σ => value.eval ⟨args, σ⟩) fun _ => done
  | branch cond t e =>
    evaluate (fun σ => cond.eval ⟨args, σ⟩) fun v => if I.isTrue v then performAll t else performAll e
  | raise value => evaluate (fun σ => value.eval ⟨args, σ⟩) fun v => halt (.thrown v)

def performAll : List Stmt → Course I
  | [] => done
  | s :: ss => andThen (perform s) (performAll ss)

end

variable {host args}

/-- A two-way branch of stores is performed as the store of a choice. -/
theorem perform_branch_assign (c a b : Expr) (slot : SlotId) :
    perform host args (branch c [assign slot a] [assign slot b]) = perform host args (assign slot (.select c a b)) := by
  simp only [perform, performAll, andThen_done, Expr.eval_select, evaluate_bind]
  congr 1
  funext v
  split <;> rfl

end Stmt

namespace Host
open Course

variable {I : Interp}

/-- The host does what `exec` has done by entering constructors, up to the slots of a stop. -/
structure Fits (host : Host I) (enter : Enter I) : Prop where
  stored : host.stored = I.stored
  base : ∀ vs σ, (host.handOver .base vs).forget σ = .request (.base vs) (I.base vs σ)
  ctor : ∀ id vs σ, (host.handOver (.ctor id) vs).forget σ = enter id vs σ

variable {host : Host I} {enter : Enter I} {args : List I.Value}

theorem Fits.forget_performAll_of (block : List Stmt)
    (h : ∀ s ∈ block, ∀ σ, (s.perform host args).forget σ = s.exec enter args σ) (σ : I.Store) :
    (Stmt.performAll host args block).forget σ = Stmt.execBlock enter args block σ := by
  induction block generalizing σ with
  | nil => rfl
  | cons s block ih =>
    rw [Stmt.performAll, Stmt.execBlock, forget_andThen, h s List.mem_cons_self]
    exact bind_congr fun σ' => ih (fun s' hs' => h s' (List.mem_cons_of_mem s hs')) σ'

theorem Fits.forget_perform (h : host.Fits enter) (s : Stmt) (σ : I.Store) :
    (s.perform host args).forget σ = s.exec enter args σ := by
  induction s using Stmt.induct generalizing σ with
  | assign slot value =>
    rw [Stmt.perform, Stmt.exec, forget_evaluate, h.stored]
    rfl
  | delegate call =>
    rw [Stmt.perform, Stmt.exec, forget_evaluate]
    refine bind_congr fun vs => ?_
    rcases call with ⟨_ | id, _⟩
    · exact h.base vs σ
    · exact h.ctor id vs σ
  | eval value =>
    rw [Stmt.perform, Stmt.exec, forget_evaluate]
    rfl
  | branch c t e iht ihe =>
    rw [Stmt.perform, Stmt.exec, forget_evaluate]
    refine bind_congr fun v => ?_
    split
    · exact forget_performAll_of t iht σ
    · exact forget_performAll_of e ihe σ
  | raise value =>
    rw [Stmt.perform, Stmt.exec, forget_evaluate]
    rfl

theorem Fits.forget_performAll (h : host.Fits enter) (block : List Stmt) (σ : I.Store) :
    (Stmt.performAll host args block).forget σ = Stmt.execBlock enter args block σ :=
  forget_performAll_of block (fun s _ => h.forget_perform s) σ

/-- The host of the interpretation. It knows no other constructors. -/
def plain (I : Interp) : Host I where
  stored := I.stored
  handOver
    | .base, vs => fun σ τ => .ofResult σ (Effect.request (.base vs) (I.base vs σ) τ)
    | .ctor _, _ => halt .undefined

end Host

namespace TypeDecl
open Course

variable {I : Interp}

/-- Hands over to the base constructor or to a constructor of the type, which is run with all that it runs. What the
type does not have is left to the host. -/
def enact (host : Host I) (t : TypeDecl) : (fuel : Nat) → DelegationTarget → List I.Value → Course I
  | _, .base, args => host.handOver .base args
  | 0, .ctor _, _ => halt .outOfFuel
  | fuel + 1, .ctor id, args =>
    match t.constructors[id]? with
    | none => host.handOver (.ctor id) args
    | some c => Stmt.performAll ⟨host.stored, enact host t fuel⟩ args (t.lowered c)

variable {host : Host I} {t : TypeDecl} {id : CtorId}

theorem enact_base (fuel : Nat) (args : List I.Value) : t.enact host fuel .base args = host.handOver .base args := by
  cases fuel <;> rfl

theorem enact_of_none (hid : t.constructors[id]? = none) (fuel : Nat) (args : List I.Value) :
    t.enact host (fuel + 1) (.ctor id) args = host.handOver (.ctor id) args := by
  rw [enact, hid]

theorem enact_of_some {c : Constructor} (hc : t.constructors[id]? = some c) (fuel : Nat) (args : List I.Value) :
    t.enact host (fuel + 1) (.ctor id) args =
      Stmt.performAll ⟨host.stored, t.enact host fuel⟩ args (t.lowered c) := by
  rw [enact, hc]

/-- Running a constructor is enacting it, up to the slots of a stop. -/
theorem forget_enact (t : TypeDecl) (fuel : Nat) (id : CtorId) (args : List I.Value) (σ : I.Store) :
    (t.enact (.plain I) fuel (.ctor id) args).forget σ = t.run I fuel id args σ := by
  induction fuel generalizing id args σ with
  | zero => rfl
  | succ fuel ih =>
    cases hc : t.constructors[id]? with
    | none =>
      rw [enact_of_none hc, run_of_none hc]
      rfl
    | some c =>
      rw [enact_of_some hc, run_succ hc]
      have hbase : ∀ vs σ, (t.enact (.plain I) fuel .base vs).forget σ = .request (.base vs) (I.base vs σ) := by
        intro vs σ
        rw [enact_base]
        funext τ
        exact Ending.forget_ofResult σ _
      exact Host.Fits.forget_performAll ⟨rfl, hbase, ih⟩ (t.lowered c) σ

end TypeDecl

end DeclRecovery
