import DeclRecovery.Proofs.Lowering
import Mathlib.Data.List.Forall2

/-!
What constructors are run with. An interpretation gives the values of the language, the world outside of the
instance, and the meaning of everything that the code under reconstruction does not decide: literals, operators,
callees, the base constructor. A computation takes the world from one state to another, records what it asks of the
outside, and ends with a result or a reason to stop.

One computation refines another when it does the same wherever the other is defined (`Effect.Refines`).
-/

namespace DeclRecovery

/-- The language and the world around a type. A failed operation gives the exception that it throws. -/
structure Interp where
  Value : Type
  World : Type
  literal : Literal → Value
  /-- A parameter for which there is no argument. -/
  absent : Value
  /-- The instance under construction as a value, by what its slots hold. -/
  self : (SlotId → Value) → Value
  isNull : Value → Bool
  isTrue : Value → Bool
  unary : UnaryOp → Value → Value
  binary : BinaryOp → Value → Value → Value
  divide : BinaryOp → Value → Value → Except Value Value
  convert : String → Value → Except Value Value
  /-- What a pure callee computes from its receiver, if it has one, and its arguments. -/
  apply : String → Option Value → List Value → Value
  /-- What any other callee does. -/
  perform : String → Option Value → List Value → World → Except Value Value × World
  create : String → List Value → World → Except Value Value × World
  /-- What the base constructor does to the slots and to the world. -/
  base : List Value → (SlotId → Value) → World → Except Value (SlotId → Value) × World
  /-- The member of an object that is not null. -/
  read : World → Value → String → Value
  /-- What is thrown when null is used as an object. -/
  nullReference : Value
  /-- What a slot holds before anything is stored. -/
  zero : SlotId → Value
  /-- What a slot holds once a value is stored. -/
  stored : SlotId → Value → Value
  isNull_null : isNull (literal .null) = true
  isTrue_eq_null : ∀ v, isTrue (binary .eq v (literal .null)) = isNull v
  isTrue_null_eq : ∀ v, isTrue (binary .eq (literal .null) v) = isNull v
  isTrue_ne_null : ∀ v, isTrue (binary .ne v (literal .null)) = !isNull v
  isTrue_null_ne : ∀ v, isTrue (binary .ne (literal .null) v) = !isNull v

namespace Interp

/-- What the slots of an instance hold. -/
abbrev Store (I : Interp) : Type := SlotId → I.Value

/-- Whatever type a slot has, it starts with what any zero would store in it. -/
def StartsZeroed (I : Interp) : Prop := ∀ slot (l : Literal), l.isZero = true → I.stored slot (I.literal l) = I.zero slot

/-- What is asked of the outside. -/
inductive Event (I : Interp) where
  | call (name : String) (receiver : Option I.Value) (args : List I.Value)
  | new (type : String) (args : List I.Value)
  | base (args : List I.Value)

/-- The world, and the events that led to it. -/
structure Trace (I : Interp) where
  world : I.World
  events : List I.Event

/-- Why a run ends before its end. -/
inductive Stop (I : Interp) where
  | thrown (exception : I.Value)
  /-- Nothing is said about what happens: a member that is never null was null, or a constructor is missing. -/
  | undefined
  | outOfFuel

end Interp

/-- A computation in a world. -/
def Effect (I : Interp) (α : Type) : Type := I.Trace → Except I.Stop α × I.Trace

namespace Effect

variable {I : Interp} {α β : Type}

instance : Monad (Effect I) where
  pure a τ := (.ok a, τ)
  bind m f τ :=
    match m τ with
    | (.ok a, τ') => f a τ'
    | (.error stop, τ') => (.error stop, τ')

theorem bind_of_ok {m : Effect I α} {f : α → Effect I β} {τ τ' : I.Trace} {a : α} (h : m τ = (.ok a, τ')) :
    (m >>= f) τ = f a τ' := by
  simp only [bind, h]

theorem bind_of_error {m : Effect I α} {f : α → Effect I β} {τ τ' : I.Trace} {stop : I.Stop}
    (h : m τ = (.error stop, τ')) : (m >>= f) τ = (.error stop, τ') := by
  simp only [bind, h]

theorem exists_of_bind_eq_ok {m : Effect I α} {f : α → Effect I β} {τ τ' : I.Trace} {b : β}
    (h : (m >>= f) τ = (.ok b, τ')) : ∃ a τ₁, m τ = (.ok a, τ₁) ∧ f a τ₁ = (.ok b, τ') := by
  rcases hm : m τ with ⟨s | a, τ₁⟩
  · rw [bind_of_error hm] at h
    cases h
  · rw [bind_of_ok hm] at h
    exact ⟨a, τ₁, rfl, h⟩

theorem bind_assoc' (m : Effect I α) (f : α → Effect I β) {γ : Type} (g : β → Effect I γ) :
    m >>= f >>= g = m >>= fun a => f a >>= g := by
  funext τ
  rcases h : m τ with ⟨stop | a, τ'⟩
  · rw [bind_of_error h, bind_of_error (bind_of_error h)]
  · rw [bind_of_ok h]
    simp only [bind, h]

theorem bind_pure' (m : Effect I α) : m >>= pure = m := by
  funext τ
  rcases h : m τ with ⟨_ | a, τ'⟩
  · exact bind_of_error h
  · exact bind_of_ok h

instance : LawfulMonad (Effect I) :=
  LawfulMonad.mk' (Effect I) bind_pure' (fun _ _ => rfl) fun m f g => bind_assoc' m f g

/-- Ends the run. -/
def stop (s : I.Stop) : Effect I α := fun τ => (.error s, τ)

/-- The value of an operation that needs no world, or its exception. -/
def ofExcept : Except I.Value α → Effect I α
  | .ok a => pure a
  | .error exception => stop (.thrown exception)

/-- Asks something of the outside. -/
def request (event : I.Event) (f : I.World → Except I.Value α × I.World) : Effect I α := fun τ =>
  match f τ.world with
  | (.ok a, w) => (.ok a, ⟨w, τ.events ++ [event]⟩)
  | (.error exception, w) => (.error (.thrown exception), ⟨w, τ.events ++ [event]⟩)

/-- Looks at the world and leaves it as it is. -/
def observe (f : I.World → α) : Effect I α := fun τ => (.ok (f τ.world), τ)

theorem observe_bind (f : I.World → α) (g : α → Effect I β) (τ : I.Trace) : (observe f >>= g) τ = g (f τ.world) τ := rfl

/-- What `f` finds where a computation comes to its end; nothing if it stops before. -/
def after (m : Effect I α) (τ : I.Trace) (f : α → I.Trace → List β) : List β :=
  match m τ with
  | (.ok a, τ') => f a τ'
  | (.error _, _) => []

theorem after_of_ok {m : Effect I α} {τ τ' : I.Trace} {a : α} (h : m τ = (.ok a, τ')) (f : α → I.Trace → List β) :
    after m τ f = f a τ' := by
  rw [after, h]

theorem exists_of_mem_after {m : Effect I α} {τ : I.Trace} {f : α → I.Trace → List β} {b : β} (h : b ∈ after m τ f) :
    ∃ a τ', m τ = (.ok a, τ') ∧ b ∈ f a τ' := by
  rw [after] at h
  split at h
  · next a τ' hm => exact ⟨a, τ', hm, h⟩
  · cases h

/-- Runs computations one after the other and collects what they give. -/
def inOrder : List (Effect I α) → Effect I (List α)
  | [] => pure []
  | m :: ms => do
    let a ← m
    return a :: (← inOrder ms)

/-! ### Properties of every step -/

/-- A property that a computation has if all of its steps have it. -/
structure Stepwise (Q : ∀ {α : Type}, Effect I α → Prop) : Prop where
  pure {α : Type} (a : α) : Q (pure a : Effect I α)
  bind {α β : Type} {m : Effect I α} {f : α → Effect I β} : Q m → (∀ a, Q (f a)) → Q (m >>= f)

theorem Stepwise.inOrder_bind {Q : ∀ {α : Type}, Effect I α → Prop} (hQ : Stepwise Q) {ms : List (Effect I α)}
    {f : List α → Effect I β} (hms : ∀ m ∈ ms, Q m) (hf : ∀ as, as.length = ms.length → Q (f as)) :
    Q (inOrder ms >>= f) := by
  induction ms generalizing f with
  | nil =>
    rw [inOrder, pure_bind]
    exact hf [] rfl
  | cons m ms ih =>
    simp only [inOrder, bind_assoc, pure_bind]
    refine hQ.bind (hms m List.mem_cons_self) fun a => ?_
    exact ih (fun m' hm' => hms m' (List.mem_cons_of_mem m hm')) fun as has => hf (a :: as) (by simp [has])

theorem stepwise_pure : Stepwise (I := I) fun m => ∃ a, m = pure a where
  pure a := ⟨a, rfl⟩
  bind := by
    rintro _ _ _ f ⟨a, rfl⟩ hf
    obtain ⟨b, hb⟩ := hf a
    exact ⟨b, by rw [pure_bind, hb]⟩

theorem stepwise_observe : Stepwise (I := I) fun m => ∃ f, m = observe f where
  pure a := ⟨fun _ => a, rfl⟩
  bind := by
    rintro _ _ _ g ⟨f, rfl⟩ hg
    choose h hh using hg
    refine ⟨fun w => h (f w) w, ?_⟩
    funext τ
    rw [observe_bind, hh]
    rfl

/-! ### Computations that change nothing -/

/-- Whatever comes of the computation, the world stays as it is and nothing is asked of the outside. -/
def Still (m : Effect I α) : Prop := ∀ τ, (m τ).2 = τ

theorem still_pure (a : α) : Still (pure a : Effect I α) := fun _ => rfl

theorem still_stop (s : I.Stop) : Still (stop s : Effect I α) := fun _ => rfl

theorem still_observe (f : I.World → α) : Still (observe f : Effect I α) := fun _ => rfl

theorem still_ofExcept (x : Except I.Value α) : Still (ofExcept x : Effect I α) := by
  cases x with
  | error => exact still_stop _
  | ok => exact still_pure _

theorem Still.bind {m : Effect I α} {f : α → Effect I β} (hm : Still m) (hf : ∀ a, Still (f a)) : Still (m >>= f) := by
  intro τ
  have hτ := hm τ
  rcases h : m τ with ⟨s | a, τ'⟩
  · rw [bind_of_error h]
    rw [h] at hτ
    exact hτ
  · rw [bind_of_ok h, hf a]
    rw [h] at hτ
    exact hτ

theorem Still.ite {c : Prop} [Decidable c] {m m' : Effect I α} (hm : Still m) (hm' : Still m') :
    Still (if c then m else m') := by
  split
  · exact hm
  · exact hm'

theorem stepwise_still : Stepwise (I := I) Still where
  pure := still_pure
  bind := Still.bind

/-! ### Computations in either order -/

/-- It makes no difference which of two computations runs first, whatever is done with what they give. -/
def Swaps (m : Effect I α) (n : Effect I β) : Prop :=
  ∀ ⦃γ : Type⦄ (k : α → β → Effect I γ), (m >>= fun a => n >>= fun b => k a b) = n >>= fun b => m >>= fun a => k a b

theorem Swaps.symm {m : Effect I α} {n : Effect I β} (h : Swaps m n) : Swaps n m :=
  fun _ k => (h fun a b => k b a).symm

theorem swaps_pure (a : α) (n : Effect I β) : Swaps (pure a) n := by
  intro γ k
  simp only [pure_bind]

/-- A look at the world can be taken before or after anything that leaves the world as it is. -/
theorem swaps_observe (f : I.World → α) {n : Effect I β} (hn : Still n) : Swaps (observe f) n := by
  intro γ k
  funext τ
  have hτ := hn τ
  rw [observe_bind]
  rcases h : n τ with ⟨s | b, τ'⟩
  · rw [bind_of_error h, bind_of_error h]
  · rw [h] at hτ
    cases hτ
    rw [bind_of_ok h, bind_of_ok h, observe_bind]

/-! ### Refinement -/

/-- In the world of `τ`, the computation `m'` does the same as `m`, unless nothing is said about what `m` does there. -/
def RefinesAt (τ : I.Trace) (m m' : Effect I α) : Prop := (m τ).1 = .error .undefined ∨ m' τ = m τ

namespace RefinesAt

variable {τ : I.Trace}

theorem refl (m : Effect I α) : RefinesAt τ m m := Or.inr rfl

theorem trans {m m' m'' : Effect I α} (h : RefinesAt τ m m') (h' : RefinesAt τ m' m'') : RefinesAt τ m m'' := by
  rcases h with hundef | heq
  · exact Or.inl hundef
  · rcases h' with hundef' | heq'
    · exact Or.inl (heq ▸ hundef')
    · exact Or.inr (heq'.trans heq)

theorem bind {m m' : Effect I α} {f f' : α → Effect I β} (hm : RefinesAt τ m m')
    (hf : ∀ a τ', m τ = (.ok a, τ') → RefinesAt τ' (f a) (f' a)) : RefinesAt τ (m >>= f) (m' >>= f') := by
  rcases h : m τ with ⟨s | a, τ'⟩
  · rw [RefinesAt, bind_of_error h]
    rcases hm with hundef | heq
    · rw [h] at hundef
      cases hundef
      exact Or.inl rfl
    · exact Or.inr (bind_of_error (heq.trans h))
  · rcases hm with hundef | heq
    · rw [h] at hundef
      cases hundef
    · rw [RefinesAt, bind_of_ok h, bind_of_ok (heq.trans h)]
      exact hf a τ' h

end RefinesAt

/-- The computation `m'` does the same as `m`, unless nothing is said about what `m` does. -/
def Refines (m m' : Effect I α) : Prop := ∀ τ, RefinesAt τ m m'

namespace Refines

theorem refl (m : Effect I α) : Refines m m := fun _ => .refl m

theorem of_eq {m m' : Effect I α} (h : m = m') : Refines m m' := h ▸ refl m

theorem undefined (m : Effect I α) : Refines (stop .undefined) m := fun _ => Or.inl rfl

theorem trans {m m' m'' : Effect I α} (h : Refines m m') (h' : Refines m' m'') : Refines m m'' :=
  fun τ => (h τ).trans (h' τ)

theorem bind {m m' : Effect I α} {f f' : α → Effect I β} (hm : Refines m m') (hf : ∀ a, Refines (f a) (f' a)) :
    Refines (m >>= f) (m' >>= f') :=
  fun τ => (hm τ).bind fun a τ' _ => hf a τ'

/-- After a computation that changes nothing, the world is one in which it would give the same again. -/
theorem bind_still {m : Effect I α} {f f' : α → Effect I β} (hm : Still m)
    (h : ∀ a τ, m τ = (.ok a, τ) → (f a τ).1 = .error .undefined ∨ f' a τ = f a τ) :
    Refines (m >>= f) (m >>= f') := by
  intro τ
  refine (RefinesAt.refl m).bind fun a τ' hmτ => ?_
  have hτ := hm τ
  rw [hmτ] at hτ
  cases hτ
  exact h a τ' hmτ

theorem ite {c : Prop} [Decidable c] {m₁ m₂ m₁' m₂' : Effect I α} (h₁ : Refines m₁ m₁') (h₂ : Refines m₂ m₂') :
    Refines (if c then m₁ else m₂) (if c then m₁' else m₂') := by
  split
  · exact h₁
  · exact h₂

theorem inOrder {ms ms' : List (Effect I α)} (h : List.Forall₂ Refines ms ms') :
    Refines (inOrder ms) (inOrder ms') := by
  induction h with
  | nil => exact refl _
  | cons hm _ ih => exact hm.bind fun a => ih.bind fun _ => refl _

end Refines

end Effect

/-- Numbers with null, in a world that counts what is asked of it. -/
def Interp.counting : Interp where
  Value := Option Int
  World := Int
  literal
    | .null => none
    | .bool b => some b.toNat
    | .int n => some n
    | .str s => some s.length
    | .default _ => some 0
  absent := none
  self _ := some 0
  isNull v := v.isNone
  isTrue v := v.any (· != 0)
  unary
    | .not, v => some (!v.any (· != 0)).toNat
    | .neg, v => v.map (- ·)
  binary
    | .eq, v, w => some (v == w).toNat
    | .ne, v, w => some (v != w).toNat
    | _, v, w => some (v.getD 0 + w.getD 0)
  divide _ v w := if w.getD 0 = 0 then .error none else .ok (some (v.getD 0 / w.getD 0))
  convert _ v := .ok v
  apply _ _ args := some args.length
  perform _ _ _ w := (.ok (some w), w + 1)
  create _ _ w := (.ok (some w), w + 1)
  base _ σ w := (.ok σ, w + 1)
  read w _ _ := some w
  nullReference := none
  zero _ := some 0
  stored _ v := some (v.getD 0)
  isNull_null := rfl
  isTrue_eq_null v := by cases v <;> rfl
  isTrue_null_eq v := by cases v <;> rfl
  isTrue_ne_null v := by cases v <;> rfl
  isTrue_null_ne v := by cases v <;> rfl

theorem Interp.counting_startsZeroed : Interp.counting.StartsZeroed := by
  intro slot l h
  cases l with
  | bool b => cases b with
    | false => rfl
    | true => cases h
  | int n => cases beq_iff_eq.mp h; rfl
  | str => cases h
  | null | default => rfl

end DeclRecovery
