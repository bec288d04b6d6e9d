import DeclRecovery.Proofs.Footprints
import DeclRecovery.Proofs.Lowering
import DeclRecovery.Reconstruction.Stage

/-!
The shape of an expression or a statement: what each node becomes, and what stays as it is.
-/

namespace DeclRecovery

namespace Expr

theorem head_withChildren (e : Expr) (cs : List Expr) : (e.withChildren cs).head = e.head := by
  unfold withChildren
  split <;> rfl

theorem children_withChildren {e : Expr} {cs : List Expr} (h : cs.length = e.children.length) :
    (e.withChildren cs).children = cs := by
  cases e with
  | literal | param | self | member =>
    cases List.length_eq_zero_iff.mp h
    rfl
  | call | new => rfl
  | invoke receiver callee args =>
    cases cs with
    | nil => cases h
    | cons => rfl
  | field | unary | convert | access | raise =>
    obtain ⟨a, rfl⟩ := List.length_eq_one_iff.mp h
    rfl
  | binary | coalesce =>
    obtain ⟨a, b, rfl⟩ := List.length_eq_two.mp h
    rfl
  | select | conditional =>
    obtain ⟨a, b, c, rfl⟩ := List.length_eq_three.mp h
    rfl

variable {options : Options}

theorem shape_eq (e : Expr) :
    e.shape options = shapeNode options (e.withChildren (e.children.map (shape options))) := bottomUp_eq _ e

@[simp] theorem shape_select (c t f : Expr) : (select c t f).shape options =
    (BranchShape.classify options (c.shape options) (t.shape options) (f.shape options)).toExpr :=
  shape_eq _

@[simp] theorem shape_conditional (c t f : Expr) :
    (conditional c t f).shape options = .conditional (c.shape options) (t.shape options) (f.shape options) :=
  shape_eq _

@[simp] theorem shape_coalesce (a b : Expr) :
    (coalesce a b).shape options = .coalesce (a.shape options) (b.shape options) :=
  shape_eq _

@[simp] theorem shape_binary (op : BinaryOp) (a b : Expr) :
    (binary op a b).shape options = .binary op (a.shape options) (b.shape options) :=
  shape_eq _

@[simp] theorem shape_access (e : Expr) (name : String) :
    (access e name).shape options = .access (e.shape options) name :=
  shape_eq _

/-- A node that is no choice stays, over shaped children. -/
theorem shape_of_ne_select (options : Options) {e : Expr} (h : e.head ≠ .select) :
    (e.shape options).head = e.head ∧ (e.shape options).children = e.children.map (shape options) := by
  have hnode : ∀ e : Expr, e.head ≠ .select → shapeNode options e = e := by
    intro e he
    cases e with
    | select => exact absurd rfl he
    | _ => rfl
  rw [shape_eq, hnode _ (by rwa [head_withChildren]), head_withChildren, children_withChildren (List.length_map _)]
  exact ⟨rfl, rfl⟩

/-- Induction that tells choices from all other nodes, which stay what they are. -/
theorem inductSelect {motive : Expr → Prop} (select : ∀ c t f, motive c → motive t → motive f → motive (.select c t f))
    (other : ∀ e, e.head ≠ .select → (∀ c ∈ e.children, motive c) → motive e) (e : Expr) : motive e := by
  induction e using induct with
  | step e ih =>
    by_cases h : e.head = .select
    · cases e with
      | select c t f => exact select c t f (ih c (by simp [children])) (ih t (by simp [children])) (ih f (by simp [children]))
      | _ => cases h
    · exact other e h ih

end Expr

namespace BranchShape

variable {options : Options} {cond thenValue elseValue : Expr}

/-- How a choice came by its shape. -/
inductive Classified (cond thenValue elseValue : Expr) : BranchShape → Prop
  | conditional : Classified cond thenValue elseValue (.conditional cond thenValue elseValue)
  | coalesce {n : NullChoice} (choice : NullChoice.of? cond thenValue elseValue = some n)
      (present : n.whenPresent = n.subject) (duplicable : n.subject.isDuplicable = true) :
      Classified cond thenValue elseValue (.coalesce n.subject n.whenNull)
  | access {n : NullChoice} {name : String} {nonNull : Bool}
      (choice : NullChoice.of? cond thenValue elseValue = some n)
      (present : n.whenPresent = .field n.subject name nonNull) (duplicable : n.subject.isDuplicable = true)
      (null : n.whenNull = .literal .null) : Classified cond thenValue elseValue (.access n.subject name none)
  | accessOr {n : NullChoice} {name : String} (choice : NullChoice.of? cond thenValue elseValue = some n)
      (present : n.whenPresent = .field n.subject name true) (duplicable : n.subject.isDuplicable = true) :
      Classified cond thenValue elseValue (.access n.subject name (some n.whenNull))

theorem classified_of_coalesce? {n : NullChoice} (hchoice : NullChoice.of? cond thenValue elseValue = some n)
    {shape : BranchShape} (h : coalesce? n = some shape) : Classified cond thenValue elseValue shape := by
  unfold coalesce? at h
  split at h
  · next hcond =>
    cases h
    exact .coalesce hchoice hcond.1 hcond.2.1
  · cases h

theorem classified_of_access? {n : NullChoice} (hchoice : NullChoice.of? cond thenValue elseValue = some n)
    {shape : BranchShape} (h : access? n = some shape) : Classified cond thenValue elseValue shape := by
  unfold access? at h
  split at h
  · next target name nonNull hpresent =>
    split at h
    · next hsubject =>
      rw [hsubject.1] at hpresent
      split at h
      · next hnull =>
        cases h
        exact .access hchoice hpresent hsubject.2 hnull
      · split at h
        · next hnonNull =>
          cases h
          exact .accessOr hchoice (hnonNull.1 ▸ hpresent) hsubject.2
        · cases h
    · cases h
  · cases h

theorem classified : Classified cond thenValue elseValue (classify options cond thenValue elseValue) := by
  unfold classify
  dsimp only
  cases hshape : Option.or _ _ with
  | none => exact .conditional
  | some shape =>
    rw [Option.getD_some]
    rcases Option.or_eq_some_iff.mp hshape with h | ⟨-, h⟩
    · rw [Option.ite_none_right_eq_some] at h
      obtain ⟨n, hchoice, hn⟩ := Option.bind_eq_some_iff.mp h.2
      exact classified_of_coalesce? hchoice hn
    · rw [Option.ite_none_right_eq_some] at h
      obtain ⟨n, hchoice, hn⟩ := Option.bind_eq_some_iff.mp h.2
      exact classified_of_access? hchoice hn

end BranchShape

/-- The call with its arguments in shape. -/
def Delegation.shape (options : Options) (call : Delegation) : Delegation :=
  { call with args := call.args.map (·.shape options) }

namespace Stmt

variable {options : Options}

/-- A branch stays one, or both sides are a store of the same slot. -/
theorem shapedBranch_cases (options : Options) (c : Expr) (t e : List Stmt) :
    shapedBranch options c t e = branch c t e ∨ ∃ slot a b, t = [assign slot a] ∧ e = [assign slot b] ∧
      shapedBranch options c t e = assign slot (BranchShape.classify options c a b).toExpr := by
  unfold shapedBranch
  split
  · next slot a other b =>
    split
    · next hslot =>
      subst hslot
      exact Or.inr ⟨slot, a, b, rfl, rfl, rfl⟩
    · exact Or.inl rfl
  · exact Or.inl rfl

theorem delegation?_shapedBranch (c : Expr) (t e : List Stmt) : (shapedBranch options c t e).delegation? = none := by
  rcases shapedBranch_cases options c t e with h | ⟨slot, a, b, -, -, h⟩ <;> rw [h] <;> rfl

theorem delegation?_shape (s : Stmt) : (s.shape options).delegation? = s.delegation?.map (·.shape options) := by
  cases s with
  | branch c t e =>
    rw [shape, delegation?_shapedBranch]
    rfl
  | _ =>
    rw [shape]
    rfl

theorem isSome_delegation?_shape (s : Stmt) : (s.shape options).delegation?.isSome = s.delegation?.isSome := by
  rw [delegation?_shape, Option.isSome_map]

theorem anyDelegation_eq (block : List Stmt) :
    anyDelegation block = block.any fun s => s.delegation?.isSome || s.hasNestedDelegation := by
  induction block with
  | nil => rfl
  | cons s block ih => rw [anyDelegation, ih, List.any_cons]

/-- Shapes neither add nor remove delegations inside of branches. -/
theorem hasNestedDelegation_shape (s : Stmt) : (s.shape options).hasNestedDelegation = s.hasNestedDelegation := by
  have block : ∀ {block : List Stmt}, (∀ s ∈ block, (s.shape options).hasNestedDelegation = s.hasNestedDelegation) →
      anyDelegation (shapeBlock options block) = anyDelegation block := by
    intro block h
    rw [anyDelegation_eq, anyDelegation_eq, shapeBlock_eq, List.any_map, Bool.eq_iff_iff, List.any_eq_true, List.any_eq_true]
    refine exists_congr fun s => and_congr_right fun hs => ?_
    rw [Function.comp_apply, isSome_delegation?_shape, h s hs]
  induction s using induct with
  | branch c t e iht ihe =>
    rw [hasNestedDelegation, ← block iht, ← block ihe, shape]
    rcases shapedBranch_cases options (c.shape options) (shapeBlock options t) (shapeBlock options e) with
      h | ⟨_, _, _, ht, he, h⟩
    · rw [h, hasNestedDelegation]
    · rw [h, ht, he]
      rfl
  | _ => rfl

theorem shapeBlock_eq_nil_iff {block : List Stmt} : shapeBlock options block = [] ↔ block = [] := by
  rw [shapeBlock_eq, List.map_eq_nil_iff]

theorem shape_eq_base_iff {s : Stmt} {args : List Expr} :
    s.shape options = .base args ↔ ∃ given, s = .base given ∧ given.map (·.shape options) = args := by
  cases s with
  | delegate call =>
    obtain ⟨target, given⟩ := call
    simp [shape, base, eq_comm]
  | branch c t e =>
    rw [shape]
    rcases shapedBranch_cases options (c.shape options) (shapeBlock options t) (shapeBlock options e) with
      h | ⟨_, _, _, -, -, h⟩ <;> simp [h, base]
  | _ => simp [shape, base]

/-- Nothing but a base call is the shape of nothing but a base call. -/
theorem shapeBlock_eq_base_iff {block : List Stmt} {args : List Expr} :
    shapeBlock options block = [.base args] ↔ ∃ given, block = [.base given] ∧ given.map (·.shape options) = args := by
  rw [shapeBlock_eq, List.map_eq_singleton_iff]
  simp only [shape_eq_base_iff]
  constructor
  · rintro ⟨_, rfl, given, rfl, hargs⟩
    exact ⟨given, rfl, hargs⟩
  · rintro ⟨given, rfl, hargs⟩
    exact ⟨_, rfl, given, rfl, hargs⟩

/-- A single store becomes an assignment of the value in its shape. -/
theorem shape_of_singleStore? {s : Stmt} {slot : SlotId} {value : Expr} (h : s.singleStore? = some (slot, value)) :
    s.shape options = assign slot (value.shape options) := by
  rcases singleStore?_cases h with rfl | ⟨c, a, b, rfl, rfl⟩
  · rw [shape]
  · simp [shape, shapeBlock, shapedBranch]

end Stmt

namespace Constructor

variable {options : Options}

/-- The constructor with its body in its shape. -/
def shape (options : Options) (c : Constructor) : Constructor := { c with body := Stmt.shapeBlock options c.body }

theorem delegation?_shape (c : Constructor) :
    (c.shape options).delegation? = c.delegation?.map fun x => (x.1, x.2.shape options) := by
  rw [delegation?, delegation?, shape, Stmt.shapeBlock_eq, delegationIn?, delegationIn?, List.zipIdx_map,
    List.findSome?_map, List.map_findSome?]
  congr 1
  funext x
  simp [Stmt.delegation?_shape, Function.comp_def]

theorem chainTarget?_shape (c : Constructor) : (c.shape options).chainTarget? = c.chainTarget? := by
  rw [chainTarget?, chainTarget?, delegation?_shape]
  rcases c.delegation? with _ | ⟨_, _ | _, _⟩ <;> rfl

theorem runsInitializers_shape (c : Constructor) : (c.shape options).runsInitializers = c.runsInitializers := by
  rw [runsInitializers, runsInitializers, chainTarget?_shape]
  rfl

end Constructor

namespace TypeDecl

variable {options : Options}

theorem initializers_shape (t : TypeDecl) :
    (t.shape options).initializers = t.initializers.map fun x => (x.1, x.2.shape options) := by
  simp [initializers, shape, List.zipIdx_map, List.filterMap_map, List.map_filterMap, Function.comp_def]

theorem lowered_shape (t : TypeDecl) (c : Constructor) :
    (t.shape options).lowered (c.shape options) = Stmt.shapeBlock options (t.lowered c) := by
  have hstore : Stmt.shape options ∘ Stmt.ofStore = Stmt.ofStore ∘ fun x => (x.1, x.2.shape options) := by
    funext x
    simp [Stmt.ofStore, Stmt.shape]
  rw [lowered, lowered, Constructor.runsInitializers_shape, initializers_shape, Stmt.shapeBlock_eq, List.map_append,
    Constructor.shape, Stmt.shapeBlock_eq]
  split
  · rw [List.map_map, List.map_map, hstore]
  · rfl

theorem getElem?_shape_constructors (options : Options) (t : TypeDecl) (id : CtorId) :
    (t.shape options).constructors[id]? = t.constructors[id]?.map (Constructor.shape options) := by
  rw [shape, List.getElem?_map]
  rfl

end TypeDecl

/-- Shapes leave the chain as it is. -/
theorem Chain.build_shape {options : Options} {t : TypeDecl} {chain : Chain} (h : build t = .ok chain) :
    build (t.shape options) = .ok chain := by
  refine build_congr h (fun id => ?_) fun id c c' hc hc' => ?_
  · rw [TypeDecl.getElem?_shape_constructors, Option.map_map]
    congr 1
    funext c
    rw [Function.comp_apply, Constructor.chainTarget?_shape]
    rfl
  · rw [TypeDecl.getElem?_shape_constructors, hc, Option.map_some, Option.some_inj] at hc'
    rw [← hc', Constructor.shape, Stmt.shapeBlock_eq, List.countP_map, List.any_map]
    refine ⟨Nat.le_of_eq ?_, fun hflat => ?_⟩
    · simp only [Function.comp_def, Stmt.isSome_delegation?_shape]
    · simpa only [Function.comp_def, Stmt.hasNestedDelegation_shape] using hflat

end DeclRecovery
