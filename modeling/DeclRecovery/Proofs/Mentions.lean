import DeclRecovery.Proofs.Shaped

/-!
Which nodes occur in an expression (`Expr.Mentions`) and in the expressions of a statement (`Stmt.Mentions`), told from
the tree alone. What the footprint of an expression lists are the parameters and slots that it mentions, and shapes
neither lose one nor bring one in.
-/

namespace DeclRecovery

/-- Some node of the expression has the given head. -/
inductive Expr.Mentions (node : Head) : Expr → Prop where
  | here {e : Expr} : e.head = node → Mentions node e
  | inside {e c : Expr} : c ∈ e.children → Mentions node c → Mentions node e

/-- Whether the node is one that shapes are written with. -/
def Head.isShape : Head → Bool
  | .conditional | .coalesce | .access _ => true
  | _ => false

namespace Expr

variable {node : Head} {options : Options}

theorem mentions_iff {e : Expr} : e.Mentions node ↔ e.head = node ∨ ∃ c ∈ e.children, c.Mentions node := by
  refine ⟨fun h => ?_, fun h => ?_⟩
  · cases h with
    | here h => exact Or.inl h
    | inside hc h => exact Or.inr ⟨_, hc, h⟩
  · rcases h with h | ⟨c, hc, h⟩
    · exact .here h
    · exact .inside hc h

/-- An aspect is there when one of the nodes has it. -/
theorem footprint_iff_exists_mentions {P : Footprint → Prop} (hP : Footprint.IsAspect P) (e : Expr) :
    P e.footprint ↔ ∃ node, P (.ofHead node) ∧ e.Mentions node := by
  induction e using induct with
  | step e ih =>
    rw [hP.footprint_iff]
    refine ⟨fun h => ?_, fun ⟨node, hnode, h⟩ => ?_⟩
    · rcases h with hhead | ⟨c, hc, h⟩
      · exact ⟨e.head, hhead, .here rfl⟩
      · obtain ⟨node, hnode, h⟩ := (ih c hc).mp h
        exact ⟨node, hnode, .inside hc h⟩
    · rcases mentions_iff.mp h with rfl | ⟨c, hc, h⟩
      · exact Or.inl hnode
      · exact Or.inr ⟨c, hc, (ih c hc).mpr ⟨node, hnode, h⟩⟩

theorem footprint_iff_mentions {P : Footprint → Prop} (hP : Footprint.IsAspect P)
    (hnode : ∀ h, P (.ofHead h) ↔ h = node) (e : Expr) : P e.footprint ↔ e.Mentions node := by
  simp [footprint_iff_exists_mentions hP, hnode]

theorem mem_params_iff {e : Expr} {i : Nat} : i ∈ e.footprint.params ↔ e.Mentions (.param i) := by
  refine footprint_iff_mentions (Footprint.isAspect_params i) (fun h => ?_) e
  cases h <;> simp [Footprint.ofHead, eq_comm]

theorem mem_members_iff {e : Expr} {s : SlotId} : s ∈ e.footprint.members ↔ e.Mentions (.member s) := by
  refine footprint_iff_mentions (Footprint.isAspect_members s) (fun h => ?_) e
  cases h <;> simp [Footprint.ofHead, eq_comm]

theorem readsSelf_iff {e : Expr} : e.footprint.readsSelf = true ↔ e.Mentions .self := by
  refine footprint_iff_mentions Footprint.isAspect_readsSelf (fun h => ?_) e
  cases h <;> simp [Footprint.ofHead]

theorem readsParams_iff {e : Expr} : e.readsParams = true ↔ ∃ i, e.Mentions (.param i) := by
  simp only [readsParams, Footprint.readsParams, PosSet.isEmpty, Bool.not_eq_true', List.isEmpty_eq_false_iff_exists_mem,
    ← mem_params_iff, PosSet.mem_def]

theorem readsInstance_eq_false_iff {e : Expr} :
    e.footprint.readsInstance = false ↔ ¬e.Mentions .self ∧ ∀ s, ¬e.Mentions (.member s) := by
  rw [Footprint.readsInstance, Bool.or_eq_false_iff, ← readsSelf_iff, Bool.not_eq_true, Bool.not_eq_false',
    PosSet.isEmpty, List.isEmpty_iff, List.eq_nil_iff_forall_not_mem]
  exact and_congr_right fun _ => forall_congr' fun s => not_congr mem_members_iff

theorem mentions_param_shape (e : Expr) (i : Nat) : (e.shape options).Mentions (.param i) ↔ e.Mentions (.param i) := by
  rw [← mem_params_iff, ← mem_params_iff]
  exact footprint_shape (Footprint.isAspect_params i) (by simp) (by simp) e

open BranchShape in
/-- A choice in its shape is made of its parts and of nodes that shapes are written with. -/
theorem mentions_of_classify (hnode : node.isShape = false) {c t f : Expr}
    (h : (classify options c t f).toExpr.Mentions node) : c.Mentions node ∨ t.Mentions node ∨ f.Mentions node := by
  have hclassified : Classified c t f (classify options c t f) := classified
  generalize classify options c t f = shape at h hclassified
  have below : ∀ {e : Expr}, e.head.isShape = true → e.Mentions node → ∃ x ∈ e.children, x.Mentions node := by
    intro e hshape he
    rcases mentions_iff.mp he with rfl | hinside
    · rw [hnode] at hshape
      cases hshape
    · exact hinside
  have subject : ∀ {n}, NullChoice.of? c t f = some n → n.subject.Mentions node → c.Mentions node := fun hn hsubject =>
    .inside (((NullChoice.tests hn).children _).mpr (Or.inl rfl)) hsubject
  have whenNull : ∀ {n}, NullChoice.of? c t f = some n → n.whenNull.Mentions node → t.Mentions node ∨ f.Mentions node := by
    intro n hn hnull
    rcases ((NullChoice.tests hn).values _).mpr (Or.inr rfl) with heq | heq
    · exact Or.inl (heq ▸ hnull)
    · exact Or.inr (heq ▸ hnull)
  cases hclassified with
  | conditional => simpa [toExpr, children] using below rfl h
  | @coalesce n choice =>
    have hparts : n.subject.Mentions node ∨ n.whenNull.Mentions node := by simpa [toExpr, children] using below rfl h
    exact hparts.imp (subject choice) (whenNull choice)
  | @access n name _ choice =>
    have htarget : n.subject.Mentions node := by simpa [toExpr, children] using below rfl h
    exact Or.inl (subject choice htarget)
  | @accessOr n name choice =>
    have hparts : (access n.subject name).Mentions node ∨ n.whenNull.Mentions node := by
      simpa [toExpr, children] using below rfl h
    refine hparts.imp (fun haccess => subject choice ?_) (whenNull choice)
    simpa [children] using below rfl haccess

/-- Shapes bring in no other nodes than those they are written with. -/
theorem mentions_of_shape (hnode : node.isShape = false) {e : Expr} (h : (e.shape options).Mentions node) :
    e.Mentions node := by
  induction e using inductSelect with
  | select c t f hc ht hf =>
    rw [shape_select] at h
    rcases mentions_of_classify hnode h with h | h | h
    · exact .inside (by simp [children]) (hc h)
    · exact .inside (by simp [children]) (ht h)
    · exact .inside (by simp [children]) (hf h)
  | other e hhead ih =>
    obtain ⟨hhead, hchildren⟩ := shape_of_ne_select options hhead
    rw [mentions_iff, hhead, hchildren] at h
    rcases h with h | ⟨x, hx, h⟩
    · exact .here h
    · obtain ⟨c, hc, rfl⟩ := List.mem_map.mp hx
      exact .inside hc (ih c hc h)

theorem mayThrow_of_shape {e : Expr} (h : (e.shape options).footprint.mayThrow = true) : e.footprint.mayThrow = true := by
  obtain ⟨node, hnode, h⟩ := (footprint_iff_exists_mentions Footprint.isAspect_mayThrow _).mp h
  have hshape : node.isShape = false := by
    cases node with
    | conditional | coalesce | access => cases hnode
    | _ => rfl
  exact (footprint_iff_exists_mentions Footprint.isAspect_mayThrow e).mpr ⟨node, hnode, mentions_of_shape hshape h⟩

end Expr

namespace Stmt

mutual

/-- The expressions that stand in a statement, inside of branches, too. -/
def exprs : Stmt → List Expr
  | assign _ value => [value]
  | delegate call => call.args
  | eval value => [value]
  | branch cond t e => cond :: (exprsEach t ++ exprsEach e)
  | raise value => [value]

def exprsEach : List Stmt → List Expr
  | [] => []
  | s :: ss => exprs s ++ exprsEach ss

end

def Mentions (node : Head) (s : Stmt) : Prop := ∃ e ∈ s.exprs, e.Mentions node

variable {options : Options}

theorem mem_exprsEach {block : List Stmt} {x : Expr} : x ∈ exprsEach block ↔ ∃ s ∈ block, x ∈ s.exprs := by
  induction block with
  | nil => simp [exprsEach]
  | cons s block ih => simp [exprsEach, ih]

/-- A single store mentions what the stored value mentions. -/
theorem mentions_of_singleStore? {s : Stmt} {slot : SlotId} {value : Expr} (h : s.singleStore? = some (slot, value))
    {i : Nat} (hvalue : value.Mentions (.param i)) : s.Mentions (.param i) := by
  rcases singleStore?_cases h with rfl | ⟨c, a, b, rfl, rfl⟩
  · exact ⟨value, by simp [exprs], hvalue⟩
  · -- The choice itself is no parameter, so one of its three parts has it.
    rcases Expr.mentions_iff.mp hvalue with hhead | ⟨x, hx, hmentions⟩
    · cases hhead
    · exact ⟨x, by simpa [exprs, exprsEach, Expr.children] using hx, hmentions⟩

section Footprint
open Footprint

-- As for expressions: choices, fields and comparisons with null have nothing of the aspect themselves.
variable {P : Footprint → Prop} (hP : IsAspect P) (hnone : ¬P {}) (hthrow : ¬P { mayThrow := true })
include hP hnone hthrow

theorem footprint_exprs_shapedBranch (c : Expr) (t e : List Stmt) :
    (∃ x ∈ (shapedBranch options c t e).exprs, P x.footprint) ↔
      P c.footprint ∨ (∃ x ∈ exprsEach t, P x.footprint) ∨ ∃ x ∈ exprsEach e, P x.footprint := by
  rcases shapedBranch_cases options c t e with h | ⟨slot, a, b, rfl, rfl, h⟩
  · simp [h, exprs, or_and_right, exists_or]
  · simp [h, exprs, exprsEach, Expr.footprint_classify hP hnone hthrow]

theorem footprint_exprs_shape (s : Stmt) :
    (∃ x ∈ (s.shape options).exprs, P x.footprint) ↔ ∃ x ∈ s.exprs, P x.footprint := by
  have hexpr : ∀ e : Expr, P (e.shape options).footprint ↔ P e.footprint := Expr.footprint_shape hP hnone hthrow
  induction s using induct with
  | branch c t e iht ihe =>
    have hblock : ∀ {block : List Stmt},
        (∀ s ∈ block, (∃ x ∈ (s.shape options).exprs, P x.footprint) ↔ ∃ x ∈ s.exprs, P x.footprint) →
          ((∃ x ∈ exprsEach (shapeBlock options block), P x.footprint) ↔ ∃ x ∈ exprsEach block, P x.footprint) := by
      intro block ih
      simp only [mem_exprsEach, shapeBlock_eq, List.mem_map]
      constructor
      · rintro ⟨x, ⟨_, ⟨s, hs, rfl⟩, hx⟩, hfoot⟩
        obtain ⟨y, hy, hfoot⟩ := (ih s hs).mp ⟨x, hx, hfoot⟩
        exact ⟨y, ⟨s, hs, hy⟩, hfoot⟩
      · rintro ⟨x, ⟨s, hs, hx⟩, hfoot⟩
        obtain ⟨y, hy, hfoot⟩ := (ih s hs).mpr ⟨x, hx, hfoot⟩
        exact ⟨y, ⟨_, ⟨s, hs, rfl⟩, hy⟩, hfoot⟩
    rw [shape, footprint_exprs_shapedBranch hP hnone hthrow, hexpr, hblock iht, hblock ihe]
    simp [exprs, or_and_right, exists_or]
  | _ => simp [shape, exprs, hexpr]

end Footprint

theorem mentions_param_shape (s : Stmt) (i : Nat) : (s.shape options).Mentions (.param i) ↔ s.Mentions (.param i) := by
  simp only [Mentions, ← Expr.mem_params_iff]
  exact footprint_exprs_shape (Footprint.isAspect_params i) (by simp) (by simp) s

end Stmt

end DeclRecovery
