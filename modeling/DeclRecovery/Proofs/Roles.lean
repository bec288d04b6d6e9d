import DeclRecovery.Proofs.Likeness
import DeclRecovery.Proofs.Mentions

/-!
When exactly two stored values count as the same (`Site.alike_iff`): they are the same expression, it is no higher than
the bound allows (`Expr.height`), and each parameter that it reads plays the same role for both constructors
(`Parameter.Corresponds`).
-/

namespace DeclRecovery

/-! ### Heights -/

namespace Expr

/-- The number of levels under the root: none for a leaf, and one more than the highest child has. -/
def height : Expr → Nat := para fun _ heights => heights.max?.elim 0 (· + 1)

theorem height_le_iff {e : Expr} {d : Nat} : e.height ≤ d ↔ ∀ c ∈ e.children, c.height < d := by
  have hheight : e.height = (e.children.map height).max?.elim 0 (· + 1) := para_eq ..
  rw [hheight]
  cases hmax : (e.children.map height).max? with
  | none =>
    have hnil : e.children = [] := by simpa using hmax
    simp [hnil]
  | some m =>
    obtain ⟨hmem, hle⟩ := List.max?_eq_some_iff.mp hmax
    simp only [List.mem_map, forall_exists_index, and_imp, forall_apply_eq_imp_iff₂] at hmem hle
    obtain ⟨highest, hhighest, rfl⟩ := hmem
    exact ⟨fun h c hc => Nat.lt_of_le_of_lt (hle c hc) h, fun h => h highest hhighest⟩

end Expr

/-! ### Parameters -/

/-- Both lists have a parameter at position `i`, of the same type and passed in the same way. -/
def Parameter.Corresponds (ps qs : List Parameter) (i : Nat) : Prop :=
  ∃ p q, ps[i]? = some p ∧ qs[i]? = some q ∧ p.type = q.type ∧ p.passing = q.passing

namespace Parameter.Corresponds

variable {ps qs rs : List Parameter} {i : Nat}

theorem symm (h : Corresponds ps qs i) : Corresponds qs ps i := by
  obtain ⟨p, q, hp, hq, htype, hpassing⟩ := h
  exact ⟨q, p, hq, hp, htype.symm, hpassing.symm⟩

theorem trans (h₁ : Corresponds ps qs i) (h₂ : Corresponds qs rs i) : Corresponds ps rs i := by
  obtain ⟨p, q, hp, hq, htype₁, hpassing₁⟩ := h₁
  obtain ⟨q', r, hq', hr, htype₂, hpassing₂⟩ := h₂
  cases hq.symm.trans hq'
  exact ⟨p, r, hp, hr, htype₁.trans htype₂, hpassing₁.trans hpassing₂⟩

end Parameter.Corresponds

theorem Head.sameRole_iff {ps qs : List Parameter} {h : Head} :
    h.sameRole ps qs = true ↔ ∀ i, h = .param i → Parameter.Corresponds ps qs i := by
  cases h with
  | param i =>
    simp only [sameRole, Head.param.injEq, forall_eq', Parameter.Corresponds]
    cases ps[i]? <;> cases qs[i]? <;> simp [Parameter.sameRole]
  | _ => simp [sameRole]

/-! ### Values -/

namespace Expr

theorem height_within_iff {maxDepth : Option Nat} {e : Expr} {depth : Nat} : (∀ d ∈ maxDepth, depth + e.height ≤ d) ↔
    maxDepth.all (depth ≤ ·) = true ∧ ∀ c ∈ e.children, ∀ d ∈ maxDepth, depth + 1 + c.height ≤ d := by
  cases maxDepth with
  | none => simp
  | some d =>
    have hle : depth + e.height ≤ d ↔ depth ≤ d ∧ ∀ c ∈ e.children, depth + 1 + c.height ≤ d := by
      refine ⟨fun h => ⟨by omega, fun c hc => ?_⟩, fun ⟨hdepth, hchildren⟩ => ?_⟩
      · have := height_le_iff.mp (Nat.le_refl e.height) c hc
        omega
      · have hheight : e.height ≤ d - depth := height_le_iff.mpr fun c hc => by
          have := hchildren c hc
          omega
        omega
    simpa using hle

theorem forall_mentions_iff {P : Nat → Prop} {e : Expr} : (∀ i, e.Mentions (.param i) → P i) ↔
    (∀ i, e.head = .param i → P i) ∧ ∀ c ∈ e.children, ∀ i, c.Mentions (.param i) → P i := by
  refine ⟨fun h => ⟨fun i hi => h i (.here hi), fun c hc i hi => h i (.inside hc hi)⟩, fun ⟨hhead, hchildren⟩ i hi => ?_⟩
  rcases mentions_iff.mp hi with hi | ⟨c, hc, hi⟩
  · exact hhead i hi
  · exact hchildren c hc i hi

/-- A tree is like itself when it goes no deeper than the bound and each parameter in it has the same role twice. -/
theorem alikeAt_self_iff {maxDepth : Option Nat} {ps qs : List Parameter} {e : Expr} {depth : Nat} :
    alikeAt maxDepth ps qs e depth e = true ↔
      (∀ d ∈ maxDepth, depth + e.height ≤ d) ∧ ∀ i, e.Mentions (.param i) → Parameter.Corresponds ps qs i := by
  induction e using induct generalizing depth with
  | step e ih =>
    rw [alikeAt_iff, List.forall₂_same, Head.sameRole_iff, height_within_iff, forall_mentions_iff]
    have hchildren : (∀ c ∈ e.children, alikeAt maxDepth ps qs c (depth + 1) c = true) ↔
        (∀ c ∈ e.children, ∀ d ∈ maxDepth, depth + 1 + c.height ≤ d) ∧
          ∀ c ∈ e.children, ∀ i, c.Mentions (.param i) → Parameter.Corresponds ps qs i := by
      rw [← forall₂_and]
      exact forall₂_congr fun c hc => ih c hc
    rw [hchildren]
    tauto

end Expr

namespace Site

variable {maxDepth : Option Nat} {a b c : Site}

theorem alike_iff : a.alike maxDepth b = true ↔ a.expr = b.expr ∧ (∀ d ∈ maxDepth, a.expr.height ≤ d) ∧
    ∀ i, a.expr.Mentions (.param i) → Parameter.Corresponds a.params b.params i := by
  have hself : ∀ e, e = a.expr → (Expr.alikeAt maxDepth a.params b.params a.expr 0 e = true ↔
      (∀ d ∈ maxDepth, a.expr.height ≤ d) ∧
        ∀ i, a.expr.Mentions (.param i) → Parameter.Corresponds a.params b.params i) := by
    rintro e rfl
    rw [Expr.alikeAt_self_iff]
    simp only [Nat.zero_add]
  refine ⟨fun h => ⟨eq_of_alike h, (hself b.expr (eq_of_alike h).symm).mp h⟩, fun ⟨heq, h⟩ => ?_⟩
  exact (hself b.expr heq.symm).mpr h

theorem alike_symm (h : a.alike maxDepth b = true) : b.alike maxDepth a = true := by
  obtain ⟨heq, hheight, hroles⟩ := alike_iff.mp h
  exact alike_iff.mpr ⟨heq.symm, heq ▸ hheight, fun i hi => (hroles i (heq ▸ hi)).symm⟩

theorem alike_trans (h₁ : a.alike maxDepth b = true) (h₂ : b.alike maxDepth c = true) : a.alike maxDepth c = true := by
  obtain ⟨heq₁, hheight, hroles₁⟩ := alike_iff.mp h₁
  obtain ⟨heq₂, -, hroles₂⟩ := alike_iff.mp h₂
  exact alike_iff.mpr ⟨heq₁.trans heq₂, hheight, fun i hi => (hroles₁ i hi).trans (hroles₂ i (heq₁ ▸ hi))⟩

theorem alike_mono {deeper : Option Nat} (hdeeper : ∀ d' ∈ deeper, ∃ d ∈ maxDepth, d ≤ d')
    (h : a.alike maxDepth b = true) : a.alike deeper b = true := by
  obtain ⟨heq, hheight, hroles⟩ := alike_iff.mp h
  refine alike_iff.mpr ⟨heq, fun d' hd' => ?_, hroles⟩
  obtain ⟨d, hd, hle⟩ := hdeeper d' hd'
  exact Nat.le_trans (hheight d hd) hle

/-- Two values count as the same exactly when they are equal, go no deeper than the bound and read only parameters that
have the same role for both. So this is symmetric and transitive, and a larger bound, or none, only adds to it. -/
theorem alike_exact (maxDepth deeper : Option Nat) (a b c : Site) :
    (a.alike maxDepth b = true ↔ a.expr = b.expr ∧ (∀ d ∈ maxDepth, a.expr.height ≤ d) ∧
      ∀ i, a.expr.Mentions (.param i) → Parameter.Corresponds a.params b.params i) ∧
    (a.alike maxDepth b = true → b.alike maxDepth a = true) ∧
    (a.alike maxDepth b = true → b.alike maxDepth c = true → a.alike maxDepth c = true) ∧
    ((∀ d' ∈ deeper, ∃ d ∈ maxDepth, d ≤ d') → a.alike maxDepth b = true → a.alike deeper b = true) :=
  ⟨alike_iff, alike_symm, alike_trans, alike_mono⟩

example :
    let path : Expr := .call { name := "Environment.GetEnvironmentVariable" } [.literal (.str "Path")]
    let value : Site := ⟨[], .binary .add (.literal (.str "name")) path⟩
    value.expr.height = 2 ∧ value.alike (some 1) value = false ∧ value.alike (some 2) value = true := by
  decide

end Site

end DeclRecovery
