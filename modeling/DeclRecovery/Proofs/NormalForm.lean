import DeclRecovery.Proofs.Delegation.Walks
import DeclRecovery.Proofs.Mentions

/-!
The normal form that shapes come to. An expression is in it when no choice is left as a branch left it behind, and a
statement when, besides, no branch in it is a mere choice between two stores of one slot (`Stmt.InShape`). Writing in
shape leads there whatever the options are, and changes nothing that is there already; so one pass is enough
(`TypeDecl.shape_shape`).
-/

namespace DeclRecovery

variable {options : Options}

namespace Expr

theorem not_mentions_select_shape (e : Expr) : ¬(e.shape options).Mentions .select := by
  induction e using inductSelect with
  | select c t f hc ht hf =>
    rw [shape_select]
    intro hselect
    rcases mentions_of_classify rfl hselect with h | h | h
    · exact hc h
    · exact ht h
    · exact hf h
  | other e h ih =>
    obtain ⟨hhead, hchildren⟩ := shape_of_ne_select options h
    rw [mentions_iff, hhead, hchildren]
    simp only [List.mem_map, not_or, not_exists, not_and]
    refine ⟨h, fun x hx => ?_⟩
    obtain ⟨c, hc, rfl⟩ := hx
    exact ih c hc

theorem shape_eq_self_iff_not_mentions {e : Expr} : e.shape options = e ↔ ¬e.Mentions .select := by
  refine ⟨fun h => h ▸ not_mentions_select_shape e, fun h => ?_⟩
  induction e using induct with
  | step e ih =>
    have hhead : e.head ≠ .select := fun hhead => h (.here hhead)
    exact (shape_eq_self_iff hhead).mpr fun c hc => ih c hc fun hselect => h (.inside hc hselect)

theorem shape_shape {again : Options} (e : Expr) : (e.shape options).shape again = e.shape options :=
  shape_eq_self_iff_not_mentions.mpr (not_mentions_select_shape e)

end Expr

namespace Stmt

/-- No choice in an expression is left without its shape, and no branch, be it the statement itself or one inside, only
chooses between two stores of one slot. -/
structure InShape (s : Stmt) : Prop where
  choices : ¬s.Mentions .select
  branches : ∀ inner, inner = s ∨ inner.Inside s → ∀ cond slot a b, inner ≠ branch cond [assign slot a] [assign slot b]

theorem inShape_of_ne_branch_iff {s : Stmt} (hs : ∀ c t e, s ≠ branch c t e) :
    s.InShape ↔ ∀ x ∈ s.exprs, ¬x.Mentions .select := by
  refine ⟨fun h x hx hselect => h.choices ⟨x, hx, hselect⟩, fun h => ⟨?_, fun inner hinner cond slot a b => ?_⟩⟩
  · simpa [Mentions] using h
  · rcases hinner with rfl | hinside
    · exact hs cond _ _
    · cases hinside <;> exact absurd rfl (hs _ _ _)

theorem inShape_assign_iff {slot : SlotId} {value : Expr} : (assign slot value).InShape ↔ ¬value.Mentions .select := by
  simp [inShape_of_ne_branch_iff, exprs]

theorem inShape_branch_iff {c : Expr} {t e : List Stmt} : (branch c t e).InShape ↔
    ¬c.Mentions .select ∧ (∀ s ∈ t ++ e, s.InShape) ∧ ∀ slot a b, ¬(t = [assign slot a] ∧ e = [assign slot b]) := by
  have hchoices : (branch c t e).Mentions .select ↔ c.Mentions .select ∨ ∃ s ∈ t ++ e, s.Mentions .select := by
    simp only [Mentions, exprs, List.mem_cons, List.mem_append, mem_exprsEach]
    grind
  refine ⟨fun h => ⟨fun hc => h.choices (hchoices.mpr (Or.inl hc)), fun s hs => ?_, fun slot a b hstores => ?_⟩, fun h => ?_⟩
  · refine ⟨fun hselect => h.choices (hchoices.mpr (Or.inr ⟨s, hs, hselect⟩)), fun inner hinner => ?_⟩
    exact h.branches inner (Or.inr (inside_branch_iff.mpr ⟨s, hs, hinner.imp Eq.symm id⟩))
  · exact h.branches _ (Or.inl rfl) c slot a b (by rw [hstores.1, hstores.2])
  · obtain ⟨hc, hinner, hstores⟩ := h
    refine ⟨fun hselect => ?_, fun inner hinside cond slot a b => ?_⟩
    · rcases hchoices.mp hselect with hselect | ⟨s, hs, hselect⟩
      · exact hc hselect
      · exact (hinner s hs).choices hselect
    · rcases hinside with rfl | hinside
      · intro heq
        cases heq
        exact hstores slot a b ⟨rfl, rfl⟩
      · obtain ⟨s, hs, hs'⟩ := inside_branch_iff.mp hinside
        exact (hinner s hs).branches inner (hs'.imp Eq.symm id) cond slot a b

theorem inShape_shapedBranch {c : Expr} {t e : List Stmt} (hc : ¬c.Mentions .select) (h : ∀ s ∈ t ++ e, s.InShape) :
    (shapedBranch options c t e).InShape := by
  rcases shapedBranch_cases options c t e with hbranch | ⟨slot, a, b, rfl, rfl, hassign⟩
  · rw [hbranch]
    refine inShape_branch_iff.mpr ⟨hc, h, fun slot a b hstores => ?_⟩
    obtain ⟨rfl, rfl⟩ := hstores
    simp [shapedBranch] at hbranch
  · rw [hassign]
    refine inShape_assign_iff.mpr fun hselect => ?_
    rcases Expr.mentions_of_classify rfl hselect with hselect | hselect | hselect
    · exact hc hselect
    · exact inShape_assign_iff.mp (h (assign slot a) (by simp)) hselect
    · exact inShape_assign_iff.mp (h (assign slot b) (by simp)) hselect

theorem inShape_shape (s : Stmt) : (s.shape options).InShape := by
  induction s using induct with
  | branch c t e iht ihe =>
    rw [shape]
    refine inShape_shapedBranch (Expr.not_mentions_select_shape c) fun s hs => ?_
    rw [shapeBlock_eq, shapeBlock_eq, ← List.map_append] at hs
    obtain ⟨inner, hinner, rfl⟩ := List.mem_map.mp hs
    exact (List.mem_append.mp hinner).elim (iht inner) (ihe inner)
  | _ => simp [shape, inShape_of_ne_branch_iff, exprs, Expr.not_mentions_select_shape]

theorem shapeBlock_eq_self_iff {block : List Stmt} :
    shapeBlock options block = block ↔ ∀ s ∈ block, s.shape options = s := by
  rw [shapeBlock_eq]
  exact ⟨fun h => List.map_inj_left.mp (h.trans (List.map_id _).symm), fun h => (List.map_congr_left h).trans (List.map_id _)⟩

theorem shape_eq_self_iff_inShape {s : Stmt} : s.shape options = s ↔ s.InShape := by
  refine ⟨fun h => h ▸ inShape_shape s, fun h => ?_⟩
  induction s using induct with
  | branch c t e iht ihe =>
    obtain ⟨hc, hinner, hstores⟩ := inShape_branch_iff.mp h
    have ht : shapeBlock options t = t := shapeBlock_eq_self_iff.mpr fun s hs =>
      iht s hs (hinner s (List.mem_append_left e hs))
    have he : shapeBlock options e = e := shapeBlock_eq_self_iff.mpr fun s hs =>
      ihe s hs (hinner s (List.mem_append_right t hs))
    rw [shape, Expr.shape_eq_self_iff_not_mentions.mpr hc, ht, he]
    rcases shapedBranch_cases options c t e with hbranch | ⟨slot, a, b, ht, he, -⟩
    · exact hbranch
    · exact absurd ⟨ht, he⟩ (hstores slot a b)
  | delegate call =>
    have hargs := (inShape_of_ne_branch_iff (by simp)).mp h
    have hshape : call.args.map (·.shape options) = call.args :=
      (List.map_congr_left fun x hx => Expr.shape_eq_self_iff_not_mentions.mpr (hargs x hx)).trans (List.map_id _)
    rw [shape, hshape]
  | _ =>
    have hvalue := (inShape_of_ne_branch_iff (by simp)).mp h _ List.mem_cons_self
    rw [shape, Expr.shape_eq_self_iff_not_mentions.mpr hvalue]

theorem shape_shape {again : Options} (s : Stmt) : (s.shape options).shape again = s.shape options :=
  shape_eq_self_iff_inShape.mpr (inShape_shape s)

theorem shapeBlock_shapeBlock {again : Options} (block : List Stmt) :
    shapeBlock again (shapeBlock options block) = shapeBlock options block := by
  simp [shapeBlock_eq, shape_shape]

end Stmt

namespace TypeDecl

/-- All initializers and all bodies are in shape. -/
structure InShape (t : TypeDecl) : Prop where
  initializers : ∀ s ∈ t.slots, ∀ value ∈ s.initializer, ¬value.Mentions .select
  bodies : ∀ c ∈ t.constructors, ∀ s ∈ c.body, s.InShape

theorem inShape_shape (t : TypeDecl) : (t.shape options).InShape := by
  refine ⟨fun s hs value hvalue => ?_, fun c hc s hs => ?_⟩
  · obtain ⟨given, -, rfl⟩ := List.mem_map.mp hs
    obtain ⟨e, -, rfl⟩ := Option.map_eq_some_iff.mp hvalue
    exact Expr.not_mentions_select_shape e
  · obtain ⟨given, -, rfl⟩ := List.mem_map.mp hc
    rw [Stmt.shapeBlock_eq] at hs
    obtain ⟨inner, -, rfl⟩ := List.mem_map.mp hs
    exact Stmt.inShape_shape inner

theorem shape_eq_self_iff_inShape {t : TypeDecl} : t.shape options = t ↔ t.InShape := by
  refine ⟨fun h => h ▸ inShape_shape t, fun h => ?_⟩
  have hslot : ∀ s ∈ t.slots, { s with initializer := s.initializer.map (·.shape options) } = s := by
    intro s hs
    have hvalue : s.initializer.map (·.shape options) = s.initializer := by
      cases hinit : s.initializer with
      | none => rfl
      | some value =>
        rw [Option.map_some, Expr.shape_eq_self_iff_not_mentions.mpr (h.initializers s hs value hinit)]
    rw [hvalue]
  have hbody : ∀ c ∈ t.constructors, { c with body := Stmt.shapeBlock options c.body } = c := by
    intro c hc
    rw [Stmt.shapeBlock_eq_self_iff.mpr fun s hs => Stmt.shape_eq_self_iff_inShape.mpr (h.bodies c hc s hs)]
  rw [shape, List.map_congr_left hslot, List.map_congr_left hbody, List.map_id', List.map_id']

theorem shape_shape (options : Options) {again : Options} (t : TypeDecl) :
    (t.shape options).shape again = t.shape options :=
  shape_eq_self_iff_inShape.mpr (inShape_shape t)

/-- What is written in shape has no choice left without its shape, and no branch that only chooses between two stores of
one slot. Writing it in shape once more, under whatever options, changes nothing; a type stays as it is exactly when it
has this form already. -/
theorem shape_reaches_normalForm (options again : Options) (t : TypeDecl) :
    (t.shape options).InShape ∧ (t.shape options).shape again = t.shape options ∧ (t.shape options = t ↔ t.InShape) :=
  ⟨inShape_shape t, shape_shape options t, shape_eq_self_iff_inShape⟩

end TypeDecl

end DeclRecovery
