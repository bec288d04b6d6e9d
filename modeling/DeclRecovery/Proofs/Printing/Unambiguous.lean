import DeclRecovery.Proofs.Printing.Spines

/-!
The text of an expression shows how it is grouped, up to what `Expr.reading` says. The signs of an operand end where its
base begins, the base where the members begin, and these where the operand ends, whatever they hold
(`Expr.unique_of_base`). So the text can be cut in one way only, and from the words between its operands it can be seen
which operator form it is.
-/

namespace DeclRecovery

theorem BinaryOp.symbol_injective : Function.Injective BinaryOp.symbol := fun op op' h => by
  cases op <;> cases op' <;> simp_all [symbol]

namespace Expr

open Text

variable {s : Scope}

/-! ### Operator forms -/

/-- The first operand of an operator form and, for each further operand, the word in front of it. -/
def operation? : Expr → Option (Expr × List (String × Expr))
  | binary op lhs rhs => some (lhs, [(op.symbol, rhs)])
  | coalesce value fallback => some (value, [("??", fallback)])
  | conditional cond whenTrue whenFalse => some (cond, [("?", whenTrue), (":", whenFalse)])
  | _ => none

/-- A further operand of an operator form with its word. -/
def clause (s : Scope) (c : String × Expr) : List Char := ' ' :: (c.1.toList ++ ' ' :: operand s c.2)

theorem eq_raise_or_operation? {e : Expr} (he : e.isCompound = true) :
    (∃ value, e = raise value) ∨ ∃ first clauses, e.operation? = some (first, clauses) := by
  cases e with
  | raise value => exact .inl ⟨value, rfl⟩
  | binary | coalesce | conditional => exact .inr ⟨_, _, rfl⟩
  | _ => cases he

section
variable {e first : Expr} {clauses : List (String × Expr)}

theorem toList_render_of_operation? (he : e.operation? = some (first, clauses)) :
    (e.render s).toList = operand s first ++ clauses.flatMap (clause s) := by
  cases e with
  | binary | coalesce | conditional =>
    cases he
    simp [render, operand, clause]
  | _ => cases he

theorem children_of_operation? (he : e.operation? = some (first, clauses)) :
    e.children = first :: clauses.map Prod.snd := by
  cases e with
  | binary | coalesce | conditional =>
    cases he
    rfl
  | _ => cases he

theorem Legible.of_operation? (he : e.operation? = some (first, clauses)) (hlegible : Legible s e) :
    Legible s first ∧ ∀ c ∈ clauses, Legible s c.2 := by
  have hchildren := hlegible.children
  rwa [children_of_operation? he, List.forall_mem_cons, List.forall_mem_map] at hchildren

theorem clauses_ne_nil (he : e.operation? = some (first, clauses)) : clauses ≠ [] := by
  cases e with
  | binary | coalesce | conditional =>
    cases he
    exact List.cons_ne_nil _ _
  | _ => cases he

theorem isWord_of_operation? (he : e.operation? = some (first, clauses)) : ∀ c ∈ clauses, IsWord c.1.toList := by
  have hsymbol : ∀ op : BinaryOp, IsWord op.symbol.toList := fun op => by cases op <;> decide
  cases e with
  | binary op =>
    cases he
    exact List.forall_mem_singleton.mpr (hsymbol op)
  | coalesce value fallback =>
    cases he
    exact List.forall_mem_singleton.mpr (by decide : IsWord "??".toList)
  | conditional cond whenTrue whenFalse =>
    cases he
    exact List.forall_mem_cons.mpr
      ⟨(by decide : IsWord "?".toList), List.forall_mem_singleton.mpr (by decide : IsWord ":".toList)⟩
  | _ => cases he

end

/-- The words of an operator form tell which one it is. -/
theorem reading_eq_of_operation? {a b first first' : Expr} {clauses clauses' : List (String × Expr)}
    (ha : a.operation? = some (first, clauses)) (hb : b.operation? = some (first', clauses'))
    (hfirst : first.reading = first'.reading)
    (hclauses : clauses.map (Prod.map id reading) = clauses'.map (Prod.map id reading)) : a.reading = b.reading := by
  have hother : ∀ op : BinaryOp, op.symbol ≠ "??" ∧ "??" ≠ op.symbol := fun op => by cases op <;> decide
  cases a <;> cases ha <;> cases b <;> cases hb <;> simp_all [BinaryOp.symbol_injective.eq_iff]

/-! ### One way to read a text -/

theorem toList_render_raise (value : Expr) :
    ((raise value).render s).toList = "throw".toList ++ ' ' :: operand s value := by
  simp [render, operand]

theorem operand_param (i : Nat) : operand s (param i) = (s.paramName i).toList := by
  rw [operand_of_not_isCompound rfl, render]

section
variable (hs : s.Clear)
include hs

/-- An operand that starts with a name is that name, or goes on with a member. -/
theorem eq_of_operand_append_eq_name {e : Expr} (he : Legible s e) {name : String} (hname : IsName name)
    {r rest : List Char} (hr : Stops r) (hrest : Ends rest) (h : operand s e ++ r = name.toList ++ rest) : r = rest := by
  have hmember : ∀ (step : Step) (x : List Char), step.text ++ x ≠ rest := fun step x hx =>
    step.not_ends_text_append x (hx ▸ hrest)
  induction he generalizing r with
  | param hi =>
    rw [operand_param] at h
    exact ((hs.isName_paramName hi).append_inj hname hr hrest.stops h).2
  | field _ _ ih =>
    rw [operand_field, List.append_assoc] at h
    exact absurd (ih (Step.stops_text_append _ _) h) (hmember _ _)
  | access _ _ ih =>
    rw [operand_access, List.append_assoc] at h
    exact absurd (ih (Step.stops_text_append _ _) h) (hmember _ _)
  | unary =>
    rw [operand_unary, List.append_assoc] at h
    exact absurd h (Sign.text_append_ne_name _ hname _ _)
  | convert =>
    rw [operand_convert, List.append_assoc] at h
    exact absurd h (Sign.text_append_ne_name _ hname _ _)
  | binary | coalesce | conditional | raise =>
    rw [operand_of_isCompound rfl] at h
    exact absurd h.symm (hname.append_ne_cons (by decide) _ _)

/-- No operand starts with a word that stands between operands. -/
theorem operand_append_ne_word {e : Expr} (he : Legible s e) {word : List Char} (hword : IsWord word)
    (r rest : List Char) : operand s e ++ r ≠ word ++ ' ' :: rest := by
  induction he generalizing word r with
  | param hi =>
    rw [operand_param]
    exact (hs.isName_paramName hi).append_ne_word hword _ _
  | field _ _ ih =>
    rw [operand_field, List.append_assoc]
    exact ih hword _
  | access _ _ ih =>
    rw [operand_access, List.append_assoc]
    exact ih hword _
  | @unary op inner _ ih =>
    -- the word may start as an operator in front does, but it goes on to its space without an operand
    intro h
    rw [operand_unary, List.append_assoc] at h
    rcases word with _ | ⟨c, word⟩
    · cases op <;> cases h
    · have htail : operand s inner ++ r = word ++ ' ' :: rest := by cases op <;> exact List.tail_eq_of_cons_eq h
      exact ih (fun x hx => hword x (.tail _ hx)) _ htail
  | convert =>
    rw [operand_convert]
    exact hword.paren_ne_append _ _
  | binary | coalesce | conditional | raise =>
    rw [operand_of_isCompound rfl]
    exact hword.paren_ne_append _ _

/-- The text of an operator form that starts with a name has a space after it. -/
theorem exists_eq_space_cons {e : Expr} (he : Legible s e) (hcompound : e.isCompound = true) {name : String}
    (hname : IsName name) {r rest : List Char} (hrest : Ends rest) (h : (e.render s).toList ++ r = name.toList ++ rest) :
    ∃ rest', rest = ' ' :: rest' := by
  rcases eq_raise_or_operation? hcompound with ⟨value, rfl⟩ | ⟨first, clauses, hop⟩
  · rw [toList_render_raise, List.append_assoc] at h
    obtain ⟨-, hspace⟩ := IsName.append_inj (by decide : IsName "throw") hname (stops_cons.mpr (by decide)) hrest.stops h
    exact ⟨_, hspace.symm⟩
  · obtain ⟨c, clauses, rfl⟩ := List.exists_cons_of_ne_nil (clauses_ne_nil hop)
    rw [toList_render_of_operation? hop, List.append_assoc] at h
    exact ⟨_, (eq_of_operand_append_eq_name hs (he.of_operation? hop).1 hname (stops_cons.mpr (by decide)) hrest h).symm⟩

/-- Where a base starts, the row of operators and casts in front of it has ended. -/
theorem sign_append_ne_base {p : Spine} (hp : p.Legible s) {sign : Sign} (hsign : sign.Named) (x r : List Char) :
    sign.text ++ x ≠ operand s p.base ++ r := by
  intro h
  cases hcompound : p.base.isCompound with
  | false =>
    obtain ⟨i, hlt, hi⟩ := hp.isParam hcompound
    rw [hi, operand_param] at h
    exact sign.text_append_ne_name (hs.isName_paramName hlt) _ _ h
  | true =>
    rw [operand_of_isCompound hcompound] at h
    rcases sign with (_ | _) | type
    · cases h
    · cases h
    · -- a type stands alone in its parentheses, and an operator form has a space in them
      have hbody : (p.base.render s).toList ++ (')' :: r) = type.toList ++ (')' :: x) := by
        simpa [Sign.text] using h.symm
      obtain ⟨rest, hspace⟩ := exists_eq_space_cons hs hp.base hcompound hsign (ends_cons.mpr (.inr rfl)) hbody
      cases hspace

/-- A `throw` is not the first operand of another operator form. -/
theorem raise_append_ne_operation {value b first : Expr} {clauses : List (String × Expr)} (hvalue : Legible s value)
    (hb : Legible s b) (hop : b.operation? = some (first, clauses)) (r r' : List Char) :
    ((raise value).render s).toList ++ r ≠ (b.render s).toList ++ r' := by
  intro h
  have hwords := isWord_of_operation? hop
  rw [toList_render_raise, toList_render_of_operation? hop, List.append_assoc, List.append_assoc] at h
  obtain ⟨c, clauses, rfl⟩ := List.exists_cons_of_ne_nil (clauses_ne_nil hop)
  -- the first operand can only be a parameter that is called `throw`
  have hrest : (c :: clauses).flatMap (clause s) ++ r' = ' ' :: (operand s value ++ r) :=
    eq_of_operand_append_eq_name hs (hb.of_operation? hop).1 (by decide : IsName "throw") (stops_cons.mpr (by decide))
      (ends_cons.mpr (.inl rfl)) h.symm
  simp only [List.flatMap_cons, clause, List.cons_append, List.append_assoc, List.cons.injEq, true_and] at hrest
  exact operand_append_ne_word hs hvalue (hwords c List.mem_cons_self) _ _ hrest.symm

end

/-- Whatever follows, the text of `e` as an operand is read as `e.reading` and ends where it ends. -/
def Unique (s : Scope) (e : Expr) : Prop := ∀ b, Legible s b → ∀ r r', Ends r → Ends r' →
  operand s e ++ r = operand s b ++ r' → e.reading = b.reading ∧ r = r'

theorem clause_append_inj {c c' : String × Expr} (hunique : Unique s c.2) (hlegible : Legible s c'.2)
    (hword : IsWord c.1.toList) (hword' : IsWord c'.1.toList) {r r' : List Char} (hr : Ends r) (hr' : Ends r')
    (h : clause s c ++ r = clause s c' ++ r') : Prod.map id reading c = Prod.map id reading c' ∧ r = r' := by
  simp only [clause, List.cons_append, List.append_assoc, List.cons.injEq, true_and] at h
  obtain ⟨hwords, hrest⟩ := append_inj_of_head (p := (· = ' ')) (fun x hx => (hword x hx).2.1)
    (fun x hx => (hword' x hx).2.1) (by simp) (by simp) h
  obtain ⟨hreading, rfl⟩ := hunique c'.2 hlegible r r' hr hr' (List.tail_eq_of_cons_eq hrest)
  exact ⟨Prod.ext (String.toList_injective hwords) hreading, rfl⟩

theorem ends_clause_append (c : String × Expr) (r : List Char) : Ends (clause s c ++ r) := ends_cons.mpr (.inl rfl)

theorem ends_clauses_append (clauses : List (String × Expr)) {r : List Char} (hr : Closes r) :
    Ends (clauses.flatMap (clause s) ++ r) := next_row_append ends_clause_append clauses hr.ends

theorem clauses_append_inj {clauses clauses' : List (String × Expr)} (hunique : ∀ c ∈ clauses, Unique s c.2)
    (hlegible : ∀ c ∈ clauses', Legible s c.2) (hwords : ∀ c ∈ clauses, IsWord c.1.toList)
    (hwords' : ∀ c ∈ clauses', IsWord c.1.toList) {r r' : List Char} (hr : Closes r) (hr' : Closes r')
    (h : clauses.flatMap (clause s) ++ r = clauses'.flatMap (clause s) ++ r') :
    clauses.map (Prod.map id reading) = clauses'.map (Prod.map id reading) ∧ r = r' := by
  have hne : ∀ {y : List Char}, Closes y → ∀ (c : String × Expr) (x : List Char), clause s c ++ x ≠ y := by
    intro y hy c x hxy
    subst hxy
    cases closes_cons.mp hy
  exact row_append_inj (Prod.map id reading) Ends ends_clause_append hr.ends hr'.ends
    (fun c _ => hne hr' c) (fun c _ => hne hr c)
    (fun c hc c' hc' _ _ => clause_append_inj (hunique c hc) (hlegible c' hc') (hwords c hc) (hwords' c' hc')) h

section
variable (hs : s.Clear)
include hs

theorem compound_append_inj {a b : Expr} (ha : Legible s a) (hb : Legible s b) (hca : a.isCompound = true)
    (hcb : b.isCompound = true) (hunique : ∀ c ∈ a.children, Unique s c) {r r' : List Char} (hr : Closes r)
    (hr' : Closes r') (h : (a.render s).toList ++ r = (b.render s).toList ++ r') : a.reading = b.reading ∧ r = r' := by
  rcases eq_raise_or_operation? hca with ⟨value, rfl⟩ | ⟨first, clauses, hop⟩
  · have hvalue : Legible s value := ha.children value List.mem_cons_self
    rcases eq_raise_or_operation? hcb with ⟨value', rfl⟩ | ⟨first', clauses', hop'⟩
    · rw [toList_render_raise, toList_render_raise, List.append_assoc, List.append_assoc] at h
      obtain ⟨hreading, rfl⟩ := hunique value List.mem_cons_self value' (hb.children value' List.mem_cons_self) r r'
        hr.ends hr'.ends (List.tail_eq_of_cons_eq (List.append_cancel_left h))
      rw [reading_raise, reading_raise, hreading]
      exact ⟨rfl, rfl⟩
    · exact absurd h (raise_append_ne_operation hs hvalue hb hop' r r')
  · rcases eq_raise_or_operation? hcb with ⟨value', rfl⟩ | ⟨first', clauses', hop'⟩
    · exact absurd h.symm (raise_append_ne_operation hs (hb.children value' List.mem_cons_self) ha hop r' r)
    · rw [children_of_operation? hop, List.forall_mem_cons, List.forall_mem_map] at hunique
      obtain ⟨hfirst', hclauses'⟩ := hb.of_operation? hop'
      rw [toList_render_of_operation? hop, toList_render_of_operation? hop', List.append_assoc, List.append_assoc] at h
      obtain ⟨hfirst, hrest⟩ := hunique.1 first' hfirst' _ _ (ends_clauses_append clauses hr)
        (ends_clauses_append clauses' hr') h
      obtain ⟨hclauses, rfl⟩ := clauses_append_inj hunique.2 hclauses' (isWord_of_operation? hop)
        (isWord_of_operation? hop') hr hr' hrest
      exact ⟨reading_eq_of_operation? hop hop' hfirst hclauses, rfl⟩

theorem base_append_inj {p q : Spine} (hp : p.Legible s) (hq : q.Legible s)
    (hunique : ∀ c ∈ p.base.children, Unique s c) {r r' : List Char} (hr : Stops r) (hr' : Stops r')
    (h : operand s p.base ++ r = operand s q.base ++ r') : p.base.reading = q.base.reading ∧ r = r' := by
  cases hcp : p.base.isCompound with
  | false =>
    obtain ⟨i, hlt, hi⟩ := hp.isParam hcp
    rw [hi, operand_param] at h
    cases hcq : q.base.isCompound with
    | false =>
      obtain ⟨j, hlt', hj⟩ := hq.isParam hcq
      rw [hj, operand_param] at h
      obtain ⟨hname, rfl⟩ := (hs.isName_paramName hlt).append_inj (hs.isName_paramName hlt') hr hr' h
      rw [hi, hj, hs.paramName_inj hlt hlt' hname]
      exact ⟨rfl, rfl⟩
    | true =>
      rw [operand_of_isCompound hcq] at h
      exact absurd h ((hs.isName_paramName hlt).append_ne_cons (by decide) _ _)
  | true =>
    rw [operand_of_isCompound hcp] at h
    cases hcq : q.base.isCompound with
    | false =>
      obtain ⟨j, hlt', hj⟩ := hq.isParam hcq
      rw [hj, operand_param] at h
      exact absurd h.symm ((hs.isName_paramName hlt').append_ne_cons (by decide) _ _)
    | true =>
      rw [operand_of_isCompound hcq] at h
      simp only [List.cons_append, List.append_assoc, List.nil_append, List.cons.injEq, true_and] at h
      obtain ⟨hreading, hrest⟩ := compound_append_inj hs hp.base hq.base hcp hcq hunique (closes_cons.mpr rfl)
        (closes_cons.mpr rfl) h
      exact ⟨hreading, List.tail_eq_of_cons_eq hrest⟩

/-- The signs, the base and the members of an operand can be told apart, and from what follows. -/
theorem unique_of_base {e : Expr} (he : Legible s e) (hbase : ∀ c ∈ e.spine.base.children, Unique s c) :
    Unique s e := by
  intro b hb r r' hr hr' h
  rw [operand_eq_spine e, operand_eq_spine b] at h
  simp only [List.append_assoc] at h
  obtain ⟨hsigns, h⟩ := Sign.texts_append_inj he.spine.signs hb.spine.signs
    (fun sign hsign x => sign_append_ne_base hs he.spine hsign x _)
    (fun sign hsign x => sign_append_ne_base hs hb.spine hsign x _) h
  obtain ⟨hreading, h⟩ := base_append_inj hs he.spine hb.spine hbase (Step.stops_texts_append _ hr)
    (Step.stops_texts_append _ hr') h
  obtain ⟨hsteps, rfl⟩ := Step.texts_append_inj he.spine.steps hb.spine.steps hr hr' h
  rw [reading_eq_spine e, reading_eq_spine b, hsigns, hreading, hsteps]
  exact ⟨rfl, rfl⟩

theorem unique_children_base {e : Expr} (he : Legible s e) : ∀ c ∈ e.spine.base.children, Unique s c := by
  -- not of `e` itself: what stands around the base is compared as a whole, so no child of it is smaller
  induction e using induct with
  | step e ih =>
    cases e with
    | field target | access target => exact ih target List.mem_cons_self (he.children target List.mem_cons_self)
    | unary _ e | convert _ e => exact ih e List.mem_cons_self (he.children e List.mem_cons_self)
    | _ => exact fun c hc => unique_of_base hs (he.children c hc) (ih c hc (he.children c hc))

theorem unique {e : Expr} (he : Legible s e) : Unique s e := unique_of_base hs he (unique_children_base hs he)

/-- The text of an operator form is not that of an operand. -/
theorem render_ne_of_isCompound {a b : Expr} (ha : Legible s a) (hb : Legible s b) (hca : a.isCompound = true)
    (hcb : b.isCompound = false) : a.render s ≠ b.render s := by
  intro h
  have htext : (a.render s).toList = operand s b ++ [] := by
    rw [h, operand_of_not_isCompound hcb, List.append_nil]
  rcases eq_raise_or_operation? hca with ⟨value, rfl⟩ | ⟨first, clauses, hop⟩
  · rw [toList_render_raise] at htext
    cases eq_of_operand_append_eq_name hs hb (by decide : IsName "throw") closes_nil.ends.stops
      (ends_cons.mpr (.inl rfl)) htext.symm
  · obtain ⟨c, clauses, rfl⟩ := List.exists_cons_of_ne_nil (clauses_ne_nil hop)
    rw [toList_render_of_operation? hop] at htext
    cases (unique hs (ha.of_operation? hop).1 b hb _ _ (ends_cons.mpr (.inl rfl)) closes_nil.ends htext).2

theorem reading_eq_of_render_eq {a b : Expr} (ha : Legible s a) (hb : Legible s b) (h : a.render s = b.render s) :
    a.reading = b.reading := by
  have htext : (a.render s).toList ++ [] = (b.render s).toList ++ [] := by rw [h]
  cases hca : a.isCompound <;> cases hcb : b.isCompound
  · rw [← operand_of_not_isCompound hca, ← operand_of_not_isCompound hcb] at htext
    exact (unique hs ha b hb [] [] closes_nil.ends closes_nil.ends htext).1
  · exact absurd h.symm (render_ne_of_isCompound hs hb ha hcb hca)
  · exact absurd h (render_ne_of_isCompound hs ha hb hca hcb)
  · exact (compound_append_inj hs ha hb hca hcb (fun c hc => unique hs (ha.children c hc)) closes_nil closes_nil htext).1

end

/-- Two expressions have the same text exactly when they are read alike. If neither takes a member of something that has an
operator or a cast in front, the text shows all of an expression but the marks of members that are never null. -/
theorem render_eq_iff_reading_eq {a b : Expr} (hs : s.Clear) (ha : Legible s a) (hb : Legible s b) :
    (a.render s = b.render s ↔ a.reading = b.reading) ∧
    (a.direct = true → b.direct = true → (a.render s = b.render s ↔ a.unmarked = b.unmarked)) := by
  have hiff : a.render s = b.render s ↔ a.reading = b.reading :=
    ⟨reading_eq_of_render_eq hs ha hb, fun h => by rw [← render_reading a, h, render_reading b]⟩
  refine ⟨hiff, fun hda hdb => ?_⟩
  rw [hiff, reading_of_direct hda, reading_of_direct hdb]

/-- A throw in a choice, with a cast around the choice or around its condition. -/
def castChoice (outside : Bool) : Expr :=
  let choice (cond : Expr) := conditional cond (field (param 1) "size" true) (raise (access (param 1) "fault"))
  let test := unary .not (field (param 0) "open" false)
  if outside then convert "Int" (choice test) else choice (convert "Int" test)

def gate : Scope := ⟨[], ["flag", "count"]⟩

theorem clear_gate : gate.Clear := ⟨by decide, by decide⟩

theorem legible_castChoice (outside : Bool) : Legible gate (castChoice outside) := by
  have htest : Legible gate (unary .not (field (param 0) "open" false)) :=
    .unary (.field (by decide) (.param (by decide)))
  have hsize : Legible gate (field (param 1) "size" true) := .field (by decide) (.param (by decide))
  have hfault : Legible gate (raise (access (param 1) "fault")) := .raise (.access (by decide) (.param (by decide)))
  cases outside with
  | true => exact .convert (by decide) (.conditional htest hsize hfault)
  | false => exact .conditional (.convert (by decide) htest) hsize hfault

theorem render_eq_iff_reading_eq_castChoice :
    gate.Clear ∧ Legible gate (castChoice true) ∧ Legible gate (castChoice false) ∧
    (castChoice true).render gate ≠ (castChoice false).render gate := by
  refine ⟨clear_gate, legible_castChoice true, legible_castChoice false, fun h => ?_⟩
  have hsame := (render_eq_iff_reading_eq clear_gate (legible_castChoice true) (legible_castChoice false)).2
    (by decide) (by decide) |>.mp h
  exact absurd hsame (by decide)

/-- The member of a negation has the text of the negation of the member. -/
theorem render_member_of_negation :
    let member := field (unary .not (param 0)) "x" false
    let negation := unary .not (field (param 0) "x" false)
    gate.Clear ∧ Legible gate member ∧ Legible gate negation ∧
    member.render gate = "!flag.x" ∧ negation.render gate = "!flag.x" ∧ member.unmarked ≠ negation.unmarked :=
  ⟨clear_gate, .field (by decide) (.unary (.param (by decide))), .unary (.field (by decide) (.param (by decide))), rfl, rfl,
    by decide⟩

end Expr

end DeclRecovery
