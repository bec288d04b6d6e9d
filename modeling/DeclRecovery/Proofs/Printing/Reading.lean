import DeclRecovery.Expr.Printer
import DeclRecovery.Proofs.Rewriting

/-!
What the text of an expression is read as. Operators, casts and the reading of members nest freely in an expression, but
its text puts no parentheses around a cast or the operand of `!` and `-`. So a member of such an expression looks like the
operator or cast applied to the member: both are read as the latter (`Expr.reading`). Nothing else is read as something
else (`render_reading`, and `Proofs/Printing/Unambiguous`).
-/

namespace DeclRecovery

namespace Expr

/-! ### Readings -/

/-- An operator or a cast that is written in front of its operand. -/
def isSigned : Expr → Bool
  | unary .. | convert .. => true
  | _ => false

/-- `wrap` applied to what stands after all operators and casts in front. -/
def under (wrap : Expr → Expr) : Expr → Expr
  | unary op operand => unary op (operand.under wrap)
  | convert type value => convert type (value.under wrap)
  | e => wrap e

def readNode : Expr → Expr
  | field target name _ => target.under fun t => field t name false
  | access target name => target.under fun t => access t name
  | e => e

/-- The expression that the text of `e` is read as: what is written in front of an operand applies to all members that are
written after it. Whether a member is marked as never null is not written. -/
def reading : Expr → Expr := bottomUp readNode

theorem reading_eq (e : Expr) : e.reading = readNode (e.withChildren (e.children.map reading)) := bottomUp_eq _ e

@[simp] theorem reading_field (t : Expr) (name : String) (nonNull : Bool) :
    (field t name nonNull).reading = t.reading.under fun t => field t name false := reading_eq _

@[simp] theorem reading_access (t : Expr) (name : String) :
    (access t name).reading = t.reading.under fun t => access t name := reading_eq _

@[simp] theorem reading_unary (op : UnaryOp) (e : Expr) : (unary op e).reading = unary op e.reading := reading_eq _

@[simp] theorem reading_convert (type : String) (e : Expr) : (convert type e).reading = convert type e.reading :=
  reading_eq _

@[simp] theorem reading_binary (op : BinaryOp) (a b : Expr) :
    (binary op a b).reading = binary op a.reading b.reading := reading_eq _

@[simp] theorem reading_conditional (c t f : Expr) :
    (conditional c t f).reading = conditional c.reading t.reading f.reading := reading_eq _

@[simp] theorem reading_coalesce (a b : Expr) : (coalesce a b).reading = coalesce a.reading b.reading := reading_eq _

@[simp] theorem reading_raise (e : Expr) : (raise e).reading = raise e.reading := reading_eq _

theorem under_of_not_isSigned {e : Expr} (h : e.isSigned = false) (wrap : Expr → Expr) : e.under wrap = wrap e := by
  cases e with
  | unary | convert => cases h
  | _ => rfl

/-! ### The text of a reading -/

variable {s : Scope}

theorem renderEach_eq (es : List Expr) : renderEach s es = es.map (render s) := by
  induction es with
  | nil => rfl
  | cons e es ih => rw [renderEach, ih, List.map_cons]

theorem isCompound_under {wrap : Expr → Expr} (hwrap : ∀ e, (wrap e).isCompound = false) (e : Expr) :
    (e.under wrap).isCompound = false := by
  cases e with
  | unary | convert => rfl
  | _ => exact hwrap _

theorem isCompound_reading (e : Expr) : e.reading.isCompound = e.isCompound := by
  rw [reading_eq]
  cases e with
  | field | access => exact isCompound_under (fun _ => rfl) _
  | _ => rfl

/-- A member that is read behind operators and casts is written at their end. -/
theorem render_under {wrap : Expr → Expr} {suffix : String} (hcompound : ∀ e, (wrap e).isCompound = false)
    (hwrap : ∀ e, (wrap e).render s = e.grouped (e.render s) ++ suffix) (e : Expr) :
    (e.under wrap).render s = e.grouped (e.render s) ++ suffix := by
  induction e using induct with
  | step e ih =>
    cases e with
    | unary op operand =>
      rw [under, render, grouped, isCompound_under hcompound, ih operand List.mem_cons_self]
      simp [grouped, isCompound, render, String.append_assoc]
    | convert type value =>
      rw [under, render, grouped, isCompound_under hcompound, ih value List.mem_cons_self]
      simp [grouped, isCompound, render, String.append_assoc]
    | _ => exact hwrap _

theorem grouped_reading (e : Expr) (text : String) : e.reading.grouped text = e.grouped text := by
  rw [grouped, isCompound_reading, grouped]

theorem renderEach_reading (es : List Expr) (ih : ∀ e ∈ es, e.reading.render s = e.render s) :
    renderEach s (es.map reading) = renderEach s es := by
  rw [renderEach_eq, renderEach_eq, List.map_map]
  exact List.map_congr_left ih

/-- An expression and its reading have the same text. -/
theorem render_reading (e : Expr) : e.reading.render s = e.render s := by
  induction e using induct with
  | step e ih =>
    cases e with
    | literal | param | self | member => rfl
    | field target name nonNull =>
      rw [reading_field, render_under (fun _ => rfl) fun _ => by rw [render, String.append_assoc], grouped_reading,
        ih target List.mem_cons_self, render, String.append_assoc]
    | access target name =>
      rw [reading_access, render_under (fun _ => rfl) fun _ => by rw [render, String.append_assoc], grouped_reading,
        ih target List.mem_cons_self, render, String.append_assoc]
    | call callee args =>
      rw [reading_eq]
      simp only [children, withChildren, readNode, render, renderEach_reading args ih]
    | invoke receiver callee args =>
      obtain ⟨hreceiver, hargs⟩ := List.forall_mem_cons.mp ih
      rw [reading_eq]
      simp only [children, withChildren, List.map_cons, readNode, render, grouped_reading, hreceiver,
        renderEach_reading args hargs]
    | new type args =>
      rw [reading_eq]
      simp only [children, withChildren, readNode, render, renderEach_reading args ih]
    | _ =>
      simp only [children, List.forall_mem_cons, List.not_mem_nil, false_imp_iff, implies_true, and_true] at ih
      rw [reading_eq]
      simp only [children, withChildren, List.map_cons, List.map_nil, readNode, render, grouped_reading, ih]

/-! ### Expressions that are read as they are -/

/-- A member of something that has an operator or a cast in front. -/
def isDetached : Expr → Bool
  | field target .. | access target _ => target.isSigned
  | _ => false

/-- No member is taken of something that has an operator or a cast in front. -/
def direct (e : Expr) : Bool := e.subtrees.all fun n => !n.isDetached

theorem direct_eq (e : Expr) : e.direct = (e.children.all direct && !e.isDetached) := by
  rw [direct, subtrees_eq, List.all_append, List.all_flatMap, List.all_cons, List.all_nil, Bool.and_true]
  rfl

theorem isSigned_unmarked (e : Expr) : e.unmarked.isSigned = e.isSigned := by
  rw [unmarked, bottomUp_eq]
  cases e <;> rfl

theorem reading_of_direct {e : Expr} (h : e.direct = true) : e.reading = e.unmarked := by
  induction e using induct with
  | step e ih =>
    rw [direct_eq, Bool.and_eq_true, List.all_eq_true] at h
    have hchildren : e.children.map reading = e.children.map unmarked :=
      List.map_congr_left fun c hc => ih c hc (h.1 c hc)
    rw [reading_eq, hchildren, unmarked, bottomUp_eq, ← unmarked]
    cases e with
    | field target name nonNull =>
      exact under_of_not_isSigned (by simpa [isDetached, isSigned_unmarked] using h.2) _
    | access target name =>
      exact under_of_not_isSigned (by simpa [isDetached, isSigned_unmarked] using h.2) _
    | _ => rfl

end Expr
end DeclRecovery
