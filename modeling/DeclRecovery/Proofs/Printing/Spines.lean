import DeclRecovery.Proofs.Printing.Names
import DeclRecovery.Proofs.Printing.Reading

/-!
Where an expression stands as an operand, its text is a row of operators and casts, then a parameter or an operator form in
parentheses, then a row of members: its spine. A spine does not say where the members stood among the operators and casts,
and neither does the text.
-/

namespace DeclRecovery

namespace Expr

open Text

/-- Expressions over the parameters of `s` in which all names are `Text.IsName`. -/
inductive Legible (s : Scope) : Expr → Prop
  | param {i : Nat} : i < s.paramNames.length → Legible s (param i)
  | field {target : Expr} {name : String} {nonNull : Bool} :
    IsName name → Legible s target → Legible s (field target name nonNull)
  | access {target : Expr} {name : String} : IsName name → Legible s target → Legible s (access target name)
  | unary {op : UnaryOp} {operand : Expr} : Legible s operand → Legible s (unary op operand)
  | convert {type : String} {value : Expr} : IsName type → Legible s value → Legible s (convert type value)
  | binary {op : BinaryOp} {lhs rhs : Expr} : Legible s lhs → Legible s rhs → Legible s (binary op lhs rhs)
  | coalesce {value fallback : Expr} : Legible s value → Legible s fallback → Legible s (coalesce value fallback)
  | conditional {cond whenTrue whenFalse : Expr} :
    Legible s cond → Legible s whenTrue → Legible s whenFalse → Legible s (conditional cond whenTrue whenFalse)
  | raise {value : Expr} : Legible s value → Legible s (raise value)

variable {s : Scope}

theorem Legible.children {e : Expr} (he : Legible s e) : ∀ c ∈ e.children, Legible s c := by
  cases he <;> simp_all [Expr.children]

/-! ### Spines -/

/-- What is written in front of an operand. -/
inductive Sign where
  | op (op : UnaryOp)
  | cast (type : String)

/-- A member that is written after an operand. -/
structure Step where
  conditional : Bool
  name : String

namespace Sign

def text : Sign → List Char
  | op o => o.symbol.toList
  | cast type => '(' :: (type.toList ++ [')'])

def apply : Sign → Expr → Expr
  | op o => unary o
  | cast type => convert type

def Named : Sign → Prop
  | op _ => True
  | cast type => IsName type

theorem text_append_inj {sign sign' : Sign} (hsign : sign.Named) (hsign' : sign'.Named) {r r' : List Char}
    (h : sign.text ++ r = sign'.text ++ r') : sign = sign' ∧ r = r' := by
  cases sign with
  | op o =>
    cases sign' with
    | op o' => cases o <;> cases o' <;> simp_all [text, UnaryOp.symbol]
    | cast type => cases o <;> simp [text, UnaryOp.symbol] at h
  | cast type =>
    cases sign' with
    | op o => cases o <;> simp [text, UnaryOp.symbol] at h
    | cast type' =>
      simp only [text, List.cons_append, List.append_assoc, List.cons.injEq, true_and, List.nil_append] at h
      obtain ⟨rfl, hrest⟩ := hsign.append_inj hsign' (stops_cons.mpr (by decide)) (stops_cons.mpr (by decide)) h
      exact ⟨rfl, List.tail_eq_of_cons_eq hrest⟩

theorem text_append_ne_name (sign : Sign) {name : String} (hname : IsName name) (r r' : List Char) :
    sign.text ++ r ≠ name.toList ++ r' := by
  intro h
  rcases sign with (_ | _) | type <;> exact hname.append_ne_cons (by decide) _ _ h.symm

/-- Where no operator or cast stands, the row of them ends. -/
theorem texts_append_inj {signs signs' : List Sign} (hsigns : ∀ sign ∈ signs, sign.Named)
    (hsigns' : ∀ sign ∈ signs', sign.Named) {r r' : List Char} (hr : ∀ sign : Sign, sign.Named → ∀ x, sign.text ++ x ≠ r)
    (hr' : ∀ sign : Sign, sign.Named → ∀ x, sign.text ++ x ≠ r')
    (h : signs.flatMap text ++ r = signs'.flatMap text ++ r') : signs = signs' ∧ r = r' := by
  have hrows := row_append_inj id (fun _ => True) (fun _ _ => trivial) trivial trivial
    (fun sign hsign => hr' sign (hsigns sign hsign)) (fun sign hsign => hr sign (hsigns' sign hsign))
    (fun sign hsign sign' hsign' _ _ _ _ => text_append_inj (hsigns sign hsign) (hsigns' sign' hsign')) h
  rwa [List.map_id, List.map_id] at hrows

end Sign

namespace Step

def text (step : Step) : List Char := (if step.conditional then ['?', '.'] else ['.']) ++ step.name.toList

def apply (e : Expr) (step : Step) : Expr :=
  if step.conditional then access e step.name else field e step.name false

theorem stops_text_append (step : Step) (r : List Char) : Stops (step.text ++ r) := by
  obtain ⟨conditional, name⟩ := step
  cases conditional <;> exact stops_cons.mpr (by decide)

theorem not_ends_text_append (step : Step) (r : List Char) : ¬Ends (step.text ++ r) := by
  obtain ⟨conditional, name⟩ := step
  cases conditional <;> simp [text, ends_cons]

theorem stops_texts_append (steps : List Step) {r : List Char} (hr : Ends r) : Stops (steps.flatMap text ++ r) :=
  next_row_append stops_text_append steps hr.stops

theorem text_append_inj {step step' : Step} (hstep : IsName step.name) (hstep' : IsName step'.name) {r r' : List Char}
    (hr : Stops r) (hr' : Stops r') (h : step.text ++ r = step'.text ++ r') : step = step' ∧ r = r' := by
  obtain ⟨conditional, name⟩ := step
  obtain ⟨conditional', name'⟩ := step'
  cases conditional <;> cases conditional' <;> simp [text] at h
  all_goals
    obtain ⟨rfl, rfl⟩ := hstep.append_inj hstep' hr hr' h
    exact ⟨rfl, rfl⟩

theorem texts_append_inj {steps steps' : List Step} (hsteps : ∀ step ∈ steps, IsName step.name)
    (hsteps' : ∀ step ∈ steps', IsName step.name) {r r' : List Char} (hr : Ends r) (hr' : Ends r')
    (h : steps.flatMap text ++ r = steps'.flatMap text ++ r') : steps = steps' ∧ r = r' := by
  have hne : ∀ {y : List Char}, Ends y → ∀ (step : Step) (x : List Char), step.text ++ x ≠ y := fun hy step x hxy =>
    not_ends_text_append step x (hxy ▸ hy)
  have hrows := row_append_inj id Stops stops_text_append hr.stops hr'.stops (fun step _ => hne hr' step)
    (fun step _ => hne hr step)
    (fun step hstep step' hstep' _ _ => text_append_inj (hsteps step hstep) (hsteps' step' hstep')) h
  rwa [List.map_id, List.map_id] at hrows

end Step

/-- An operand as it is written: the operators and casts in front, and the members after it. -/
structure Spine where
  signs : List Sign
  base : Expr
  steps : List Step

def spine : Expr → Spine
  | field target name _ => { target.spine with steps := target.spine.steps ++ [⟨false, name⟩] }
  | access target name => { target.spine with steps := target.spine.steps ++ [⟨true, name⟩] }
  | unary op operand => { operand.spine with signs := .op op :: operand.spine.signs }
  | convert type value => { value.spine with signs := .cast type :: value.spine.signs }
  | e => ⟨[], e, []⟩

/-- The text of `e` where it stands as an operand. -/
def operand (s : Scope) (e : Expr) : List Char := (e.grouped (e.render s)).toList

theorem operand_of_isCompound {e : Expr} (he : e.isCompound = true) :
    operand s e = '(' :: ((e.render s).toList ++ [')']) := by
  simp [operand, grouped, he]

theorem operand_of_not_isCompound {e : Expr} (he : e.isCompound = false) : operand s e = (e.render s).toList := by
  simp [operand, grouped, he]

theorem operand_field (target : Expr) (name : String) (nonNull : Bool) :
    operand s (field target name nonNull) = operand s target ++ Step.text ⟨false, name⟩ := by
  rw [operand_of_not_isCompound rfl, render]
  simp [operand, Step.text]

theorem operand_access (target : Expr) (name : String) :
    operand s (access target name) = operand s target ++ Step.text ⟨true, name⟩ := by
  rw [operand_of_not_isCompound rfl, render]
  simp [operand, Step.text]

theorem operand_unary (op : UnaryOp) (e : Expr) : operand s (unary op e) = Sign.text (.op op) ++ operand s e := by
  rw [operand_of_not_isCompound rfl, render]
  simp [operand, Sign.text]

theorem operand_convert (type : String) (e : Expr) :
    operand s (convert type e) = Sign.text (.cast type) ++ operand s e := by
  rw [operand_of_not_isCompound rfl, render]
  simp [operand, Sign.text]

theorem operand_eq_spine (e : Expr) : operand s e =
    e.spine.signs.flatMap Sign.text ++ (operand s e.spine.base ++ e.spine.steps.flatMap Step.text) := by
  induction e using induct with
  | step e ih =>
    cases e with
    | field target name nonNull => simp [operand_field, ih target List.mem_cons_self, spine]
    | access target name => simp [operand_access, ih target List.mem_cons_self, spine]
    | unary op e => simp [operand_unary, ih e List.mem_cons_self, spine]
    | convert type e => simp [operand_convert, ih e List.mem_cons_self, spine]
    | _ => simp [spine]

theorem isSigned_reading_base (e : Expr) : e.spine.base.reading.isSigned = false := by
  induction e using induct with
  | step e ih =>
    cases e with
    | field target | access target => exact ih target List.mem_cons_self
    | unary _ e | convert _ e => exact ih e List.mem_cons_self
    | _ => exact congrArg isSigned (reading_eq _)

theorem under_foldr_apply (signs : List Sign) {e : Expr} (he : e.isSigned = false) (wrap : Expr → Expr) :
    (signs.foldr Sign.apply e).under wrap = signs.foldr Sign.apply (wrap e) := by
  induction signs with
  | nil => exact under_of_not_isSigned he wrap
  | cons sign signs ih => cases sign <;> exact congrArg _ ih

theorem isSigned_foldl_apply (steps : List Step) {e : Expr} (he : e.isSigned = false) :
    (steps.foldl Step.apply e).isSigned = false := by
  induction steps generalizing e with
  | nil => exact he
  | cons step steps ih =>
    obtain ⟨conditional, name⟩ := step
    cases conditional <;> exact ih rfl

/-- The operators and casts in front of an operand are read as applied to its members. -/
theorem reading_eq_spine (e : Expr) :
    e.reading = e.spine.signs.foldr Sign.apply (e.spine.steps.foldl Step.apply e.spine.base.reading) := by
  have hmember : ∀ (target : Expr) (wrap : Expr → Expr),
      (target.spine.signs.foldr Sign.apply
        (target.spine.steps.foldl Step.apply target.spine.base.reading)).under wrap =
      target.spine.signs.foldr Sign.apply
        (wrap (target.spine.steps.foldl Step.apply target.spine.base.reading)) := fun target wrap =>
    under_foldr_apply _ (isSigned_foldl_apply _ (isSigned_reading_base target)) wrap
  induction e using induct with
  | step e ih =>
    cases e with
    | field target name nonNull =>
      rw [reading_field, ih target List.mem_cons_self, hmember]
      simp [spine, Step.apply]
    | access target name =>
      rw [reading_access, ih target List.mem_cons_self, hmember]
      simp [spine, Step.apply]
    | unary op e =>
      rw [reading_unary, ih e List.mem_cons_self]
      rfl
    | convert type e =>
      rw [reading_convert, ih e List.mem_cons_self]
      rfl
    | _ => rfl

/-- What is written around a base is made of names, and the base is a parameter or an operator form. -/
structure Spine.Legible (s : Scope) (p : Spine) : Prop where
  signs : ∀ sign ∈ p.signs, sign.Named
  base : Expr.Legible s p.base
  steps : ∀ step ∈ p.steps, IsName step.name
  isParam : p.base.isCompound = false → ∃ i < s.paramNames.length, p.base = param i

theorem Legible.spine {e : Expr} (he : Legible s e) : Spine.Legible s e.spine := by
  induction he with
  | param hi => exact ⟨by simp [Expr.spine], .param hi, by simp [Expr.spine], fun _ => ⟨_, hi, rfl⟩⟩
  | field hname _ ih =>
    exact ⟨ih.signs, ih.base, by simpa [Expr.spine, hname, or_imp, forall_and] using ih.steps, ih.isParam⟩
  | access hname _ ih =>
    exact ⟨ih.signs, ih.base, by simpa [Expr.spine, hname, or_imp, forall_and] using ih.steps, ih.isParam⟩
  | unary _ ih => exact ⟨List.forall_mem_cons.mpr ⟨trivial, ih.signs⟩, ih.base, ih.steps, ih.isParam⟩
  | convert hname _ ih => exact ⟨List.forall_mem_cons.mpr ⟨hname, ih.signs⟩, ih.base, ih.steps, ih.isParam⟩
  | binary hl hr => exact ⟨by simp [Expr.spine], .binary hl hr, by simp [Expr.spine], nofun⟩
  | coalesce hv hf => exact ⟨by simp [Expr.spine], .coalesce hv hf, by simp [Expr.spine], nofun⟩
  | conditional hc ht hf => exact ⟨by simp [Expr.spine], .conditional hc ht hf, by simp [Expr.spine], nofun⟩
  | raise hv => exact ⟨by simp [Expr.spine], .raise hv, by simp [Expr.spine], nofun⟩

end Expr

end DeclRecovery
