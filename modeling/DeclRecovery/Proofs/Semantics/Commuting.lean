import DeclRecovery.Proofs.Rewriting
import DeclRecovery.Proofs.Semantics.Exec
import DeclRecovery.Reconstruction.Run

/-!
Stores that commute can change places. Whether two stores commute is decided from their footprints
(`Hoist.commutes`), and the footprint of an expression does not show that `?.` looks at the world. So the order of two
stores that commute makes no difference (`exec_swap`), unless one of them reads a member by `?.` and the other asks
something of the outside, which may have changed that member.
-/

namespace DeclRecovery

namespace Expr
open Effect

variable {I : Interp}

/-- What is not observable can be evaluated at any time, except for `?.`: that is not to change places with anything
that asks something of the outside. -/
theorem swaps_eval_of_not_observable {e e' : Expr} (h : e.footprint.observable = false)
    (haccess : e'.asks = true → e.accessFree = true) (env env' : Env I) : Swaps (e.eval env) (e'.eval env') := by
  cases hasks : e'.asks with
  | false =>
    obtain ⟨f, hf⟩ := exists_eval_eq_observe h env
    rw [hf]
    exact swaps_observe f (still_eval hasks)
  | true =>
    obtain ⟨v, hv⟩ := Silent.exists_eval_eq_pure ⟨h, haccess hasks⟩ env
    rw [hv]
    exact swaps_pure v _

/-! ### Members without marks -/

theorem footprint_unmarked (e : Expr) : e.unmarked.footprint = e.footprint := by
  refine para_unmarked (f := fun h subs => subs.foldl Footprint.union (Footprint.ofHead h)) (fun h => ?_) e
  cases h <;> rfl

theorem asks_unmarked (e : Expr) : e.unmarked.asks = e.asks := by
  refine para_unmarked (f := fun h subs => h.asks || subs.any id) (fun h => ?_) e
  cases h <;> rfl

theorem accessFree_unmarked (e : Expr) : e.unmarked.accessFree = e.accessFree := by
  rw [accessFree_eq_para]
  refine para_unmarked (f := fun h subs => !h.isAccess && subs.all id) (fun h => ?_) e
  cases h <;> rfl

end Expr

namespace Stmt
open Effect Hoist

variable {I : Interp} {enter : Enter I} {args : List I.Value} {x y : SlotId × Expr}

theorem exec_ofStore (x : SlotId × Expr) (σ : I.Store) : exec enter args (ofStore x) σ =
    x.2.eval ⟨args, σ⟩ >>= fun v => pure (Function.update σ x.1 (I.stored x.1 v)) := by
  rw [ofStore, exec]

theorem eval_update {e : Expr} (hself : e.footprint.readsSelf = false) {slot : SlotId}
    (hslot : slot ∉ e.footprint.members) (σ : I.Store) (v : I.Value) :
    e.eval ⟨args, Function.update σ slot v⟩ = e.eval ⟨args, σ⟩ := by
  refine Expr.eval_congr hself ⟨fun _ _ => rfl, fun s hs => Function.update_of_ne ?_ _ _⟩
  rintro rfl
  exact hslot hs

theorem exec_swap (h : Swappable y x) (hne : x.1 ≠ y.1) (hy : x.2.asks = true → y.2.accessFree = true)
    (hx : y.2.asks = true → x.2.accessFree = true) (σ : I.Store) :
    exec enter args (ofStore y) σ >>= exec enter args (ofStore x) =
      exec enter args (ofStore x) σ >>= exec enter args (ofStore y) := by
  have hfirst : ∀ v, x.2.eval ⟨args, Function.update σ y.1 v⟩ = x.2.eval ⟨args, σ⟩ :=
    eval_update h.readsSelf.2 h.members.2 σ
  have hsecond : ∀ v, y.2.eval ⟨args, Function.update σ x.1 v⟩ = y.2.eval ⟨args, σ⟩ :=
    eval_update h.readsSelf.1 h.members.1 σ
  have hcomm : ∀ a b : I.Value, Function.update (Function.update σ y.1 a) x.1 b =
      Function.update (Function.update σ x.1 b) y.1 a := fun a b => Function.update_comm hne.symm a b σ
  have hswaps : Swaps (y.2.eval ⟨args, σ⟩) (x.2.eval ⟨args, σ⟩) := by
    cases hobs : x.2.footprint.observable with
    | false => exact (Expr.swaps_eval_of_not_observable hobs hx _ _).symm
    | true => exact Expr.swaps_eval_of_not_observable (h.observable hobs) hy _ _
  simp only [exec_ofStore, bind_assoc, pure_bind, hfirst, hsecond, hcomm]
  exact hswaps _

theorem execBlock_swap (h : Swappable y x) (hne : x.1 ≠ y.1) (hy : x.2.asks = true → y.2.accessFree = true)
    (hx : y.2.asks = true → x.2.accessFree = true) (σ : I.Store) :
    execBlock enter args [ofStore y, ofStore x] σ = execBlock enter args [ofStore x, ofStore y] σ := by
  simp only [execBlock, bind_pure]
  exact exec_swap h hne hy hx σ

end Stmt

namespace Hoist
open Stmt

/-- Two stores that commute can be run in either order: with the same result or exception, the same world and, if both
come to their end, the same slots. The exception are stores of which one reads a member by `?.` while the other asks
something of the outside. That members which are marked as never null are never null need not be assumed. -/
theorem commutes_sound {a b : SlotId} {ea eb : Expr} (hne : a ≠ b)
    (h : commutes (a, ea.footprint) (b, eb.footprint) = true) (ha : eb.asks = true → ea.accessFree = true)
    (hb : ea.asks = true → eb.accessFree = true) (I : Interp) (enter : Enter I) (args : List I.Value) (σ : I.Store) :
    execBlock enter args [.assign a ea, .assign b eb] σ = execBlock enter args [.assign b eb, .assign a ea] σ ∧
      execBlock enter args [.assign a ea.unmarked, .assign b eb.unmarked] σ =
        execBlock enter args [.assign b eb.unmarked, .assign a ea.unmarked] σ := by
  constructor
  · exact execBlock_swap (y := (a, ea)) (x := (b, eb)) h hne.symm ha hb σ
  · refine execBlock_swap (y := (a, ea.unmarked)) (x := (b, eb.unmarked)) ?_ hne.symm ?_ ?_ σ
    · rw [Swappable, Expr.footprint_unmarked, Expr.footprint_unmarked]
      exact h
    · rw [Expr.asks_unmarked, Expr.accessFree_unmarked]
      exact ha
    · rw [Expr.asks_unmarked, Expr.accessFree_unmarked]
      exact hb

/-- A member read by `?.` and one that may be missing change places. -/
theorem commutes_sound_reads :
    let level : Expr := .access (.call { name := "current", pure := true } []) "level"
    let size : Expr := .field (.param 0) "size" true
    let enter : Enter .counting := fun _ _ _ => .stop .undefined
    commutes (0, level.footprint) (1, size.footprint) = true ∧
      execBlock enter [none] [.assign 0 level, .assign 1 size] Interp.counting.zero =
        execBlock enter [none] [.assign 1 size, .assign 0 level] Interp.counting.zero :=
  ⟨by decide, (commutes_sound (by decide) (by decide) (by decide) (by decide) .counting _ [none] _).1⟩

end Hoist

/-- A type whose first slot gets a member of an object, read after a number was asked for. -/
def TypeDecl.gauge : TypeDecl where
  name := "Gauge"
  layout := .byReference
  slots := [{ name := "level", kind := .field, type := "int?" }, { name := "ticket", kind := .field, type := "int" }]
  constructors :=
    let current : Expr := .call { name := "current", pure := true } []
    [{ parameters := []
       body := [.assign 1 (.call { name := "next" } []),
        .assign 0 (.select (.binary .ne current (.literal .null)) (.field current "level" false) (.literal .null)),
        .base []] }]

/-- The type as it is after a reconstruction: the choice is written by `?.`. -/
def TypeDecl.gaugeAccess : TypeDecl where
  name := "Gauge"
  layout := .byReference
  slots := [{ name := "level", kind := .field, type := "int?" },
    { name := "ticket", kind := .field, type := "int", initializer := some (.call { name := "next" } []) }]
  constructors := [{ parameters := []
                     body := [.assign 0 (.access (.call { name := "current", pure := true } []) "level"), .base []] }]
  aggregateKind := some .reference

/-- What `current()?.level` gives depends on whether `next()` has run, although the two count as commuting. So another
reconstruction moves it to the front, and the slot gets another value. -/
theorem commutes_overlooks_access :
    let level : Expr := .access (.call { name := "current", pure := true } []) "level"
    let ticket : Expr := .call { name := "next" } []
    let enter : Enter .counting := fun _ _ _ => .stop .undefined
    (Hoist.commutes (0, level.footprint) (1, ticket.footprint) = true ∧
      (Stmt.execBlock enter [] [.assign 0 level, .assign 1 ticket] Interp.counting.zero ⟨(5 : Int), []⟩).1.map (· 0) =
        .ok (some 5) ∧
      (Stmt.execBlock enter [] [.assign 1 ticket, .assign 0 level] Interp.counting.zero ⟨(5 : Int), []⟩).1.map (· 0) =
        .ok (some 6)) ∧
    reconstruct {} .gauge = .ok ⟨.gaugeAccess, .reconstructed, []⟩ ∧
      (TypeDecl.gauge.run .counting 1 0 [] Interp.counting.zero ⟨(5 : Int), []⟩).1.map (· 0) = .ok (some 6) ∧
      (TypeDecl.gaugeAccess.run .counting 1 0 [] Interp.counting.zero ⟨(5 : Int), []⟩).1.map (· 0) = .ok (some 6) ∧
      ∃ t', reconstruct {} .gaugeAccess = .ok ⟨t', .reconstructed, []⟩ ∧
        (t'.run .counting 1 0 [] Interp.counting.zero ⟨(5 : Int), []⟩).1.map (· 0) = .ok (some 5) :=
  ⟨⟨by decide, rfl, rfl⟩, rfl, rfl, rfl, { TypeDecl.gaugeAccess with
    slots := [{ name := "level", kind := .field, type := "int?",
                initializer := some (.access (.call { name := "current", pure := true } []) "level") },
      { name := "ticket", kind := .field, type := "int", initializer := some (.call { name := "next" } []) }]
    constructors := [{ parameters := [], body := [.base []], form := .elided }] }, rfl, rfl⟩

end DeclRecovery
