import DeclRecovery.Proofs.Lowering
import DeclRecovery.Reconstruction.Run

/-!
What a type does, without what only says how it is written (`TypeDecl.bare`): the forms of constructors, the
disposition of slots, the kind of aggregate and the primary constructor. The stages up to the synthesis change no
more than these notes, the carrying out of a plan apart, and that goes with `bare`.
-/

namespace DeclRecovery

theorem map_mapIdx {α β γ δ : Type} {f : Nat → α → β} {g : β → γ} {f' : Nat → δ → γ} {g' : α → δ}
    (h : ∀ i a, g (f i a) = f' i (g' a)) (l : List α) : (l.mapIdx f).map g = (l.map g').mapIdx f' := by
  refine List.ext_getElem? fun i => ?_
  simp [List.getElem?_mapIdx, Function.comp_def, h]

namespace Slot

/-- The slot without the note on how it is declared. -/
def bare (s : Slot) : Slot := { s with disposition := .declared }

end Slot

namespace Constructor

/-- The constructor without the note on how it is written. -/
def bare (c : Constructor) : Constructor := { c with form := .explicit }

@[simp] theorem bare_runsInitializers (c : Constructor) : c.bare.runsInitializers = c.runsInitializers := rfl

end Constructor

namespace TypeDecl

/-- The type without the notes on how it is written. -/
def bare (t : TypeDecl) : TypeDecl :=
  { t with
    slots := t.slots.map Slot.bare
    constructors := t.constructors.map Constructor.bare
    aggregateKind := none
    primaryConstructor := none }

variable {t t' : TypeDecl}

theorem bare_eq_iff : t.bare = t'.bare ↔ t.name = t'.name ∧ t.base = t'.base ∧ t.layout = t'.layout ∧
    t.slots.map Slot.bare = t'.slots.map Slot.bare ∧
    t.constructors.map Constructor.bare = t'.constructors.map Constructor.bare ∧ t.synthesized = t'.synthesized := by
  simp [bare]

theorem getElem?_constructors_of_bare_eq (h : t.bare = t'.bare) (id : CtorId) :
    t.constructors[id]?.map Constructor.bare = t'.constructors[id]?.map Constructor.bare := by
  rw [← List.getElem?_map, ← List.getElem?_map, (bare_eq_iff.mp h).2.2.2.2.1]

theorem bare_initializers (t : TypeDecl) : t.bare.initializers = t.initializers := by
  simp [initializers, bare, List.zipIdx_map, List.filterMap_map, Function.comp_def, Slot.bare]

theorem initializers_of_bare_eq (h : t.bare = t'.bare) : t.initializers = t'.initializers := by
  rw [← bare_initializers t, h, bare_initializers]

/-! ### What changes the notes only -/

theorem bare_mapForms (f : CtorId → Constructor → Form) (t : TypeDecl) : (t.mapForms f).bare = t.bare := by
  simp only [bare, mapForms]
  congr 1
  refine List.ext_getElem? fun i => ?_
  simp only [List.getElem?_map, List.getElem?_mapIdx, Option.map_map]
  rfl

theorem bare_withForms {forms : PosMap Form} (h : t.withForms forms = .ok t') : t'.bare = t.bare := by
  obtain ⟨-, -, h⟩ := bind_eq_ok_iff.mp h
  cases h
  exact bare_mapForms _ t

theorem bare_classify {options : Options} {c : Classification} (h : c.apply options t = .ok t') : t'.bare = t.bare := by
  rw [bare_withForms h]
  split
  · exact bare_mapForms _ t
  · rfl

theorem bare_markCaptured (t : TypeDecl) : t.markCaptured.bare = t.bare := by
  simp only [bare, markCaptured, List.map_map]
  congr 1
  refine List.map_congr_left fun s _ => ?_
  simp only [Function.comp_apply]
  split <;> rfl

theorem bare_clearPrimary (t : TypeDecl) : t.clearPrimary.bare = t.bare := by
  simp only [bare, clearPrimary, List.map_map]
  congr 1
  refine List.map_congr_left fun c _ => ?_
  simp only [Function.comp_apply]
  split <;> rfl

theorem bare_decide {decision : Decision} (h : decision.apply t = .ok t') : t'.bare = t.bare := by
  cases decision with
  | synthesized root overloads =>
    obtain ⟨formed, hformed, h⟩ := bind_eq_ok_iff.mp h
    cases h
    rw [bare_markCaptured, ← bare_withForms hformed]
    rfl
  | notApplicable | rejected =>
    cases h
    exact bare_clearPrimary t

/-! ### What goes with it -/

theorem bare_hoist (p : Plan) (t : TypeDecl) : (p.hoist t).bare = p.hoist t.bare := by
  simp only [bare, Plan.hoist]
  congr 1
  · refine map_mapIdx (fun i s => ?_) _
    cases p.hoisted.find? i <;> rfl
  · refine map_mapIdx (fun i c => ?_) _
    rfl

theorem bare_dropZeros (p : Plan) (t : TypeDecl) : (t.dropZeros p).bare = t.bare.dropZeros p := by
  simp only [bare, dropZeros]
  congr 1
  refine map_mapIdx (fun i s => ?_) _
  split <;> rfl

theorem bare_shape (options : Options) (t : TypeDecl) : (t.shape options).bare = t.bare.shape options := by
  simp only [bare, shape, List.map_map]
  rfl

end TypeDecl

theorem Chain.build_of_bare_eq {t t' : TypeDecl} {chain : Chain} (h : t'.bare = t.bare) (hchain : build t = .ok chain) :
    build t' = .ok chain := by
  have hid := TypeDecl.getElem?_constructors_of_bare_eq h
  refine build_congr hchain (fun id => ?_) fun id c c' hc hc' => ?_
  · have := congrArg (Option.map fun c => (c.isDeclared, c.chainTarget?)) (hid id)
    rwa [Option.map_map, Option.map_map] at this
  · have hbare := hid id
    rw [hc, hc', Option.map_some, Option.map_some, Option.some_inj] at hbare
    have hbody : c'.body = c.body := (congrArg Constructor.body hbare :)
    rw [hbody]
    exact ⟨Nat.le_refl _, fun h => h⟩

end DeclRecovery
