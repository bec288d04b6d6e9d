import DeclRecovery.Proofs.Delegation
import Mathlib.Data.Finset.Card
import Mathlib.Logic.Relation

/-!
What the order that an exploration leaves says about the ways between constructors. All that can be explored from a
constructor is finished before it, except for what leads back to it (`Visit.Ordered`). So a target that comes late in the
order is on a circle (`exists_circle_of_late`). That the depth of an exploration is bounded by the number of nodes leaves
nothing out (`Visit.unmet`).
-/

namespace DeclRecovery.Delegation

variable {next : CtorId → List CtorId} {nodes : List CtorId}

/-- `m` can be explored from `n`, directly or through others. -/
abbrev LeadsTo (next : CtorId → List CtorId) : CtorId → CtorId → Prop := Relation.ReflTransGen fun n m => m ∈ next n

namespace Visit

variable {v w : Visit}

/-- Met and not finished, so on the way to what is explored now. -/
def Open (v : Visit) (n : CtorId) : Prop := n ∈ v.met ∧ n ∉ v.finished

/-- What can be explored from a finished node was finished before it, or leads back to it. -/
def Ordered (next : CtorId → List CtorId) (v : Visit) : Prop :=
  ∀ later n earlier, v.finished = later ++ n :: earlier → ∀ m ∈ next n, m ∈ earlier ∨ LeadsTo next m n

/-- How many of the nodes are still to be met. -/
def unmet (nodes : List CtorId) (v : Visit) : Nat := (nodes.toFinset \ v.met.toFinset).card

theorem Extends.open (h : v.Extends w) {n : CtorId} (hn : w.Open n) : v.Open n :=
  ⟨(h.done n hn.1).resolve_right hn.2, fun hfinished => hn.2 (h.finished hfinished)⟩

theorem Extends.unmet_le (h : v.Extends w) : w.unmet nodes ≤ v.unmet nodes := by
  refine Finset.card_le_card (Finset.sdiff_subset_sdiff (Finset.Subset.refl _) fun n hn => ?_)
  rw [List.mem_toFinset] at hn ⊢
  exact h.met hn

theorem unmet_empty_le : unmet nodes {} ≤ nodes.length :=
  Nat.le_trans (Finset.card_le_card Finset.sdiff_subset) (List.toFinset_card_le nodes)

/-- Meeting a node leaves fewer to be met, so one step less is enough for them. -/
theorem unmet_meet_le {n : CtorId} {fuel : Nat} (hn : n ∈ nodes) (hmet : n ∉ v.met) (hfuel : v.unmet nodes ≤ fuel + 1) :
    unmet nodes { v with met := n :: v.met } ≤ fuel := by
  refine Nat.le_of_lt_succ (Nat.lt_of_lt_of_le ?_ hfuel)
  refine Finset.card_lt_card (Finset.ssubset_iff_of_subset ?_ |>.mpr ⟨n, ?_, ?_⟩)
  · refine Finset.sdiff_subset_sdiff (Finset.Subset.refl _) fun m hm => ?_
    rw [List.mem_toFinset] at hm ⊢
    exact List.mem_cons_of_mem n hm
  · simp [hn, hmet]
  · simp

theorem mem_met_of_unmet_eq_zero {n : CtorId} (h : v.unmet nodes = 0) (hn : n ∈ nodes) : n ∈ v.met := by
  rw [unmet, Finset.card_eq_zero, Finset.sdiff_eq_empty_iff_subset] at h
  exact List.mem_toFinset.mp (h (List.mem_toFinset.mpr hn))

/-- `n` may be explored next: all that is open leads to it, and `fuel` is enough to meet whatever is left. -/
structure Ready (next : CtorId → List CtorId) (nodes : List CtorId) (fuel : Nat) (v : Visit) (n : CtorId) : Prop where
  node : n ∈ nodes
  fuel : v.unmet nodes ≤ fuel
  ordered : v.Ordered next
  way : ∀ a, v.Open a → LeadsTo next a n

theorem Ready.of_extends {fuel : Nat} {n : CtorId} (h : Ready next nodes fuel v n) (hvw : v.Extends w)
    (hw : w.Ordered next) : Ready next nodes fuel w n :=
  ⟨h.node, Nat.le_trans hvw.unmet_le h.fuel, hw, fun a ha => h.way a (hvw.open ha)⟩

end Visit

theorem ordered_foldl {f : Visit → CtorId → Visit} {fuel : Nat} (hextends : ∀ (v : Visit) (n : CtorId), v.Extends (f v n))
    (hf : ∀ v n, Visit.Ready next nodes fuel v n → (f v n).Ordered next ∧ n ∈ (f v n).met) {l : List CtorId} {v : Visit}
    (hv : v.Ordered next) (hl : ∀ n ∈ l, Visit.Ready next nodes fuel v n) :
    (l.foldl f v).Ordered next ∧ ∀ n ∈ l, n ∈ (l.foldl f v).met := by
  induction l generalizing v with
  | nil => exact ⟨hv, fun n hn => absurd hn List.not_mem_nil⟩
  | cons m l ih =>
    obtain ⟨hordered, hmet⟩ := hf v m (hl m List.mem_cons_self)
    have hrest := ih hordered fun n hn => (hl n (List.mem_cons_of_mem m hn)).of_extends (hextends v m) hordered
    refine ⟨hrest.1, fun n hn => ?_⟩
    rcases List.mem_cons.mp hn with rfl | hn
    · exact (Visit.Extends.foldl hextends l (f v n)).met hmet
    · exact hrest.2 n hn

/-- An exploration that is ready to start keeps the finished ones in order, and it meets its node. -/
theorem ordered_explore (hnext : ∀ n, next n ⊆ nodes) (fuel : Nat) (v : Visit) (n : CtorId)
    (h : Visit.Ready next nodes fuel v n) :
    (explore next fuel v n).Ordered next ∧ n ∈ (explore next fuel v n).met := by
  induction fuel generalizing v n with
  | zero => exact ⟨h.ordered, Visit.mem_met_of_unmet_eq_zero (Nat.le_zero.mp h.fuel) h.node⟩
  | succ fuel ih =>
    rw [explore]
    split
    · next hmet => exact ⟨h.ordered, hmet⟩
    · next hmet =>
      -- What is open below the node is the node itself, or it was open before.
      have hway : ∀ a, Visit.Open { v with met := n :: v.met } a → LeadsTo next a n := by
        rintro a ⟨ha, hfinished⟩
        rcases List.mem_cons.mp ha with rfl | ha
        · exact .refl
        · exact h.way a ⟨ha, hfinished⟩
      have hready : ∀ m ∈ next n, Visit.Ready next nodes fuel { v with met := n :: v.met } m := fun m hm =>
        ⟨hnext n hm, Visit.unmet_meet_le h.node hmet h.fuel, h.ordered, fun a ha => (hway a ha).tail hm⟩
      have hbelow := ordered_foldl (extends_explore fuel) ih (v := { v with met := n :: v.met }) h.ordered hready
      refine ⟨fun later k earlier hsplit m hm => ?_, (extends_foldl_explore fuel (next n) _).met List.mem_cons_self⟩
      cases later with
      | nil =>
        cases hsplit
        by_cases hfinished : m ∈ ((next n).foldl (explore next fuel) { v with met := n :: v.met }).finished
        · exact Or.inl hfinished
        · exact Or.inr (hway m ((extends_foldl_explore fuel (next n) _).open ⟨hbelow.2 m hm, hfinished⟩))
      | cons _ later => exact hbelow.1 later k earlier (List.cons.inj hsplit).2 m hm

theorem ordered_order (hnext : ∀ n, next n ⊆ nodes) : Visit.Ordered next (nodes.foldl (explore next nodes.length) {}) := by
  have hempty : Visit.Ordered next {} := by
    intro later n earlier hsplit
    cases later <;> cases hsplit
  have hready : ∀ n ∈ nodes, Visit.Ready next nodes nodes.length {} n := fun n hn =>
    ⟨hn, Visit.unmet_empty_le, hempty, fun _ ha => absurd ha.1 List.not_mem_nil⟩
  exact (ordered_foldl (extends_explore nodes.length) (ordered_explore hnext nodes.length) hempty hready).1

/-- Where a node stands in the order before one from which it can be explored, it leads there itself. -/
theorem leadsTo_of_order (hnext : ∀ n, next n ⊆ nodes) {n m : CtorId} {before between after : List CtorId}
    (horder : order next nodes = before ++ n :: (between ++ m :: after)) (hn : n ∈ next m) : LeadsTo next n m := by
  have hsplit : order next nodes = (before ++ n :: between) ++ m :: after := by simp [horder]
  rcases ordered_order hnext _ m after hsplit n hn with hafter | hleads
  · -- The order lists the node once, so not after the other one, too.
    have hnodup : (order next nodes).Nodup := order_nodup nodes
    rw [horder] at hnodup
    exact absurd (by simp [hafter]) (List.nodup_cons.mp (List.nodup_append.mp hnodup).2.1).1
  · exact hleads

/-- A late target comes neither before its constructor nor among those seen already. -/
theorem late?_eq_some {target? : CtorId → Option CtorId} {seen l : List CtorId} {target : CtorId}
    (h : late? target? seen l = some target) :
    ∃ before n after, l = before ++ n :: after ∧ target? n = some target ∧ target ∉ before ∧ target ∉ seen := by
  induction l generalizing seen with
  | nil => cases h
  | cons n l ih =>
    have hlater : late? target? (n :: seen) l = some target →
        ∃ before m after, n :: l = before ++ m :: after ∧ target? m = some target ∧ target ∉ before ∧ target ∉ seen := by
      intro hlate
      obtain ⟨before, m, after, rfl, hm, hbefore, hseen⟩ := ih hlate
      rw [List.mem_cons, not_or] at hseen
      exact ⟨n :: before, m, after, rfl, hm, by simp [hseen.1, hbefore], hseen.2⟩
    rw [late?] at h
    split at h
    · next t ht =>
      split at h
      · exact hlater h
      · next hseen =>
        cases h
        exact ⟨[], n, l, rfl, ht, List.not_mem_nil, hseen⟩
    · exact hlater h

/-- A target that comes late is the target of a constructor that can be explored from it and leads back to it. -/
theorem exists_circle_of_late {target? : CtorId → Option CtorId} (hnext : ∀ n, next n ⊆ nodes)
    (htarget : ∀ n target, target? n = some target → n ∈ next target ∧ target ∈ nodes) {target : CtorId}
    (h : late? target? [] (order next nodes) = some target) :
    ∃ n, target? n = some target ∧ LeadsTo next n target := by
  obtain ⟨before, n, after, horder, hn, hbefore, -⟩ := late?_eq_some h
  obtain ⟨hmem, hnode⟩ := htarget n target hn
  have hlisted : target ∈ before ++ n :: after := horder ▸ mem_order hnode
  rcases List.mem_append.mp hlisted with hb | hlisted
  · exact absurd hb hbefore
  · rcases List.mem_cons.mp hlisted with rfl | hafter
    · exact ⟨target, hn, .refl⟩
    · obtain ⟨between, rest, rfl⟩ := List.append_of_mem hafter
      exact ⟨n, hn, leadsTo_of_order hnext horder hmem⟩

end DeclRecovery.Delegation
