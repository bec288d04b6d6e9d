import DeclRecovery.Proofs.Delegation.Exploration
import Mathlib.Computability.StateTransition

/-!
The exploration and the check for late targets as loops over a stack, the form in which topological sorts are written
without recursion. A search (`Search.step`) leaves a node on the stack under those that are explored from it, so that it
is finished when it comes up again; a node may be on the stack several times. A check (`Check.step`) follows targets from
each node of the order and stops at the second one that it visits on the way. Both loops end, whatever the targets are,
and they find what `order` and `late?` compute.
-/

namespace DeclRecovery.Delegation

open StateTransition

variable {next : CtorId → List CtorId} {nodes : List CtorId}

/-! ### The search -/

structure Search where
  /-- The nodes from which the search has still to start. -/
  waiting : List CtorId
  /-- The stack, its top first. -/
  stack : List CtorId
  visit : Visit

namespace Search

/-- One turn of the loop. A node that comes up for the first time gets those on top of it that are explored from it and
were not met yet; one that comes up again is taken off, and finished unless that was done before. -/
def step (next : CtorId → List CtorId) : Search → Option Search
  | ⟨[], [], _⟩ => none
  | ⟨n :: waiting, [], v⟩ => some ⟨waiting, if n ∈ v.met then [] else [n], v⟩
  | ⟨waiting, n :: stack, v⟩ =>
    if n ∈ v.met then
      some ⟨waiting, stack, if n ∈ v.finished then v else { v with finished := n :: v.finished }⟩
    else
      some ⟨waiting, (next n).filter (· ∉ n :: v.met) ++ n :: stack, { v with met := n :: v.met }⟩

def start (nodes : List CtorId) : Search := ⟨nodes, [], {}⟩

variable {waiting stack : List CtorId} {v : Visit} {n : CtorId}

theorem mem_step_finished (hv : v.Sound) (h : n ∈ v.finished) :
    ⟨waiting, stack, v⟩ ∈ step next ⟨waiting, n :: stack, v⟩ := by
  rw [step, if_pos (hv.met h), if_pos h]
  rfl

theorem mem_step_again (hmet : n ∈ v.met) (h : n ∉ v.finished) :
    ⟨waiting, stack, { v with finished := n :: v.finished }⟩ ∈ step next ⟨waiting, n :: stack, v⟩ := by
  rw [step, if_pos hmet, if_neg h]
  rfl

theorem mem_step_first (hmet : n ∉ v.met) :
    ⟨waiting, (next n).filter (· ∉ n :: v.met) ++ n :: stack, { v with met := n :: v.met }⟩ ∈
      step next ⟨waiting, n :: stack, v⟩ := by
  rw [step, if_neg hmet]
  rfl

/-- The search may go on with the nodes of `l`: none of them is open, and `fuel` is enough for what is left. -/
structure Clear (nodes : List CtorId) (fuel : Nat) (v : Visit) (l : List CtorId) : Prop where
  fuel : v.unmet nodes ≤ fuel
  subset : l ⊆ nodes
  sound : v.Sound
  done : ∀ n ∈ l, n ∈ v.met → n ∈ v.finished

variable {fuel : Nat} {l : List CtorId}

theorem Clear.head (h : Clear nodes fuel v (n :: l)) : Clear nodes fuel v [n] :=
  ⟨h.fuel, fun m hm => h.subset (by simp_all), h.sound, fun m hm => h.done m (by simp_all)⟩

theorem Clear.tail (h : Clear nodes fuel v (n :: l)) : Clear nodes fuel (explore next fuel v n) l := by
  have hextends : v.Extends (explore next fuel v n) := extends_explore fuel v n
  refine ⟨Nat.le_trans hextends.unmet_le h.fuel, fun m hm => h.subset (List.mem_cons_of_mem n hm),
    sound_explore fuel h.sound n, fun m hm hmet => ?_⟩
  rcases hextends.done m hmet with hv | hfinished
  · exact hextends.finished (h.done m (List.mem_cons_of_mem n hm) hv)
  · exact hfinished

theorem explore_of_mem (h : n ∈ v.met) : explore next fuel v n = v := by
  cases fuel with
  | zero => rfl
  | succ fuel => rw [explore, if_pos h]

/-- Nodes that were met before are passed over. -/
theorem foldl_filter_explore {met : List CtorId} (h : met ⊆ v.met) :
    (l.filter (· ∉ met)).foldl (explore next fuel) v = l.foldl (explore next fuel) v := by
  induction l generalizing v with
  | nil => rfl
  | cons m l ih =>
    rw [List.filter_cons, List.foldl_cons]
    split
    · exact ih fun k hk => (extends_explore fuel v m).met (h hk)
    · next hm =>
      rw [explore_of_mem (h (by simpa using hm))]
      exact ih h

theorem reaches_foldl (hstep : ∀ (v : Visit) (n : CtorId) (stack : List CtorId), Clear nodes fuel v [n] →
      Reaches (step next) ⟨waiting, n :: stack, v⟩ ⟨waiting, stack, explore next fuel v n⟩)
    (h : Clear nodes fuel v l) (stack : List CtorId) :
    Reaches (step next) ⟨waiting, l ++ stack, v⟩ ⟨waiting, stack, l.foldl (explore next fuel) v⟩ := by
  induction l generalizing v with
  | nil => exact .refl
  | cons n l ih => exact (hstep v n (l ++ stack) h.head).trans (ih h.tail)

/-- A node is taken off the stack for good when all that is explored from it is finished. -/
theorem reaches_explore (hnext : ∀ n, next n ⊆ nodes) (fuel : Nat) (v : Visit) (n : CtorId) (stack : List CtorId)
    (h : Clear nodes fuel v [n]) :
    Reaches (step next) ⟨waiting, n :: stack, v⟩ ⟨waiting, stack, explore next fuel v n⟩ := by
  induction fuel generalizing v n stack with
  | zero =>
    have hmet : n ∈ v.met := Visit.mem_met_of_unmet_eq_zero (Nat.le_zero.mp h.fuel) (h.subset (List.mem_singleton_self n))
    exact .single (mem_step_finished h.sound (h.done n (List.mem_singleton_self n) hmet))
  | succ fuel ih =>
    rw [explore]
    split
    · next hmet => exact .single (mem_step_finished h.sound (h.done n (List.mem_singleton_self n) hmet))
    · next hmet =>
      have hclear : Clear nodes fuel { v with met := n :: v.met } ((next n).filter (· ∉ n :: v.met)) := by
        refine ⟨?_, fun m hm => hnext n (List.mem_of_mem_filter hm), ?_, fun m hm hmet => ?_⟩
        · exact Visit.unmet_meet_le (h.subset (List.mem_singleton_self n)) hmet h.fuel
        · exact ⟨h.sound.nodup, fun m hm => List.mem_cons_of_mem n (h.sound.met hm)⟩
        · simp_all
      have hbelow := reaches_foldl ih hclear (n :: stack)
      rw [foldl_filter_explore (List.Subset.refl _)] at hbelow
      refine .head (mem_step_first hmet) (hbelow.tail (mem_step_again ?_ ?_))
      · exact (extends_foldl_explore fuel (next n) _).met List.mem_cons_self
      · exact not_mem_finished_foldl_explore h.sound hmet fuel (next n)

/-- What the loop makes of the nodes that wait, as soon as the stack is empty. -/
theorem reaches_waiting (hnext : ∀ n, next n ⊆ nodes) (h : Clear nodes fuel v l) :
    Reaches (step next) ⟨l, [], v⟩ ⟨[], [], l.foldl (explore next fuel) v⟩ := by
  induction l generalizing v with
  | nil => exact .refl
  | cons n l ih =>
    have htail : Clear nodes fuel (explore next fuel v n) l := h.tail
    refine .head rfl ?_
    rw [List.foldl_cons]
    split
    · next hmet =>
      rw [explore_of_mem hmet] at htail ⊢
      exact ih htail
    · exact (reaches_explore hnext fuel v n [] h.head).trans (ih htail)

/-- The loop ends, with the order that the exploration leaves. -/
theorem exists_mem_eval (hnext : ∀ n, next n ⊆ nodes) :
    ∃ s ∈ eval (step next) (start nodes), s.visit.finished = order next nodes := by
  refine ⟨_, StateTransition.mem_eval.mpr ⟨reaches_waiting hnext ⟨?_, List.Subset.refl _, ?_, ?_⟩, rfl⟩, rfl⟩
  · exact Visit.unmet_empty_le
  · exact ⟨List.nodup_nil, List.nil_subset _⟩
  · exact fun _ _ hmet => absurd hmet List.not_mem_nil

end Search

/-! ### The check -/

structure Check where
  /-- The part of the order that is not looked at yet. -/
  waiting : List CtorId
  stack : List CtorId
  met : List CtorId
  /-- Whether a node was visited since the last one was taken from the order. -/
  begun : Bool
  reported : Option CtorId

namespace Check

/-- One turn of the loop. A node that comes up and was not met yet is visited, with its target to come up next unless
that was met; the second visit on the way from one node is reported. -/
def step (target? : CtorId → Option CtorId) : Check → Option Check
  | ⟨_, _, _, _, some _⟩ => none
  | ⟨[], [], _, _, none⟩ => none
  | ⟨n :: waiting, [], met, _, none⟩ => some ⟨waiting, [n], met, false, none⟩
  | ⟨waiting, n :: stack, met, begun, none⟩ =>
    if n ∈ met then some ⟨waiting, stack, met, begun, none⟩
    else if begun then some ⟨waiting, stack, n :: met, begun, some n⟩
    else some ⟨waiting, (target? n).toList.filter (· ∉ n :: met) ++ stack, n :: met, true, none⟩

def start (order : List CtorId) : Check := ⟨order, [], [], false, none⟩

variable {target? : CtorId → Option CtorId} {waiting stack met : List CtorId} {begun : Bool} {n : CtorId}

theorem mem_step_visit (hmet : n ∉ met) :
    ⟨waiting, (target? n).toList.filter (· ∉ n :: met) ++ stack, n :: met, true, none⟩ ∈
      step target? ⟨waiting, n :: stack, met, false, none⟩ := by
  rw [step, if_neg hmet]
  rfl

theorem mem_step_report (hmet : n ∉ met) :
    ⟨waiting, stack, n :: met, true, some n⟩ ∈ step target? ⟨waiting, n :: stack, met, true, none⟩ := by
  rw [step, if_neg hmet, if_pos rfl]
  rfl

/-- From an order without repetitions the loop ends, and it reports the first target that comes late. -/
theorem exists_reaches (hself : ∀ n, target? n ≠ some n) {order : List CtorId} (hnodup : order.Nodup)
    (hmet : ∀ n ∈ order, n ∉ met) : ∃ c, Reaches (step target?) ⟨order, [], met, begun, none⟩ c ∧
      step target? c = none ∧ c.reported = late? target? met order := by
  induction order generalizing met begun with
  | nil => exact ⟨_, .refl, rfl, rfl⟩
  | cons n order ih =>
    have hn : n ∉ met := hmet n List.mem_cons_self
    rw [List.nodup_cons] at hnodup
    have hrest : ∃ c, Reaches (step target?) ⟨order, [], n :: met, true, none⟩ c ∧
        step target? c = none ∧ c.reported = late? target? (n :: met) order := by
      refine ih hnodup.2 fun m hm => ?_
      have hmn : m ≠ n := fun h => hnodup.1 (h ▸ hm)
      simp [hmn, hmet m (List.mem_cons_of_mem n hm)]
    have hvisit : Reaches (step target?) ⟨n :: order, [], met, begun, none⟩
        ⟨order, (target? n).toList.filter (· ∉ n :: met) ++ [], n :: met, true, none⟩ :=
      .head rfl (.single (mem_step_visit hn))
    have hskip : (target? n).toList.filter (· ∉ n :: met) = [] →
        ∃ c, Reaches (step target?) ⟨n :: order, [], met, begun, none⟩ c ∧
          step target? c = none ∧ c.reported = late? target? (n :: met) order := by
      intro hnone
      rw [hnone] at hvisit
      obtain ⟨c, hc, hend, hreported⟩ := hrest
      exact ⟨c, hvisit.trans hc, hend, hreported⟩
    rw [late?]
    cases htarget : target? n with
    | none => exact hskip (by simp [htarget])
    | some target =>
      dsimp only
      split
      · next hseen => exact hskip (by simp [htarget, hseen])
      · next hseen =>
        have htn : target ≠ n := fun h => hself n (h ▸ htarget)
        have hpush : (target? n).toList.filter (· ∉ n :: met) ++ [] = [target] := by simp [htarget, htn, hseen]
        rw [hpush] at hvisit
        exact ⟨_, hvisit.tail (mem_step_report (by simp [htn, hseen])), rfl, rfl⟩

theorem exists_mem_eval (hself : ∀ n, target? n ≠ some n) {order : List CtorId} (hnodup : order.Nodup) :
    ∃ c ∈ eval (step target?) (start order), c.reported = late? target? [] order := by
  obtain ⟨c, hreaches, hend, hreported⟩ := exists_reaches hself hnodup fun _ _ => List.not_mem_nil
  exact ⟨c, StateTransition.mem_eval.mpr ⟨hreaches, hend⟩, hreported⟩

end Check

end DeclRecovery.Delegation
