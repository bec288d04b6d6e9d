import DeclRecovery.Proofs.Hoist.Candidates

/-!
The set that `Hoist.settle` ends with. It is one that a further round leaves as it is (`refine_settle`), and
it contains every such set among the given slots (`subset_settle`). At each entry point the candidates of a
settled set are the first ones, as many as it has slots, and each of them is clean after those before it
(`Settled`).
-/

namespace DeclRecovery.Hoist

variable {initialized : List (SlotId × Footprint)}

/-! ### One entry point -/

section CleanRun
variable {hoisted hoisted' : PosSet} {earlier : List Candidate}

theorem cleanRun_prefix {cs : List Candidate} : cleanRun initialized hoisted earlier cs <+: cs := by
  induction cs generalizing earlier with
  | nil => exact List.prefix_rfl
  | cons c cs ih =>
    rw [cleanRun]
    split
    · exact List.prefix_cons_inj c |>.mpr ih
    · exact List.nil_prefix

theorem mem_of_mem_cleanRun {cs : List Candidate} {c : Candidate}
    (h : c ∈ cleanRun initialized hoisted earlier cs) : c.slot ∈ hoisted := by
  induction cs generalizing earlier with
  | nil => cases h
  | cons d cs ih =>
    rw [cleanRun] at h
    split at h
    · next hd =>
      rcases List.mem_cons.mp h with rfl | h
      · exact hd.1
      · exact ih h
    · cases h

theorem isClean_of_cleanRun {cs before after : List Candidate} {c : Candidate}
    (h : cleanRun initialized hoisted earlier cs = before ++ c :: after) :
    isClean initialized (earlier ++ before) c = true := by
  induction cs generalizing earlier before with
  | nil => simp [cleanRun] at h
  | cons d cs ih =>
    rw [cleanRun] at h
    split at h
    · next hd =>
      cases before with
      | nil =>
        rw [List.nil_append, List.cons.injEq] at h
        rw [List.append_nil, ← h.1]
        exact hd.2
      | cons b before =>
        rw [List.cons_append, List.cons.injEq] at h
        rw [← h.1, List.append_cons]
        exact ih h.2
    · simp at h

theorem cleanRun_mono (hsub : hoisted ⊆ hoisted') {cs : List Candidate} :
    cleanRun initialized hoisted earlier cs <+: cleanRun initialized hoisted' earlier cs := by
  induction cs generalizing earlier with
  | nil => exact List.prefix_rfl
  | cons c cs ih =>
    rw [cleanRun, cleanRun]
    split
    · next hc =>
      rw [if_pos ⟨hsub _ hc.1, hc.2⟩]
      exact List.prefix_cons_inj c |>.mpr ih
    · exact List.nil_prefix

/-- A run takes in every leading candidate that is to be hoisted and clean after those before it. -/
theorem prefix_cleanRun {cs heads : List Candidate} (hp : heads <+: cs) (hmem : ∀ c ∈ heads, c.slot ∈ hoisted)
    (hclean : ∀ before c after, heads = before ++ c :: after → isClean initialized (earlier ++ before) c = true) :
    heads <+: cleanRun initialized hoisted earlier cs := by
  induction cs generalizing earlier heads with
  | nil =>
    rw [List.prefix_nil.mp hp]
    exact List.nil_prefix
  | cons d cs ih =>
    cases heads with
    | nil => exact List.nil_prefix
    | cons c heads =>
      obtain ⟨rfl, hrest⟩ := List.cons_prefix_cons.mp hp
      have hc := hclean [] c heads rfl
      rw [List.append_nil] at hc
      rw [cleanRun, if_pos ⟨hmem c List.mem_cons_self, hc⟩, List.prefix_cons_inj]
      refine ih hrest (fun x hx => hmem x (List.mem_cons_of_mem _ hx)) fun before x after hx => ?_
      have := hclean (c :: before) x after (by rw [hx, List.cons_append])
      rwa [List.append_cons] at this

end CleanRun

/-! ### One round -/

section Refine
variable {hoisted hoisted' : PosSet} {es : List EntryPoint}

theorem mem_refineAt {e : EntryPoint} {slot : SlotId} : slot ∈ refineAt initialized hoisted e ↔
    slot ∈ hoisted ∧ slot ∈ (cleanRun initialized hoisted [] e.candidates).map (·.slot) := by
  simp [refineAt, PosSet.mem_filter]

theorem refineAt_subset {e : EntryPoint} : refineAt initialized hoisted e ⊆ hoisted := PosSet.filter_subset

theorem refineAt_mono {e : EntryPoint} (hsub : hoisted ⊆ hoisted') :
    refineAt initialized hoisted e ⊆ refineAt initialized hoisted' e := by
  intro slot h
  obtain ⟨hs, hrun⟩ := mem_refineAt.mp h
  exact mem_refineAt.mpr ⟨hsub slot hs, ((cleanRun_mono hsub).map _).subset hrun⟩

theorem refine_subset : refine initialized es hoisted ⊆ hoisted := by
  induction es generalizing hoisted with
  | nil => exact PosSet.subset_rfl
  | cons e es ih => exact PosSet.subset_trans ih refineAt_subset

theorem refine_mono (hsub : hoisted ⊆ hoisted') : refine initialized es hoisted ⊆ refine initialized es hoisted' := by
  induction es generalizing hoisted hoisted' with
  | nil => exact hsub
  | cons e es ih => exact ih (refineAt_mono hsub)

theorem refine_eq_iff : refine initialized es hoisted = hoisted ↔ ∀ e ∈ es, refineAt initialized hoisted e = hoisted := by
  induction es with
  | nil => simp [refine]
  | cons e es ih =>
    constructor
    · intro h
      have hfirst : refineAt initialized hoisted e = hoisted := by
        refine PosSet.subset_antisymm refineAt_subset ?_
        calc hoisted = refine initialized es (refineAt initialized hoisted e) := h.symm
          _ ⊆ refineAt initialized hoisted e := refine_subset
      have hrest : refine initialized es hoisted = hoisted := by
        rw [refine, List.foldl_cons, hfirst] at h
        exact h
      exact List.forall_mem_cons.mpr ⟨hfirst, ih.mp hrest⟩
    · intro h
      obtain ⟨hfirst, hrest⟩ := List.forall_mem_cons.mp h
      rw [refine, List.foldl_cons, hfirst]
      exact ih.mpr hrest

end Refine

/-! ### All rounds -/

section Settle
variable {es : List EntryPoint} {slots : PosSet}

theorem settleWithin_subset {fuel : Nat} : settleWithin initialized es fuel slots ⊆ slots := by
  induction fuel generalizing slots with
  | zero => exact PosSet.subset_rfl
  | succ fuel ih =>
    rw [settleWithin]
    split
    · exact PosSet.subset_rfl
    · exact PosSet.subset_trans ih refine_subset

theorem settle_subset : settle initialized es slots ⊆ slots := settleWithin_subset

/-- Every round but the last drops a slot, so as many rounds as there are slots are enough. -/
theorem refine_settleWithin {fuel : Nat} (hfuel : slots.size ≤ fuel) :
    refine initialized es (settleWithin initialized es fuel slots) = settleWithin initialized es fuel slots := by
  induction fuel generalizing slots with
  | zero =>
    exact PosSet.eq_of_subset_of_size_le refine_subset (Nat.le_trans hfuel (Nat.zero_le _))
  | succ fuel ih =>
    rw [settleWithin]
    split
    · next h => exact h
    · next h =>
      have := PosSet.size_lt_of_subset_of_ne refine_subset h
      exact ih (by omega)

theorem refine_settle : refine initialized es (settle initialized es slots) = settle initialized es slots :=
  refine_settleWithin (Nat.le_refl _)

theorem subset_settleWithin {fuel : Nat} {kept : PosSet} (hfix : refine initialized es kept = kept)
    (hsub : kept ⊆ slots) : kept ⊆ settleWithin initialized es fuel slots := by
  induction fuel generalizing slots with
  | zero => exact hsub
  | succ fuel ih =>
    rw [settleWithin]
    split
    · exact hsub
    · exact ih (hfix ▸ refine_mono hsub)

/-- The settled set is the largest one that a round leaves as it is. -/
theorem subset_settle {kept : PosSet} (hfix : refine initialized es kept = kept) (hsub : kept ⊆ slots) :
    kept ⊆ settle initialized es slots :=
  subset_settleWithin hfix hsub

theorem settle_mono {slots' : PosSet} (hsub : slots ⊆ slots') :
    settle initialized es slots ⊆ settle initialized es slots' :=
  subset_settle refine_settle (PosSet.subset_trans settle_subset hsub)

end Settle

/-! ### The candidates of a settled set -/

/-- What `isClean` asks of a store, when those in `before` run before it: it reads only slots declared before its own
that they set, and it commutes with those of them that it overtakes. -/
structure Admissible (before : List (SlotId × Footprint)) (x : SlotId × Footprint) : Prop where
  self : x.2.readsSelf = false
  reads : ∀ m ∈ x.2.members, m < x.1 ∧ m ∈ before.map Prod.fst
  swaps : ∀ y ∈ before, x.1 < y.1 → commutes y x = true

theorem isClean_iff_admissible {earlier : List Candidate} {c : Candidate} : isClean initialized earlier c = true ↔
    Admissible (earlier.map (fun e => (e.slot, e.footprint)) ++ initialized) (c.slot, c.footprint) := by
  simp only [isClean, PosSet.all, Bool.and_eq_true, Bool.not_eq_true', Bool.or_eq_true, List.all_eq_true,
    List.any_eq_true, decide_eq_true_eq, beq_iff_eq, and_assoc]
  constructor
  · rintro ⟨hself, hreads, hswaps⟩
    refine ⟨hself, fun m hm => ?_, fun y hy hlt => (hswaps y hy).resolve_left (Nat.not_le.mpr hlt)⟩
    exact ⟨(hreads m hm).1, List.mem_map.mpr (hreads m hm).2⟩
  · rintro ⟨hself, hreads, hswaps⟩
    refine ⟨hself, fun m hm => ?_, fun y hy => (Nat.lt_or_ge c.slot y.1).symm.imp id (hswaps y hy)⟩
    exact ⟨(hreads m hm).1, List.mem_map.mp (hreads m hm).2⟩

/-- At entry point `e` the candidates for `hoisted` are the first ones, and each is clean after those before. -/
structure Settled (initialized : List (SlotId × Footprint)) (hoisted : PosSet) (e : EntryPoint) : Prop where
  slots : ((e.candidates.take hoisted.size).map (·.slot)).Perm hoisted.toList
  clean : ∀ before c after, e.candidates.take hoisted.size = before ++ c :: after →
    isClean initialized before c = true

section Settled
variable {hoisted : PosSet} {e : EntryPoint}

/-- A settled set is what a round keeps, said without the round. -/
theorem settled_iff (hnd : (e.candidates.map (·.slot)).Nodup) :
    refineAt initialized hoisted e = hoisted ↔ Settled initialized hoisted e := by
  have hrun : cleanRun initialized hoisted [] e.candidates =
      e.candidates.take (cleanRun initialized hoisted [] e.candidates).length :=
    List.prefix_iff_eq_take.mp cleanRun_prefix
  constructor
  · intro h
    have hperm : ((cleanRun initialized hoisted [] e.candidates).map (·.slot)).Perm hoisted.toList := by
      rw [List.perm_ext_iff_of_nodup (List.Nodup.sublist (List.Sublist.map _ cleanRun_prefix.sublist) hnd) hoisted.nodup_toList]
      intro slot
      constructor
      · intro hs
        obtain ⟨c, hc, rfl⟩ := List.mem_map.mp hs
        exact mem_of_mem_cleanRun hc
      · intro hs
        exact (mem_refineAt.mp (h.symm ▸ hs : slot ∈ refineAt initialized hoisted e)).2
    have hlen : (cleanRun initialized hoisted [] e.candidates).length = hoisted.size := by
      have := hperm.length_eq
      rwa [List.length_map] at this
    rw [hlen] at hrun
    exact ⟨hrun ▸ hperm, fun before c after hc => by
      have := isClean_of_cleanRun (hrun.trans hc)
      rwa [List.nil_append] at this⟩
  · intro h
    refine PosSet.subset_antisymm refineAt_subset fun slot hs => mem_refineAt.mpr ⟨hs, ?_⟩
    have hheads : e.candidates.take hoisted.size <+: cleanRun initialized hoisted [] e.candidates := by
      refine prefix_cleanRun (List.take_prefix _ _) (fun c hc => ?_) fun before c after hc => ?_
      · exact h.slots.mem_iff.mp (List.mem_map_of_mem hc)
      · rw [List.nil_append]
        exact h.clean before c after hc
    exact (hheads.map _).subset (h.slots.mem_iff.mpr hs)

theorem Settled.length (h : Settled initialized hoisted e) : (e.candidates.take hoisted.size).length = hoisted.size := by
  have := h.slots.length_eq
  rwa [List.length_map] at this

/-- No candidate after the first ones stores a settled slot. -/
theorem Settled.filter_eq (h : Settled initialized hoisted e) (hnd : (e.candidates.map (·.slot)).Nodup) :
    e.candidates.filter (·.slot ∈ hoisted) = e.candidates.take hoisted.size := by
  have hsplit := List.take_append_drop hoisted.size e.candidates
  rw [← hsplit, List.map_append, List.nodup_append] at hnd
  conv_lhs => rw [← hsplit]
  rw [List.filter_append, List.filter_eq_self.mpr, List.filter_eq_nil_iff.mpr, List.append_nil]
  · intro c hc hs
    have hs' := h.slots.mem_iff.mpr (decide_eq_true_iff.mp hs)
    exact hnd.2.2 _ hs' _ (List.mem_map_of_mem hc) rfl
  · intro c hc
    exact decide_eq_true (h.slots.mem_iff.mp (List.mem_map_of_mem hc))

end Settled

theorem settled_settle {es : List EntryPoint} {slots : PosSet} {e : EntryPoint} (he : e ∈ es)
    (hnd : (e.candidates.map (·.slot)).Nodup) : Settled initialized (settle initialized es slots) e :=
  (settled_iff hnd).mp (refine_eq_iff.mp refine_settle e he)

end DeclRecovery.Hoist
