import DeclRecovery.Proofs.Reconstruction.Elision

/-!
A reconstruction loses, doubles and alters no store. The same stores go from the start of every root, and they come
back as the initializers of their slots; everything else stays where it is. All values and statements are written in
their shapes.
-/

namespace DeclRecovery

namespace Plan

variable {p : Plan} {t : TypeDecl} {id : CtorId} {c : Constructor} {heads : List (SlotId × Expr)}

/-- Every root hoists the same stores, each in an order of its own. -/
theorem HoistsAt.perm_entries (h : p.HoistsAt t id c heads) : heads.Perm p.hoisted.entries := by
  have hentries : p.hoisted.entries.Nodup :=
    List.Nodup.of_map Prod.fst (p.hoisted.ascending.imp fun h => Nat.ne_of_lt h)
  rw [List.perm_ext_iff_of_nodup (List.Nodup.of_map Prod.fst h.nodup) hentries]
  intro x
  rw [← h.hoisted, PosMap.find?_eq_some_iff]

end Plan

/-- The stores `H` of `t` become initializers in `t'`, and nothing else is moved. -/
structure TypeDecl.MovesStores (options : Options) (chain : Chain) (t t' : TypeDecl) (H : List (SlotId × Expr)) :
    Prop where
  distinct : (H.map Prod.fst).Nodup
  slots : t'.slots.length = t.slots.length
  constructors : t'.constructors.length = t.constructors.length
  /-- At a root the stores stand at the start of the body, before its delegation. -/
  root : ∀ id ∈ chain.roots, ∃ c c', t.constructors[id]? = some c ∧ t'.constructors[id]? = some c' ∧
    ∃ (first rest : List Stmt) (heads : List (SlotId × Expr)), c.body = first ++ rest ∧
      first.length ≤ (Candidate.region c).length ∧ first.map Stmt.singleStore? = heads.map some ∧ heads.Perm H ∧
      c'.body = Stmt.shapeBlock options rest
  other : ∀ (id : CtorId) c, id ∉ chain.roots → t.constructors[id]? = some c →
    ∃ c', t'.constructors[id]? = some c' ∧ c'.body = Stmt.shapeBlock options c.body
  /-- A hoisted zero may be left out where the only declared constructor is left out as well. -/
  hoisted : ∀ x ∈ H, ∃ s s', t.slots[x.1]? = some s ∧ t'.slots[x.1]? = some s' ∧ s.initializer = none ∧
    (s'.initializer = some (x.2.shape options) ∨
      s'.initializer = none ∧ x.2.isZero = true ∧ ∃ id, t'.ElidedAlone id)
  kept : ∀ (i : SlotId) s, i ∉ H.map Prod.fst → t.slots[i]? = some s →
    ∃ s', t'.slots[i]? = some s' ∧ s'.initializer = s.initializer.map (·.shape options)

namespace Recovery

variable {options : Options} {t : TypeDecl} (r : Recovery options t)

theorem movesStores : t.completed.MovesStores options r.chain r.type r.plan.hoisted.entries := by
  constructor
  case distinct => exact r.plan.hoisted.ascending.imp fun h => Nat.ne_of_lt h
  case slots => rw [r.length_slots, TypeDecl.completed_slots]
  case constructors => exact r.length_constructors
  case root =>
    intro id hid
    obtain ⟨c, heads, hc, hat⟩ := r.plan_hoists.root id hid
    obtain ⟨first, hsplit, hfirst⟩ := hat.split
    have hlength : first.length = heads.length := by
      have := congrArg List.length hfirst
      rwa [List.length_map, List.length_map] at this
    exact ⟨c, _, hc, r.type_constructor hc, first, _, heads, hsplit, hlength ▸ hat.within, hfirst, hat.perm_entries, rfl⟩
  case other =>
    intro id c hid hc
    exact ⟨_, r.type_constructor hc, by rw [constructorOf, r.plan_hoists.other id hid]⟩
  case hoisted =>
    intro x hx
    have hfind := PosMap.find?_eq_some_iff.mpr hx
    obtain ⟨_, _, _, -, hat, hmem⟩ := r.plan_hoists.exists_hoistsAt hfind
    obtain ⟨s, hs, hnone⟩ := hat.fresh x hmem
    refine ⟨s, _, hs, r.type_slot hs, hnone, ?_⟩
    simp only [slotOf, Plan.initializer, hfind]
    split
    · next hzero =>
      rw [Bool.and_eq_true] at hzero
      obtain ⟨id, -, -, halone⟩ := r.leavesOutZeros hzero.1
      exact Or.inr ⟨rfl, hzero.2, id, halone⟩
    · exact Or.inl rfl
  case kept =>
    intro i s hi hs
    have hfind : r.plan.hoisted.find? i = none := by
      rw [Option.eq_none_iff_forall_ne_some]
      intro v hv
      exact hi (List.mem_map.mpr ⟨_, PosMap.find?_eq_some_iff.mp hv, rfl⟩)
    refine ⟨_, r.type_slot hs, ?_⟩
    rw [slotOf, Plan.initializer, hfind, Option.any_none, Bool.and_false, if_neg Bool.false_ne_true, Option.none_or]

end Recovery

/-- Where a reconstruction succeeds, every root of the completed type gives up the same stores from its start. They are
the initializers of slots that had none, and all other statements and initializers are those of before. -/
theorem reconstruct_moves_stores {options : Options} {t t' : TypeDecl} {diagnostics : List Diagnostic}
    (h : reconstruct options t = .ok ⟨t', .reconstructed, diagnostics⟩) :
    ∃ chain H, Chain.build t.completed = .ok chain ∧ t.completed.MovesStores options chain t' H := by
  obtain ⟨r, rfl⟩ := exists_reconstruct_iff.mp ⟨diagnostics, h⟩
  exact ⟨r.chain, _, r.chain_eq, r.movesStores⟩

/-- Both `a` and `b` move, at both roots. -/
theorem reconstruct_moves_stores_twoRoots : ∃ t' diagnostics,
    reconstruct {} .twoRoots = .ok ⟨t', .reconstructed, diagnostics⟩ ∧
      t'.slots.map (·.initializer.isSome) = [true, true, true] ∧
      ∃ chain H, Chain.build TypeDecl.twoRoots.completed = .ok chain ∧
        TypeDecl.twoRoots.completed.MovesStores {} chain t' H :=
  ⟨_, _, rfl, rfl, reconstruct_moves_stores rfl⟩

end DeclRecovery
