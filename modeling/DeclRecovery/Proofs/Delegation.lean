import DeclRecovery.Delegation.Chain
import DeclRecovery.Proofs.Positions
import DeclRecovery.Proofs.Results

/-!
What a chain says about its type: which constructors are its roots, where each declared constructor hands over,
and that the order lists them all, each after the one that it hands over to.
-/

namespace DeclRecovery

/-! ### The exploration -/

namespace Delegation
variable {next : CtorId → List CtorId}

/-- An exploration goes on from `v` to `w`: whatever is met on the way is finished, too, and nothing else. -/
structure Visit.Extends (v w : Visit) : Prop where
  met : v.met ⊆ w.met
  finished : v.finished ⊆ w.finished
  done : ∀ n ∈ w.met, n ∈ v.met ∨ n ∈ w.finished
  fresh : ∀ n ∈ w.finished, n ∈ v.finished ∨ n ∉ v.met

namespace Visit.Extends
variable {u v w : Visit}

theorem refl (v : Visit) : v.Extends v := ⟨fun _ h => h, fun _ h => h, fun _ h => Or.inl h, fun _ h => Or.inl h⟩

theorem trans (h₁ : u.Extends v) (h₂ : v.Extends w) : u.Extends w where
  met := fun _ h => h₂.met (h₁.met h)
  finished := fun _ h => h₂.finished (h₁.finished h)
  done n hn := by
    rcases h₂.done n hn with hv | hw
    · rcases h₁.done n hv with hu | hf
      · exact Or.inl hu
      · exact Or.inr (h₂.finished hf)
    · exact Or.inr hw
  fresh n hn := by
    rcases h₂.fresh n hn with hv | hv
    · exact h₁.fresh n hv
    · exact Or.inr fun hu => hv (h₁.met hu)

theorem foldl {f : Visit → CtorId → Visit} (hf : ∀ (v : Visit) (n : CtorId), v.Extends (f v n)) (l : List CtorId) (v : Visit) :
    v.Extends (l.foldl f v) := by
  induction l generalizing v with
  | nil => exact refl v
  | cons n l ih => exact (hf v n).trans (ih (f v n))

end Visit.Extends

theorem extends_explore (fuel : Nat) (v : Visit) (n : CtorId) : v.Extends (explore next fuel v n) := by
  induction fuel generalizing v n with
  | zero => exact .refl v
  | succ fuel ih =>
    rw [explore]
    split
    · exact .refl v
    · have below := Visit.Extends.foldl ih (next n) { v with met := n :: v.met }
      refine ⟨fun m hm => below.met (List.mem_cons_of_mem _ hm), fun m hm => List.mem_cons_of_mem _ (below.finished hm),
        fun m hm => ?_, fun m hm => ?_⟩
      · rcases below.done m hm with hm | hm
        · rcases List.mem_cons.mp hm with rfl | hm
          · exact Or.inr List.mem_cons_self
          · exact Or.inl hm
        · exact Or.inr (List.mem_cons_of_mem _ hm)
      · rcases List.mem_cons.mp hm with rfl | hm
        · exact Or.inr ‹_›
        · exact (below.fresh m hm).imp_right fun hm hmet => hm (List.mem_cons_of_mem _ hmet)

theorem extends_foldl_explore (fuel : Nat) (l : List CtorId) (v : Visit) : v.Extends (l.foldl (explore next fuel) v) :=
  Visit.Extends.foldl (extends_explore fuel) l v

theorem mem_met_explore (fuel : Nat) (v : Visit) (n : CtorId) : n ∈ (explore next (fuel + 1) v n).met := by
  rw [explore]
  split
  · assumption
  · exact (extends_foldl_explore fuel (next n) { v with met := n :: v.met }).met List.mem_cons_self

theorem mem_order {nodes : List CtorId} {n : CtorId} (h : n ∈ nodes) : n ∈ order next nodes := by
  obtain ⟨fuel, hfuel⟩ : ∃ fuel, nodes.length = fuel + 1 := ⟨nodes.length - 1, by
    have := List.length_pos_of_mem h
    omega⟩
  have hmet : n ∈ (nodes.foldl (explore next nodes.length) {}).met := by
    rw [hfuel]
    obtain ⟨before, after, rfl⟩ := List.append_of_mem h
    rw [List.foldl_append, List.foldl_cons]
    exact (extends_foldl_explore _ after _).met (mem_met_explore fuel _ n)
  exact ((extends_foldl_explore _ nodes {}).done n hmet).resolve_left List.not_mem_nil

/-- Nothing is finished twice, or without being met. -/
structure Visit.Sound (v : Visit) : Prop where
  nodup : v.finished.Nodup
  met : v.finished ⊆ v.met

/-- A node that is met before others are explored is finished by none of them. -/
theorem not_mem_finished_foldl_explore {v : Visit} (hv : v.Sound) {n : CtorId} (hn : n ∉ v.met) (fuel : Nat)
    (l : List CtorId) : n ∉ (l.foldl (explore next fuel) { v with met := n :: v.met }).finished := by
  intro hfinished
  rcases (extends_foldl_explore fuel l { v with met := n :: v.met }).fresh n hfinished with hm | hm
  · exact hn (hv.met hm)
  · exact hm List.mem_cons_self

theorem sound_explore (fuel : Nat) {v : Visit} (hv : v.Sound) (n : CtorId) : (explore next fuel v n).Sound := by
  induction fuel generalizing v n with
  | zero => exact hv
  | succ fuel ih =>
    rw [explore]
    split
    · exact hv
    · next hn =>
      have hbegin : Visit.Sound { v with met := n :: v.met } := ⟨hv.nodup, fun m hm => List.mem_cons_of_mem _ (hv.met hm)⟩
      have hbelow := List.foldlRecOn (next n) (explore next fuel) hbegin fun w hw m _ => ih hw m
      exact ⟨List.nodup_cons.mpr ⟨not_mem_finished_foldl_explore hv hn fuel (next n), hbelow.nodup⟩,
        List.cons_subset.mpr ⟨(extends_foldl_explore fuel (next n) _).met List.mem_cons_self, hbelow.met⟩⟩

theorem order_nodup (nodes : List CtorId) : (order next nodes).Nodup :=
  (List.foldlRecOn nodes (explore next nodes.length) (motive := Visit.Sound) ⟨List.nodup_nil, List.nil_subset _⟩
    fun _ hv n _ => sound_explore _ hv n).nodup

theorem finished_foldl_subset {nodes : List CtorId} {f : Visit → CtorId → Visit}
    (hf : ∀ (v : Visit) (n : CtorId), v.finished ⊆ nodes → n ∈ nodes → (f v n).finished ⊆ nodes) {l : List CtorId}
    (hl : l ⊆ nodes) {v : Visit} (hv : v.finished ⊆ nodes) : (l.foldl f v).finished ⊆ nodes := by
  induction l generalizing v with
  | nil => exact hv
  | cons n l ih =>
    obtain ⟨hn, hl⟩ := List.cons_subset.mp hl
    exact ih hl (hf v n hv hn)

theorem finished_explore_subset {nodes : List CtorId} (hnext : ∀ n, next n ⊆ nodes) (fuel : Nat) (v : Visit) (n : CtorId)
    (hv : v.finished ⊆ nodes) (hn : n ∈ nodes) : (explore next fuel v n).finished ⊆ nodes := by
  induction fuel generalizing v n with
  | zero => exact hv
  | succ fuel ih =>
    rw [explore]
    split
    · exact hv
    · refine List.cons_subset.mpr ⟨hn, ?_⟩
      exact finished_foldl_subset ih (hnext n) (v := { v with met := n :: v.met }) hv

theorem order_subset {nodes : List CtorId} (hnext : ∀ n, next n ⊆ nodes) : order next nodes ⊆ nodes :=
  finished_foldl_subset (finished_explore_subset hnext _) (List.Subset.refl _) (List.nil_subset _)

/-- When no target is late, each one stands before the constructors that hand over to it. -/
theorem late?_eq_none {target? : CtorId → Option CtorId} {seen l : List CtorId} (h : late? target? seen l = none)
    {before after : List CtorId} {n target : CtorId} (hl : l = before ++ n :: after) (ht : target? n = some target) :
    target ∈ seen ∨ target ∈ before := by
  induction l generalizing seen before with
  | nil => simp at hl
  | cons m l ih =>
    rw [late?] at h
    cases before with
    | nil =>
      cases hl
      rw [ht] at h
      simp only at h
      split at h
      · exact Or.inl ‹_›
      · cases h
    | cons b before =>
      rw [List.cons_append, List.cons.injEq] at hl
      obtain ⟨rfl, hl⟩ := hl
      have hrest : late? target? (m :: seen) l = none := by
        split at h
        · split at h
          · exact h
          · cases h
        · exact h
      rcases ih hrest hl with h | h
      · rcases List.mem_cons.mp h with rfl | h
        · exact Or.inr List.mem_cons_self
        · exact Or.inl h
      · exact Or.inr (List.mem_cons_of_mem _ h)

end Delegation

/-! ### The chain of a type -/

theorem mem_declaredConstructors {t : TypeDecl} {id : CtorId} {c : Constructor} :
    (id, c) ∈ t.declaredConstructors ↔ t.constructors[id]? = some c ∧ c.isDeclared = true := by
  simp [TypeDecl.declaredConstructors, TypeDecl.indexedConstructors, List.mem_filter, List.mk_mem_zipIdx_iff_getElem?]

theorem declaredConstructors_pairwise (t : TypeDecl) : (t.declaredConstructors.map Prod.fst).Pairwise (· < ·) := by
  refine List.Pairwise.sublist (List.filter_sublist.map _) ?_
  rw [TypeDecl.indexedConstructors, List.map_map]
  have : (Prod.fst ∘ fun x : Constructor × Nat => (x.2, x.1)) = Prod.snd := rfl
  rw [this, List.zipIdx_map_snd]
  exact List.pairwise_lt_range'

namespace Chain
variable {t : TypeDecl} {chain : Chain} {id : CtorId} {c : Constructor}

/-- What a constructor with a link is like. -/
structure Linked (t : TypeDecl) (id : CtorId) (c : Constructor) : Prop where
  single : c.body.countP (·.delegation?.isSome) ≤ 1
  flat : c.body.any Stmt.hasNestedDelegation = false
  target : ∀ j, c.chainTarget? = some j → j ≠ id ∧ ∃ d, t.constructors[j]? = some d ∧ d.isDeclared = true

theorem link_eq_ok_iff {target : Option CtorId} :
    link t id c = .ok target ↔ Linked t id c ∧ c.chainTarget? = target := by
  constructor
  · intro h
    unfold link at h
    split at h
    · cases h
    split at h
    · cases h
    next hsingle hflat =>
      have linked : (∀ j, c.chainTarget? = some j → j ≠ id ∧ ∃ d, t.constructors[j]? = some d ∧ d.isDeclared = true) →
          Linked t id c := fun ht => ⟨Nat.not_lt.mp hsingle, Bool.eq_false_iff.mpr hflat, ht⟩
      split at h
      · next hnone =>
        cases h
        refine ⟨linked fun j hj => ?_, hnone⟩
        rw [hnone] at hj
        cases hj
      · next j hj =>
        split at h
        · cases h
        next hne =>
          split at h
          · cases h
          · next d hd =>
            split at h
            · next hdecl =>
              cases h
              refine ⟨linked fun j' hj' => ?_, hj⟩
              rw [hj] at hj'
              cases hj'
              exact ⟨hne, d, hd, hdecl⟩
            · cases h
  · rintro ⟨h, rfl⟩
    unfold link
    rw [if_neg (Nat.not_lt.mpr h.single), if_neg (Bool.eq_false_iff.mp h.flat)]
    cases htarget : c.chainTarget? with
    | none => rfl
    | some j =>
      obtain ⟨hne, d, hd, hdecl⟩ := h.target j htarget
      simp only [hd]
      rw [if_neg hne, if_pos hdecl]

theorem eq_singleton_iff_of_nodup {l : List CtorId} (hl : l.Nodup) : l = [id] ↔ id ∈ l ∧ ∀ j ∈ l, j = id := by
  constructor
  · rintro rfl
    simp
  · rintro ⟨hid, hall⟩
    by_contra hne
    rcases (hl.ne_singleton_iff id).mp hne with rfl | ⟨j, hj, hjne⟩
    · cases hid
    · exact hjne (hall j hj)

theorem root?_eq_some_iff : chain.root? = some id ↔ chain.roots = [id] := by
  unfold root?
  split
  · next heq => simp [heq]
  · next hne =>
    constructor
    · rintro ⟨⟩
    · intro heq
      exact absurd heq (hne id)

theorem mem_roots_of_root? (h : chain.root? = some id) : id ∈ chain.roots := by
  rw [root?_eq_some_iff.mp h]
  exact List.mem_singleton_self id

/-- The links that the declared constructors of a type have when each of them has one. -/
def linksOf (t : TypeDecl) : List (CtorId × Option CtorId) :=
  t.declaredConstructors.map fun (id, c) => (id, c.chainTarget?)

theorem ofLinks_eq_ok_iff {links : List (CtorId × Option CtorId)} : ofLinks links = .ok chain ↔
    chain = ⟨links, Delegation.order (delegatesIn links) (links.map Prod.fst)⟩ ∧
      Delegation.late? (targetIn? links) [] (Delegation.order (delegatesIn links) (links.map Prod.fst)) = none := by
  unfold ofLinks
  cases hlate : Delegation.late? (targetIn? links) [] (Delegation.order (delegatesIn links) (links.map Prod.fst)) with
  | none => simp [hlate, eq_comm]
  | some n => simp [hlate]

theorem linksOf_pairwise (t : TypeDecl) : ((linksOf t).map Prod.fst).Pairwise (· < ·) := by
  rw [linksOf, List.map_map]
  exact declaredConstructors_pairwise t

theorem mem_linksOf {target : Option CtorId} : (id, target) ∈ linksOf t ↔
    ∃ c, t.constructors[id]? = some c ∧ c.isDeclared = true ∧ c.chainTarget? = target := by
  simp only [linksOf, List.mem_map, Prod.exists, mem_declaredConstructors, Prod.mk.injEq]
  constructor
  · rintro ⟨_, c, ⟨hc, hd⟩, rfl, htarget⟩
    exact ⟨c, hc, hd, htarget⟩
  · rintro ⟨c, hc, hd, htarget⟩
    exact ⟨id, c, ⟨hc, hd⟩, rfl, htarget⟩

theorem mem_map_fst_linksOf :
    id ∈ (linksOf t).map Prod.fst ↔ ∃ c, t.constructors[id]? = some c ∧ c.isDeclared = true := by
  simp only [List.mem_map, Prod.exists, mem_linksOf]
  constructor
  · rintro ⟨_, _, ⟨c, hc, hd, -⟩, rfl⟩
    exact ⟨c, hc, hd⟩
  · rintro ⟨c, hc, hd⟩
    exact ⟨id, c.chainTarget?, ⟨c, hc, hd, rfl⟩, rfl⟩

theorem delegatesIn_subset {links : List (CtorId × Option CtorId)} (id : CtorId) :
    delegatesIn links id ⊆ links.map Prod.fst :=
  List.map_subset _ (List.filter_subset_self _)

theorem targetIn?_linksOf (hc : t.constructors[id]? = some c) (hd : c.isDeclared = true) :
    targetIn? (linksOf t) id = c.chainTarget? := by
  have hmem : (id, c.chainTarget?) ∈ linksOf t := mem_linksOf.mpr ⟨c, hc, hd, rfl⟩
  obtain ⟨before, after, hsplit⟩ := List.append_of_mem hmem
  have hasc := linksOf_pairwise t
  rw [hsplit, List.map_append, List.pairwise_append] at hasc
  have hlookup : (linksOf t).lookup id = some c.chainTarget? := by
    rw [List.lookup_eq_some_iff]
    refine ⟨before, after, hsplit, fun x hx => ?_⟩
    have hlt : x.1 < id := hasc.2.2 x.1 (List.mem_map_of_mem hx) id List.mem_cons_self
    exact bne_iff_ne.mpr (Nat.ne_of_gt hlt)
  rw [targetIn?, hlookup]
  rfl

theorem targetIn?_linksOf_eq_some_iff {target : CtorId} : targetIn? (linksOf t) id = some target ↔
    ∃ c, t.constructors[id]? = some c ∧ c.isDeclared = true ∧ c.chainTarget? = some target := by
  constructor
  · intro h
    obtain ⟨before, after, hsplit, -⟩ := List.lookup_eq_some_iff.mp (Option.join_eq_some_iff.mp h)
    exact mem_linksOf.mp (by simp [hsplit])
  · rintro ⟨c, hc, hd, htarget⟩
    exact (targetIn?_linksOf hc hd).trans htarget

/-- Each declared constructor is linked when it has a link, and the links are then those of the type. -/
theorem mapM_link_eq_ok_iff {links : List (CtorId × Option CtorId)} :
    t.declaredConstructors.mapM (fun (id, c) => do return (id, ← link t id c)) = .ok links ↔
      (∀ id c, t.constructors[id]? = some c → c.isDeclared = true → Linked t id c) ∧ linksOf t = links := by
  have hstep : ∀ (x : CtorId × Constructor) b, (do return (x.1, ← link t x.1 x.2)) = Except.ok b ↔
      Linked t x.1 x.2 ∧ (x.1, x.2.chainTarget?) = b := by
    intro x b
    rw [bind_eq_ok_iff]
    constructor
    · rintro ⟨target, h, hb⟩
      obtain ⟨hlinked, rfl⟩ := link_eq_ok_iff.mp h
      exact ⟨hlinked, pure_eq_ok_iff.mp hb⟩
    · rintro ⟨hlinked, rfl⟩
      exact ⟨_, link_eq_ok_iff.mpr ⟨hlinked, rfl⟩, rfl⟩
  rw [mapM_eq_ok_iff]
  simp only [hstep]
  rw [List.forall₂_and_left, ← List.forall₂_map_left_iff (f := fun x : CtorId × Constructor => (x.1, x.2.chainTarget?)),
    List.forall₂_eq_eq_eq]
  refine and_congr_left fun _ => ⟨fun h id c hc hd => h _ (mem_declaredConstructors.mpr ⟨hc, hd⟩), fun h x hx => ?_⟩
  obtain ⟨hc, hd⟩ := mem_declaredConstructors.mp hx
  exact h x.1 x.2 hc hd

theorem build_eq_ofLinks (h : ∀ id c, t.constructors[id]? = some c → c.isDeclared = true → Linked t id c) :
    build t = ofLinks (linksOf t) := by
  rw [build, mapM_link_eq_ok_iff.mpr ⟨h, rfl⟩]
  rfl

/-- A chain is built when each declared constructor has a link and no target is late. -/
theorem build_eq_ok_iff : build t = .ok chain ↔
    (∀ id c, t.constructors[id]? = some c → c.isDeclared = true → Linked t id c) ∧ ofLinks (linksOf t) = .ok chain := by
  refine ⟨fun h => ?_, fun ⟨hlinked, h⟩ => (build_eq_ofLinks hlinked).trans h⟩
  obtain ⟨links, hlinks, h⟩ := bind_eq_ok_iff.mp h
  obtain ⟨hlinked, rfl⟩ := mapM_link_eq_ok_iff.mp hlinks
  exact ⟨hlinked, h⟩

/-- No chain is built when a declared constructor has no link, or when all have one and some target is late. -/
theorem build_eq_error {defect : ChainDefect} (h : build t = .error defect) :
    (∃ id c, t.constructors[id]? = some c ∧ c.isDeclared = true ∧ link t id c = .error defect) ∨
      (∀ id c, t.constructors[id]? = some c → c.isDeclared = true → Linked t id c) ∧
        ofLinks (linksOf t) = .error defect := by
  rcases bind_eq_error_iff.mp h with h | ⟨links, hlinks, h⟩
  · obtain ⟨x, hx, hlink⟩ := exists_of_mapM_eq_error h
    obtain ⟨hc, hd⟩ := mem_declaredConstructors.mp hx
    rcases bind_eq_error_iff.mp hlink with hlink | ⟨_, -, hpure⟩
    · exact Or.inl ⟨x.1, x.2, hc, hd, hlink⟩
    · cases hpure
  · obtain ⟨hlinked, rfl⟩ := mapM_link_eq_ok_iff.mp hlinks
    exact Or.inr ⟨hlinked, h⟩

/-- The chain of a type is that of another one whose constructors hand over alike, unless more delegations or nested ones
have come in. -/
theorem build_congr {t' : TypeDecl} (h : build t = .ok chain)
    (hctor : ∀ id : CtorId, t'.constructors[id]?.map (fun c => (c.isDeclared, c.chainTarget?)) =
      t.constructors[id]?.map fun c => (c.isDeclared, c.chainTarget?))
    (hbody : ∀ (id : CtorId) c c', t.constructors[id]? = some c → t'.constructors[id]? = some c' →
      c'.body.countP (·.delegation?.isSome) ≤ c.body.countP (·.delegation?.isSome) ∧
        (c.body.any Stmt.hasNestedDelegation = false → c'.body.any Stmt.hasNestedDelegation = false)) :
    build t' = .ok chain := by
  have hlinks : linksOf t' = linksOf t := by
    have hmap : ∀ t : TypeDecl, linksOf t =
        (((t.constructors.map fun c => (c.isDeclared, c.chainTarget?)).zipIdx.filter (·.1.1)).map
          fun x => (x.2, x.1.2)) := by
      intro t
      simp [linksOf, TypeDecl.declaredConstructors, TypeDecl.indexedConstructors, List.zipIdx_map, List.filter_map,
        Function.comp_def]
    have hctors : t'.constructors.map (fun c => (c.isDeclared, c.chainTarget?)) =
        t.constructors.map fun c => (c.isDeclared, c.chainTarget?) :=
      List.ext_getElem? fun id => by rw [List.getElem?_map, List.getElem?_map, hctor]
    rw [hmap, hmap, hctors]
  obtain ⟨hlinked, hok⟩ := build_eq_ok_iff.mp h
  refine build_eq_ok_iff.mpr ⟨fun id c' hc' hd' => ?_, by rw [hlinks, hok]⟩
  have hid := hctor id
  rw [hc'] at hid
  obtain ⟨c, hc, hsame⟩ := Option.map_eq_some_iff.mp hid.symm
  obtain ⟨hdeclared, htarget⟩ := Prod.mk.inj hsame
  have linked := hlinked id c hc (hdeclared.trans hd')
  obtain ⟨hcount, hflat⟩ := hbody id c c' hc hc'
  refine ⟨Nat.le_trans hcount linked.single, hflat linked.flat, fun j hj => ?_⟩
  obtain ⟨hne, d, hd, hdd⟩ := linked.target j (htarget.trans hj)
  have hj := hctor j
  rw [hd] at hj
  obtain ⟨d', hd', hsame⟩ := Option.map_eq_some_iff.mp hj
  exact ⟨hne, d', hd', (Prod.mk.inj hsame).1.trans hdd⟩

section Built
variable (h : build t = .ok chain)
include h

theorem links_eq : chain.links = linksOf t := by
  rw [(ofLinks_eq_ok_iff.mp (build_eq_ok_iff.mp h).2).1]

theorem linked (hc : t.constructors[id]? = some c) (hd : c.isDeclared = true) : Linked t id c :=
  (build_eq_ok_iff.mp h).1 id c hc hd

theorem mem_roots_iff :
    id ∈ chain.roots ↔ ∃ c, t.constructors[id]? = some c ∧ c.isDeclared = true ∧ c.chainTarget? = none := by
  simp only [roots, links_eq h, List.mem_map, List.mem_filter, Option.isNone_iff_eq_none, Prod.exists, mem_linksOf]
  constructor
  · rintro ⟨_, _, ⟨⟨c, hc, hd, rfl⟩, hnone⟩, rfl⟩
    exact ⟨c, hc, hd, hnone⟩
  · rintro ⟨c, hc, hd, hnone⟩
    exact ⟨id, none, ⟨⟨c, hc, hd, hnone⟩, rfl⟩, rfl⟩

theorem links_pairwise : (chain.links.map Prod.fst).Pairwise (· < ·) := by
  rw [links_eq h]
  exact linksOf_pairwise t

theorem roots_nodup : chain.roots.Nodup :=
  (List.filter_sublist.map _).nodup ((links_pairwise h).imp Nat.ne_of_lt)

theorem mem_order_iff : id ∈ chain.order ↔ ∃ c, t.constructors[id]? = some c ∧ c.isDeclared = true := by
  rw [(ofLinks_eq_ok_iff.mp (build_eq_ok_iff.mp h).2).1, ← mem_map_fst_linksOf]
  exact ⟨fun hid => Delegation.order_subset delegatesIn_subset hid, Delegation.mem_order⟩

theorem mem_order (hc : t.constructors[id]? = some c) (hd : c.isDeclared = true) : id ∈ chain.order :=
  (mem_order_iff h).mpr ⟨c, hc, hd⟩

theorem order_nodup : chain.order.Nodup := by
  rw [(ofLinks_eq_ok_iff.mp (build_eq_ok_iff.mp h).2).1]
  exact Delegation.order_nodup _

theorem root?_eq_some_iff_alone (hc : t.constructors[id]? = some c) (hd : c.isDeclared = true) :
    chain.root? = some id ↔ c.chainTarget? = none ∧
      ∀ (j : CtorId) d, t.constructors[j]? = some d → d.isDeclared = true → d.chainTarget? = none → j = id := by
  rw [root?_eq_some_iff, eq_singleton_iff_of_nodup (roots_nodup h)]
  refine and_congr ?_ ?_
  · rw [mem_roots_iff h]
    simp [hc, hd]
  · simp only [mem_roots_iff h]
    exact ⟨fun hall j d hj hjd hroot => hall j ⟨d, hj, hjd, hroot⟩, fun hall j ⟨d, hj, hjd, hroot⟩ => hall j d hj hjd hroot⟩

theorem length_order_eq_one_iff (hc : t.constructors[id]? = some c) (hd : c.isDeclared = true) :
    chain.order.length = 1 ↔ ∀ (j : CtorId) d, t.constructors[j]? = some d → d.isDeclared = true → j = id := by
  have hid := mem_order h hc hd
  have hsingle : chain.order.length = 1 ↔ chain.order = [id] := by
    rw [List.length_eq_one_iff]
    refine ⟨?_, fun horder => ⟨id, horder⟩⟩
    rintro ⟨j, hj⟩
    rw [hj, List.mem_singleton] at hid
    rw [hj, hid]
  rw [hsingle, eq_singleton_iff_of_nodup (order_nodup h)]
  simp only [hid, true_and, mem_order_iff h]
  exact ⟨fun hall j d hj hjd => hall j ⟨d, hj, hjd⟩, fun hall j ⟨d, hj, hjd⟩ => hall j d hj hjd⟩

theorem targetIn?_eq (hc : t.constructors[id]? = some c) (hd : c.isDeclared = true) :
    targetIn? chain.links id = c.chainTarget? := by
  rw [links_eq h]
  exact targetIn?_linksOf hc hd

theorem target_before (hc : t.constructors[id]? = some c) (hd : c.isDeclared = true) {j : CtorId}
    (hj : c.chainTarget? = some j) {before after : List CtorId} (ho : chain.order = before ++ id :: after) :
    j ∈ before := by
  have htarget := (targetIn?_eq h hc hd).trans hj
  obtain ⟨hchain, hlate⟩ := ofLinks_eq_ok_iff.mp (build_eq_ok_iff.mp h).2
  rw [hchain] at htarget ho
  exact (Delegation.late?_eq_none hlate ho htarget).resolve_left List.not_mem_nil

end Built

end Chain

end DeclRecovery
