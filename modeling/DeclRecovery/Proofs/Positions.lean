import DeclRecovery.Position.Map
import Mathlib.Data.List.Nodup
import Mathlib.Data.List.Perm.Subperm

/-!
Reading finite maps and sets of positions. A map made from a list has, for each key, the first value listed
for it (`find?_ofList`).
-/

namespace DeclRecovery

namespace PosSet

instance : HasSubset PosSet := ⟨fun s t => ∀ n, n ∈ s → n ∈ t⟩

variable {s t : PosSet}

theorem subset_rfl : s ⊆ s := fun _ h => h

theorem subset_trans {u : PosSet} (h : s ⊆ t) (h' : t ⊆ u) : s ⊆ u := fun n hn => h' n (h n hn)

theorem subset_antisymm (h : s ⊆ t) (h' : t ⊆ s) : s = t := ext_mem fun n => ⟨h n, h' n⟩

theorem filter_subset {p : Nat → Bool} : s.filter p ⊆ s := fun _ h => (mem_filter.mp h).1

theorem nodup_toList (s : PosSet) : s.toList.Nodup := s.ascending.imp Nat.ne_of_lt

theorem size_le_of_subset (h : s ⊆ t) : s.size ≤ t.size :=
  (s.nodup_toList.subperm fun n hn => h n hn).length_le

theorem eq_of_subset_of_size_le (h : s ⊆ t) (hsize : t.size ≤ s.size) : s = t := by
  have hperm := (s.nodup_toList.subperm fun n hn => h n hn).perm_of_length_le hsize
  exact ext_mem fun n => hperm.mem_iff

theorem size_lt_of_subset_of_ne (h : s ⊆ t) (hne : s ≠ t) : s.size < t.size :=
  Nat.lt_of_not_le fun hle => hne (eq_of_subset_of_size_le h hle)

theorem toList_union_perm (h : ∀ n ∈ s, n ∉ t) : (s.union t).toList.Perm (s.toList ++ t.toList) := by
  rw [List.perm_ext_iff_of_nodup (s.union t).nodup_toList
    (List.nodup_append'.mpr ⟨s.nodup_toList, t.nodup_toList, fun n hs ht => h n hs ht⟩)]
  intro n
  rw [List.mem_append]
  exact mem_union

end PosSet

namespace PosMap
variable {α : Type}

@[simp] theorem find?_empty {k : Nat} : (PosMap.empty : PosMap α).find? k = none := rfl

@[simp] theorem not_mem_keys_empty {k : Nat} : k ∉ (PosMap.empty : PosMap α).keys := by
  simp [PosSet.mem_def, keys, empty]

theorem find?_isSome_iff {m : PosMap α} {k : Nat} : (m.find? k).isSome = true ↔ k ∈ m.keys := contains_iff

theorem mem_keys_of_find? {m : PosMap α} {k : Nat} {v : α} (h : m.find? k = some v) : k ∈ m.keys :=
  find?_isSome_iff.mp (by rw [h]; rfl)

theorem exists_find?_of_mem_keys {m : PosMap α} {k : Nat} (h : k ∈ m.keys) : ∃ v, m.find? k = some v :=
  Option.isSome_iff_exists.mp (find?_isSome_iff.mpr h)

theorem find?_foldl_add (l : List (Nat × α)) (m : PosMap α) (k : Nat) :
    (l.foldl (fun m e => m.add e.1 e.2) m).find? k = (m.find? k).or ((l.find? fun e => e.1 == k).map Prod.snd) := by
  induction l generalizing m with
  | nil => simp
  | cons e rest ih =>
    rw [List.foldl_cons, ih, find?_add, List.find?_cons]
    by_cases h : k = e.1
    · subst h
      cases m.find? e.1 <;> simp
    · have h' : (e.1 == k) = false := by simpa using Ne.symm h
      rw [if_neg h, h']

theorem find?_ofList (l : List (Nat × α)) (k : Nat) :
    (ofList l).find? k = (l.find? fun e => e.1 == k).map Prod.snd := by
  rw [ofList, find?_foldl_add, find?_empty, Option.none_or]

theorem mem_keys_ofList {l : List (Nat × α)} {k : Nat} : k ∈ (ofList l).keys ↔ k ∈ l.map Prod.fst := by
  rw [← find?_isSome_iff, find?_ofList, Option.isSome_map, List.find?_isSome]
  simp

theorem mem_of_find?_ofList {l : List (Nat × α)} {k : Nat} {v : α} (h : (ofList l).find? k = some v) : (k, v) ∈ l := by
  rw [find?_ofList, Option.map_eq_some_iff] at h
  rcases h with ⟨⟨k', v⟩, hfind, rfl⟩
  have hkey : k' = k := by simpa using List.find?_some hfind
  exact hkey ▸ List.mem_of_find?_eq_some hfind

/-- With distinct keys every listed value is found. -/
theorem find?_ofList_of_nodup {l : List (Nat × α)} (hl : (l.map Prod.fst).Nodup) {k : Nat} {v : α} :
    (ofList l).find? k = some v ↔ (k, v) ∈ l := by
  rw [find?_ofList]
  induction l with
  | nil => simp
  | cons e rest ih =>
    obtain ⟨he, hrest⟩ := List.nodup_cons.mp hl
    rw [List.find?_cons]
    by_cases h : e.1 = k
    · subst h
      have hnot : (e.1, v) ∉ rest := fun hmem => he (List.mem_map.mpr ⟨_, hmem, rfl⟩)
      simp [hnot, Prod.ext_iff, eq_comm]
    · have h' : (e.1 == k) = false := by simpa using h
      rw [h', ih hrest]
      simp [Prod.ext_iff, Ne.symm h]

theorem find?_eq_some_iff {m : PosMap α} {k : Nat} {v : α} : m.find? k = some v ↔ (k, v) ∈ m.entries := by
  obtain ⟨l, hl⟩ := m
  have hnd : (l.map Prod.fst).Nodup := hl.imp (fun h => Nat.ne_of_lt h)
  rw [← find?_ofList_of_nodup hnd, find?_ofList]
  rfl

theorem ext_find? {m m' : PosMap α} (h : ∀ k v, m.find? k = some v ↔ m'.find? k = some v) : m = m' := by
  have hnd : ∀ m : PosMap α, m.entries.Nodup := fun m => .of_map Prod.fst (m.ascending.imp Nat.ne_of_lt)
  have hasc : ∀ m : PosMap α, m.entries.Pairwise (·.1 < ·.1) := fun m => List.pairwise_map.mp m.ascending
  have hperm : m.entries.Perm m'.entries := (List.perm_ext_iff_of_nodup (hnd m) (hnd m')).mpr fun e => by
    rw [← find?_eq_some_iff, ← find?_eq_some_iff, h]
  have hentries : m.entries = m'.entries :=
    hperm.eq_of_pairwise (fun a b _ _ hab hba => absurd hab (Nat.lt_asymm hba)) (hasc m) (hasc m')
  cases m
  cases m'
  cases hentries
  rfl

theorem mem_values_iff {m : PosMap α} {v : α} : v ∈ m.values ↔ ∃ k, m.find? k = some v := by
  simp [values, find?_eq_some_iff]

end PosMap

end DeclRecovery
