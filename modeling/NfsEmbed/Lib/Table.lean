import Mathlib.Algebra.GroupWithZero.Nat
import Mathlib.Algebra.Order.BigOperators.Group.List
import Mathlib.Algebra.Order.Group.Nat
import Mathlib.Data.List.AList

/-!
# Tables

Finite maps with their size and the total weight of their values. A table is an association list
without repeated keys, so that both are sums over its entries; the laws say how inserting and
erasing one key changes them.
-/

namespace NfsEmbed.Lib

/-- A finite map. -/
abbrev Table (κ ν : Type) := AList fun _ : κ => ν

namespace Table

variable {κ ν : Type}

def size (t : Table κ ν) : Nat := t.entries.length

def weight (f : ν → Nat) (t : Table κ ν) : Nat := (t.entries.map fun entry => f entry.2).sum

theorem weight_mono {f g : ν → Nat} {t : Table κ ν}
    (h : ∀ entry ∈ t.entries, f entry.2 ≤ g entry.2) : weight f t ≤ weight g t := by
  unfold weight
  exact List.sum_le_sum h

theorem weight_eq_zero {f : ν → Nat} {t : Table κ ν} (h : ∀ entry ∈ t.entries, f entry.2 = 0) :
    weight f t = 0 := by
  unfold weight
  rw [List.map_congr_left h, List.map_const', List.sum_replicate]
  exact Nat.mul_zero _

/-- Keys that are pairwise different and all bound are at most as many as the entries. -/
theorem length_le_size {t : Table κ ν} {keys : List κ} (hnodup : keys.Nodup)
    (hbound : ∀ a ∈ keys, a ∈ t) : keys.length ≤ size t := by
  have hsub : keys ⊆ t.keys := fun a ha => AList.mem_keys.mp (hbound a ha)
  have := (List.subperm_of_subset hnodup hsub).length_le
  unfold size
  unfold AList.keys List.keys at this
  rwa [List.length_map] at this

variable [DecidableEq κ]

theorem lookup_erase_eq (t : Table κ ν) (a b : κ) :
    AList.lookup b (t.erase a) = if b = a then none else t.lookup b := by
  by_cases h : b = a
  · subst h
    rw [if_pos rfl, AList.lookup_erase]
  · rw [if_neg h, AList.lookup_erase_ne h]

theorem lookup_insert_eq (t : Table κ ν) (a b : κ) (v : ν) :
    AList.lookup b (t.insert a v) = if b = a then some v else t.lookup b := by
  by_cases h : b = a
  · subst h
    rw [if_pos rfl, AList.lookup_insert]
  · rw [if_neg h, AList.lookup_insert_ne h]

theorem lookup_of_size_eq_zero {t : Table κ ν} (h : size t = 0) (a : κ) : t.lookup a = none := by
  rw [AList.lookup_eq_none, AList.mem_keys, AList.keys, List.eq_nil_of_length_eq_zero h]
  exact List.not_mem_nil

theorem size_insert_ne_zero (t : Table κ ν) (a : κ) (v : ν) : size (t.insert a v) ≠ 0 := Nat.succ_ne_zero _

theorem mem_entries_iff {t : Table κ ν} {a : κ} {v : ν} :
    (⟨a, v⟩ : (_ : κ) × ν) ∈ t.entries ↔ t.lookup a = some v :=
  AList.mem_lookup_iff.symm

/-- A bound key splits off its entry. -/
theorem entries_perm_erase {t : Table κ ν} {a : κ} {v : ν} (h : t.lookup a = some v) :
    t.entries.Perm (⟨a, v⟩ :: (t.erase a).entries) := by
  have hmem : a ∈ t.entries.keys := AList.mem_keys.mp (AList.lookup_isSome.mp (by rw [h]; rfl))
  obtain ⟨v', before, after, _, hentries, herase⟩ := List.exists_of_kerase hmem
  have hv : v' = v := by
    have : (⟨a, v'⟩ : (_ : κ) × ν) ∈ t.entries := by rw [hentries]; simp
    exact Option.some.inj ((mem_entries_iff.mp this).symm.trans h)
  subst hv
  change t.entries.Perm (⟨a, v'⟩ :: t.entries.kerase a)
  rw [herase, hentries]
  exact List.perm_middle

theorem size_erase {t : Table κ ν} {a : κ} {v : ν} (h : t.lookup a = some v) :
    size (t.erase a) + 1 = size t := by
  unfold size
  rw [(entries_perm_erase h).length_eq, List.length_cons]

theorem weight_erase (f : ν → Nat) {t : Table κ ν} {a : κ} {v : ν} (h : t.lookup a = some v) :
    f v + weight f (t.erase a) = weight f t := by
  unfold weight
  rw [((entries_perm_erase h).map _).sum_eq, List.map_cons, List.sum_cons]

/-- Binding a bound key again keeps the size. -/
theorem size_insert_of_some {t : Table κ ν} {a : κ} {v : ν} (h : t.lookup a = some v) (v' : ν) :
    size (t.insert a v') = size t := by
  have := size_erase h
  have hinsert : size (t.insert a v') = size (t.erase a) + 1 := rfl
  omega

theorem insert_erase (t : Table κ ν) (a : κ) (v : ν) : (t.erase a).insert a v = t.insert a v := by
  have hnone : AList.lookup a (t.erase a) = none := AList.lookup_erase a t
  rw [AList.insert_of_notMem (AList.lookup_eq_none.mp hnone)]
  rfl

theorem size_insert {t : Table κ ν} {a : κ} (h : t.lookup a = none) (v : ν) :
    size (t.insert a v) = size t + 1 := by
  unfold size
  rw [AList.entries_insert_of_notMem (AList.lookup_eq_none.mp h), List.length_cons]

theorem weight_insert (f : ν → Nat) {t : Table κ ν} {a : κ} (h : t.lookup a = none) (v : ν) :
    weight f (t.insert a v) = f v + weight f t := by
  unfold weight
  rw [AList.entries_insert_of_notMem (AList.lookup_eq_none.mp h), List.map_cons, List.sum_cons]

end Table

end NfsEmbed.Lib
