import Mathlib.Order.Lattice
import Mathlib.Tactic.Common

/-!
# Greatest elements of a list

`maxByKey` keeps the last of the elements with the greatest key. It finds one unless the list is empty,
and what it finds is in the list and has the greatest key there. Where no two elements have the same
key, the order of the list makes no difference.
-/

namespace NfsEmbed.Lib

variable {α κ : Type} [LinearOrder κ] (key : α → κ)

/-- The new element, unless its key is smaller. -/
def keepMax (best : Option α) (a : α) : Option α :=
  match best with
  | none => some a
  | some b => if key b ≤ key a then some a else some b

def maxByKey (list : List α) : Option α := list.foldl (keepMax key) none

variable {key}

theorem keepMax_spec (best : Option α) (a : α) :
    ∃ b, keepMax key best a = some b ∧ (b = a ∨ best = some b) ∧ key a ≤ key b ∧ ∀ c ∈ best, key c ≤ key b := by
  cases best with
  | none => exact ⟨a, rfl, .inl rfl, le_refl _, fun c hc => by cases hc⟩
  | some b =>
    by_cases h : key b ≤ key a
    · refine ⟨a, if_pos h, .inl rfl, le_refl _, fun c hc => ?_⟩
      cases hc
      exact h
    · refine ⟨b, if_neg h, .inr rfl, le_of_not_ge h, fun c hc => ?_⟩
      cases hc
      exact le_refl _

theorem foldl_keepMax_spec {list : List α} {best : Option α} (hne : list ≠ [] ∨ best ≠ none) :
    ∃ b, list.foldl (keepMax key) best = some b ∧ (b ∈ list ∨ best = some b) ∧
      (∀ a ∈ list, key a ≤ key b) ∧ ∀ c ∈ best, key c ≤ key b := by
  induction list generalizing best with
  | nil =>
    obtain ⟨b, rfl⟩ := Option.ne_none_iff_exists'.mp (hne.resolve_left fun h => h rfl)
    refine ⟨b, rfl, .inr rfl, fun a ha => absurd ha List.not_mem_nil, fun c hc => ?_⟩
    cases hc
    exact le_refl _
  | cons head tail ih =>
    obtain ⟨mid, hmid, horigin, hhead, hbest⟩ := @keepMax_spec α κ _ key best head
    obtain ⟨b, hfold, hmem, htail, hle⟩ := @ih (some mid) (.inr (Option.some_ne_none mid))
    have hmidb : key mid ≤ key b := hle mid rfl
    refine ⟨b, by rw [List.foldl_cons, hmid, hfold], ?_, ?_, fun c hc => le_trans (hbest c hc) hmidb⟩
    · rcases hmem with hmem | hmem
      · exact .inl (List.mem_cons_of_mem _ hmem)
      · cases hmem
        rcases horigin with rfl | horigin
        · exact .inl List.mem_cons_self
        · exact .inr horigin
    · intro a ha
      rcases List.mem_cons.mp ha with rfl | ha
      · exact le_trans hhead hmidb
      · exact htail a ha

theorem maxByKey_eq_none_iff {list : List α} : maxByKey key list = none ↔ list = [] := by
  constructor
  · intro h
    by_contra hne
    obtain ⟨b, hfold, -⟩ := @foldl_keepMax_spec α κ _ key list none (.inl hne)
    rw [maxByKey, hfold] at h
    cases h
  · intro h
    subst h
    rfl

theorem maxByKey_spec {list : List α} {b : α} (h : maxByKey key list = some b) :
    b ∈ list ∧ ∀ a ∈ list, key a ≤ key b := by
  have hne : list ≠ [] := fun hnil => by
    rw [maxByKey_eq_none_iff.mpr hnil] at h
    cases h
  obtain ⟨b', hfold, hmem, hle, -⟩ := @foldl_keepMax_spec α κ _ key list none (.inl hne)
  rw [maxByKey, hfold] at h
  cases h
  exact ⟨hmem.resolve_right (by simp), hle⟩

section Injective

variable {list list' : List α} (hinj : ∀ a ∈ list, ∀ b ∈ list, key a = key b → a = b)

include hinj

/-- Where a key belongs to one element only, the element with the greatest key is what is found. -/
theorem maxByKey_eq_some_iff {b : α} :
    maxByKey key list = some b ↔ b ∈ list ∧ ∀ a ∈ list, key a ≤ key b := by
  constructor
  · exact maxByKey_spec
  · rintro ⟨hmem, hle⟩
    cases hfound : maxByKey key list with
    | none =>
      rw [maxByKey_eq_none_iff.mp hfound] at hmem
      exact absurd hmem List.not_mem_nil
    | some found =>
      obtain ⟨hmem', hle'⟩ := maxByKey_spec hfound
      rw [hinj found hmem' b hmem (le_antisymm (hle found hmem') (hle' b hmem))]

/-- The order of the list makes no difference then. -/
theorem maxByKey_perm (hperm : list'.Perm list) : maxByKey key list' = maxByKey key list := by
  have hinj' : ∀ a ∈ list', ∀ b ∈ list', key a = key b → a = b := fun a ha b hb =>
    hinj a (hperm.mem_iff.mp ha) b (hperm.mem_iff.mp hb)
  apply Option.ext
  intro b
  rw [maxByKey_eq_some_iff hinj', maxByKey_eq_some_iff hinj]
  simp only [hperm.mem_iff]

end Injective

end NfsEmbed.Lib
