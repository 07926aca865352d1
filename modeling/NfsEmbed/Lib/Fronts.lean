import Mathlib.Data.List.Infix
import Mathlib.Tactic.Common

/-!
# Longest front parts

The longest front part of a list that has a property, however it was found. A search that takes
elements from the front until one has no room finds it, and so does one that drops elements from the
end until there is room, if the property is kept by shorter front parts.

The shortest front part is what a loop finds that takes elements from the front until the property
holds.
-/

namespace NfsEmbed.Lib

variable {α β : Type}

/-- `front` is the longest front part of `list` with the property. -/
structure LongestFront (P : List α → Prop) (list front : List α) : Prop where
  isFront : front <+: list
  holds : P front
  longest : ∀ other, other <+: list → P other → other.length ≤ front.length

namespace LongestFront

variable {P Q : List α → Prop} {list front other rest : List α}

theorem unique (h : LongestFront P list front) (h' : LongestFront P list other) : front = other := by
  have hle := h'.longest front h.isFront h.holds
  have hge := h.longest other h'.isFront h'.holds
  exact (List.prefix_of_prefix_length_le h.isFront h'.isFront hle).eq_of_length (Nat.le_antisymm hle hge)

/-- The next element has no room, so no longer front part has. -/
theorem of_stop (hshorter : ∀ front next, P (front ++ next) → P front) (hholds : P front)
    (hstop : ∀ next ∈ rest.head?, ¬ P (front ++ [next])) : LongestFront P (front ++ rest) front := by
  refine ⟨List.prefix_append front rest, hholds, fun other hother hP => ?_⟩
  by_contra hlong
  obtain ⟨tail, rfl⟩ := List.prefix_of_prefix_length_le (List.prefix_append front rest) hother (by omega)
  cases tail with
  | nil => simp at hlong
  | cons next tail =>
    obtain ⟨next', hrest⟩ : next :: tail <+: rest := (List.prefix_append_right_inj front).mp hother
    refine hstop next (by rw [← hrest]; rfl) (hshorter _ tail ?_)
    rw [List.append_assoc]
    exact hP

theorem congr (h : LongestFront P list front) (hPQ : ∀ other, other <+: list → (P other ↔ Q other)) :
    LongestFront Q list front := by
  refine ⟨h.isFront, (hPQ front h.isFront).mp h.holds, fun other hother hQ => ?_⟩
  exact h.longest other hother ((hPQ other hother).mpr hQ)

theorem map {f : α → β} {P : List β → Prop} (h : LongestFront (fun front => P (front.map f)) list front) :
    LongestFront P (list.map f) (front.map f) := by
  refine ⟨h.isFront.map f, h.holds, fun other hother hP => ?_⟩
  obtain ⟨source, hsource, rfl⟩ := List.prefix_map_iff.mp hother
  rw [List.length_map, List.length_map]
  exact h.longest source hsource hP

end LongestFront

/-- `front` is the shortest front part of `list` with the property. -/
structure ShortestFront (P : List α → Prop) (list front : List α) : Prop where
  isFront : front <+: list
  holds : P front
  shortest : ∀ other, other <+: list → P other → front.length ≤ other.length

namespace ShortestFront

variable {P Q : List α → Prop} {list front : List α}

/-- The loop stops at once. -/
theorem nil (h : P []) : ShortestFront P list [] :=
  ⟨List.nil_prefix, h, fun _ _ _ => Nat.zero_le _⟩

/-- The loop takes one more element. -/
theorem cons {first : α} (hnot : ¬ P [])
    (h : ShortestFront (fun front => P (first :: front)) list front) :
    ShortestFront P (first :: list) (first :: front) := by
  refine ⟨(List.prefix_cons_inj first).mpr h.isFront, h.holds, fun other hother hP => ?_⟩
  cases other with
  | nil => exact absurd hP hnot
  | cons first' rest =>
    obtain ⟨rfl, hrest⟩ := List.cons_prefix_cons.mp hother
    exact Nat.succ_le_succ (h.shortest rest hrest hP)

theorem congr (h : ShortestFront P list front) (hPQ : ∀ other, other <+: list → (P other ↔ Q other)) :
    ShortestFront Q list front := by
  refine ⟨h.isFront, (hPQ front h.isFront).mp h.holds, fun other hother hQ => ?_⟩
  exact h.shortest other hother ((hPQ other hother).mpr hQ)

end ShortestFront

end NfsEmbed.Lib
