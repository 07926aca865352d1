import Mathlib.Algebra.Order.Floor.Div

/-!
# Pointer-sized arithmetic

`usize` on a 64-bit target, as naturals: the checked and saturating operations say what happens at
the top of the range, and everything below it is plain arithmetic. Saturating subtraction needs no
name: it is the subtraction of naturals. Rounding-up division is Mathlib's `⌈/⌉`.
-/

namespace NfsEmbed.Lib

/-- One more than the largest `usize`. -/
def usizeBound : Nat := 2 ^ 64

/-- The largest `usize`. -/
def usizeMax : Nat := usizeBound - 1

/-- The most bytes a slice, a vector or an allocation holds. -/
def isizeMax : Nat := 2 ^ 63 - 1

/-- Addition that refuses to overflow. -/
def checkedAdd (a b : Nat) : Option Nat := if a + b < usizeBound then some (a + b) else none

/-- A sum, if it is in range. -/
def checked (n : Nat) : Option Nat := if n < usizeBound then some n else none

/-- Addition that stops at the top. -/
def saturatingAdd (a b : Nat) : Nat := min (a + b) usizeMax

/-- Multiplication that stops at the top. -/
def saturatingMul (a b : Nat) : Nat := min (a * b) usizeMax

/-- Subtraction that goes round at zero, of numbers in range. -/
def wrappingSub (a b : Nat) : Nat := (a + (usizeBound - b)) % usizeBound

theorem checkedAdd_eq_some {a b c : Nat} : checkedAdd a b = some c ↔ a + b < usizeBound ∧ c = a + b := by
  unfold checkedAdd
  split
  next h => simp only [Option.some.injEq, h, true_and, eq_comm]
  next h => simp only [reduceCtorEq, h, false_and]

theorem checkedAdd_of_lt {a b : Nat} (h : a + b < usizeBound) : checkedAdd a b = some (a + b) :=
  checkedAdd_eq_some.mpr ⟨h, rfl⟩

theorem checked_of_lt {n : Nat} (h : n < usizeBound) : checked n = some n := if_pos h

/-- Going on with a number that only grows: once it is out of range, so is the end. -/
theorem checked_bind {a b : Nat} {next : Nat → Option Nat} (hnext : a < usizeBound → next a = checked b) (hle : a ≤ b) :
    (checked a >>= next) = checked b := by
  unfold checked at hnext ⊢
  split
  next h => exact hnext h
  next h => exact (if_neg fun hb => h (Nat.lt_of_le_of_lt hle hb)).symm

/-- Adding up sizes with a check at each of them is checking the sum. -/
theorem foldlM_checked {α : Type} {add : Nat → α → Option Nat} {size : α → Nat}
    (hadd : ∀ n item, add n item = checked (n + size item)) (items : List α) {start : Nat} (hstart : start < usizeBound) :
    items.foldlM add start = checked (start + (items.map size).sum) := by
  induction items generalizing start with
  | nil => exact (checked_of_lt hstart).symm
  | cons item items ih =>
    rw [List.foldlM_cons, hadd, List.map_cons, List.sum_cons, ← Nat.add_assoc]
    apply checked_bind
    · intro h
      exact ih h
    · exact Nat.le_add_right _ _

/-- Below the top, saturation is never seen. -/
theorem saturatingAdd_of_lt {a b : Nat} (h : a + b < usizeBound) : saturatingAdd a b = a + b := by
  unfold saturatingAdd usizeMax
  omega

theorem saturatingAdd_le (a b : Nat) : saturatingAdd a b ≤ a + b := Nat.min_le_left _ _

/-- A saturated sum that stays below the top is the real one. -/
theorem saturatingAdd_le_iff {a b c : Nat} (h : c < usizeMax) : saturatingAdd a b ≤ c ↔ a + b ≤ c := by
  unfold saturatingAdd
  omega

/-- The same for two sums, also at the top if they do not go past it. -/
theorem saturatingAdd_add_le_iff {a b c limit : Nat} (h : limit < usizeMax ∨ a + b + c ≤ usizeMax) :
    saturatingAdd (saturatingAdd a b) c ≤ limit ↔ a + b + c ≤ limit := by
  unfold saturatingAdd
  omega

/-- Above what is subtracted, nothing goes round. -/
theorem wrappingSub_of_le {a b : Nat} (h : b ≤ a) (ha : a < usizeBound) : wrappingSub a b = a - b := by
  have hround : a + (usizeBound - b) = a - b + usizeBound := by omega
  rw [wrappingSub, hround, Nat.add_mod_right, Nat.mod_eq_of_lt (by omega)]

theorem saturatingMul_le (a b : Nat) : saturatingMul a b ≤ a * b := Nat.min_le_left _ _

end NfsEmbed.Lib
