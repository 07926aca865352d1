import Mathlib.Tactic.IntervalCases
import NfsEmbed.Lib.BigEndian

/-!
# Numbers in a text

Numerals in bases up to sixteen as ASCII bytes, and texts that are parts with a separator between them.
A numeral reads back as its number (`readNumeral_numeral`), is not empty (`numeral_ne_nil`), and holds
nothing but digits (`not_mem_numeral`); so numerals that are joined by something else can be told apart.

Nothing is said about texts that are no numerals: reading one gives some number.
-/

namespace NfsEmbed.Lib

/-- The digits of a number without leading zeros, the ones above nine as small letters. -/
def numeral (base n : Nat) : Bytes := (Nat.toDigits base n).map Char.toUInt8

/-- The value of a digit. -/
def digitValue (digit : UInt8) : Nat := if digit < 0x3a then digit.toNat - 0x30 else digit.toNat - 0x57

/-- The number a numeral stands for. -/
def readNumeral (base : Nat) (text : Bytes) : Nat := text.foldl (fun n digit => n * base + digitValue digit) 0

theorem digitValue_digitChar {d : Nat} (h : d < 16) : digitValue d.digitChar.toUInt8 = d := by
  interval_cases d <;> decide

variable {base : Nat}

/-- The last digit comes off the end. -/
theorem numeral_of_base_le (hbase : 1 < base) {n : Nat} (h : base ≤ n) :
    numeral base n = numeral base (n / base) ++ [(n % base).digitChar.toUInt8] := by
  unfold numeral
  rw [Nat.toDigits_of_base_le hbase h, List.map_append]
  rfl

theorem numeral_of_lt {n : Nat} (h : n < base) : numeral base n = [n.digitChar.toUInt8] := by
  unfold numeral
  rw [Nat.toDigits_of_lt_base h]
  rfl

theorem numeral_ne_nil (base n : Nat) : numeral base n ≠ [] := fun hnil =>
  Nat.toDigits_ne_nil (List.map_eq_nil_iff.mp hnil)

/-- Reading a numeral gives its number back. -/
theorem readNumeral_numeral (hbase : 1 < base) (hle : base ≤ 16) (n : Nat) : readNumeral base (numeral base n) = n := by
  induction n using Nat.strongRecOn with
  | ind n ih =>
    by_cases h : n < base
    · rw [numeral_of_lt h]
      simp only [readNumeral, List.foldl_cons, List.foldl_nil, Nat.zero_mul, Nat.zero_add]
      exact digitValue_digitChar (by omega)
    · have hfront := ih (n / base) (Nat.div_lt_self (by omega) hbase)
      have hlast : n % base < 16 := Nat.lt_of_lt_of_le (Nat.mod_lt n (by omega)) hle
      rw [numeral_of_base_le hbase (Nat.le_of_not_lt h)]
      unfold readNumeral at hfront ⊢
      rw [List.foldl_append, hfront, List.foldl_cons, List.foldl_nil, digitValue_digitChar hlast]
      exact Nat.div_add_mod' n base

/-- What is no digit is in no numeral. -/
theorem not_mem_numeral (hbase : 1 < base) (hle : base ≤ 16) {byte : UInt8}
    (hbyte : ∀ d < 16, byte ≠ d.digitChar.toUInt8) (n : Nat) : byte ∉ numeral base n := by
  induction n using Nat.strongRecOn with
  | ind n ih =>
    by_cases h : n < base
    · rw [numeral_of_lt h, List.mem_singleton]
      exact hbyte n (by omega)
    · rw [numeral_of_base_le hbase (Nat.le_of_not_lt h), List.mem_append, List.mem_singleton]
      have hlast : n % base < 16 := Nat.lt_of_lt_of_le (Nat.mod_lt n (by omega)) hle
      exact not_or.mpr ⟨ih (n / base) (Nat.div_lt_self (by omega) hbase), hbyte _ hlast⟩

/-! ## Separated parts -/

/-- Joined parts, one separator between the two halves. -/
theorem intercalate_append {α : Type} (sep : α) {front back : List (List α)} (hfront : front ≠ []) (hback : back ≠ []) :
    [sep].intercalate (front ++ back) = [sep].intercalate front ++ sep :: [sep].intercalate back := by
  induction front with
  | nil => exact absurd rfl hfront
  | cons part front ih =>
    cases front with
    | nil =>
      rw [List.singleton_append, List.intercalate_cons_of_ne_nil hback, List.intercalate_singleton, List.append_assoc]
      rfl
    | cons next front =>
      rw [List.cons_append, List.intercalate_cons_of_ne_nil (by simp), ih (List.cons_ne_nil _ _),
        List.intercalate_cons_of_ne_nil (List.cons_ne_nil _ _)]
      simp only [List.append_assoc]

/-- What is in none of the parts and is not the separator is not in the joined text. -/
theorem not_mem_intercalate {α : Type} {sep a : α} (hsep : a ≠ sep) :
    ∀ {parts : List (List α)}, (∀ part ∈ parts, a ∉ part) → a ∉ [sep].intercalate parts
  | [], _ => List.not_mem_nil
  | [part], h => by
    rw [List.intercalate_singleton]
    exact h part List.mem_cons_self
  | part :: next :: parts, h => by
    have hrest := not_mem_intercalate hsep (List.forall_mem_cons.mp h).2
    rw [List.intercalate_cons_cons]
    simp only [List.mem_append, List.mem_singleton, not_or]
    exact ⟨⟨h part List.mem_cons_self, hsep⟩, hrest⟩

end NfsEmbed.Lib
