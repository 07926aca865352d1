import Mathlib.Algebra.Group.Nat.Defs
import Mathlib.Data.List.Induction
import Mathlib.Tactic.Common

/-!
# Big-endian words

Fixed-width big-endian naturals over `List UInt8`, and the two machine words a network format is
made of. Every width carries both directions: reading what was written gives the value back
(`beNat_beBytes`), and writing what was read gives the bytes back (`beBytes_beNat`), so a word of
`n` bytes and a string of `n` bytes are the same thing.

Nothing here knows who uses the bytes.
-/

namespace NfsEmbed.Lib

/-- A byte string. -/
abbrev Bytes := List UInt8

/-- The `n` low-order bytes of a natural, most significant first. -/
def beBytes : Nat → Nat → Bytes
  | 0, _ => []
  | n + 1, v => beBytes n (v / 256) ++ [UInt8.ofNat v]

/-- The natural a byte string spells, most significant byte first. -/
def beNat (bytes : Bytes) : Nat := bytes.foldl (fun acc b => acc * 256 + b.toNat) 0

@[simp] theorem length_beBytes : ∀ n v, (beBytes n v).length = n
  | 0, _ => rfl
  | n + 1, v => by simp only [beBytes, List.length_append, length_beBytes, List.length_singleton]

@[simp] theorem beNat_nil : beNat [] = 0 := rfl

theorem beNat_snoc (bytes : Bytes) (b : UInt8) :
    beNat (bytes ++ [b]) = beNat bytes * 256 + b.toNat := by
  simp only [beNat, List.foldl_append, List.foldl_cons, List.foldl_nil]

/-- Reading undoes writing, up to the width. -/
theorem beNat_beBytes : ∀ n v, beNat (beBytes n v) = v % 256 ^ n
  | 0, v => by simp only [beBytes, beNat_nil, Nat.pow_zero, Nat.mod_one]
  | n + 1, v => by
    have hlow : (UInt8.ofNat v).toNat = v % 256 := UInt8.toNat_ofNat'
    rw [beBytes, beNat_snoc, beNat_beBytes n, hlow, Nat.pow_succ, Nat.mul_comm (256 ^ n), Nat.mod_mul]
    omega

theorem beNat_beBytes_of_lt {n v : Nat} (h : v < 256 ^ n) : beNat (beBytes n v) = v := by
  rw [beNat_beBytes, Nat.mod_eq_of_lt h]

theorem beNat_lt (bytes : Bytes) : beNat bytes < 256 ^ bytes.length := by
  induction bytes using List.reverseRecOn with
  | nil => simp only [beNat_nil, List.length_nil, Nat.pow_zero, Nat.lt_one_iff]
  | append_singleton bytes b ih =>
    have hb := b.toNat_lt
    rw [beNat_snoc, List.length_append, List.length_singleton, Nat.pow_succ]
    omega

/-- Writing undoes reading. -/
theorem beBytes_beNat (bytes : Bytes) : beBytes bytes.length (beNat bytes) = bytes := by
  induction bytes using List.reverseRecOn with
  | nil => rfl
  | append_singleton bytes b ih =>
    have hb := b.toNat_lt
    have hdiv : (beNat bytes * 256 + b.toNat) / 256 = beNat bytes := by omega
    have hlow : UInt8.ofNat (beNat bytes * 256 + b.toNat) = b := by
      apply UInt8.toNat_inj.mp
      rw [UInt8.toNat_ofNat']
      omega
    rw [List.length_append, List.length_singleton, beNat_snoc, beBytes, hdiv, hlow, ih]

/-- Blocks of one width that determine their values are taken apart one by one. -/
theorem flatMap_append_inj {α β : Type} {block : α → List β} {width : Nat}
    (hwidth : ∀ a, (block a).length = width) (hinj : Function.Injective block) :
    ∀ {as bs : List α} {r s : List β}, as.length = bs.length →
      as.flatMap block ++ r = bs.flatMap block ++ s → as = bs ∧ r = s
  | [], [], r, s, _, h => ⟨rfl, h⟩
  | a :: as, b :: bs, r, s, hlen, h => by
    rw [List.flatMap_cons, List.flatMap_cons, List.append_assoc, List.append_assoc] at h
    obtain ⟨hblock, hrest⟩ := List.append_inj h ((hwidth a).trans (hwidth b).symm)
    obtain ⟨htail, hend⟩ := flatMap_append_inj hwidth hinj (Nat.succ.inj hlen) hrest
    exact ⟨by rw [hinj hblock, htail], hend⟩

end NfsEmbed.Lib

open NfsEmbed.Lib

/-! ## Machine words -/

/-- The four bytes of a 32-bit word. -/
def UInt32.toBeBytes (v : UInt32) : Bytes := beBytes 4 v.toNat

/-- The 32-bit word four bytes spell. -/
def UInt32.fromBeBytes (bytes : Bytes) : UInt32 := UInt32.ofNat (beNat bytes)

/-- The eight bytes of a 64-bit word. -/
def UInt64.toBeBytes (v : UInt64) : Bytes := beBytes 8 v.toNat

/-- The 64-bit word eight bytes spell. -/
def UInt64.fromBeBytes (bytes : Bytes) : UInt64 := UInt64.ofNat (beNat bytes)

@[simp] theorem UInt32.length_toBeBytes (v : UInt32) : v.toBeBytes.length = 4 := length_beBytes 4 _

@[simp] theorem UInt64.length_toBeBytes (v : UInt64) : v.toBeBytes.length = 8 := length_beBytes 8 _

@[simp] theorem UInt32.fromBeBytes_toBeBytes (v : UInt32) :
    UInt32.fromBeBytes v.toBeBytes = v := by
  rw [fromBeBytes, toBeBytes, beNat_beBytes_of_lt v.toNat_lt, UInt32.ofNat_toNat]

@[simp] theorem UInt64.fromBeBytes_toBeBytes (v : UInt64) :
    UInt64.fromBeBytes v.toBeBytes = v := by
  rw [fromBeBytes, toBeBytes, beNat_beBytes_of_lt v.toNat_lt, UInt64.ofNat_toNat]

theorem UInt32.toBeBytes_fromBeBytes {bytes : Bytes} (h : bytes.length = 4) :
    (UInt32.fromBeBytes bytes).toBeBytes = bytes := by
  have hlt := beNat_lt bytes
  rw [h] at hlt
  rw [toBeBytes, fromBeBytes, UInt32.toNat_ofNat_of_lt' hlt, ← h, beBytes_beNat]

theorem UInt64.toBeBytes_fromBeBytes {bytes : Bytes} (h : bytes.length = 8) :
    (UInt64.fromBeBytes bytes).toBeBytes = bytes := by
  have hlt := beNat_lt bytes
  rw [h] at hlt
  rw [toBeBytes, fromBeBytes, UInt64.toNat_ofNat_of_lt' hlt, ← h, beBytes_beNat]

theorem UInt32.toBeBytes_injective : Function.Injective UInt32.toBeBytes := fun v w h => by
  rw [← fromBeBytes_toBeBytes v, h, fromBeBytes_toBeBytes]
