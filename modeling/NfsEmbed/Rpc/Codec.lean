import NfsEmbed.Lib.BigEndian
import NfsEmbed.Lib.Format
import NfsEmbed.Lib.Usize

/-!
# The XDR codec (`rpc/codec.rs`)

The `Decoder` is a cursor over the received bytes; every read either moves it past what it returns
or fails with a `DecodeError`, and the source's `?` is the monad's sequencing. The `Encoder` is the
bytes written so far.

A fixed-size array `[u8; N]` carries its length as a proof (`Fixed N`).
-/

namespace NfsEmbed.Rpc

open Lib

/-- `[u8; N]`. -/
structure Fixed (n : Nat) where
  bytes : Bytes
  length_eq : bytes.length = n
deriving DecidableEq, Repr

/-- XDR padding: zero bytes up to the next multiple of four. -/
def padding (length : Nat) : Nat := (4 - length % 4) % 4

inductive DecodeError where
  | truncated
  | invalidBoolean (value : UInt32)
  | invalidDiscriminant (kind : String) (value : UInt32)
  | limitExceeded (field : String) (actual limit : Nat)
  | invalidPadding
  | trailingBytes
  | overflow
deriving DecidableEq, Repr

inductive EncodeError where
  | tooLarge (length : Nat)
  | invalidTime (seconds : UInt64) (nanoseconds : UInt32)
deriving DecidableEq, Repr

/-! ## Decoder -/

abbrev Decoder := Cursor UInt8

abbrev DecodeM := ReadM DecodeError UInt8

namespace Decoder

def new (input : Bytes) : Decoder := ⟨input, 0⟩

def take (count : Nat) : DecodeM Bytes := do
  let decoder ← get
  match checkedAdd decoder.position count with
  | none => throw .overflow
  | some stop =>
    if stop ≤ decoder.input.length then
      set { decoder with position := stop }
      return (decoder.input.drop decoder.position).take count
    else throw .truncated

def readU32 : DecodeM UInt32 := do return UInt32.fromBeBytes (← take 4)

def readU64 : DecodeM UInt64 := do return UInt64.fromBeBytes (← take 8)

def readBool : DecodeM Bool := do
  let value ← readU32
  if value = 0 then return false
  else if value = 1 then return true
  else throw (.invalidBoolean value)

def readFixed (n : Nat) : DecodeM (Fixed n) := do
  let value ← take n
  if h : value.length = n then return ⟨value, h⟩ else throw .truncated

def readLength (field : String) (limit : Nat) : DecodeM Nat := do
  -- a `u32` always fits the 64-bit `usize`
  let length := (← readU32).toNat
  if length > limit then throw (.limitExceeded field length limit)
  return length

def readOpaqueSlice (field : String) (limit : Nat) : DecodeM Bytes := do
  let length ← readLength field limit
  let value ← take length
  let padding := (4 - (length &&& 3)) &&& 3
  if (← take padding).any (· ≠ 0) then throw .invalidPadding
  return value

def readOpaque (field : String) (limit : Nat) : DecodeM Bytes := readOpaqueSlice field limit

def readString (field : String) (limit : Nat) : DecodeM Bytes := readOpaque field limit

def readArray {α : Type} (field : String) (limit : Nat) (decode : DecodeM α) : DecodeM (List α) := do
  let length ← readLength field limit
  readMany decode length

def finish : DecodeM Unit := do
  let decoder ← get
  if decoder.position = decoder.input.length then return () else throw .trailingBytes

/-- A decoding function applied to its whole input, from `Decoder::new` to its result. -/
def run {α : Type} (decode : DecodeM α) (input : Bytes) : Except DecodeError α :=
  match decode (new input) with
  | .ok value _ => .ok value
  | .error error _ => .error error

end Decoder

/-! ## Encoder -/

abbrev EncodeM := WriteM EncodeError UInt8

namespace Encoder

def writeU32 (value : UInt32) : EncodeM Unit := modify (· ++ value.toBeBytes)

def writeU64 (value : UInt64) : EncodeM Unit := modify (· ++ value.toBeBytes)

def writeBool (value : Bool) : EncodeM Unit := writeU32 (if value then 1 else 0)

def writeFixed (value : Bytes) : EncodeM Unit := modify (· ++ value)

/-- The source also checks that the output's new length fits `usize`. A `Vec` never holds more than
`isize::MAX` bytes and the value is shorter than `2 ^ 32`, so that check cannot fail. -/
def writeOpaque (value : Bytes) : EncodeM Unit := do
  if value.length < 2 ^ 32 then
    let padding := (4 - value.length % 4) % 4
    writeU32 (UInt32.ofNat value.length)
    modify (· ++ value)
    modify (· ++ List.replicate padding 0)
  else throw (.tooLarge value.length)

/-- An encoding function applied to a fresh encoder, up to `into_bytes`. -/
def run (encode : EncodeM Unit) : Except EncodeError Bytes :=
  (encode.run []).map Prod.snd

end Encoder

end NfsEmbed.Rpc
