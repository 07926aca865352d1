import NfsEmbed.Lib.Streams
import NfsEmbed.Rpc.Codec

/-!
# XDR of the pre-1.0 implementation (`xdr.rs`)

Values are written to and read from byte streams. Writing goes to a buffer in memory, which takes
everything; the one thing that can fail is the assertion on the length of a vector, which panics. The
macros `xdr_struct!`, `xdr_enum_serde!` and `xdr_bool_union!` are definitions with parameters here.
-/

namespace NfsEmbed.Legacy

open Lib Rpc

/-- The errors of reading. -/
inductive IoError where
  | unexpectedEof
  | invalidData (message : String)
deriving DecidableEq, Repr

structure Panic where
  message : String
deriving DecidableEq, Repr

abbrev Reader := StreamM IoError UInt8

abbrev Writer := WriteM Panic UInt8

class Xdr (α : Type) where
  serialize : α → Writer Unit
  deserialize : Reader α

export Xdr (serialize deserialize)

def readExact (count : Nat) : Reader Bytes := fun stream =>
  if count ≤ stream.length then .ok (stream.take count, stream.drop count) else .error .unexpectedEof

def writeAll (bytes : Bytes) : Writer Unit := modify (· ++ bytes)

/-! ## Primitives -/

instance : Xdr UInt32 where
  serialize value := writeAll value.toBeBytes
  deserialize := do return UInt32.fromBeBytes (← readExact 4)

instance : Xdr UInt64 where
  serialize value := writeAll value.toBeBytes
  deserialize := do return UInt64.fromBeBytes (← readExact 8)

instance : Xdr Bool where
  serialize value := serialize (if value then 1 else 0 : UInt32)
  deserialize := do
    let value : UInt32 ← deserialize
    return value > 0

/-- `[u8; N]`. -/
instance (n : Nat) : Xdr (Fixed n) where
  serialize value := writeAll value.bytes
  deserialize := do
    let bytes ← readExact n
    if h : bytes.length = n then return ⟨bytes, h⟩ else throw .unexpectedEof

/-- `Vec<u8>`. -/
instance : Xdr Bytes where
  serialize value := do
    if value.length < 2 ^ 32 - 1 then
      let length := UInt32.ofNat value.length
      serialize length
      writeAll value
      writeAll (List.replicate ((4 - length.toNat % 4) % 4) 0)
    else throw ⟨"assertion failed: self.len() < u32::MAX as usize"⟩
  deserialize := do
    let length : UInt32 ← deserialize
    let value ← readExact length.toNat
    let _zeros ← readExact ((4 - length.toNat % 4) % 4)
    return value

/-! ## The macros -/

/-- Fields one after the other. -/
instance {α β : Type} [Xdr α] [Xdr β] : Xdr (α × β) where
  serialize value := do
    serialize value.1
    serialize value.2
  deserialize := do
    let first ← deserialize
    let second ← deserialize
    return (first, second)

/-- `xdr_struct!`, for a structure given by its fields. -/
@[reducible] def xdrStruct {α β : Type} [Xdr β] (fields : α → β) (ofFields : β → α) : Xdr α where
  serialize value := serialize (fields value)
  deserialize := do return ofFields (← deserialize)

/-- `xdr_enum_serde!`, for an enumeration given by its numbers. -/
@[reducible] def xdrEnum {α : Type} (name : String) (toU32 : α → UInt32) (fromU32 : UInt32 → Option α) : Xdr α where
  serialize value := serialize (toU32 value)
  deserialize := do
    match fromU32 (← deserialize) with
    | some value => return value
    | none => throw (.invalidData ("Invalid value for " ++ name))

/-- `xdr_bool_union!`, for a union of nothing and one case. -/
instance {α : Type} [Xdr α] : Xdr (Option α) where
  serialize
    | none => serialize false
    | some value => do
      serialize true
      serialize value
  deserialize := do
    let follows : Bool ← deserialize
    if follows then return some (← deserialize) else return none

end NfsEmbed.Legacy
