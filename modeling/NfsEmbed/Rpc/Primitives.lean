import NfsEmbed.Lib.Vec
import NfsEmbed.Rpc.Codec

/-!
# The XDR codec down to the standard library (`rpc/codec.rs`)

The codec once more, with each call it makes to the standard library as that call is defined: slices
are taken with `get`, arrays come from `try_into`, the padding is a wrapping subtraction and a mask,
the result of `read_array` is reserved and pushed to. Two of these calls can panic, the copy of
`to_vec` and the growth in `push`, so an operation returns or panics here. `NfsEmbed.Rpc.Codec`
leaves panics and reservations out.

A caller is a `Program`: it calls one operation after the other and goes on with what they return,
errors included. The function `read_array` is given is such a caller too.
-/

namespace NfsEmbed.Rpc.Primitives

open Lib

/-- Code that works on a decoder and may panic. -/
abbrev PanicM := StateT Decoder (Except CapacityOverflow)

/-- Code that returns a `Result`. Its sequencing is `?`, and an error keeps the decoder as it is. -/
abbrev ResultM := ExceptT DecodeError PanicM

/-- `Option::ok_or`, with `?`. -/
def okOr {α : Type} (error : DecodeError) : Option α → ResultM α
  | some value => pure value
  | none => throw error

/-- `slice.get(start..stop)`. -/
def getRange (slice : Bytes) (start stop : Nat) : Option Bytes :=
  if start ≤ stop ∧ stop ≤ slice.length then some (slice.extract start stop) else none

/-- `<[u8; N]>::try_from(slice)`. -/
def tryInto (n : Nat) (slice : Bytes) : Option (Fixed n) :=
  if h : slice.length = n then some ⟨slice, h⟩ else none

/-! ## Decoder -/

namespace Decoder

def position : PanicM Nat := do return (← get).position

def remaining : PanicM Nat := do
  let decoder ← get
  return decoder.input.length - decoder.position

def take (count : Nat) : ResultM Bytes := do
  let decoder ← get
  let stop ← okOr .overflow (checkedAdd decoder.position count)
  let value ← okOr .truncated (getRange decoder.input decoder.position stop)
  set { decoder with position := stop }
  return value

/-- The words below are read as the source reads a fixed array, and then put together. -/
def readFixed (n : Nat) : ResultM (Fixed n) := do okOr .truncated (tryInto n (← take n))

def readU32 : ResultM UInt32 := do return UInt32.fromBeBytes (← readFixed 4).bytes

def readI32 : ResultM Int32 := do return (UInt32.fromBeBytes (← readFixed 4).bytes).toInt32

def readU64 : ResultM UInt64 := do return UInt64.fromBeBytes (← readFixed 8).bytes

def readBool : ResultM Bool := do
  let value ← readU32
  if value = 0 then return false
  else if value = 1 then return true
  else throw (.invalidBoolean value)

def readEnum {α : Type} (kind : String) (convert : UInt32 → Option α) : ResultM α := do
  let value ← readU32
  okOr (.invalidDiscriminant kind value) (convert value)

def readLength (field : String) (limit : Nat) : ResultM Nat := do
  let length ← okOr .overflow (checked (← readU32).toNat)
  if length > limit then throw (.limitExceeded field length limit)
  return length

def readOpaqueSlice (field : String) (limit : Nat) : ResultM Bytes := do
  let length ← readLength field limit
  let value ← take length
  let padding := wrappingSub 4 (length &&& 3) &&& 3
  if (← take padding).any (· ≠ 0) then throw .invalidPadding
  return value

def readOpaque (field : String) (limit : Nat) : ResultM Bytes := do
  Vec.copyOf 1 (← readOpaqueSlice field limit)

def readString (field : String) (limit : Nat) : ResultM Bytes := readOpaque field limit

section ReadArray

variable {α σ : Type} (size : Nat) (decode : σ → PanicM (Except DecodeError α × σ))

/-- The loop of `read_array`. What `decode` keeps between its calls is passed along. -/
def pushMany : Nat → Vec α → σ → PanicM (Except DecodeError (Vec α) × σ)
  | 0, result, captured => return (.ok result, captured)
  | count + 1, result, captured => do
    match ← decode captured with
    | (.error error, captured) => return (.error error, captured)
    | (.ok item, captured) =>
      let result ← result.push size item
      pushMany count result captured

/-- The elements take `size` bytes each; `granted` is what the allocator says to the reservation. -/
def readArray (field : String) (limit : Nat) (granted : Bool) (captured : σ) :
    PanicM (Except DecodeError (List α) × σ) := do
  match ← (readLength field limit).run with
  | .error error => return (.error error, captured)
  | .ok length =>
    match (Vec.new size).tryReserveExact size granted length with
    | none => return (.error (.limitExceeded field length limit), captured)
    | some result =>
      let (result, captured) ← pushMany size decode length result captured
      return (result.map Vec.items, captured)

end ReadArray

def finish : ResultM Unit := do
  let decoder ← get
  if decoder.position = decoder.input.length then return () else throw .trailingBytes

end Decoder

/-! ## Callers -/

mutual

/-- The operations of a decoder that its callers have, by the type of what they return. -/
inductive Operation : Type → Type 1 where
  | position : Operation Nat
  | remaining : Operation Nat
  | readU32 : Operation (Except DecodeError UInt32)
  | readI32 : Operation (Except DecodeError Int32)
  | readU64 : Operation (Except DecodeError UInt64)
  | readBool : Operation (Except DecodeError Bool)
  | readEnum {α : Type} (kind : String) (convert : UInt32 → Option α) : Operation (Except DecodeError α)
  | readFixed (n : Nat) : Operation (Except DecodeError (Fixed n))
  | readOpaque (field : String) (limit : Nat) : Operation (Except DecodeError Bytes)
  | readOpaqueSlice (field : String) (limit : Nat) : Operation (Except DecodeError Bytes)
  | readString (field : String) (limit : Nat) : Operation (Except DecodeError Bytes)
  | readArray {α σ : Type} (size : Nat) (decode : σ → Program (Except DecodeError α × σ)) (field : String)
      (limit : Nat) (granted : Bool) (captured : σ) : Operation (Except DecodeError (List α) × σ)
  | finish : Operation (Except DecodeError Unit)

/-- Code that is done, or calls an operation and goes on with what it returns. -/
inductive Program : Type → Type 1 where
  | done {α : Type} (value : α) : Program α
  | call {α ρ : Type} (operation : Operation ρ) (next : ρ → Program α) : Program α

end

mutual

def Operation.run : {ρ : Type} → Operation ρ → PanicM ρ
  | _, .position => Decoder.position
  | _, .remaining => Decoder.remaining
  | _, .readU32 => Decoder.readU32.run
  | _, .readI32 => Decoder.readI32.run
  | _, .readU64 => Decoder.readU64.run
  | _, .readBool => Decoder.readBool.run
  | _, .readEnum kind convert => (Decoder.readEnum kind convert).run
  | _, .readFixed n => (Decoder.readFixed n).run
  | _, .readOpaque field limit => (Decoder.readOpaque field limit).run
  | _, .readOpaqueSlice field limit => (Decoder.readOpaqueSlice field limit).run
  | _, .readString field limit => (Decoder.readString field limit).run
  | _, .readArray size decode field limit granted captured =>
    Decoder.readArray size (fun captured => (decode captured).run) field limit granted captured
  | _, .finish => Decoder.finish.run

def Program.run : {α : Type} → Program α → PanicM α
  | _, .done value => pure value
  | _, .call operation next => do
    let result ← operation.run
    (next result).run

end

/-! ## Encoder -/

/-- What an encoder holds, a `Vec<u8>`: no vector has more bytes than an allocation may have. -/
abbrev Output := {bytes : Bytes // bytes.length ≤ isizeMax}

namespace Encoder

/-- `Vec::resize` with zeros. -/
def resize (length : Nat) (output : Bytes) : Bytes :=
  if length ≤ output.length then output.take length else output ++ List.replicate (length - output.length) 0

/-- The output's length after the length word, the value and the padding. -/
def finalLength (output value : Bytes) (padding : Nat) : Option Nat := do
  checkedAdd (← checkedAdd (← checkedAdd output.length 4) value.length) padding

def writeOpaque (value : Bytes) : EncodeM Unit := do
  if value.length < 2 ^ 32 then
    let padding := (4 - value.length % 4) % 4
    match finalLength (← get) value padding with
    | none => throw (.tooLarge value.length)
    | some finalLength =>
      Rpc.Encoder.writeU32 (UInt32.ofNat value.length)
      modify (· ++ value)
      modify (resize finalLength)
  else throw (.tooLarge value.length)

end Encoder

end NfsEmbed.Rpc.Primitives
