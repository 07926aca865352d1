import NfsEmbed.Lib.BigEndian
import NfsEmbed.Lib.Vec

/-!
# Encoded replies (`rpc/reply.rs`)

A reply is one buffer, or a protocol prefix and a payload with its XDR padding. Cloning shares the
buffers and is the identity here. What distinguishes two owners of the same bytes is the charge of
their backing allocation: it is known (`retainedBytes = some _`) for replies made from a `Vec`, and
becomes known for the others when the replay cache compacts them.

The allocator is outside the source. What a vector has room for depends on how it was filled; all that is
used is that it never holds more bytes than that. The structures below carry it, so every reply is
charged at least its wire length.
-/

namespace NfsEmbed.Rpc

open Lib

/-- What `Vec::with_capacity` grants: at least what was asked for. -/
structure Allocator where
  capacity : Nat → Nat
  le_capacity : ∀ count, count ≤ capacity count

/-- A reply kept as separate buffers; `padding` is the trailing XDR padding byte count. -/
structure SegmentedReply where
  protocolPrefix : Bytes
  payload : Bytes
  padding : Nat
  len : Nat
  padding_le : padding ≤ 3
  len_eq : len = protocolPrefix.length + payload.length + padding

inductive ReplyStorage where
  | contiguous (bytes : Bytes)
  | segmented (reply : SegmentedReply)

namespace ReplyStorage

def len : ReplyStorage → Nat
  | contiguous bytes => bytes.length
  | segmented reply => reply.len

/-- The buffers in wire order. -/
def segments : ReplyStorage → Bytes × Bytes × Bytes
  | contiguous bytes => (bytes, [], [])
  | segmented reply => (reply.protocolPrefix, reply.payload, List.replicate reply.padding 0)

end ReplyStorage

structure EncodedReply where
  storage : ReplyStorage
  /-- `some` when the complete backing allocation is known. -/
  retainedBytes : Option Nat
  len_le_retained : ∀ retained ∈ retainedBytes, storage.len ≤ retained

namespace EncodedReply

/-- `EncodedReply::segmented`; its assertion on the padding is the bound in the type. -/
def segmented (protocolPrefix payload : Bytes) (padding : Fin 4) : EncodedReply where
  storage := .segmented
    { protocolPrefix, payload, padding
      len := protocolPrefix.length + payload.length + padding
      padding_le := Nat.le_of_lt_succ padding.isLt
      len_eq := rfl }
  retainedBytes := none
  len_le_retained := nofun

/-- `From<Vec<u8>>`: charged with the vector's capacity. -/
def ofVec (value : Vec UInt8) : EncodedReply where
  storage := .contiguous value.items
  retainedBytes := some value.capacity
  len_le_retained := by
    rintro _ ⟨⟩
    exact value.length_le

def len (reply : EncodedReply) : Nat := reply.storage.len

def segments (reply : EncodedReply) : Bytes × Bytes × Bytes := reply.storage.segments

/-- The bytes on the wire in one buffer. -/
def intoBytes (reply : EncodedReply) : Bytes :=
  match reply.storage with
  | .contiguous bytes => bytes
  | .segmented reply => reply.protocolPrefix ++ reply.payload ++ List.replicate reply.padding 0

/-- The transport writes the segments one after the other, which are the same bytes. Equality of replies
compares these. -/
theorem segments_eq_intoBytes (reply : EncodedReply) :
    reply.segments.1 ++ reply.segments.2.1 ++ reply.segments.2.2 = reply.intoBytes := by
  unfold segments ReplyStorage.segments intoBytes
  cases reply.storage with
  | contiguous bytes => simp only [List.append_nil]
  | segmented reply => rfl

def replayStorageRequiresCopy (reply : EncodedReply) : Bool := reply.retainedBytes.isNone

def compactBytes (alloc : Allocator) (input : Bytes) : Bytes × Nat :=
  (input, alloc.capacity input.length)

/-- Cache-owned storage with a known allocation charge. Replies made from a `Vec` stay shared; the
others are copied, so that a short slice cannot pin an unaccounted allocation. -/
def replayStorage (alloc : Allocator) (reply : EncodedReply) : EncodedReply × Nat :=
  match reply.retainedBytes with
  | some retainedBytes => (reply, retainedBytes)
  | none =>
    match reply.storage with
    | .contiguous bytes =>
      let copy := compactBytes alloc bytes
      ({ storage := .contiguous copy.1
         retainedBytes := some copy.2
         len_le_retained := by
          rintro _ ⟨⟩
          exact alloc.le_capacity bytes.length }, copy.2)
    | .segmented segmented =>
      let protocolPrefix := compactBytes alloc segmented.protocolPrefix
      let payload := compactBytes alloc segmented.payload
      let retainedBytes := max segmented.len (saturatingAdd protocolPrefix.2 payload.2)
      ({ storage := .segmented
          { segmented with protocolPrefix := protocolPrefix.1, payload := payload.1 }
         retainedBytes := some retainedBytes
         len_le_retained := by
          rintro _ ⟨⟩
          exact Nat.le_max_left _ _ }, retainedBytes)

/-- What retaining the reply is charged. -/
def charge (alloc : Allocator) (reply : EncodedReply) : Nat := (reply.replayStorage alloc).2

theorem replayStorage_storage (alloc : Allocator) (reply : EncodedReply) :
    (reply.replayStorage alloc).1.storage = reply.storage := by
  unfold replayStorage
  split
  next => rfl
  next => split <;> next h => exact h.symm

theorem replayStorage_retainedBytes (alloc : Allocator) (reply : EncodedReply) :
    (reply.replayStorage alloc).1.retainedBytes = some (reply.charge alloc) := by
  unfold charge replayStorage
  split
  next retained h => exact h
  next => split <;> rfl

/-- Compacting a reply keeps its wire bytes. -/
theorem replayStorage_intoBytes (alloc : Allocator) (reply : EncodedReply) :
    (reply.replayStorage alloc).1.intoBytes = reply.intoBytes := by
  unfold intoBytes
  rw [replayStorage_storage]

/-- A reply is never charged less than its wire length. -/
theorem len_le_charge (alloc : Allocator) (reply : EncodedReply) :
    reply.len ≤ reply.charge alloc := by
  have h := (reply.replayStorage alloc).1.len_le_retained _ (reply.replayStorage_retainedBytes alloc)
  rwa [replayStorage_storage] at h

theorem length_intoBytes (reply : EncodedReply) : reply.intoBytes.length = reply.len := by
  unfold intoBytes len ReplyStorage.len
  cases reply.storage with
  | contiguous bytes => rfl
  | segmented segmented =>
    simp only [List.length_append, List.length_replicate]
    exact segmented.len_eq.symm

end EncodedReply

end NfsEmbed.Rpc
