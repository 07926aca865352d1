import NfsEmbed.Rpc.Record

/-!
# The segmented writer with its indices (`write_segmented_fragments` in `rpc/record.rs`)

`Rpc/Record.lean` holds the position in the segments as what is left of them. Here it is what the source
has: two cursors, each an index and an offset, into three segments, and an array of four I/O slices.
Where the source would panic, the model stops with `outOfBounds`. Flushing a socket does nothing.
-/

namespace NfsEmbed.Rpc

open Lib

/-- How the code stops early: with an error it returns, or in a panic. -/
inductive Stop where
  | error (error : RecordError)
  | outOfBounds
deriving DecidableEq, Repr

abbrev CheckedM := EStateM Stop Bytes

/-- Code without indices, run where a panic is possible. -/
def CheckedM.lift {α : Type} (m : WriterM α) : CheckedM α := fun written =>
  match m written with
  | .ok value written => .ok value written
  | .error error written => .error (.error error) written

def CheckedM.ofExcept {α : Type} : Except Stop α → CheckedM α
  | .ok value => pure value
  | .error stop => throw stop

/-- A position in the segments. -/
structure SegmentCursor where
  index : Nat
  offset : Nat
deriving DecidableEq, Repr

namespace SegmentCursor

variable (segments : List Bytes)

/-- The inner loop of both cursors: past the segments that are used up. -/
def skipUsed (cursor : SegmentCursor) : SegmentCursor :=
  if h : cursor.index < segments.length then
    if cursor.offset = (segments.get ⟨cursor.index, h⟩).length then skipUsed ⟨cursor.index + 1, 0⟩ else cursor
  else cursor
termination_by segments.length - cursor.index

/-- Where the loop stops, a segment is not used up. -/
theorem skipUsed_offset_ne {cursor : SegmentCursor} {segment : Bytes}
    (h : segments[(cursor.skipUsed segments).index]? = some segment) :
    (cursor.skipUsed segments).offset ≠ segment.length := by
  fun_induction skipUsed segments cursor with
  | case1 cursor hlt heq ih => exact ih h
  | case2 cursor hlt hne =>
    rw [List.getElem?_eq_getElem hlt] at h
    cases h
    exact hne
  | case3 cursor hge =>
    rw [List.getElem?_eq_none (Nat.le_of_not_lt hge)] at h
    cases h

/-- The loop that fills `slices`. -/
def gather (totalLength : Nat) (cursor : SegmentCursor) (remaining : Nat) (slices : List Bytes) :
    Except Stop (List Bytes) :=
  if remaining = 0 then .ok slices
  else
    match _h : segments[(cursor.skipUsed segments).index]? with
    | none => .error (.error (.recordTooLarge totalLength))
    | some segment =>
      let offset := (cursor.skipUsed segments).offset
      -- `segment.len() - current_offset`, and `slices[slice_count]`
      if _hoffset : segment.length < offset then .error .outOfBounds
      else if 4 ≤ slices.length then .error .outOfBounds
      else
        let count := min remaining (segment.length - offset)
        gather totalLength ⟨(cursor.skipUsed segments).index, offset + count⟩ (remaining - count)
          (slices ++ [(segment.drop offset).take count])
termination_by remaining
decreasing_by
  have := skipUsed_offset_ne segments _h
  omega

/-- `advance_segments`. -/
def advance (cursor : SegmentCursor) (count : Nat) : Except Stop SegmentCursor :=
  if count = 0 then .ok cursor
  else
    match _h : segments[(cursor.skipUsed segments).index]? with
    | none => .error .outOfBounds
    | some segment =>
      let offset := (cursor.skipUsed segments).offset
      if _hoffset : segment.length < offset then .error .outOfBounds
      else
        let taken := min (segment.length - offset) count
        advance ⟨(cursor.skipUsed segments).index, offset + taken⟩ (count - taken)
termination_by count
decreasing_by
  have := skipUsed_offset_ne segments _h
  omega

end SegmentCursor

namespace Writer.Indexed

variable (writer : Writer)

/-- The fragment loop of `write_segmented_fragments`. -/
def writeSegmentedLoop (totalLength maxFragmentSize : Nat) (hsize : 0 < maxFragmentSize) (segments : List Bytes)
    (cursor : SegmentCursor) (remainingTotal : Nat) : CheckedM Unit :=
  if _hremaining : remainingTotal = 0 then pure ()
  else do
    let fragmentLength := min remainingTotal maxFragmentSize
    if fragmentLength > 0x7fffffff then throw (.error (.fragmentTooLarge fragmentLength 0x7fffffff))
    let last := fragmentLength = remainingTotal
    let header := fragmentHeader fragmentLength last
    let slices ← .ofExcept (cursor.gather segments totalLength fragmentLength [header.toBeBytes])
    CheckedM.lift (writer.writeAllSlices slices)
    let cursor ← .ofExcept (cursor.advance segments fragmentLength)
    writeSegmentedLoop totalLength maxFragmentSize hsize segments cursor (remainingTotal - fragmentLength)
termination_by remainingTotal

def writeSegmentedFragments (segments : List Bytes) (totalLength maxFragmentSize : Nat)
    (hsize : 0 < maxFragmentSize) : CheckedM Unit :=
  if totalLength = 0 then CheckedM.lift (writer.writeAll (0x80000000 : UInt32).toBeBytes)
  else writeSegmentedLoop writer totalLength maxFragmentSize hsize segments ⟨0, 0⟩ totalLength

def writeRecordSegmentsLimited (first second third : Bytes) (limits : RecordLimits) : CheckedM Unit :=
  match segmentsLength [first, second, third] with
  | none => throw (.error (.recordTooLarge limits.maxRecordSize))
  | some length =>
    match h : validateRecordLength length limits with
    | .error error => throw (.error error)
    | .ok () =>
      writeSegmentedFragments writer [first, second, third] length limits.maxFragmentSize
        (maxFragmentSize_pos_of_validate h)

end Writer.Indexed

end NfsEmbed.Rpc
