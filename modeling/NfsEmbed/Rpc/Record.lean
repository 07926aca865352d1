import NfsEmbed.Lib.BigEndian
import NfsEmbed.Lib.Usize

/-!
# Record marking (`rpc/record.rs`)

A record is sent as fragments, each after a header word that holds its length and, in the top bit,
whether it is the last one.

A reader is the stream of bytes that are still to come. A writer decides at every write how many of
the offered bytes it takes, which may depend on everything written before; what it has taken is the
state of the writing functions, and it is kept when they fail. Flushing takes no bytes and is left
out. The readers here always get their memory and their permits; `Rpc/Reader.lean` has them with the
record buffer, the byte budget and what they leave behind when they fail.
-/

namespace NfsEmbed.Rpc

open Lib

structure RecordLimits where
  maxRecordSize : Nat
  maxFragmentSize : Nat
  maxFragments : Nat
  /-- It is a `usize`. -/
  maxRecordSize_le : maxRecordSize ≤ usizeMax
deriving DecidableEq, Repr

inductive IoErrorKind where
  | unexpectedEof
  | writeZero
  | other
deriving DecidableEq, Repr

inductive RecordError where
  | io (kind : IoErrorKind)
  | fragmentTooLarge (actual limit : Nat)
  | recordTooLarge (limit : Nat)
  | tooManyFragments (limit : Nat)
  | emptyFragment
  | budgetClosed
deriving DecidableEq, Repr

/-! ## Reading -/

abbrev ReaderM := StateT Bytes (Except RecordError)

/-- `read_exact`: that many bytes, or the end of the stream came too early. -/
def readExact (count : Nat) : ReaderM Bytes := fun stream =>
  if count ≤ stream.length then .ok (stream.take count, stream.drop count)
  else .error (.io .unexpectedEof)

def readHeader : ReaderM UInt32 := do return UInt32.fromBeBytes (← readExact 4)

/-- The fragment loop of `read_record`, with `remaining` turns left. -/
def readFragments (limits : RecordLimits) : Nat → Bytes → ReaderM Bytes
  | 0, _ => throw (.tooManyFragments limits.maxFragments)
  | remaining + 1, record => do
    let header ← readHeader
    let last := header &&& 0x80000000 ≠ 0
    let length := (header &&& 0x7fffffff).toNat
    if length = 0 ∧ ¬ last then throw .emptyFragment
    if length > limits.maxFragmentSize then throw (.fragmentTooLarge length limits.maxFragmentSize)
    match checkedAdd record.length length with
    | none => throw (.recordTooLarge limits.maxRecordSize)
    | some newLength =>
      if newLength > limits.maxRecordSize then throw (.recordTooLarge limits.maxRecordSize)
      let record := record ++ (← readExact length)
      if last then return record
      readFragments limits remaining record

def readRecord (limits : RecordLimits) : ReaderM Bytes :=
  readFragments limits limits.maxFragments []

/-- The fragment loop of `read_record_budgeted`, entered with the header of the next fragment. -/
def readFragmentsFrom (limits : RecordLimits) : Nat → UInt32 → Bytes → ReaderM Bytes
  | 0, _, _ => throw (.tooManyFragments limits.maxFragments)
  | remaining + 1, header, record => do
    let last := header &&& 0x80000000 ≠ 0
    let length := (header &&& 0x7fffffff).toNat
    if length = 0 ∧ ¬ last then throw .emptyFragment
    if length > limits.maxFragmentSize then throw (.fragmentTooLarge length limits.maxFragmentSize)
    match checkedAdd record.length length with
    | none => throw (.recordTooLarge limits.maxRecordSize)
    | some newLength =>
      if newLength > limits.maxRecordSize then throw (.recordTooLarge limits.maxRecordSize)
      let record := record ++ (← readExact length)
      if last then return record
      if remaining = 0 then throw (.tooManyFragments limits.maxFragments)
      readFragmentsFrom limits remaining (← readHeader) record

/-- `read_record_budgeted` with a budget that is granted. -/
def readRecordBudgeted (limits : RecordLimits) : ReaderM Bytes := do
  let header ← readHeader
  let firstLength := (header &&& 0x7fffffff).toNat
  if firstLength = 0 ∧ header &&& 0x80000000 = 0 then throw .emptyFragment
  if firstLength > limits.maxFragmentSize then
    throw (.fragmentTooLarge firstLength limits.maxFragmentSize)
  if firstLength > limits.maxRecordSize then throw (.recordTooLarge limits.maxRecordSize)
  -- the permits are counted in 32 bits
  if limits.maxRecordSize ≥ 2 ^ 32 then throw (.recordTooLarge (2 ^ 32 - 1))
  readFragmentsFrom limits limits.maxFragments header []

/-! ## Validating -/

/-- How many fragments a record of that length takes. -/
def fragmentCount (length : Nat) (limits : RecordLimits) : Nat :=
  if length = 0 then 1
  else if limits.maxFragmentSize = 0 then usizeMax
  else (length + limits.maxFragmentSize - 1) / limits.maxFragmentSize

def validateRecordLength (length : Nat) (limits : RecordLimits) : Except RecordError Unit :=
  if length > limits.maxRecordSize then .error (.recordTooLarge limits.maxRecordSize)
  else if fragmentCount length limits > limits.maxFragments then
    .error (.tooManyFragments limits.maxFragments)
  else if limits.maxFragmentSize = 0 then .error (.fragmentTooLarge length 0)
  else .ok ()

theorem validateRecordLength_ok_iff {length : Nat} {limits : RecordLimits} :
    validateRecordLength length limits = .ok () ↔
      length ≤ limits.maxRecordSize ∧ fragmentCount length limits ≤ limits.maxFragments ∧
        0 < limits.maxFragmentSize := by
  unfold validateRecordLength
  split
  next => simp; omega
  next =>
    split
    next => simp; omega
    next => split <;> simp <;> omega

/-- A length that passes leaves room for at least one byte in a fragment. -/
theorem maxFragmentSize_pos_of_validate {length : Nat} {limits : RecordLimits}
    (h : validateRecordLength length limits = .ok ()) : 0 < limits.maxFragmentSize :=
  (validateRecordLength_ok_iff.mp h).2.2

/-! ## Writing -/

/-- The bytes in a list of buffers. -/
def bufferedBytes (buffers : List Bytes) : Nat := (buffers.map List.length).sum

structure Writer where
  isWriteVectored : Bool
  /-- How many bytes of the offered buffers the next write takes, given what was written so far. -/
  accepts : (written : Bytes) → (offered : List Bytes) → Except IoErrorKind Nat
  accepts_le : ∀ written offered count, accepts written offered = .ok count →
    count ≤ bufferedBytes offered

/-- Writing: what the writer has taken so far, also when an error ends it. -/
abbrev WriterM := EStateM RecordError Bytes

namespace Writer

variable (writer : Writer)

/-- `write_vectored`, and `write` for a single buffer: take a front part of the offered bytes. -/
def writeVectored (buffers : List Bytes) : WriterM Nat := fun written =>
  match writer.accepts written buffers with
  | .error kind => .error (.io kind) written
  | .ok count => .ok count (written ++ buffers.flatten.take count)

/-- `IoSlice::advance_slices`. -/
def advanceSlices : List Bytes → Nat → List Bytes
  | [], _ => []
  | buffer :: buffers, count =>
    if buffer.length ≤ count then advanceSlices buffers (count - buffer.length)
    else buffer.drop count :: buffers

theorem flatten_advanceSlices : ∀ (buffers : List Bytes) (count : Nat),
    (advanceSlices buffers count).flatten = buffers.flatten.drop count
  | [], count => by simp [advanceSlices]
  | buffer :: buffers, count => by
    unfold advanceSlices
    split
    next h =>
      rw [flatten_advanceSlices, List.flatten_cons, List.drop_append, List.drop_of_length_le h,
        List.nil_append]
    next h =>
      rw [List.flatten_cons, List.flatten_cons, List.drop_append_of_le_length (by omega)]

theorem bufferedBytes_eq (buffers : List Bytes) : bufferedBytes buffers = buffers.flatten.length := by
  rw [bufferedBytes, List.length_flatten]

/-- The loop of `write_all`, and of `write_all_slices` for a vectored writer. -/
def writeBuffers (buffers : List Bytes) : WriterM Unit := fun written =>
  if buffers = [] then .ok () written
  else
    match _h : writer.writeVectored buffers written with
    | .error error written => .error error written
    | .ok count written' =>
      if _hzero : count = 0 then .error (.io .writeZero) written'
      else writeBuffers (advanceSlices buffers count) written'
termination_by buffers.flatten.length
decreasing_by
  have hle : count ≤ buffers.flatten.length := by
    unfold writeVectored at _h
    split at _h
    next => cases _h
    next haccepts =>
      cases _h
      rw [← bufferedBytes_eq]
      exact writer.accepts_le _ _ _ haccepts
  rw [flatten_advanceSlices, List.length_drop]
  omega

def writeAll (bytes : Bytes) : WriterM Unit :=
  if bytes = [] then pure () else writer.writeBuffers [bytes]

def writeAllSlices (slices : List Bytes) : WriterM Unit :=
  if writer.isWriteVectored then writer.writeBuffers slices else slices.forM writer.writeAll

/-- `header | 0x8000_0000` for the last fragment. -/
def fragmentHeader (length : Nat) (last : Bool) : UInt32 :=
  UInt32.ofNat length ||| (if last then 0x80000000 else 0)

/-- The chunk loop of `write_fragments`. -/
def writeChunks (maxFragmentSize : Nat) (hsize : 0 < maxFragmentSize) (record : Bytes) : WriterM Unit :=
  if _hrecord : record = [] then pure ()
  else do
    let fragment := record.take maxFragmentSize
    let rest := record.drop maxFragmentSize
    if fragment.length > 0x7fffffff then throw (.fragmentTooLarge fragment.length 0x7fffffff)
    let header := fragmentHeader fragment.length rest.isEmpty
    writer.writeAllSlices [header.toBeBytes, fragment]
    writeChunks maxFragmentSize hsize rest
termination_by record.length
decreasing_by
  have := List.length_pos_iff.mpr _hrecord
  simp only [List.length_drop]
  omega

def writeFragments (record : Bytes) (maxFragmentSize : Nat) : WriterM Unit :=
  if hsize : maxFragmentSize = 0 then throw (.fragmentTooLarge record.length 0)
  else if record = [] then writer.writeAll (0x80000000 : UInt32).toBeBytes
  else writer.writeChunks maxFragmentSize (Nat.pos_of_ne_zero hsize) record

def writeRecordLimited (record : Bytes) (limits : RecordLimits) : WriterM Unit :=
  match validateRecordLength record.length limits with
  | .error error => throw error
  | .ok () => writer.writeFragments record limits.maxFragmentSize

/-! ### Segmented records

The position in the segments, an index and an offset in the source, is held as what is left of
them. -/

/-- The slices that make up the next `count` bytes; `none` when the segments are too short. -/
def gatherSlices : List Bytes → Nat → Option (List Bytes)
  | _, 0 => some []
  | [], _ + 1 => none
  | segment :: segments, count + 1 =>
    if segment = [] then gatherSlices segments (count + 1)
    else
      let taken := segment.take (count + 1)
      (gatherSlices segments (count + 1 - taken.length)).map (taken :: ·)

/-- What is left of the segments after the next `count` bytes. -/
def advanceSegments : List Bytes → Nat → List Bytes
  | segments, 0 => segments
  | [], _ + 1 => []
  | segment :: segments, count + 1 =>
    if segment.length ≤ count + 1 then advanceSegments segments (count + 1 - segment.length)
    else segment.drop (count + 1) :: segments

/-- The fragment loop of `write_segmented_fragments`. -/
def writeSegmentedLoop (totalLength maxFragmentSize : Nat) (hsize : 0 < maxFragmentSize)
    (segments : List Bytes) (remainingTotal : Nat) : WriterM Unit :=
  if _hremaining : remainingTotal = 0 then pure ()
  else do
    let fragmentLength := min remainingTotal maxFragmentSize
    if fragmentLength > 0x7fffffff then throw (.fragmentTooLarge fragmentLength 0x7fffffff)
    let last := fragmentLength = remainingTotal
    let header := fragmentHeader fragmentLength last
    match gatherSlices segments fragmentLength with
    | none => throw (.recordTooLarge totalLength)
    | some slices =>
      writer.writeAllSlices (header.toBeBytes :: slices)
      writeSegmentedLoop totalLength maxFragmentSize hsize (advanceSegments segments fragmentLength)
        (remainingTotal - fragmentLength)
termination_by remainingTotal

def writeSegmentedFragments (segments : List Bytes) (totalLength maxFragmentSize : Nat)
    (hsize : 0 < maxFragmentSize) : WriterM Unit :=
  if totalLength = 0 then writer.writeAll (0x80000000 : UInt32).toBeBytes
  else writer.writeSegmentedLoop totalLength maxFragmentSize hsize segments totalLength

/-- The aggregate length of the segments, unless it overflows. -/
def segmentsLength (segments : List Bytes) : Option Nat :=
  segments.foldlM (fun length segment => checkedAdd length segment.length) 0

def writeRecordSegmentsLimited (first second third : Bytes) (limits : RecordLimits) : WriterM Unit :=
  match segmentsLength [first, second, third] with
  | none => throw (.recordTooLarge limits.maxRecordSize)
  | some length =>
    match h : validateRecordLength length limits with
    | .error error => throw error
    | .ok () =>
      writer.writeSegmentedFragments [first, second, third] length limits.maxFragmentSize
        (maxFragmentSize_pos_of_validate h)

end Writer

end NfsEmbed.Rpc
