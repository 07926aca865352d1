import Mathlib.Data.Nat.Bitwise
import NfsEmbed.Lib.Computation
import NfsEmbed.Rpc.Reader

/-!
# Record marking round trips

Both writers emit the same bytes, whatever parts of them the socket takes at a time: the record cut
into chunks of the fragment limit, each after its header. The reader, under the same limits, gets the
record back from them and stops at the first byte after them.

The law is `record_marking_round_trip`. That a writer takes some of what it is offered is assumed where the
record is to be written to the end, and nowhere else.
-/

namespace NfsEmbed.Rpc

open Lib Writer

variable {length count remaining : Nat} {header : UInt32} {bytes record stream rest first second third : Bytes}
  {segments : List Bytes} {result : Bytes × Bytes} {error : RecordError}

/-! ## Headers -/

section Header

variable {length : Nat} (hlength : length ≤ 0x7fffffff) (last : Bool)

include hlength

/-- The low bits of a header are the length. -/
theorem fragmentHeader_length : (fragmentHeader length last &&& 0x7fffffff).toNat = length := by
  have hmod : length % 4294967296 = length := Nat.mod_eq_of_lt (by omega)
  have hlow : length &&& 2 ^ 31 - 1 = length := by
    rw [Nat.and_two_pow_sub_one_eq_mod, Nat.mod_eq_of_lt (by omega)]
  cases last with
  | false => simpa [fragmentHeader, hmod] using hlow
  | true => simpa [fragmentHeader, hmod, Nat.and_or_distrib_right] using hlow

/-- The top bit of a header marks the last fragment. -/
theorem fragmentHeader_last : (fragmentHeader length last &&& 0x80000000 ≠ 0) ↔ last = true := by
  have hmod : length % 4294967296 = length := Nat.mod_eq_of_lt (by omega)
  have htop : length &&& 2 ^ 31 = 0 := by
    rw [Nat.and_two_pow, Nat.testBit_lt_two_pow (by omega), Bool.toNat_false, Nat.zero_mul]
  rw [ne_eq, ← UInt32.toNat_inj]
  cases last with
  | false => simpa [fragmentHeader, hmod] using htop
  | true => simp [fragmentHeader, Nat.and_or_distrib_right]

end Header

theorem headerLength_le (header : UInt32) : headerLength header ≤ 0x7fffffff := by
  unfold headerLength
  rw [UInt32.toNat_and]
  exact Nat.and_le_right

theorem headerLength_fragmentHeader (hwire : length ≤ 0x7fffffff) (last : Bool) :
    headerLength (fragmentHeader length last) = length := fragmentHeader_length hwire last

theorem headerLast_iff : headerLast header = true ↔ header &&& 0x80000000 ≠ 0 := decide_eq_true_iff

theorem headerLast_fragmentHeader (hwire : length ≤ 0x7fffffff) (last : Bool) :
    headerLast (fragmentHeader length last) = last := by
  rw [Bool.eq_iff_iff, headerLast_iff, fragmentHeader_last hwire last]

/-- A header word is its length and its mark. -/
theorem fragmentHeader_header (header : UInt32) : fragmentHeader (headerLength header) (headerLast header) = header := by
  have hsplit : header &&& 0x7fffffff ||| header &&& 0x80000000 = header := by
    rw [← UInt32.toNat_inj, UInt32.toNat_or, UInt32.toNat_and, UInt32.toNat_and, ← Nat.and_or_distrib_left]
    change header.toNat &&& 2 ^ 32 - 1 = _
    rw [Nat.and_two_pow_sub_one_eq_mod, Nat.mod_eq_of_lt header.toNat_lt]
  have htop : (if headerLast header then (0x80000000 : UInt32) else 0) = header &&& 0x80000000 := by
    rw [← UInt32.toNat_inj, UInt32.toNat_and]
    change _ = header.toNat &&& 2 ^ 31
    rw [Nat.and_two_pow]
    have hlast : headerLast header = header.toNat.testBit 31 := by
      rw [Bool.eq_iff_iff, headerLast_iff, ne_eq, ← UInt32.toNat_inj, UInt32.toNat_and]
      change ¬ header.toNat &&& 2 ^ 31 = 0 ↔ _
      rw [Nat.and_two_pow]
      cases header.toNat.testBit 31 <;> simp
    rw [hlast]
    cases header.toNat.testBit 31 <;> rfl
  rw [fragmentHeader, htop, headerLength, UInt32.ofNat_toNat, hsplit]

/-! ## Writers -/

namespace Writer

/-- The writer takes some of what it is offered. -/
def Willing (writer : Writer) : Prop :=
  ∀ written offered, 0 < bufferedBytes offered → ∃ count, writer.accepts written offered = .ok count ∧ 0 < count

/-- `m` writes these bytes: a success means that they were written, and with a willing writer it is a
success. -/
def Emits (writer : Writer) (m : WriterM Unit) (bytes : Bytes) : Prop :=
  ∀ written, (∀ written', m written = .ok () written' → written' = written ++ bytes) ∧
    (writer.Willing → m written = .ok () (written ++ bytes))

/-- An error of `m` is one of the writer. -/
def FailsIo (m : WriterM Unit) : Prop :=
  ∀ written error written', m written = .error error written' → ∃ kind, error = .io kind

/-- `m` writes these bytes, and fails only if the writer does. -/
structure Writes (writer : Writer) (m : WriterM Unit) (bytes : Bytes) : Prop where
  emits : writer.Emits m bytes
  failsIo : FailsIo m

variable {writer : Writer}

theorem Writes.pure : writer.Writes (Pure.pure ()) [] where
  emits _ := ⟨fun _ h => by cases h; simp, fun _ => by rw [List.append_nil]; rfl⟩
  failsIo _ _ _ h := by cases h

/-- One after the other. -/
theorem Writes.seq {m m' : WriterM Unit} {bytes' : Bytes} (h : writer.Writes m bytes) (h' : writer.Writes m' bytes') :
    writer.Writes (m >>= fun _ => m') (bytes ++ bytes') := by
  constructor
  · refine fun written => ⟨fun written' hrun => ?_, fun hwilling => ?_⟩
    · cases hm : m written with
      | error =>
        rw [bind_of_error hm] at hrun
        cases hrun
      | ok _ middle =>
        rw [bind_of_ok hm] at hrun
        rw [(h'.emits middle).1 written' hrun, (h.emits written).1 middle hm, List.append_assoc]
    · rw [bind_of_ok ((h.emits written).2 hwilling), (h'.emits _).2 hwilling, List.append_assoc]
  · intro written error written' hrun
    cases hm : m written with
    | error =>
      rw [bind_of_error hm] at hrun
      cases hrun
      exact h.failsIo written error written' hm
    | ok _ middle =>
      rw [bind_of_ok hm] at hrun
      exact h'.failsIo middle error written' hrun

theorem forall_mem_advanceSlices {buffers : List Bytes} (hne : ∀ buffer ∈ buffers, buffer ≠ []) (count : Nat) :
    ∀ buffer ∈ advanceSlices buffers count, buffer ≠ [] := by
  induction buffers generalizing count with
  | nil => simp [advanceSlices]
  | cons _ _ ih =>
    obtain ⟨-, htail⟩ := List.forall_mem_cons.mp hne
    unfold advanceSlices
    split
    next => exact ih htail _
    next h =>
      refine List.forall_mem_cons.mpr ⟨fun hdrop => ?_, htail⟩
      rw [List.drop_eq_nil_iff] at hdrop
      exact h hdrop

/-- One turn of the loop: the writer fails, takes nothing, or takes a part and is offered the rest. -/
theorem writeBuffers_step {buffers : List Bytes} (hbuffers : buffers ≠ []) (written : Bytes) :
    (∃ kind, (∀ count, 0 < count → writer.accepts written buffers ≠ .ok count) ∧
      writer.writeBuffers buffers written = .error (.io kind) written) ∨
    ∃ count, 0 < count ∧ count ≤ buffers.flatten.length ∧ writer.writeBuffers buffers written =
      writer.writeBuffers (advanceSlices buffers count) (written ++ buffers.flatten.take count) := by
  rw [writeBuffers, if_neg hbuffers]
  cases haccepts : writer.accepts written buffers with
  | error kind =>
    refine .inl ⟨kind, nofun, ?_⟩
    split
    next hvectored =>
      simp only [writeVectored, haccepts, EStateM.Result.error.injEq] at hvectored
      obtain ⟨rfl, rfl⟩ := hvectored
      rfl
    next hvectored => simp [writeVectored, haccepts] at hvectored
  | ok count =>
    have hle := writer.accepts_le _ _ _ haccepts
    rw [bufferedBytes_eq] at hle
    split
    next hvectored => simp [writeVectored, haccepts] at hvectored
    next count' written' hvectored =>
      simp only [writeVectored, haccepts, EStateM.Result.ok.injEq] at hvectored
      obtain ⟨rfl, rfl⟩ := hvectored
      by_cases hzero : count = 0
      · subst hzero
        refine .inl ⟨.writeZero, fun count hpos haccepts' => ?_, by simp⟩
        cases haccepts'
        exact hpos.false
      · exact .inr ⟨count, Nat.pos_of_ne_zero hzero, hle, by rw [dif_neg hzero]⟩

/-- Retrying a short write neither repeats nor skips a byte. -/
theorem writeBuffers_writes (buffers : List Bytes) (hne : ∀ buffer ∈ buffers, buffer ≠ []) :
    writer.Writes (writer.writeBuffers buffers) buffers.flatten := by
  induction hlength : buffers.flatten.length using Nat.strong_induction_on generalizing buffers with
  | _ length ih =>
    by_cases hbuffers : buffers = []
    · have hdone : writer.writeBuffers buffers = Pure.pure () := by
        funext written
        rw [writeBuffers, if_pos hbuffers]
        rfl
      rw [hdone, hbuffers]
      exact .pure
    -- as long as there is a buffer there is something for a willing writer to take
    have hpos : 0 < bufferedBytes buffers := by
      obtain ⟨buffer, hbuffer⟩ := List.exists_mem_of_ne_nil _ hbuffers
      rw [bufferedBytes_eq]
      exact (List.length_pos_of_ne_nil (hne buffer hbuffer)).trans_le (List.sublist_flatten_of_mem hbuffer).length_le
    have hrest : ∀ count, 0 < count → count ≤ buffers.flatten.length →
        writer.Writes (writer.writeBuffers (advanceSlices buffers count)) (buffers.flatten.drop count) := by
      intro count hcount hle
      rw [← flatten_advanceSlices]
      refine ih _ ?_ _ (forall_mem_advanceSlices hne count) rfl
      rw [flatten_advanceSlices, List.length_drop]
      omega
    constructor
    · intro written
      rcases writeBuffers_step hbuffers written with ⟨kind, hnone, hrun⟩ | ⟨count, hcount, hle, hrun⟩
      · refine ⟨fun _ h => ?_, fun hwilling => ?_⟩
        · rw [hrun] at h
          cases h
        obtain ⟨count, haccepts, hcount⟩ := hwilling written buffers hpos
        exact absurd haccepts (hnone count hcount)
      · have hemits := (hrest count hcount hle).emits (written ++ buffers.flatten.take count)
        rwa [← hrun, List.append_assoc, List.take_append_drop] at hemits
    · intro written error written' h
      rcases writeBuffers_step hbuffers written with ⟨kind, -, hrun⟩ | ⟨count, hcount, hle, hrun⟩
      · rw [hrun] at h
        cases h
        exact ⟨kind, rfl⟩
      · rw [hrun] at h
        exact (hrest count hcount hle).failsIo _ _ _ h

theorem writeAll_writes (bytes : Bytes) : writer.Writes (writer.writeAll bytes) bytes := by
  unfold writeAll
  split
  next h => subst h; exact .pure
  next h => simpa using writeBuffers_writes [bytes] (by simpa using h)

theorem forM_writeAll_writes (slices : List Bytes) :
    writer.Writes (slices.forM writer.writeAll) slices.flatten := by
  induction slices with
  | nil => exact .pure
  | cons slice _ ih => exact (writeAll_writes slice).seq ih

theorem writeAllSlices_writes (slices : List Bytes) (hne : ∀ slice ∈ slices, slice ≠ []) :
    writer.Writes (writer.writeAllSlices slices) slices.flatten := by
  unfold writeAllSlices
  split
  · exact writeBuffers_writes slices hne
  · exact forM_writeAll_writes slices

end Writer

/-! ## What is emitted -/

/-- A fragment with its header. -/
def fragment (bytes : Bytes) (last : Bool) : Bytes := (fragmentHeader bytes.length last).toBeBytes ++ bytes

/-- The fragments of a record that is not empty. -/
def fragments (size : Nat) (hsize : 0 < size) (record : Bytes) : Bytes :=
  if _hrecord : record = [] then []
  else fragment (record.take size) (record.drop size).isEmpty ++ fragments size hsize (record.drop size)
termination_by record.length
decreasing_by
  have := List.length_pos_iff.mpr _hrecord
  simp only [List.length_drop]
  omega

/-- The header that is all of an empty record. -/
theorem fragment_nil : fragment [] true = (0x80000000 : UInt32).toBeBytes := by
  rw [fragment, List.append_nil]
  rfl

/-- A record on the wire. -/
def marked (size : Nat) (hsize : 0 < size) (record : Bytes) : Bytes :=
  if record = [] then (0x80000000 : UInt32).toBeBytes else fragments size hsize record

theorem fragments_nil (size : Nat) (hsize : 0 < size) : fragments size hsize [] = [] := by
  rw [fragments, dif_pos rfl]

theorem fragments_of_ne_nil {size : Nat} (hsize : 0 < size) (h : record ≠ []) : fragments size hsize record =
      fragment (record.take size) (record.drop size).isEmpty ++ fragments size hsize (record.drop size) := by
  rw [fragments, dif_neg h]

namespace Writer

variable {writer : Writer} {size : Nat} (hsize : 0 < size) (hle : size ≤ 0x7fffffff)

theorem fragmentHeader_toBeBytes_ne_nil (length : Nat) (last : Bool) :
    (fragmentHeader length last).toBeBytes ≠ [] := by
  rw [← List.length_pos_iff, UInt32.length_toBeBytes]
  decide

include hle

/-- The chunks of a record, each after its header. -/
theorem writeChunks_writes (record : Bytes) :
    writer.Writes (writer.writeChunks size hsize record) (fragments size hsize record) := by
  induction hlength : record.length using Nat.strong_induction_on generalizing record with
  | _ length ih =>
    rw [writeChunks]
    by_cases hrecord : record = []
    · rw [dif_pos hrecord, hrecord, fragments_nil]
      exact .pure
    · have hpos := List.length_pos_of_ne_nil hrecord
      have htake : ¬ (record.take size).length > 0x7fffffff := by rw [List.length_take]; omega
      have hslices : ∀ slice ∈ [(fragmentHeader (record.take size).length (record.drop size).isEmpty).toBeBytes,
          record.take size], slice ≠ [] := by
        simpa [fragmentHeader_toBeBytes_ne_nil] using ⟨by omega, hrecord⟩
      rw [dif_neg hrecord, fragments_of_ne_nil hsize hrecord]
      simp only [if_neg htake]
      refine Writes.seq ?_ (ih (record.drop size).length (by rw [List.length_drop]; omega) _ rfl)
      simpa [fragment] using writeAllSlices_writes _ hslices

omit hle in
/-- The slices gathered for a fragment are its bytes, and none of them is empty. -/
theorem gatherSlices_spec (h : count ≤ segments.flatten.length) :
    ∃ slices, gatherSlices segments count = some slices ∧ slices.flatten = segments.flatten.take count ∧
      ∀ slice ∈ slices, slice ≠ [] := by
  induction segments generalizing count with
  | nil =>
    obtain rfl : count = 0 := Nat.le_zero.mp h
    exact ⟨[], by simp [gatherSlices]⟩
  | cons segment _ ih =>
    cases count with
    | zero => exact ⟨[], by simp [gatherSlices]⟩
    | succ count =>
      rw [List.flatten_cons, List.length_append] at h
      by_cases hsegment : segment = []
      · subst hsegment
        obtain ⟨slices, hgather, hflatten, hne⟩ := @ih (count + 1) (by simpa using h)
        exact ⟨slices, by simp [gatherSlices, hgather], by simpa using hflatten, hne⟩
      · obtain ⟨slices, hgather, hflatten, hne⟩ := @ih (count + 1 - (segment.take (count + 1)).length)
          (by rw [List.length_take]; omega)
        refine ⟨segment.take (count + 1) :: slices, by simp only [gatherSlices, hsegment, if_false, hgather,
          Option.map_some], ?_, List.forall_mem_cons.mpr ⟨by simpa using hsegment, hne⟩⟩
        rw [List.flatten_cons, List.flatten_cons, hflatten, List.take_append, List.length_take]
        congr 2
        omega

omit hle in
theorem flatten_advanceSegments (h : count ≤ segments.flatten.length) :
    (advanceSegments segments count).flatten = segments.flatten.drop count := by
  induction segments generalizing count with
  | nil =>
    obtain rfl : count = 0 := Nat.le_zero.mp h
    simp [advanceSegments]
  | cons _ _ ih =>
    cases count with
    | zero => simp [advanceSegments]
    | succ =>
      rw [List.flatten_cons, List.length_append] at h
      unfold advanceSegments
      split
      next hle =>
        rw [ih (by omega), List.flatten_cons, List.drop_append, List.drop_of_length_le hle, List.nil_append]
      next hlt =>
        rw [List.flatten_cons, List.flatten_cons, List.drop_append_of_le_length (by omega)]

variable (writer) in
/-- One fragment of the loop. -/
theorem writeSegmentedLoop_step (totalLength : Nat) (hlength : segments.flatten.length = length) (hzero : length ≠ 0) :
    ∃ slices, slices.flatten = segments.flatten.take size ∧ (∀ slice ∈ slices, slice ≠ []) ∧
      (advanceSegments segments (min length size)).flatten = segments.flatten.drop size ∧
      writer.writeSegmentedLoop totalLength size hsize segments length =
        writer.writeAllSlices
            ((fragmentHeader (min length size) (segments.flatten.drop size).isEmpty).toBeBytes :: slices) >>=
          fun _ => writer.writeSegmentedLoop totalLength size hsize (advanceSegments segments (min length size))
            (length - min length size) := by
  have hmin : min length size ≤ segments.flatten.length := by omega
  obtain ⟨slices, hgather, hflatten, hslices⟩ := gatherSlices_spec hmin
  have htake : segments.flatten.take (min length size) = segments.flatten.take size := by
    rw [← hlength, List.take_eq_take_iff]
    omega
  have hdrop : segments.flatten.drop (min length size) = segments.flatten.drop size := by
    rw [List.drop_eq_drop_iff, hlength]
    omega
  have hlast : decide (min length size = length) = (segments.flatten.drop size).isEmpty := by
    rw [Bool.eq_iff_iff]
    simp [hlength]
  refine ⟨slices, hflatten.trans htake, hslices, (flatten_advanceSegments hmin).trans hdrop, ?_⟩
  rw [writeSegmentedLoop, dif_neg hzero]
  simp only [if_neg (show ¬ min length size > 0x7fffffff by omega), hgather, hlast]

/-- The loop over segments writes the chunks of their concatenation. -/
theorem writeSegmentedLoop_writes (totalLength : Nat) (segments : List Bytes) :
    writer.Writes (writer.writeSegmentedLoop totalLength size hsize segments segments.flatten.length)
      (fragments size hsize segments.flatten) := by
  induction hlength : segments.flatten.length using Nat.strong_induction_on generalizing segments with
  | _ length ih =>
    by_cases hzero : length = 0
    · rw [writeSegmentedLoop, dif_pos hzero, List.eq_nil_of_length_eq_zero (hlength.trans hzero), fragments_nil]
      exact .pure
    · have hne : segments.flatten ≠ [] := by
        intro hnil
        simp [hnil] at hlength
        omega
      obtain ⟨slices, hflatten, hslices, hadvance, hstep⟩ :=
        writeSegmentedLoop_step writer hsize hle totalLength hlength hzero
      have hrest := ih _ (by rw [hadvance, List.length_drop]; omega) (advanceSegments segments (min length size)) rfl
      have hheader : (segments.flatten.take size).length = min length size := by
        rw [List.length_take, hlength, Nat.min_comm]
      rw [hadvance, List.length_drop, hlength, show length - size = length - min length size by omega] at hrest
      rw [hstep, fragments_of_ne_nil hsize hne, fragment, hheader, ← hflatten, ← List.flatten_cons]
      exact (writeAllSlices_writes _
        (List.forall_mem_cons.mpr ⟨fragmentHeader_toBeBytes_ne_nil _ _, hslices⟩)).seq hrest

end Writer

/-! ## Reading -/

theorem readExact_append (h : bytes.length = count) (rest : Bytes) :
    readExact count (bytes ++ rest) = .ok (bytes, rest) := by
  subst h
  simp [readExact]

theorem readHeader_append (header : UInt32) (rest : Bytes) :
    readHeader (header.toBeBytes ++ rest) = .ok (header, rest) := by
  change (readExact 4 (header.toBeBytes ++ rest)).bind (fun read => .ok (UInt32.fromBeBytes read.1, read.2)) = _
  rw [readExact_append (UInt32.length_toBeBytes header)]
  simp [Except.bind]

theorem length_of_readExact (h : readExact count stream = .ok (bytes, rest)) : bytes.length = count := by
  unfold readExact at h
  split at h
  next hcount =>
    cases h
    rw [List.length_take, Nat.min_eq_left hcount]
  next => cases h

theorem readExact_eq_ok :
    readExact count stream = .ok (bytes, rest) ↔ bytes.length = count ∧ stream = bytes ++ rest := by
  constructor
  · intro h
    refine ⟨length_of_readExact h, ?_⟩
    unfold readExact at h
    split at h
    · cases h
      exact (List.take_append_drop count stream).symm
    · cases h
  · rintro ⟨hlength, rfl⟩
    exact readExact_append hlength rest

theorem readHeader_eq_ok : readHeader stream = .ok (header, rest) ↔ stream = header.toBeBytes ++ rest := by
  constructor
  · intro h
    obtain ⟨bytes, after, hread, hpure⟩ := stateT_bind_eq_ok.mp h
    obtain ⟨hlength, rfl⟩ := readExact_eq_ok.mp hread
    cases hpure
    rw [UInt32.toBeBytes_fromBeBytes hlength]
  · rintro rfl
    exact readHeader_append header rest

section Checks

variable {limits : RecordLimits} {header : UInt32} {recordLength : Nat}

/-- A fragment passes with the length of the record that it makes. -/
theorem checkFragment_eq_ok {newLength : Nat} :
    checkFragment limits header recordLength = .ok newLength ↔
      (0 < headerLength header ∨ headerLast header = true) ∧ headerLength header ≤ limits.maxFragmentSize ∧
        recordLength + headerLength header ≤ limits.maxRecordSize ∧
          newLength = recordLength + headerLength header := by
  have hmax := limits.maxRecordSize_le
  unfold checkFragment checkedAdd
  split
  next hempty =>
    simp only [reduceCtorEq, false_iff]
    rintro ⟨hne | hlast, -⟩
    · omega
    · exact hempty.2 hlast
  next hempty =>
    have hne : 0 < headerLength header ∨ headerLast header = true := by
      rw [Decidable.not_and_iff_or_not, Decidable.not_not] at hempty
      exact hempty.imp_left Nat.pos_of_ne_zero
    split
    next => simp only [reduceCtorEq, false_iff]; omega
    next =>
      split
      next hadd =>
        split at hadd
        · cases hadd
        · simp only [reduceCtorEq, false_iff]
          rintro ⟨-, -, hrecord, -⟩
          unfold usizeMax usizeBound at *
          omega
      next newLength' hadd =>
        split at hadd
        next =>
          cases hadd
          split
          · simp only [reduceCtorEq, false_iff]; omega
          · simp only [Except.ok.injEq, hne, true_and]; omega
        next => cases hadd

end Checks

/-- What either loop does with a fragment, as far as the stream shows it. -/
def takeFragment (limits : RecordLimits) (header : UInt32) (record : Bytes) : ReaderM Bytes := do
  let _ ← ofExcept (checkFragment limits header record.length)
  return record ++ (← readExact (headerLength header))

section Loops

variable (limits : RecordLimits) (remaining : Nat) (record : Bytes)

/-- The text that the two loops share. -/
theorem takeFragment_bind (header : UInt32) (next : Bytes → ReaderM Bytes) :
    (do
      let last := header &&& 0x80000000 ≠ 0
      let length := (header &&& 0x7fffffff).toNat
      if length = 0 ∧ ¬ last then throw .emptyFragment
      if length > limits.maxFragmentSize then throw (.fragmentTooLarge length limits.maxFragmentSize)
      match checkedAdd record.length length with
      | none => throw (.recordTooLarge limits.maxRecordSize)
      | some newLength =>
        if newLength > limits.maxRecordSize then throw (.recordTooLarge limits.maxRecordSize)
        let body ← readExact length
        next (record ++ body)) = takeFragment limits header record >>= next := by
  simp only [← headerLast_iff, show (header &&& 0x7fffffff).toNat = headerLength header from rfl]
  unfold takeFragment checkFragment
  by_cases hempty : headerLength header = 0 ∧ ¬ headerLast header
  · rw [if_pos hempty, if_pos hempty]
    rfl
  rw [if_neg hempty, if_neg hempty]
  by_cases hfragment : headerLength header > limits.maxFragmentSize
  · rw [if_pos hfragment, if_pos hfragment]
    rfl
  rw [if_neg hfragment, if_neg hfragment]
  cases checkedAdd record.length (headerLength header) with
  | none => rfl
  | some newLength =>
    by_cases hrecord : newLength > limits.maxRecordSize
    · simp only [if_pos hrecord]
      rfl
    · simp only [if_neg hrecord, ofExcept, pure_bind, bind_assoc]

theorem readFragments_succ : readFragments limits (remaining + 1) record =
    readHeader >>= fun header => takeFragment limits header record >>= fun record =>
      if headerLast header then pure record else readFragments limits remaining record := by
  rw [readFragments]
  refine bind_congr fun header => ?_
  simp only [headerLast_iff]
  exact takeFragment_bind limits record header fun record =>
    if header &&& 0x80000000 ≠ 0 then pure record else readFragments limits remaining record

theorem readFragmentsFrom_succ (header : UInt32) : readFragmentsFrom limits (remaining + 1) header record =
    takeFragment limits header record >>= fun record =>
      if headerLast header then pure record
      else if remaining = 0 then throw (.tooManyFragments limits.maxFragments)
      else readHeader >>= fun header => readFragmentsFrom limits remaining header record := by
  have hshared := takeFragment_bind limits record header fun record => do
    if header &&& 0x80000000 ≠ 0 then return record
    if remaining = 0 then throw (.tooManyFragments limits.maxFragments)
    readFragmentsFrom limits remaining (← readHeader) record
  rw [readFragmentsFrom]
  refine hshared.trans (bind_congr fun record => ?_)
  simp only [headerLast_iff]
  split
  next => rfl
  next => split <;> rfl

/-- The checks on the first header, then the loop. -/
theorem readRecordBudgeted_eq : readRecordBudgeted limits = readHeader >>= fun header =>
    if headerLength header = 0 ∧ ¬ headerLast header then throw .emptyFragment
    else if headerLength header > limits.maxFragmentSize then
      throw (.fragmentTooLarge (headerLength header) limits.maxFragmentSize)
    else if headerLength header > limits.maxRecordSize then throw (.recordTooLarge limits.maxRecordSize)
    else if limits.maxRecordSize ≥ 2 ^ 32 then throw (.recordTooLarge (2 ^ 32 - 1))
    else readFragmentsFrom limits limits.maxFragments header [] := by
  unfold readRecordBudgeted
  refine bind_congr fun header => ?_
  simp only [headerLast_iff, not_not]
  -- a check that throws is a condition with nothing after it
  rfl

end Loops

section Reader

variable {limits : RecordLimits} {acc bytes : Bytes}

/-- A fragment that is taken is within the limits and adds its body. -/
theorem takeFragment_eq_ok {record' : Bytes} : takeFragment limits header record stream = .ok (record', rest) ↔
      (0 < headerLength header ∨ headerLast header = true) ∧ headerLength header ≤ limits.maxFragmentSize ∧
        record.length + headerLength header ≤ limits.maxRecordSize ∧
          ∃ body, body.length = headerLength header ∧ stream = body ++ rest ∧ record' = record ++ body := by
  unfold takeFragment
  rw [stateT_bind_eq_ok]
  constructor
  · rintro ⟨newLength, after, hcheck, hread⟩
    obtain ⟨hpasses, rfl⟩ := stateT_ofExcept_eq_ok.mp hcheck
    obtain ⟨hne, hfragment, hrecord, -⟩ := checkFragment_eq_ok.mp hpasses
    obtain ⟨body, after, hbody, hpure⟩ := stateT_bind_eq_ok.mp hread
    obtain ⟨hlength, rfl⟩ := readExact_eq_ok.mp hbody
    cases hpure
    exact ⟨hne, hfragment, hrecord, body, hlength, rfl, rfl⟩
  · rintro ⟨hne, hfragment, hrecord, body, hlength, rfl, rfl⟩
    refine ⟨_, _, stateT_ofExcept_eq_ok.mpr ⟨checkFragment_eq_ok.mpr ⟨hne, hfragment, hrecord, rfl⟩, rfl⟩, ?_⟩
    exact stateT_bind_eq_ok.mpr ⟨body, rest, readExact_eq_ok.mpr ⟨hlength, rfl⟩, rfl⟩

/-- One turn of the reader on a fragment within the limits. -/
theorem readFragments_fragment (remaining : Nat) (last : Bool) (rest : Bytes)
    (hfragment : bytes.length ≤ limits.maxFragmentSize) (hwire : bytes.length ≤ 0x7fffffff)
    (hne : bytes ≠ [] ∨ last = true) (hrecord : acc.length + bytes.length ≤ limits.maxRecordSize) :
    readFragments limits (remaining + 1) acc (fragment bytes last ++ rest) =
      if last then .ok (acc ++ bytes, rest) else readFragments limits remaining (acc ++ bytes) rest := by
  have htake : takeFragment limits (fragmentHeader bytes.length last) acc (bytes ++ rest) = .ok (acc ++ bytes, rest) := by
    rw [takeFragment_eq_ok, headerLength_fragmentHeader hwire, headerLast_fragmentHeader hwire]
    exact ⟨hne.imp_left List.length_pos_of_ne_nil, hfragment, hrecord, bytes, rfl, rfl, rfl⟩
  rw [readFragments_succ, fragment, List.append_assoc, stateT_bind_of_ok (readHeader_append _ _),
    stateT_bind_of_ok htake, headerLast_fragmentHeader hwire]
  cases last <;> rfl

/-- The reader undoes the writer, within the limits the writer was checked against. -/
theorem readFragments_fragments (hsize : 0 < limits.maxFragmentSize) (hwire : limits.maxFragmentSize ≤ 0x7fffffff)
    (hne : record ≠ []) (rest : Bytes) (hcount : record.length ≤ remaining * limits.maxFragmentSize)
    (hrecord : acc.length + record.length ≤ limits.maxRecordSize) :
    readFragments limits remaining acc (fragments limits.maxFragmentSize hsize record ++ rest) =
      .ok (acc ++ record, rest) := by
  induction remaining generalizing acc record with
  | zero => simp at hcount; contradiction
  | succ remaining ih =>
    have hpos := List.length_pos_of_ne_nil hne
    have htake : (record.take limits.maxFragmentSize).length ≤ limits.maxFragmentSize := List.length_take_le _ _
    have htake' : (record.take limits.maxFragmentSize).length ≤ record.length := by simp
    have htakene : record.take limits.maxFragmentSize ≠ [] := by
      simp only [ne_eq, List.take_eq_nil_iff, not_or]
      exact ⟨by omega, hne⟩
    rw [fragments_of_ne_nil hsize hne, List.append_assoc,
      readFragments_fragment remaining _ _ htake (by omega) (.inl htakene) (by omega)]
    by_cases hdrop : record.drop limits.maxFragmentSize = []
    · have hall : record.take limits.maxFragmentSize = record := by
        rw [List.take_eq_self_iff]; exact List.drop_eq_nil_iff.mp hdrop
      simp [hdrop, hall, fragments_nil]
    · rw [if_neg (by simpa using hdrop), ih hdrop]
      · rw [List.append_assoc, List.take_append_drop]
      · rw [List.length_drop]
        rw [Nat.succ_mul] at hcount
        omega
      · rw [List.length_append, Nat.add_assoc, ← List.length_append, List.take_append_drop]
        exact hrecord

/-- The plain loop is the other one behind a header. -/
theorem readFragments_eq (remaining : Nat) (record : Bytes) : readFragments limits (remaining + 1) record =
    readHeader >>= fun header => readFragmentsFrom limits (remaining + 1) header record := by
  induction remaining generalizing record with
  | zero =>
    rw [readFragments_succ]
    refine bind_congr fun header => ?_
    rw [readFragmentsFrom_succ]
    rfl
  | succ remaining ih =>
    rw [readFragments_succ]
    refine bind_congr fun header => ?_
    rw [readFragmentsFrom_succ]
    refine bind_congr fun record => ?_
    rw [ih record, if_neg (Nat.succ_ne_zero remaining)]

/-- The first fragment of a record that is read is within the limits. -/
theorem first_of_readFragmentsFrom {after : Bytes}
    (h : readFragmentsFrom limits remaining header [] after = .ok result) :
    (0 < headerLength header ∨ headerLast header = true) ∧ headerLength header ≤ limits.maxFragmentSize ∧
      headerLength header ≤ limits.maxRecordSize := by
  cases remaining with
  | zero => cases h
  | succ =>
    rw [readFragmentsFrom_succ] at h
    obtain ⟨record, rest, htake, -⟩ := stateT_bind_eq_ok.mp h
    obtain ⟨hne, hfragment, hrecord, -⟩ := takeFragment_eq_ok.mp htake
    exact ⟨hne, hfragment, by simpa using hrecord⟩

theorem length_le_of_readFragmentsFrom {after : Bytes}
    (h : readFragmentsFrom limits remaining header acc after = .ok result) :
    result.1.length ≤ limits.maxRecordSize := by
  induction remaining generalizing header acc after with
  | zero => cases h
  | succ _ ih =>
    rw [readFragmentsFrom_succ] at h
    obtain ⟨record, rest, htake, hnext⟩ := stateT_bind_eq_ok.mp h
    obtain ⟨-, -, hrecord, body, hbody, -, rfl⟩ := takeFragment_eq_ok.mp htake
    split at hnext
    next =>
      cases hnext
      rw [List.length_append, hbody]
      exact hrecord
    next =>
      split at hnext
      next => cases hnext
      next =>
        obtain ⟨header', rest', -, hloop⟩ := stateT_bind_eq_ok.mp hnext
        exact ih hloop

/-- No record is longer than the limit. -/
theorem length_le_of_readRecordBudgeted (h : readRecordBudgeted limits stream = .ok (record, rest)) :
    record.length ≤ limits.maxRecordSize := by
  rw [readRecordBudgeted_eq] at h
  obtain ⟨header, after, -, hloop⟩ := stateT_bind_eq_ok.mp h
  -- four checks come before the loop
  iterate 4
    split at hloop
    next => cases hloop
  exact length_le_of_readFragmentsFrom hloop

/-- With a budget whose permits can be counted, what the plain reader reads is read. -/
theorem readRecordBudgeted_of_readRecord (hcounted : limits.maxRecordSize < 2 ^ 32)
    (h : readRecord limits stream = .ok result) : readRecordBudgeted limits stream = .ok result := by
  cases hfragments : limits.maxFragments with
  | zero =>
    rw [readRecord, hfragments] at h
    cases h
  | succ =>
    rw [readRecord, hfragments, readFragments_eq] at h
    obtain ⟨header, after, hheader, hfrom⟩ := stateT_bind_eq_ok.mp h
    obtain ⟨hne, hfragment, hrecord⟩ := first_of_readFragmentsFrom hfrom
    rw [readRecordBudgeted_eq, stateT_bind_of_ok hheader, if_neg ?_, if_neg (Nat.not_lt.mpr hfragment),
      if_neg (Nat.not_lt.mpr hrecord), if_neg (Nat.not_le.mpr hcounted), hfragments]
    · exact hfrom
    · rintro ⟨hzero, hlast⟩
      rcases hne with hpos | htrue
      · omega
      · exact hlast htrue

end Reader

/-! ## The round trip -/

theorem length_le_of_fragmentCount {limits : RecordLimits} (hsize : 0 < limits.maxFragmentSize)
    (h : fragmentCount length limits ≤ limits.maxFragments) :
    length ≤ limits.maxFragments * limits.maxFragmentSize := by
  unfold fragmentCount at h
  split at h
  next hzero => omega
  next =>
    rw [if_neg (by omega), Nat.div_le_iff_le_mul_add_pred hsize] at h
    rw [Nat.mul_comm]
    omega

/-- A record on the wire is read back. -/
theorem readRecord_marked {limits : RecordLimits} (hsize : 0 < limits.maxFragmentSize)
    (hwire : limits.maxFragmentSize ≤ 0x7fffffff) (h : validateRecordLength record.length limits = .ok ())
    (rest : Bytes) : readRecord limits (marked limits.maxFragmentSize hsize record ++ rest) = .ok (record, rest) := by
  obtain ⟨hlength, hcount, -⟩ := validateRecordLength_ok_iff.mp h
  unfold readRecord marked
  split
  next hrecord =>
    -- an empty record is one empty fragment, the last
    subst hrecord
    obtain ⟨count, hcount⟩ := Nat.exists_eq_add_of_le' (show 1 ≤ limits.maxFragments from hcount)
    rw [hcount, ← fragment_nil,
      readFragments_fragment count true rest (Nat.zero_le _) (Nat.zero_le _) (.inr rfl) (Nat.zero_le _)]
    rfl
  next hrecord =>
    exact readFragments_fragments hsize hwire hrecord rest (length_le_of_fragmentCount hsize hcount)
      (by simpa using hlength)

namespace Writer

variable {writer : Writer} {limits : RecordLimits}

theorem writeRecordLimited_emits (hsize : 0 < limits.maxFragmentSize) (hwire : limits.maxFragmentSize ≤ 0x7fffffff)
    (h : validateRecordLength record.length limits = .ok ()) :
    writer.Emits (writer.writeRecordLimited record limits) (marked limits.maxFragmentSize hsize record) := by
  unfold writeRecordLimited writeFragments marked
  simp only [h]
  rw [dif_neg (by omega)]
  split
  · exact (writeAll_writes _).emits
  · exact (writeChunks_writes hsize hwire record).emits

/-- The aggregate length is that of the concatenation, unless it overflows. -/
theorem segmentsLength_eq (first second third : Bytes) :
    segmentsLength [first, second, third] =
      if (first ++ second ++ third).length < usizeBound then some (first ++ second ++ third).length else none := by
  simp only [segmentsLength, List.foldlM_cons, List.foldlM_nil, checkedAdd, List.length_append, Nat.zero_add]
  by_cases h : first.length + second.length + third.length < usizeBound
  · simp [h, show first.length < usizeBound by omega, show first.length + second.length < usizeBound by omega]
  · by_cases hfirst : first.length < usizeBound <;>
      by_cases hsecond : first.length + second.length < usizeBound <;> simp [h, hfirst, hsecond]

/-- A record within the limits goes on to be written. -/
theorem writeRecordSegmentsLimited_eq (hsize : 0 < limits.maxFragmentSize)
    (h : validateRecordLength (first ++ second ++ third).length limits = .ok ()) :
    writer.writeRecordSegmentsLimited first second third limits =
      writer.writeSegmentedFragments [first, second, third] (first ++ second ++ third).length
        limits.maxFragmentSize hsize := by
  obtain ⟨hlength, -, -⟩ := validateRecordLength_ok_iff.mp h
  have hbound : (first ++ second ++ third).length < usizeBound := by
    have := limits.maxRecordSize_le
    unfold usizeMax usizeBound at *
    omega
  unfold writeRecordSegmentsLimited
  simp only [segmentsLength_eq, if_pos hbound]
  split
  next hvalidate => rw [h] at hvalidate; cases hvalidate
  next => rfl

/-- Writing a record within the limits fails only if the writer does. -/
theorem writeRecordSegmentsLimited_writes (hsize : 0 < limits.maxFragmentSize)
    (hwire : limits.maxFragmentSize ≤ 0x7fffffff)
    (h : validateRecordLength (first ++ second ++ third).length limits = .ok ()) :
    writer.Writes (writer.writeRecordSegmentsLimited first second third limits)
      (marked limits.maxFragmentSize hsize (first ++ second ++ third)) := by
  have hflatten : [first, second, third].flatten = first ++ second ++ third := by simp
  rw [writeRecordSegmentsLimited_eq hsize h, marked]
  unfold writeSegmentedFragments
  by_cases hempty : first ++ second ++ third = []
  · rw [if_pos hempty, if_pos (by rw [hempty]; rfl)]
    exact writeAll_writes _
  · rw [if_neg hempty, if_neg (by simpa using hempty)]
    have hloop : writer.Writes _ _ :=
      writeSegmentedLoop_writes hsize hwire (first ++ second ++ third).length [first, second, third]
    rwa [hflatten] at hloop

/-! ### Records that are refused -/

/-- A length is refused for what it is, never for the socket. -/
theorem validateRecordLength_ne_io (h : validateRecordLength length limits = .error error) (kind : IoErrorKind) :
    error ≠ .io kind := by
  unfold validateRecordLength at h
  split_ifs at h <;> cases h <;> nofun

theorem writeRecordSegmentsLimited_refused (hbound : (first ++ second ++ third).length < usizeBound)
    (h : validateRecordLength (first ++ second ++ third).length limits = .error error) :
    writer.writeRecordSegmentsLimited first second third limits = throw error := by
  unfold writeRecordSegmentsLimited
  simp only [segmentsLength_eq, if_pos hbound]
  split
  next hvalidate =>
    rw [h] at hvalidate
    cases hvalidate
    rfl
  next hvalidate =>
    rw [h] at hvalidate
    cases hvalidate

theorem writeRecordSegmentsLimited_overflow (hbound : ¬(first ++ second ++ third).length < usizeBound) :
    writer.writeRecordSegmentsLimited first second third limits =
      throw (.recordTooLarge limits.maxRecordSize) := by
  unfold writeRecordSegmentsLimited
  simp only [segmentsLength_eq, if_neg hbound]

/-- A record that is too long is refused before anything is written. -/
theorem writeRecordSegmentsLimited_rejected (writer : Writer)
    (h : validateRecordLength (first ++ second ++ third).length limits = .error error) :
    ∃ error', (∀ kind, error' ≠ .io kind) ∧
      writer.writeRecordSegmentsLimited first second third limits = throw error' := by
  by_cases hbound : (first ++ second ++ third).length < usizeBound
  · exact ⟨error, validateRecordLength_ne_io h, writeRecordSegmentsLimited_refused hbound h⟩
  · exact ⟨.recordTooLarge limits.maxRecordSize, nofun, writeRecordSegmentsLimited_overflow hbound⟩

end Writer

/-- Record marking round trips: whatever a writer takes at a time, the bytes it has taken when a record
was written are read back as that record, with the bytes after them left over; writing segments writes
their concatenation; and a record that is rejected is not written at all. -/
theorem record_marking_round_trip (limits : RecordLimits) (hwire : limits.maxFragmentSize ≤ 0x7fffffff)
    (record : Bytes) :
    (validateRecordLength record.length limits = .ok () → ∃ emitted,
      (∀ rest, readRecord limits (emitted ++ rest) = .ok (record, rest)) ∧
      ∀ writer : Writer, writer.Emits (writer.writeRecordLimited record limits) emitted ∧
        ∀ first second third, first ++ second ++ third = record →
          writer.Emits (writer.writeRecordSegmentsLimited first second third limits) emitted) ∧
    (∀ error, validateRecordLength record.length limits = .error error → ∀ (writer : Writer) (written : Bytes),
      writer.writeRecordLimited record limits written = .error error written ∧
      ∀ first second third, first ++ second ++ third = record →
        ∃ error', writer.writeRecordSegmentsLimited first second third limits written = .error error' written) := by
  refine ⟨fun h => ?_, fun error h writer written => ⟨?_, ?_⟩⟩
  · have hsize := maxFragmentSize_pos_of_validate h
    refine ⟨marked limits.maxFragmentSize hsize record, readRecord_marked hsize hwire h, fun writer =>
      ⟨writeRecordLimited_emits hsize hwire h, ?_⟩⟩
    intro first second third hrecord
    subst hrecord
    exact (writeRecordSegmentsLimited_writes hsize hwire h).emits
  · unfold writeRecordLimited
    rw [h]
    rfl
  · intro first second third hrecord
    subst hrecord
    obtain ⟨error', -, hwrite⟩ := writeRecordSegmentsLimited_rejected writer h
    exact ⟨error', by rw [hwrite]; rfl⟩

/-- A socket that takes one byte at a time. -/
def byteWriter (isWriteVectored : Bool) : Writer where
  isWriteVectored := isWriteVectored
  accepts _ offered := .ok (min 1 (bufferedBytes offered))
  accepts_le _ _ _ h := by cases h; exact Nat.min_le_right _ _

theorem byteWriter_willing (isWriteVectored : Bool) : (byteWriter isWriteVectored).Willing :=
  fun _ _ hpos => ⟨_, rfl, by omega⟩

/-- Seven bytes in three fragments, written byte by byte. -/
theorem record_marking_round_trip_bytewise : ∃ emitted,
    (byteWriter true).writeRecordLimited [1, 2, 3, 4, 5, 6, 7] ⟨10, 3, 3, by decide⟩ [] = .ok () emitted ∧
    readRecord ⟨10, 3, 3, by decide⟩ (emitted ++ [8, 9]) = .ok ([1, 2, 3, 4, 5, 6, 7], [8, 9]) := by
  obtain ⟨emitted, hread, hwrite⟩ :=
    (record_marking_round_trip ⟨10, 3, 3, by decide⟩ (by decide) [1, 2, 3, 4, 5, 6, 7]).1 (by decide)
  exact ⟨emitted, ((hwrite (byteWriter true)).1 []).2 (byteWriter_willing true), hread [8, 9]⟩

end NfsEmbed.Rpc
