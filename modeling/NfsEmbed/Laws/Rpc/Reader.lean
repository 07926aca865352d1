import NfsEmbed.Laws.Rpc.Record

/-!
# The record grammar and the two readers

The loop of the plain reader, seen from the stream, accepts the records that are spelled within the
limits (`readFragments_eq_ok`). The reader with its buffer returns the same unless memory is refused
(`readRecord_refines`), keeps its buffer within the record limit on every path, and stops before the
body of a fragment that is too large. The budgeted reader is the plain one behind a first header and a
reservation (`readFragments_eq`), so it also stops at the same byte.

The laws are `read_record_accepts_grammar`, `budgeted_reader_agrees` and `budgeted_reader_waits_iff`.
-/

namespace NfsEmbed.Rpc

open Lib Writer

variable {stream record rest : Bytes} {permits : Nat} {header : UInt32} {error : RecordError} {after reader : Reader}
  {α : Type} {m : RecordM α} {budget : Budget}

/-! ## The grammar -/

/-- The fragments of a record, the last one apart, fit in after a record of that length, with so many
fragments left to come. -/
structure FragmentsFit (limits : RecordLimits) (remaining length : Nat) (earlier : List Bytes) (final : Bytes) : Prop where
  count : earlier.length + 1 ≤ remaining
  ne_nil : ∀ body ∈ earlier, body ≠ []
  /-- The length of a fragment has 31 bits. -/
  wire : ∀ body ∈ earlier ++ [final], body.length ≤ 0x7fffffff
  fragment : ∀ body ∈ earlier ++ [final], body.length ≤ limits.maxFragmentSize
  record : length + (earlier.flatten ++ final).length ≤ limits.maxRecordSize

/-- The fragments as they are sent: only the header of the last one is marked. -/
def spelled (earlier : List Bytes) (final : Bytes) : Bytes :=
  earlier.flatMap (fragment · false) ++ fragment final true

/-- A record, spelled within the limits, and what follows it on the stream. -/
def SpellsRecord (limits : RecordLimits) (stream record rest : Bytes) : Prop :=
  ∃ earlier final, FragmentsFit limits limits.maxFragments 0 earlier final ∧
    stream = spelled earlier final ++ rest ∧ record = earlier.flatten ++ final

section Grammar

variable {limits : RecordLimits} {remaining length : Nat} {body final : Bytes} {earlier : List Bytes}

theorem fragmentsFit_nil : FragmentsFit limits (remaining + 1) length [] final ↔
    final.length ≤ 0x7fffffff ∧ final.length ≤ limits.maxFragmentSize ∧
      length + final.length ≤ limits.maxRecordSize := by
  constructor
  · intro h
    exact ⟨h.wire final (by simp), h.fragment final (by simp), by simpa using h.record⟩
  · rintro ⟨hwire, hfragment, hrecord⟩
    exact ⟨by simp, by simp, by simpa using hwire, by simpa using hfragment, by simpa using hrecord⟩

theorem fragmentsFit_cons : FragmentsFit limits (remaining + 1) length (body :: earlier) final ↔
    body ≠ [] ∧ body.length ≤ 0x7fffffff ∧ body.length ≤ limits.maxFragmentSize ∧
      FragmentsFit limits remaining (length + body.length) earlier final := by
  constructor
  · intro h
    have hwire := List.forall_mem_cons.mp h.wire
    have hfragment := List.forall_mem_cons.mp h.fragment
    have hnil := List.forall_mem_cons.mp h.ne_nil
    refine ⟨hnil.1, hwire.1, hfragment.1, by simpa using h.count, hnil.2, hwire.2, hfragment.2, ?_⟩
    have hrecord := h.record
    simp only [List.flatten_cons, List.append_assoc, List.length_append] at hrecord ⊢
    omega
  · rintro ⟨hnil, hwire, hfragment, h⟩
    refine ⟨by simpa using h.count, List.forall_mem_cons.mpr ⟨hnil, h.ne_nil⟩,
      List.forall_mem_cons.mpr ⟨hwire, h.wire⟩, List.forall_mem_cons.mpr ⟨hfragment, h.fragment⟩, ?_⟩
    have hrecord := h.record
    simp only [List.flatten_cons, List.append_assoc, List.length_append] at hrecord ⊢
    omega

/-- One turn that leads to a record takes a whole fragment. -/
theorem readFragments_turn {acc : Bytes} {result : Bytes × Bytes}
    (h : readFragments limits (remaining + 1) acc stream = .ok result) :
    ∃ body last after, stream = fragment body last ++ after ∧ body.length ≤ 0x7fffffff ∧
      body.length ≤ limits.maxFragmentSize ∧ acc.length + body.length ≤ limits.maxRecordSize ∧
      (last = true ∧ result = (acc ++ body, after) ∨
        last = false ∧ body ≠ [] ∧ readFragments limits remaining (acc ++ body) after = .ok result) := by
  rw [readFragments_succ] at h
  obtain ⟨header, after, hread, hloop⟩ := stateT_bind_eq_ok.mp h
  obtain ⟨record', after', htake, hnext⟩ := stateT_bind_eq_ok.mp hloop
  obtain rfl := readHeader_eq_ok.mp hread
  obtain ⟨hne, hfragment, hrecord, body, hlength, rfl, rfl⟩ := takeFragment_eq_ok.mp htake
  have hbytes : header.toBeBytes ++ (body ++ after') = fragment body (headerLast header) ++ after' := by
    rw [fragment, hlength, fragmentHeader_header, List.append_assoc]
  have hwire : body.length ≤ 0x7fffffff := by
    rw [hlength]
    exact headerLength_le header
  rw [← hlength] at hne hfragment hrecord
  refine ⟨body, headerLast header, after', hbytes, hwire, hfragment, hrecord, ?_⟩
  cases hlast : headerLast header with
  | true =>
    rw [if_pos hlast] at hnext
    cases hnext
    exact .inl ⟨rfl, rfl⟩
  | false =>
    rw [hlast] at hne hnext
    rw [if_neg Bool.false_ne_true] at hnext
    exact .inr ⟨rfl, List.length_pos_iff.mp (hne.resolve_right Bool.false_ne_true), hnext⟩

/-- The loop reads the fragments that fit in, and nothing else. -/
theorem readFragments_eq_ok {acc : Bytes} : readFragments limits remaining acc stream = .ok (record, rest) ↔
      ∃ earlier final, FragmentsFit limits remaining acc.length earlier final ∧
        stream = spelled earlier final ++ rest ∧ record = acc ++ (earlier.flatten ++ final) := by
  induction remaining generalizing acc stream with
  | zero =>
    constructor
    · intro h
      cases h
    · rintro ⟨earlier, final, hfit, -⟩
      have := hfit.count
      omega
  | succ remaining ih =>
    constructor
    · intro h
      obtain ⟨body, last, after, rfl, hwire, hfragment, hrecord, ⟨rfl, hresult⟩ | ⟨rfl, hnil, hnext⟩⟩ := readFragments_turn h
      · cases hresult
        exact ⟨[], body, fragmentsFit_nil.mpr ⟨hwire, hfragment, hrecord⟩, rfl, rfl⟩
      · obtain ⟨earlier, final, hfit, rfl, rfl⟩ := ih.mp hnext
        rw [List.length_append] at hfit
        refine ⟨body :: earlier, final, fragmentsFit_cons.mpr ⟨hnil, hwire, hfragment, hfit⟩, ?_, ?_⟩
        · simp only [spelled, List.flatMap_cons, List.append_assoc]
        · simp only [List.flatten_cons, List.append_assoc]
    · rintro ⟨earlier, final, hfit, rfl, rfl⟩
      cases earlier with
      | nil =>
        obtain ⟨hwire, hfragment, hrecord⟩ := fragmentsFit_nil.mp hfit
        exact readFragments_fragment remaining true rest hfragment hwire (.inr rfl) hrecord
      | cons _ earlier =>
        obtain ⟨hnil, hwire, hfragment, hfit'⟩ := fragmentsFit_cons.mp hfit
        have hrecord := hfit'.record
        rw [spelled, List.flatMap_cons, List.append_assoc, List.append_assoc, ← List.append_assoc _ _ rest,
          readFragments_fragment remaining false _ hfragment hwire (.inl hnil) (by omega)]
        refine ih.mpr ⟨earlier, final, by rwa [List.length_append], rfl, ?_⟩
        simp only [List.flatten_cons, List.append_assoc]

/-- What is read is a record of the grammar. -/
theorem readRecord_eq_ok : readRecord limits stream = .ok (record, rest) ↔ SpellsRecord limits stream record rest :=
  readFragments_eq_ok

end Grammar

/-! ## The budget -/

/-- Permits that are there, or come back, can be taken, and no other permits are. -/
theorem Budget.take_of_le (closed : Bool) (available : Nat) (returning : List Nat)
    (h : permits ≤ available + returning.sum) : ∃ after, Budget.take permits closed available returning = .ok after ∧
      after.permits + permits = available + returning.sum := by
  induction returning generalizing available with
  | nil =>
    rw [List.sum_nil, Nat.add_zero] at h
    refine ⟨_, if_pos h, ?_⟩
    simp only [Budget.permits, List.sum_nil]
    omega
  | cons returned _ ih =>
    rw [Budget.take]
    by_cases hnow : permits ≤ available
    · refine ⟨_, if_pos hnow, ?_⟩
      simp only [Budget.permits]
      omega
    · rw [if_neg hnow, List.sum_cons, ← Nat.add_assoc]
      rw [List.sum_cons, ← Nat.add_assoc] at h
      exact ih (available + returned) h

/-- Where there are too few, the one who asked is left with all of them. -/
theorem Budget.take_of_lt (closed : Bool) (available : Nat) (returning : List Nat)
    (h : available + returning.sum < permits) :
    Budget.take permits closed available returning = .error (available + returning.sum) := by
  induction returning generalizing available with
  | nil => exact if_neg (Nat.not_le_of_lt h)
  | cons returned _ ih =>
    rw [List.sum_cons, ← Nat.add_assoc] at h ⊢
    rw [Budget.take, if_neg (by omega)]
    exact ih (available + returned) h

@[simp] theorem Budget.permits_release (budget : Budget) (reservation : Reservation) :
    (budget.release reservation).permits = budget.permits + reservation.permits := by
  simp only [Budget.release, Budget.permits]
  omega

namespace Reader

/-! ## One fragment -/

/-- What was done to the buffer since then keeps to the limit. -/
def GrownWithin (limit : Nat) (before after : Reader) : Prop :=
  ∀ event ∈ after.events, event ∈ before.events ∨ event.size ≤ limit

/-- The buffer is made large enough, or memory was refused; neither reads from the stream. -/
theorem reserveRecord_cases (memory : Memory) {length limit : Nat} (required : Nat) (hlength : length ≤ limit)
    (reader : Reader) : ∃ after : Reader, after.stream = reader.stream ∧ GrownWithin limit reader after ∧
      (reserveRecord memory length required limit reader = .ok () after ∧ (required ≤ limit → required ≤ after.capacity) ∨
        reserveRecord memory length required limit reader = .error (.recordTooLarge limit) after ∧
          ¬ memory.Grants limit) := by
  unfold reserveRecord
  by_cases hroom : required ≤ reader.capacity
  · exact ⟨reader, rfl, fun _ h => .inl h, .inl ⟨if_pos hroom, fun _ => hroom⟩⟩
  rw [if_neg hroom]
  set target := min (max (saturatingMul reader.capacity 2) required) limit
  have hasked : length + (target - length) ≤ limit := by omega
  let asked (capacity : Nat) : Reader :=
    ⟨reader.stream, capacity, .reserve (length + (target - length)) :: reader.events⟩
  have hgrown : ∀ capacity, GrownWithin limit reader (asked capacity) := by
    intro capacity event hevent
    rcases List.mem_cons.mp hevent with rfl | hevent
    · exact .inr hasked
    · exact .inl hevent
  by_cases hfits : length + (target - length) ≤ reader.capacity
  · refine ⟨asked reader.capacity, rfl, hgrown reader.capacity, .inl ⟨?_, fun hrequired => ?_⟩⟩
    · simp only [tryReserveExact, if_pos hfits, asked]
    · show required ≤ reader.capacity
      omega
  · cases hgrants : memory.grants (length + (target - length)) with
    | some capacity =>
      refine ⟨asked capacity, rfl, hgrown capacity, .inl ⟨?_, fun hrequired => ?_⟩⟩
      · simp only [tryReserveExact, if_neg hfits, hgrants, asked]
      · have := memory.le_of_grants hgrants
        show required ≤ capacity
        omega
    | none =>
      refine ⟨asked reader.capacity, rfl, hgrown reader.capacity, .inr ⟨?_, fun hall => ?_⟩⟩
      · simp only [tryReserveExact, if_neg hfits, hgrants, asked]
      · obtain ⟨capacity, hcapacity⟩ := hall _ hasked
        rw [hgrants] at hcapacity
        cases hcapacity

/-- All that can come of reading a fragment after its header. -/
inductive FragmentRead (memory : Memory) (limits : RecordLimits) (header : UInt32) (record : Bytes) (reader : Reader) :
    EStateM.Result RecordError Reader Bytes → Prop
  | rejected {error : RecordError} (hcheck : checkFragment limits header record.length = .error error) :
    FragmentRead memory limits header record reader (.error error reader)
  | refused {newLength : Nat} {after : Reader} (hcheck : checkFragment limits header record.length = .ok newLength)
    (hstream : after.stream = reader.stream) (hgrown : GrownWithin limits.maxRecordSize reader after)
    (hmemory : ¬ memory.Grants limits.maxRecordSize) :
    FragmentRead memory limits header record reader (.error (.recordTooLarge limits.maxRecordSize) after)
  | cut {newLength : Nat} {after : Reader} (hcheck : checkFragment limits header record.length = .ok newLength)
    (hshort : reader.stream.length < headerLength header) (hstream : after.stream = [])
    (hgrown : GrownWithin limits.maxRecordSize reader after) :
    FragmentRead memory limits header record reader (.error (.io .unexpectedEof) after)
  | read {newLength : Nat} {after : Reader} {body : Bytes}
    (hcheck : checkFragment limits header record.length = .ok newLength) (hlength : body.length = headerLength header)
    (hstream : reader.stream = body ++ after.stream) (hgrown : GrownWithin limits.maxRecordSize reader after) :
    FragmentRead memory limits header record reader (.ok (record ++ body) after)

theorem readFragment_of_error (memory : Memory) (limits : RecordLimits)
    (hcheck : checkFragment limits header record.length = .error error) :
    readFragment memory limits header record = throw error := by
  unfold readFragment
  rw [hcheck]
  exact throw_bind error _

/-- A fragment is refused by its header, by memory or by the stream, or is read. -/
theorem readFragment_cases (memory : Memory) (limits : RecordLimits) (header : UInt32) (record : Bytes) (reader : Reader) :
    FragmentRead memory limits header record reader (readFragment memory limits header record reader) := by
  unfold readFragment
  cases hcheck : checkFragment limits header record.length with
  | error =>
    exact .rejected hcheck
  | ok =>
    obtain ⟨-, -, hrecord, rfl⟩ := checkFragment_eq_ok.mp hcheck
    rw [bind_of_ok (show (ofExcept (.ok _) : RecordM Nat) reader = .ok _ reader from rfl)]
    obtain ⟨after, hstream, hgrown, ⟨hreserve, -⟩ | ⟨hreserve, hmemory⟩⟩ :=
      reserveRecord_cases memory (record.length + headerLength header) (show record.length ≤ limits.maxRecordSize by omega) reader
    · rw [bind_of_ok hreserve]
      set resized : Reader := { after with events := .resize (record.length + headerLength header) :: after.events }
      rw [bind_of_ok (show resize (record.length + headerLength header) after = .ok () resized from rfl)]
      have hresized : GrownWithin limits.maxRecordSize reader resized := by
        intro event hevent
        rcases List.mem_cons.mp hevent with rfl | hevent
        · exact .inr hrecord
        · exact hgrown event hevent
      by_cases hcount : headerLength header ≤ resized.stream.length
      · have hread : readExact (headerLength header) resized = .ok (resized.stream.take (headerLength header))
            { resized with stream := resized.stream.drop (headerLength header) } := if_pos hcount
        rw [bind_of_ok hread]
        refine .read hcheck (List.length_take_of_le hcount) ?_ hresized
        rw [List.take_append_drop]
        exact hstream.symm
      · have hread : readExact (headerLength header) resized = .error (.io .unexpectedEof)
            { resized with stream := [] } := if_neg hcount
        rw [bind_of_error hread]
        refine .cut hcheck ?_ rfl hresized
        rw [← hstream]
        exact Nat.lt_of_not_le hcount
    · rw [bind_of_error hreserve]
      exact .refused hcheck hstream hgrown hmemory

/-! ## What the readers return -/

/-- The error of a reader whose memory was refused. -/
def Refused (memory : Memory) (limits : RecordLimits) (error : RecordError) : Prop :=
  error = .recordTooLarge limits.maxRecordSize ∧ ¬ memory.Grants limits.maxRecordSize

section Refinement

variable (memory : Memory) (limits : RecordLimits)

theorem readExact_refines {GivesUp : RecordError → Prop} (count : Nat) :
    Refines Reader.stream GivesUp (readExact count) (Rpc.readExact count) := by
  intro reader
  unfold readExact Rpc.readExact
  split
  · exact .inl rfl
  · exact .inl rfl

theorem readU32_refines {GivesUp : RecordError → Prop} : Refines Reader.stream GivesUp readU32 readHeader :=
  .bind (readExact_refines 4) fun bytes => .pure (UInt32.fromBeBytes bytes)

/-- Unless memory is refused, one turn is that of the plain loop. -/
theorem readFragment_refines (header : UInt32) (record : Bytes) :
    Refines Reader.stream (Refused memory limits) (readFragment memory limits header record) (takeFragment limits header record) := by
  intro reader
  have hcases := readFragment_cases memory limits header record reader
  generalize readFragment memory limits header record reader = result at hcases
  cases hcases with
  | rejected hcheck =>
    left
    unfold takeFragment
    rw [hcheck]
    rfl
  | refused _ _ _ hmemory => exact .inr ⟨_, _, rfl, rfl, hmemory⟩
  | cut hcheck hshort =>
    left
    have hread : Rpc.readExact (headerLength header) reader.stream = .error (.io .unexpectedEof) :=
      if_neg (Nat.not_le.mpr hshort)
    unfold takeFragment
    rw [hcheck]
    change _ = (Rpc.readExact (headerLength header) reader.stream).bind _
    rw [hread]
    rfl
  | read hcheck hlength hstream =>
    left
    obtain ⟨hne, hfragment, hrecord, -⟩ := checkFragment_eq_ok.mp hcheck
    exact (takeFragment_eq_ok.mpr ⟨hne, hfragment, hrecord, _, hlength, hstream, rfl⟩).symm

theorem readFragments_refines (remaining : Nat) (record : Bytes) :
    Refines Reader.stream (Refused memory limits) (readFragments memory limits remaining record)
      (Rpc.readFragments limits remaining record) := by
  induction remaining generalizing record with
  | zero => exact .throw _
  | succ _ ih =>
    rw [Rpc.readFragments_succ, readFragments]
    refine .bind readU32_refines fun header => .bind (readFragment_refines memory limits header record) fun record => ?_
    split
    next => exact .pure record
    next =>
      split
      next hzero =>
        subst hzero
        exact .throw _
      next => exact ih record

/-- The reader returns what the reader without a buffer returns, unless memory was refused. -/
theorem readRecord_refines (stream : Bytes) :
    shown Reader.stream (readRecord memory limits stream) = Rpc.readRecord limits stream ∨
      ∃ error after, readRecord memory limits stream = .error error after ∧ Refused memory limits error :=
  readFragments_refines memory limits limits.maxFragments [] (start stream)

end Refinement

/-! ## What the readers leave behind -/

section Left

variable (memory : Memory) (limits : RecordLimits)

/-- What was done to the buffer keeps to the record limit. -/
def BufferWithin (limit : Nat) (reader : Reader) : Prop := ∀ event ∈ reader.events, event.size ≤ limit

theorem BufferWithin.of_grown {limit : Nat} {before : Reader} (h : before.BufferWithin limit)
    (hgrown : GrownWithin limit before after) : after.BufferWithin limit := by
  intro event hevent
  rcases hgrown event hevent with hbefore | hsize
  · exact h event hbefore
  · exact hsize

theorem readU32_keeps (limit : Nat) : Keeps (BufferWithin limit) readU32 := by
  refine .bind (fun reader h => ?_) fun bytes => .pure _
  unfold readExact
  split
  · exact h
  · exact h

theorem readFragment_keeps (header : UInt32) (record : Bytes) :
    Keeps (BufferWithin limits.maxRecordSize) (readFragment memory limits header record) := by
  intro reader h
  have hcases := readFragment_cases memory limits header record reader
  generalize readFragment memory limits header record reader = result at hcases
  cases hcases with
  | rejected => exact h
  | refused _ _ hgrown | cut _ _ _ hgrown | read _ _ _ hgrown => exact h.of_grown hgrown

/-- Over a whole run the buffer is never asked to hold more than a record may. -/
theorem readFragments_keeps (remaining : Nat) (record : Bytes) :
    Keeps (BufferWithin limits.maxRecordSize) (readFragments memory limits remaining record) := by
  induction remaining generalizing record with
  | zero => exact .throw _
  | succ _ ih =>
    rw [readFragments]
    refine .bind (readU32_keeps limits.maxRecordSize) fun header =>
      .bind (readFragment_keeps memory limits header record) fun record => ?_
    split
    next => exact .pure record
    next =>
      split
      next => exact .throw _
      next => exact ih record

theorem readU32_append (header : UInt32) (reader : Reader) (hstream : reader.stream = header.toBeBytes ++ rest) :
    readU32 reader = .ok header { reader with stream := rest } := by
  have hlength : header.toBeBytes.length = 4 := UInt32.length_toBeBytes header
  have hread : readExact 4 reader = .ok header.toBeBytes { reader with stream := rest } := by
    unfold readExact
    rw [hstream, if_pos (by rw [List.length_append]; omega), ← hlength, List.take_left, List.drop_left]
  unfold readU32
  rw [bind_of_ok hread, UInt32.fromBeBytes_toBeBytes]
  rfl

theorem readU32_ok (h : readU32 reader = .ok header after) :
    reader.stream = header.toBeBytes ++ after.stream ∧ after = { reader with stream := after.stream } := by
  by_cases hlength : 4 ≤ reader.stream.length
  · have hread : readExact 4 reader = .ok (reader.stream.take 4) { reader with stream := reader.stream.drop 4 } :=
      if_pos hlength
    unfold readU32 at h
    rw [bind_of_ok hread] at h
    cases h
    rw [UInt32.toBeBytes_fromBeBytes (List.length_take_of_le hlength), List.take_append_drop]
    exact ⟨rfl, rfl⟩
  · have hread : readExact 4 reader = .error (.io .unexpectedEof) { reader with stream := [] } := if_neg hlength
    unfold readU32 at h
    rw [bind_of_error hread] at h
    cases h

/-- A fragment that breaks the fragment limit, or the record limit after so many bytes of its record. -/
def Oversized (limits : RecordLimits) (length : Nat) (header : UInt32) : Prop :=
  headerLength header > limits.maxFragmentSize ∨ length + headerLength header > limits.maxRecordSize

/-- Its header is all that is read of a fragment that is too large. -/
theorem readFragment_of_oversized (hover : Oversized limits record.length header) (reader : Reader) :
    ∃ error, readFragment memory limits header record reader = .error error reader := by
  cases hcheck : checkFragment limits header record.length with
  | error error => exact ⟨error, by rw [readFragment_of_error memory limits hcheck]; rfl⟩
  | ok =>
    obtain ⟨-, hfragment, hrecord, -⟩ := checkFragment_eq_ok.mp hcheck
    rcases hover with hover | hover
    · omega
    · omega

/-- Of a fragment that has all of its body, the reader takes the body or leaves it. -/
theorem readFragment_append (header : UInt32) (record : Bytes) {body : Bytes}
    (hlength : body.length = headerLength header) (hstream : reader.stream = body ++ rest) :
    (∃ error after, readFragment memory limits header record reader = .error error after ∧ after.stream = body ++ rest) ∨
      ∃ after, readFragment memory limits header record reader = .ok (record ++ body) after ∧ after.stream = rest := by
  have hcases := readFragment_cases memory limits header record reader
  generalize readFragment memory limits header record reader = result at hcases
  cases hcases with
  | rejected => exact .inl ⟨_, _, rfl, hstream⟩
  | refused _ hleft => exact .inl ⟨_, _, rfl, hleft.trans hstream⟩
  | cut _ hshort =>
    rw [hstream, List.length_append] at hshort
    omega
  | read _ hread hleft =>
    obtain ⟨rfl, hrest⟩ := List.append_inj (hleft.symm.trans hstream) (by rw [hread, hlength])
    exact .inr ⟨_, rfl, hrest⟩

/-- The fragments before it, whatever they are, do not lead the reader into the body of a fragment that is
too large. -/
theorem readFragments_oversized (remaining : Nat) (record : Bytes) (reader : Reader) (earlier : List (Bytes × Bool))
    (hwire : ∀ part ∈ earlier, part.1.length ≤ 0x7fffffff) (header : UInt32) (tail : Bytes)
    (hstream : reader.stream = earlier.flatMap (fun part => fragment part.1 part.2) ++ (header.toBeBytes ++ tail))
    (hover : Oversized limits (record.length + (earlier.map fun part => part.1.length).sum) header) :
    tail <:+ (leftIn (readFragments memory limits remaining record reader)).stream := by
  induction earlier generalizing remaining record reader with
  | nil =>
    cases remaining with
    | zero =>
      show tail <:+ reader.stream
      rw [hstream]
      exact ⟨header.toBeBytes, rfl⟩
    | succ =>
      obtain ⟨error, hrun⟩ := readFragment_of_oversized memory limits (by simpa using hover) { reader with stream := tail }
      rw [readFragments, bind_of_ok (readU32_append header reader hstream), bind_of_error hrun]
      exact List.suffix_rfl
  | cons part earlier ih =>
    obtain ⟨body, last⟩ := part
    obtain ⟨hbody, hearlier⟩ := List.forall_mem_cons.mp hwire
    set rest := earlier.flatMap (fun part => fragment part.1 part.2) ++ (header.toBeBytes ++ tail) with hrest
    have hafter : ∀ front : Bytes, tail <:+ front ++ rest := fun front =>
      ⟨front ++ (earlier.flatMap (fun part => fragment part.1 part.2) ++ header.toBeBytes), by simp [hrest]⟩
    have hfirst : reader.stream = (fragmentHeader body.length last).toBeBytes ++ (body ++ rest) := by
      rw [hstream, List.flatMap_cons, hrest]
      simp only [fragment, List.append_assoc]
    cases remaining with
    | zero =>
      show tail <:+ reader.stream
      rw [hfirst, ← List.append_assoc]
      exact hafter _
    | succ remaining =>
      rw [readFragments, bind_of_ok (readU32_append _ reader hfirst)]
      obtain ⟨error, after, hrun, hleft⟩ | ⟨after, hrun, hleft⟩ := readFragment_append memory limits
        (fragmentHeader body.length last) record (headerLength_fragmentHeader hbody last).symm
        (show Reader.stream { reader with stream := body ++ rest } = body ++ rest from rfl)
      · rw [bind_of_error hrun, leftIn_error, hleft]
        exact hafter body
      · have hdone : tail <:+ after.stream := by
          rw [hleft]
          exact hafter []
        rw [bind_of_ok hrun]
        split
        next => exact hdone
        next =>
          split
          next => exact hdone
          next =>
            refine ih remaining (record ++ body) after hearlier hleft ?_
            rw [List.map_cons, List.sum_cons, ← Nat.add_assoc] at hover
            rwa [List.length_append]

end Left

/-! ## The plain reader -/

section Plain

variable (memory : Memory) (limits : RecordLimits) (stream : Bytes)

/-- A success is one of the reader without a buffer. -/
theorem ok_of_readRecord (h : readRecord memory limits stream = .ok record after) :
    Rpc.readRecord limits stream = .ok (record, after.stream) := by
  rcases readRecord_refines memory limits stream with hshown | ⟨error, after', herror, -⟩
  · rw [h] at hshown
    exact hshown.symm
  · rw [h] at herror
    cases herror

/-- With memory enough, exactly the records of the grammar are read. -/
theorem readRecord_ok_iff (hmemory : memory.Grants limits.maxRecordSize) (record rest : Bytes) :
    (∃ after, readRecord memory limits stream = .ok record after ∧ after.stream = rest) ↔
      SpellsRecord limits stream record rest := by
  rw [← readRecord_eq_ok]
  constructor
  · rintro ⟨after, hread, rfl⟩
    exact ok_of_readRecord memory limits stream hread
  · intro h
    rcases readRecord_refines memory limits stream with hshown | ⟨-, -, -, -, hrefused⟩
    · rw [h] at hshown
      cases hread : readRecord memory limits stream with
      | ok _ after =>
        rw [hread] at hshown
        cases hshown
        exact ⟨after, rfl, rfl⟩
      | error =>
        rw [hread] at hshown
        cases hshown
    · exact absurd hmemory hrefused

/-- With memory for one record, a record and the rest of its stream are what the grammar says; every other
stream is an error, with or without memory. The body of a fragment that is too large is not read, whatever
comes before it, and the buffer is never longer, or asked to be larger, than a record may be. -/
theorem read_record_accepts_grammar :
    (memory.Grants limits.maxRecordSize → ∀ record rest,
      (∃ after, readRecord memory limits stream = .ok record after ∧ after.stream = rest) ↔
        SpellsRecord limits stream record rest) ∧
    ((∀ record rest, ¬ SpellsRecord limits stream record rest) →
      ∃ error after, readRecord memory limits stream = .error error after) ∧
    (∀ (earlier : List (Bytes × Bool)) (header : UInt32) (tail : Bytes),
      (∀ part ∈ earlier, part.1.length ≤ 0x7fffffff) →
      stream = earlier.flatMap (fun part => fragment part.1 part.2) ++ (header.toBeBytes ++ tail) →
      Oversized limits (earlier.map fun part => part.1.length).sum header →
        tail <:+ (leftIn (readRecord memory limits stream)).stream) ∧
    ∀ event ∈ (leftIn (readRecord memory limits stream)).events, event.size ≤ limits.maxRecordSize := by
  refine ⟨readRecord_ok_iff memory limits stream, fun hother => ?_, fun earlier header tail hwire hstream hover => ?_, ?_⟩
  · cases hread : readRecord memory limits stream with
    | ok =>
      exact absurd (readRecord_eq_ok.mp (ok_of_readRecord memory limits stream hread)) (hother _ _)
    | error error after => exact ⟨error, after, rfl⟩
  · refine readFragments_oversized memory limits limits.maxFragments [] (start stream) earlier hwire header tail hstream ?_
    simpa using hover
  · exact readFragments_keeps memory limits limits.maxFragments [] (start stream) (by simp [BufferWithin, start])

end Plain

/-- Memory that is never refused, and gives what it is asked for. -/
def plenty : Memory where
  grants := some
  le_of_grants h := Nat.le_of_eq (Option.some.inj h)

/-- Two fragments of two bytes make up the largest record. -/
def pairLimits : RecordLimits where
  maxRecordSize := 4
  maxFragmentSize := 2
  maxFragments := 2
  maxRecordSize_le := by unfold usizeMax usizeBound; omega

/-- One byte, then an empty last fragment, then a byte of the next record. -/
theorem read_record_accepts_grammar_pair : plenty.Grants pairLimits.maxRecordSize ∧
    ∃ after, readRecord plenty pairLimits (fragment [7] false ++ fragment [] true ++ [9]) = .ok [7] after ∧ after.stream = [9] := by
  have hmemory : plenty.Grants pairLimits.maxRecordSize := fun asked _ => ⟨asked, rfl⟩
  refine ⟨hmemory, ((read_record_accepts_grammar plenty pairLimits _).1 hmemory [7] [9]).mpr ?_⟩
  exact ⟨[[7]], [], ⟨by decide, by decide, by decide, by decide, by decide⟩, rfl, rfl⟩

/-! ## The budgeted reader -/

section Budgeted

variable (memory : Memory) (limits : RecordLimits)

/-- The plain loop is the other one behind a header. -/
theorem readFragments_eq (remaining : Nat) (record : Bytes) : readFragments memory limits (remaining + 1) record =
    readU32 >>= fun header => readFragmentsFrom memory limits (remaining + 1) header record := by
  induction remaining generalizing record with
  | zero =>
    rw [readFragments]
    refine bind_congr fun header => ?_
    rw [readFragmentsFrom]
    rfl
  | succ _ ih =>
    rw [readFragments]
    refine bind_congr fun header => ?_
    rw [readFragmentsFrom]
    refine bind_congr fun record => ?_
    rw [ih record]

/-- `read_record_budgeted` without its budget. -/
def readFirst : RecordM Bytes := do
  let header ← readU32
  let firstLength := headerLength header
  if firstLength = 0 ∧ ¬ headerLast header then throw .emptyFragment
  else if firstLength > limits.maxFragmentSize then throw (.fragmentTooLarge firstLength limits.maxFragmentSize)
  else if firstLength > limits.maxRecordSize then throw (.recordTooLarge limits.maxRecordSize)
  else if limits.maxRecordSize ≥ 2 ^ 32 then throw (.recordTooLarge (2 ^ 32 - 1))
  else readFragmentsFrom memory limits limits.maxFragments header []

/-- A first fragment that does not pass ends the loop at once. -/
theorem readFragmentsFrom_of_error {remaining : Nat} (hcheck : checkFragment limits header 0 = .error error) :
    readFragmentsFrom memory limits (remaining + 1) header [] = throw error := by
  rw [readFragmentsFrom, readFragment_of_error memory limits hcheck, throw_bind]

/-- Checking the first header twice changes nothing. -/
theorem readFirst_eq (hfragments : 1 ≤ limits.maxFragments) (hcounted : limits.maxRecordSize ≤ 2 ^ 32 - 1) :
    readFirst memory limits = readFragments memory limits limits.maxFragments [] := by
  obtain ⟨remaining, hremaining⟩ := Nat.exists_eq_succ_of_ne_zero (Nat.ne_of_gt hfragments)
  unfold readFirst
  rw [hremaining, Nat.succ_eq_add_one, readFragments_eq]
  refine bind_congr fun header => ?_
  have hlength := headerLength_le header
  have hadd : checkedAdd 0 (headerLength header) = some (headerLength header) := by
    rw [checkedAdd_of_lt (by unfold usizeBound; omega), Nat.zero_add]
  dsimp only
  split
  next hempty => exact (readFragmentsFrom_of_error memory limits (if_pos hempty)).symm
  next hempty =>
    split
    next hfragment =>
      refine (readFragmentsFrom_of_error memory limits ?_).symm
      rw [checkFragment, if_neg hempty, if_pos hfragment]
    next hfragment =>
      split
      next hrecord =>
        refine (readFragmentsFrom_of_error memory limits ?_).symm
        simp only [checkFragment, if_neg hempty, if_neg hfragment, hadd, if_pos hrecord]
      next =>
        rw [if_neg (by omega)]

theorem unbudgeted_of_ok {a : α} (h : m reader = .ok a after) :
    unbudgeted m ⟨reader, budget⟩ = .ok a ⟨after, budget⟩ := by
  simp only [unbudgeted, h]

theorem unbudgeted_of_error (h : m reader = .error error after) :
    unbudgeted m ⟨reader, budget⟩ = .error (.failed error) ⟨after, budget⟩ := by
  simp only [unbudgeted, h]

theorem holding_of_ok {a : α} (reservation : Reservation) (h : m reader = .ok a after) :
    holding reservation (unbudgeted m) ⟨reader, budget⟩ = .ok a ⟨after, budget⟩ := by
  simp only [holding, unbudgeted_of_ok h]

/-- A failure gives the permits back. -/
theorem holding_of_error (reservation : Reservation) (h : m reader = .error error after) :
    holding reservation (unbudgeted m) ⟨reader, budget⟩ = .error (.failed error) ⟨after, budget.release reservation⟩ := by
  simp only [holding, unbudgeted_of_error h]

/-- What the budgeted reader makes of what it reads: on success it holds its permits, and after an error
it does not. -/
def Charges (budget : Budget) (permits : Nat) : EStateM.Result RecordError Reader Bytes →
    EStateM.Result Halt BudgetedReader (Bytes × Reservation) → Prop
  | .ok record reader, result => ∃ after : Budget,
    result = .ok (record, ⟨permits⟩) ⟨reader, after⟩ ∧ after.permits + permits = budget.permits
  | .error error reader, result => ∃ after : Budget,
    result = .error (.failed error) ⟨reader, after⟩ ∧ after.permits = budget.permits

/-- With permits enough, what is read is charged. -/
theorem readRecordBudgeted_charges (hoffers : budget.Offers limits.maxRecordSize) (stream : Bytes) :
    Charges budget limits.maxRecordSize (readFirst memory limits (start stream))
      (readRecordBudgeted memory limits budget stream) := by
  obtain ⟨hopen, hpermits⟩ := hoffers
  unfold readFirst readRecordBudgeted readBudgeted
  cases hheader : readU32 (start stream) with
  | error =>
    rw [bind_of_error hheader, bind_of_error (unbudgeted_of_error hheader)]
    exact ⟨budget, rfl, rfl⟩
  | ok header reader =>
    rw [bind_of_ok hheader, bind_of_ok (unbudgeted_of_ok hheader)]
    -- what fails before the permits are taken leaves the budget alone
    split
    next => exact ⟨budget, rfl, rfl⟩
    next =>
      split
      next => exact ⟨budget, rfl, rfl⟩
      next =>
        split
        next => exact ⟨budget, rfl, rfl⟩
        next =>
          split
          next => exact ⟨budget, rfl, rfl⟩
          next =>
            obtain ⟨taken, htake, htaken⟩ := Budget.take_of_le budget.closed budget.available budget.returning hpermits
            have hacquire : acquireManyOwned limits.maxRecordSize ⟨reader, budget⟩ =
                .ok ⟨limits.maxRecordSize⟩ ⟨reader, taken⟩ := by
              simp only [acquireManyOwned, hopen, Bool.false_eq_true, if_false] at htake ⊢
              simp only [htake]
            rw [bind_of_ok hacquire]
            cases hloop : readFragmentsFrom memory limits limits.maxFragments header [] reader with
            | ok =>
              rw [bind_of_ok (holding_of_ok _ hloop)]
              exact ⟨taken, rfl, htaken⟩
            | error =>
              rw [bind_of_error (holding_of_error _ hloop)]
              exact ⟨_, rfl, (Budget.permits_release taken _).trans htaken⟩

/-- With the permits that it asks for on offer, the budgeted reader reads what the plain one reads, up to
the same byte; a record comes with all of its permits, and an error with none. -/
theorem budgeted_reader_agrees (hfragments : 1 ≤ limits.maxFragments) (hcounted : limits.maxRecordSize ≤ 2 ^ 32 - 1)
    (budget : Budget) (hoffers : budget.Offers limits.maxRecordSize) (stream : Bytes) :
    Charges budget limits.maxRecordSize (readRecord memory limits stream)
      (readRecordBudgeted memory limits budget stream) := by
  have hcharges := readRecordBudgeted_charges memory limits hoffers stream
  rwa [readFirst_eq memory limits hfragments hcounted] at hcharges

/-- An acquisition waits if the budget is open and has too few permits, and then all of them are its own. -/
theorem acquireManyOwned_waiting_iff {assigned : Nat} {s after : BudgetedReader} :
    acquireManyOwned permits s = .error (.waiting assigned) after ↔
      s.budget.closed = false ∧ s.budget.permits < permits ∧ assigned = s.budget.permits ∧
        after = { s with budget := ⟨0, false, []⟩ } := by
  obtain ⟨reader, available, closed, returning⟩ := s
  unfold acquireManyOwned
  cases closed with
  | true => simp
  | false =>
    rw [if_neg Bool.false_ne_true]
    by_cases hpermits : permits ≤ available + returning.sum
    · obtain ⟨taken, htake, -⟩ := Budget.take_of_le false available returning hpermits
      simp [htake, Budget.permits, Nat.not_lt.mpr hpermits]
    · have hfew : available + returning.sum < permits := Nat.lt_of_not_le hpermits
      rw [Budget.take_of_lt false available returning hfew]
      constructor
      · intro h
        cases h
        exact ⟨rfl, hfew, rfl, rfl⟩
      · rintro ⟨-, -, rfl, rfl⟩
        rfl

/-- The checks that come before the budget. -/
structure FirstPasses (header : UInt32) : Prop where
  ne_empty : ¬ (headerLength header = 0 ∧ ¬ headerLast header)
  fragment : headerLength header ≤ limits.maxFragmentSize
  record : headerLength header ≤ limits.maxRecordSize
  counted : limits.maxRecordSize < 2 ^ 32

/-- A reader waits for permits exactly if it has read a header that passes and the budget is open but has,
with all that comes back, fewer than a record may be long. It is given all of them, has read nothing but the
header, and has not asked for memory. -/
theorem budgeted_reader_waits_iff (budget : Budget) (stream : Bytes) (assigned : Nat) (after : BudgetedReader) :
    readRecordBudgeted memory limits budget stream = .error (.waiting assigned) after ↔
      ∃ header rest, stream = UInt32.toBeBytes header ++ rest ∧ FirstPasses limits header ∧
        budget.closed = false ∧ budget.permits < limits.maxRecordSize ∧ assigned = budget.permits ∧
        after = ⟨start rest, ⟨0, false, []⟩⟩ := by
  unfold readRecordBudgeted readBudgeted
  constructor
  · intro h
    cases hheader : readU32 (start stream) with
    | error =>
      rw [bind_of_error (unbudgeted_of_error hheader)] at h
      cases h
    | ok header reader =>
      obtain ⟨hstream, hreader⟩ := readU32_ok hheader
      rw [bind_of_ok (unbudgeted_of_ok hheader)] at h
      split at h
      next => cases h
      split at h
      next => cases h
      split at h
      next => cases h
      split at h
      next => cases h
      next hempty hfragment hrecord hcounted =>
      cases hacquire : acquireManyOwned limits.maxRecordSize ⟨reader, budget⟩ with
      | ok reservation held =>
        rw [bind_of_ok hacquire] at h
        cases hloop : readFragmentsFrom memory limits limits.maxFragments header [] held.reader with
        | ok =>
          rw [bind_of_ok (holding_of_ok reservation hloop)] at h
          cases h
        | error =>
          rw [bind_of_error (holding_of_error reservation hloop)] at h
          cases h
      | error =>
        rw [bind_of_error hacquire] at h
        cases h
        obtain ⟨hopen, hpermits, rfl, rfl⟩ := acquireManyOwned_waiting_iff.mp hacquire
        refine ⟨header, reader.stream, hstream, ⟨hempty, ?_, ?_, ?_⟩, hopen, hpermits, rfl, ?_⟩
        · exact Nat.le_of_not_lt hfragment
        · exact Nat.le_of_not_lt hrecord
        · exact Nat.lt_of_not_le hcounted
        · rw [hreader]
          rfl
  · intro ⟨header, rest, hstream, hpasses, hopen, hpermits, hassigned, hafter⟩
    have hheader : readU32 (start stream) = .ok header (start rest) := readU32_append header (start stream) hstream
    have hacquire : acquireManyOwned limits.maxRecordSize ⟨start rest, budget⟩ = .error (.waiting assigned) after :=
      acquireManyOwned_waiting_iff.mpr ⟨hopen, hpermits, hassigned, hafter⟩
    rw [bind_of_ok (unbudgeted_of_ok hheader)]
    simp only [if_neg hpasses.ne_empty, if_neg (Nat.not_lt.mpr hpasses.fragment), if_neg (Nat.not_lt.mpr hpasses.record)]
    rw [if_neg (Nat.not_le.mpr hpasses.counted), bind_of_error hacquire]

end Budgeted

/-- One permit is there and two come back, but the record may have four bytes. -/
example : readRecordBudgeted plenty pairLimits ⟨1, false, [2]⟩ (fragment [7] true) =
    .error (.waiting 3) ⟨start [7], ⟨0, false, []⟩⟩ := rfl

/-- One permit is there and three come back: the reader waits for them, reads the record and holds all
of them. -/
theorem budgeted_reader_agrees_waits :
    (∃ after, readRecord plenty pairLimits (fragment [7] false ++ fragment [] true ++ [9]) = .ok [7] after) ∧
      Charges ⟨1, false, [3]⟩ 4 (readRecord plenty pairLimits (fragment [7] false ++ fragment [] true ++ [9]))
        (readRecordBudgeted plenty pairLimits ⟨1, false, [3]⟩ (fragment [7] false ++ fragment [] true ++ [9])) :=
  ⟨⟨⟨[9], 1, [.resize 1, .resize 1, .reserve 1]⟩, rfl⟩,
    budgeted_reader_agrees plenty pairLimits (by decide) (by decide) ⟨1, false, [3]⟩ ⟨rfl, by decide⟩ _⟩

end Reader

end NfsEmbed.Rpc
