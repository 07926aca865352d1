import NfsEmbed.Laws.Rpc.Record
import NfsEmbed.Rpc.Segments

/-!
# The indices of the segmented writer

What is left of the segments at a cursor (`rest`) is all there is to know about it: the loops over indices
gather the same slices as the functions on what is left, and never reach an index that is not there. So
the writer with its indices is the writer without them, for every socket.

Two cursors may stand before and after a segment that is used up. What is left then differs in leading
empty segments, which `trim` takes away and nothing depends on.

The law is `segmented_writer_matches_contiguous`.
-/

namespace NfsEmbed.Rpc

open Lib Writer

variable {segment : Bytes} {cursor : SegmentCursor} {remaining count : Nat}

/-! ## Leading empty segments -/

/-- Without the empty segments at the front. -/
def trim : List Bytes → List Bytes
  | [] => []
  | segment :: segments => if segment = [] then trim segments else segment :: segments

section Trim

variable {segments : List Bytes}

theorem trim_cons_nil : trim ([] :: segments) = trim segments := if_pos rfl

theorem trim_cons (h : segment ≠ []) : trim (segment :: segments) = segment :: segments := if_neg h

theorem flatten_trim (segments : List Bytes) : (trim segments).flatten = segments.flatten := by
  induction segments with
  | nil => rfl
  | cons segment _ ih =>
    by_cases h : segment = []
    · rw [h, trim_cons_nil, ih, List.flatten_cons, List.nil_append]
    · rw [trim_cons h]

theorem gatherSlices_trim (segments : List Bytes) (count : Nat) :
    gatherSlices (trim segments) count = gatherSlices segments count := by
  induction segments with
  | nil => rfl
  | cons segment _ ih =>
    by_cases h : segment = []
    · rw [h, trim_cons_nil, ih]
      cases count with
      | zero => simp [gatherSlices]
      | succ => rw [gatherSlices, if_pos rfl]
    · rw [trim_cons h]

/-- Leading empty segments do not matter to what is left. -/
theorem trim_advanceSegments (segments : List Bytes) (count : Nat) :
    trim (advanceSegments (trim segments) count) = trim (advanceSegments segments count) := by
  induction segments with
  | nil => rfl
  | cons segment _ ih =>
    by_cases h : segment = []
    · rw [h, trim_cons_nil, ih]
      cases count with
      | zero => simp [advanceSegments, trim_cons_nil]
      | succ => simp [advanceSegments]
    · rw [trim_cons h]

variable (writer : Writer) {size : Nat} (hsize : 0 < size)

theorem writeSegmentedLoop_congr (totalLength : Nat) {segments segments' : List Bytes}
    (h : trim segments = trim segments') (remaining : Nat) :
    writer.writeSegmentedLoop totalLength size hsize segments remaining =
      writer.writeSegmentedLoop totalLength size hsize segments' remaining := by
  induction remaining using Nat.strong_induction_on generalizing segments segments' with
  | _ remaining ih =>
    rw [writeSegmentedLoop, writeSegmentedLoop]
    by_cases hzero : remaining = 0
    · rw [dif_pos hzero, dif_pos hzero]
    · have hgather : gatherSlices segments (min remaining size) = gatherSlices segments' (min remaining size) := by
        rw [← gatherSlices_trim, h, gatherSlices_trim]
      have hadvance : trim (advanceSegments segments (min remaining size)) =
          trim (advanceSegments segments' (min remaining size)) := by
        rw [← trim_advanceSegments, h, trim_advanceSegments]
      rw [dif_neg hzero, dif_neg hzero]
      simp only [hgather, ih (remaining - min remaining size) (by omega) hadvance]

end Trim

/-! ## Cursors -/

namespace SegmentCursor

variable {segments : List Bytes}

/-- What is left of the segments. -/
def rest (segments : List Bytes) (cursor : SegmentCursor) : List Bytes :=
  match segments.drop cursor.index with
  | [] => []
  | segment :: more => segment.drop cursor.offset :: more

/-- The cursor stands inside its segment, or behind the last one. -/
def Valid (segments : List Bytes) (cursor : SegmentCursor) : Prop :=
  cursor.index ≤ segments.length ∧ ∀ segment, segments[cursor.index]? = some segment → cursor.offset ≤ segment.length

theorem rest_of_getElem? (cursor : SegmentCursor) (h : segments[cursor.index]? = some segment) :
    cursor.rest segments = segment.drop cursor.offset :: segments.drop (cursor.index + 1) := by
  obtain ⟨hlt, hget⟩ := List.getElem?_eq_some_iff.mp h
  rw [rest, List.drop_eq_getElem_cons hlt, hget]

theorem rest_at {index : Nat} (offset : Nat) (h : segments[index]? = some segment) :
    rest segments ⟨index, offset⟩ = segment.drop offset :: segments.drop (index + 1) :=
  rest_of_getElem? ⟨index, offset⟩ h

theorem rest_of_none (h : segments[cursor.index]? = none) : cursor.rest segments = [] := by
  rw [rest, List.drop_of_length_le (List.getElem?_eq_none_iff.mp h)]

theorem skipUsed_of_used (cursor : SegmentCursor) (h : segments[cursor.index]? = some segment)
    (hused : cursor.offset = segment.length) :
    cursor.skipUsed segments = skipUsed segments ⟨cursor.index + 1, 0⟩ := by
  obtain ⟨hlt, hget⟩ := List.getElem?_eq_some_iff.mp h
  rw [skipUsed, dif_pos hlt, if_pos]
  rw [hused, ← hget, List.get_eq_getElem]

theorem valid_next (h : segments[cursor.index]? = some segment) : Valid segments ⟨cursor.index + 1, 0⟩ :=
  ⟨(List.getElem?_eq_some_iff.mp h).1, fun _ _ => Nat.zero_le _⟩

theorem rest_next (index : Nat) : rest segments ⟨index, 0⟩ = segments.drop index := by
  rw [rest]
  cases segments.drop index <;> rfl

/-- The inner loop only passes empty segments. -/
theorem skipUsed_spec (hvalid : cursor.Valid segments) :
    (cursor.skipUsed segments).Valid segments ∧ cursor.index ≤ (cursor.skipUsed segments).index ∧
      (cursor.skipUsed segments).rest segments = trim (cursor.rest segments) := by
  fun_induction skipUsed segments cursor with
  | case1 cursor hlt hused ih =>
    have hget : segments[cursor.index]? = some (segments.get ⟨cursor.index, hlt⟩) := List.getElem?_eq_getElem hlt
    obtain ⟨hvalid', hle, hrest⟩ := ih (valid_next hget)
    refine ⟨hvalid', Nat.le_of_succ_le hle, ?_⟩
    rw [hrest, rest_next, rest_of_getElem? cursor hget, hused, List.drop_length, trim_cons_nil]
  | case2 cursor hlt hne =>
    have hget : segments[cursor.index]? = some (segments.get ⟨cursor.index, hlt⟩) := List.getElem?_eq_getElem hlt
    have hle := hvalid.2 _ hget
    refine ⟨hvalid, Nat.le_refl _, ?_⟩
    rw [rest_of_getElem? cursor hget, trim_cons]
    rw [ne_eq, List.drop_eq_nil_iff]
    omega
  | case3 cursor hge =>
    refine ⟨hvalid, Nat.le_refl _, ?_⟩
    rw [rest_of_none (List.getElem?_eq_none (Nat.le_of_not_lt hge))]
    rfl

/-- A step of a cursor inside a segment: `count` bytes are taken, and more only if the segment is used
up. -/
structure Stepped (segments : List Bytes) (cursor : SegmentCursor) (segment : Bytes) (remaining count : Nat) : Prop where
  valid : Valid segments ⟨cursor.index, cursor.offset + count⟩
  count_pos : 0 < count
  used : remaining - count ≠ 0 → cursor.offset + count = segment.length
  taken : (segment.drop cursor.offset).take count = (segment.drop cursor.offset).take remaining
  length_taken : ((segment.drop cursor.offset).take remaining).length = count

theorem stepped (hvalid : cursor.Valid segments) (hget : segments[cursor.index]? = some segment)
    (hne : cursor.offset ≠ segment.length) (hremaining : remaining ≠ 0) :
    Stepped segments cursor segment remaining (min remaining (segment.length - cursor.offset)) := by
  have hle := hvalid.2 segment hget
  refine ⟨⟨hvalid.1, fun segment' hget' => ?_⟩, by omega, by omega, ?_, by rw [List.length_take, List.length_drop]⟩
  · rw [hget] at hget'
    cases hget'
    show cursor.offset + min remaining (segment.length - cursor.offset) ≤ segment.length
    omega
  · rw [List.take_eq_take_iff, List.length_drop]
    omega

/-- Where more is taken, the next segment comes after the one that was stepped in. -/
theorem Stepped.gatherSlices_rest (h : Stepped segments cursor segment remaining count)
    (hget : segments[cursor.index]? = some segment) :
    gatherSlices (rest segments ⟨cursor.index, cursor.offset + count⟩) (remaining - count) =
      gatherSlices (segments.drop (cursor.index + 1)) (remaining - count) := by
  by_cases hmore : remaining - count = 0
  · rw [hmore]
    simp [gatherSlices]
  · have hrest : rest segments ⟨cursor.index, cursor.offset + count⟩ = [] :: segments.drop (cursor.index + 1) := by
      rw [rest_at _ hget, h.used hmore, List.drop_length]
    rw [hrest, ← gatherSlices_trim, trim_cons_nil, gatherSlices_trim]

theorem gatherSlices_cons (hsegment : segment ≠ []) (hcount : count ≠ 0) (segments : List Bytes) :
    gatherSlices (segment :: segments) count =
      (gatherSlices segments (count - (segment.take count).length)).map (segment.take count :: ·) := by
  obtain ⟨count, rfl⟩ := Nat.exists_eq_succ_of_ne_zero hcount
  rw [gatherSlices, if_neg hsegment]

theorem gather_none (totalLength : Nat) (hremaining : remaining ≠ 0)
    (h : segments[(cursor.skipUsed segments).index]? = none) (slices : List Bytes) :
    cursor.gather segments totalLength remaining slices = .error (.error (.recordTooLarge totalLength)) := by
  rw [gather, if_neg hremaining]
  split
  next => rfl
  next hsome => rw [h] at hsome; cases hsome

theorem gather_some (totalLength : Nat) {skipped : SegmentCursor} (hremaining : remaining ≠ 0)
    (hskip : cursor.skipUsed segments = skipped) (h : segments[skipped.index]? = some segment)
    (hoffset : skipped.offset ≤ segment.length) {slices : List Bytes} (hslices : slices.length < 4) :
    cursor.gather segments totalLength remaining slices =
      gather segments totalLength
        ⟨skipped.index, skipped.offset + min remaining (segment.length - skipped.offset)⟩
        (remaining - min remaining (segment.length - skipped.offset))
        (slices ++ [(segment.drop skipped.offset).take (min remaining (segment.length - skipped.offset))]) := by
  subst hskip
  rw [gather, if_neg hremaining]
  split
  next hnone => rw [h] at hnone; cases hnone
  next segment' hsome =>
    rw [h] at hsome
    cases hsome
    dsimp only
    rw [dif_neg (Nat.not_lt.mpr hoffset), if_neg (Nat.not_le.mpr hslices)]

/-- Gathering by index is gathering from what is left, as long as there is a slice for every segment. -/
theorem gather_eq (totalLength : Nat) (hvalid : cursor.Valid segments) (remaining : Nat) (slices : List Bytes)
    (hroom : remaining ≠ 0 → slices.length + (segments.length - (cursor.skipUsed segments).index) ≤ 4) :
    cursor.gather segments totalLength remaining slices =
      match gatherSlices (cursor.rest segments) remaining with
      | none => .error (.error (.recordTooLarge totalLength))
      | some gathered => .ok (slices ++ gathered) := by
  induction remaining using Nat.strong_induction_on generalizing cursor slices with
  | _ remaining ih =>
    by_cases hzero : remaining = 0
    · subst hzero
      rw [gather, if_pos rfl]
      simp [gatherSlices]
    · obtain ⟨hskipped, -, hrest⟩ := skipUsed_spec hvalid
      have hspace := hroom hzero
      rw [← gatherSlices_trim, ← hrest]
      cases hget : segments[(cursor.skipUsed segments).index]? with
      | none =>
        rw [gather_none totalLength hzero hget, rest_of_none hget]
        obtain ⟨remaining, rfl⟩ := Nat.exists_eq_succ_of_ne_zero hzero
        rfl
      | some segment =>
        have hlt := (List.getElem?_eq_some_iff.mp hget).1
        have hne := skipUsed_offset_ne segments hget
        have hstep := stepped hskipped hget hne hzero
        rw [gather_some totalLength hzero rfl hget (hskipped.2 segment hget) (by omega)]
        generalize cursor.skipUsed segments = skipped at *
        generalize min remaining (segment.length - skipped.offset) = count at *
        have hcount := hstep.count_pos
        rw [ih (remaining - count) (by omega) hstep.valid]
        · have hsegment : segment.drop skipped.offset ≠ [] := by
            rw [ne_eq, List.drop_eq_nil_iff]
            have := hskipped.2 segment hget
            omega
          rw [hstep.gatherSlices_rest hget, rest_of_getElem? skipped hget, gatherSlices_cons hsegment hzero,
            hstep.length_taken, hstep.taken]
          cases gatherSlices (segments.drop (skipped.index + 1)) (remaining - count) with
          | none => rfl
          | some => simp
        · -- the segment is used up, so the next slice is of a later one
          intro hmore
          have hused := skipUsed_of_used ⟨skipped.index, skipped.offset + count⟩ hget (hstep.used hmore)
          have hlater := (skipUsed_spec (valid_next hget)).2.1
          rw [hused, List.length_append, List.length_singleton]
          dsimp only at hlater ⊢
          omega

theorem advanceSegments_cons (segment : Bytes) (segments : List Bytes) (hcount : count ≠ 0) :
    advanceSegments (segment :: segments) count =
      if segment.length ≤ count then advanceSegments segments (count - segment.length)
      else segment.drop count :: segments := by
  obtain ⟨count, rfl⟩ := Nat.exists_eq_succ_of_ne_zero hcount
  rw [advanceSegments]

/-- What is left after the bytes of one segment. -/
theorem trim_advanceSegments_rest (hget : segments[cursor.index]? = some segment) (hcount : count ≠ 0) :
    trim (advanceSegments
        (rest segments ⟨cursor.index, cursor.offset + min (segment.length - cursor.offset) count⟩)
        (count - min (segment.length - cursor.offset) count)) =
      trim (advanceSegments (cursor.rest segments) count) := by
  rw [rest_of_getElem? cursor hget, rest_at _ hget, advanceSegments_cons _ _ hcount, List.length_drop]
  by_cases hused : segment.length - cursor.offset ≤ count
  · rw [if_pos hused, Nat.min_eq_left hused, List.drop_of_length_le (by omega), ← trim_advanceSegments, trim_cons_nil,
      trim_advanceSegments]
  · rw [if_neg hused, Nat.min_eq_right (by omega), Nat.sub_self, List.drop_drop]
    simp [advanceSegments]

/-- Advancing by index reaches what advancing leaves, if there is as much. -/
theorem advance_eq (hvalid : cursor.Valid segments) (hcount : count ≤ (cursor.rest segments).flatten.length) :
    ∃ advanced, cursor.advance segments count = .ok advanced ∧ advanced.Valid segments ∧
      trim (advanced.rest segments) = trim (advanceSegments (cursor.rest segments) count) := by
  induction count using Nat.strong_induction_on generalizing cursor with
  | _ count ih =>
    by_cases hzero : count = 0
    · subst hzero
      refine ⟨cursor, by rw [advance, if_pos rfl], hvalid, ?_⟩
      rw [advanceSegments]
    · obtain ⟨hskipped, -, hrest⟩ := skipUsed_spec hvalid
      rw [← flatten_trim, ← hrest] at hcount
      rw [← trim_advanceSegments, ← hrest]
      cases hget : segments[(cursor.skipUsed segments).index]? with
      | none =>
        rw [rest_of_none hget] at hcount
        simp at hcount
        exact absurd hcount hzero
      | some segment =>
        have hne := skipUsed_offset_ne segments hget
        have hoffset := hskipped.2 segment hget
        have hstep := stepped hskipped hget hne hzero
        rw [Nat.min_comm] at hstep
        have hadvance : cursor.advance segments count =
            advance segments ⟨(cursor.skipUsed segments).index, (cursor.skipUsed segments).offset +
              min (segment.length - (cursor.skipUsed segments).offset) count⟩
              (count - min (segment.length - (cursor.skipUsed segments).offset) count) := by
          rw [advance, if_neg hzero]
          split
          next hnone => rw [hget] at hnone; cases hnone
          next segment' hsome =>
            rw [hget] at hsome
            cases hsome
            dsimp only
            rw [dif_neg (Nat.not_lt.mpr hoffset)]
        rw [hadvance]
        generalize cursor.skipUsed segments = skipped at *
        have hcount_pos := hstep.count_pos
        have hleft : count - min (segment.length - skipped.offset) count ≤
            (rest segments ⟨skipped.index, skipped.offset + min (segment.length - skipped.offset) count⟩).flatten.length := by
          rw [rest_of_getElem? skipped hget, List.flatten_cons, List.length_append, List.length_drop] at hcount
          rw [rest_at _ hget, List.flatten_cons, List.length_append, List.length_drop]
          omega
        obtain ⟨advanced, hok, hvalid', htrim⟩ := ih _ (by omega) hstep.valid hleft
        exact ⟨advanced, hok, hvalid', htrim.trans (trim_advanceSegments_rest hget hzero)⟩

end SegmentCursor

/-! ## The writer -/

namespace Writer.Indexed

open SegmentCursor

variable (writer : Writer)

theorem lift_bind {α β : Type} (m : WriterM α) (k : α → WriterM β) :
    CheckedM.lift (m >>= k) = CheckedM.lift m >>= fun value => CheckedM.lift (k value) := by
  funext written
  change CheckedM.lift (EStateM.bind m k) written = EStateM.bind (CheckedM.lift m) (fun value => CheckedM.lift (k value)) written
  unfold CheckedM.lift EStateM.bind
  cases hm : m written <;> simp only [hm]

/-- With its indices or without them, the loop writes the same. -/
theorem writeSegmentedLoop_eq {size : Nat} (hsize : 0 < size) (hle : size ≤ 0x7fffffff) (totalLength : Nat)
    {segments : List Bytes} (hthree : segments.length ≤ 3) (hvalid : cursor.Valid segments)
    (hremaining : remaining = (cursor.rest segments).flatten.length) :
    writeSegmentedLoop writer totalLength size hsize segments cursor remaining =
      CheckedM.lift (writer.writeSegmentedLoop totalLength size hsize (cursor.rest segments) remaining) := by
  induction remaining using Nat.strong_induction_on generalizing cursor with
  | _ remaining ih =>
    by_cases hzero : remaining = 0
    · rw [writeSegmentedLoop, Writer.writeSegmentedLoop, dif_pos hzero, dif_pos hzero]
      rfl
    · have hmin : min remaining size ≤ (cursor.rest segments).flatten.length := by omega
      obtain ⟨slices, hslices, -, -⟩ := gatherSlices_spec hmin
      obtain ⟨advanced, hadvance, hvalid', htrim⟩ := advance_eq hvalid hmin
      have hgather := gather_eq totalLength hvalid (min remaining size)
        [(fragmentHeader (min remaining size) (decide (min remaining size = remaining))).toBeBytes]
        (by intro _; simp; omega)
      rw [hslices] at hgather
      have hrest : remaining - min remaining size = (advanced.rest segments).flatten.length := by
        rw [← flatten_trim, htrim, flatten_trim, flatten_advanceSegments hmin, List.length_drop, hremaining]
      rw [writeSegmentedLoop, Writer.writeSegmentedLoop, dif_neg hzero, dif_neg hzero]
      simp only [if_neg (show ¬ min remaining size > 0x7fffffff by omega), hslices, hgather, hadvance, lift_bind]
      have hnext := ih (remaining - min remaining size) (by omega) hvalid' hrest
      rw [writeSegmentedLoop_congr writer hsize totalLength htrim] at hnext
      rw [← hnext]
      rfl

/-- The loops over indices write what the loops over lists do. -/
theorem writeSegmentedFragments_eq {size : Nat} (hsize : 0 < size) (hle : size ≤ 0x7fffffff)
    (first second third : Bytes) :
    writeSegmentedFragments writer [first, second, third] (first ++ second ++ third).length size hsize =
      CheckedM.lift
        (writer.writeSegmentedFragments [first, second, third] (first ++ second ++ third).length size hsize) := by
  have hvalid : Valid [first, second, third] ⟨0, 0⟩ := ⟨Nat.zero_le _, fun _ _ => Nat.zero_le _⟩
  have hrest : rest [first, second, third] ⟨0, 0⟩ = [first, second, third] := rest_next 0
  have hflatten : [first, second, third].flatten = first ++ second ++ third := by simp
  unfold writeSegmentedFragments Writer.writeSegmentedFragments
  by_cases hempty : (first ++ second ++ third).length = 0
  · rw [if_pos hempty, if_pos hempty]
  · rw [if_neg hempty, if_neg hempty,
      writeSegmentedLoop_eq writer hsize hle _ (by simp) hvalid (by rw [hrest, hflatten]), hrest]

theorem writeRecordSegmentsLimited_of_ok {first second third : Bytes} {limits : RecordLimits}
    (hbound : (first ++ second ++ third).length < usizeBound)
    (h : validateRecordLength (first ++ second ++ third).length limits = .ok ()) :
    writeRecordSegmentsLimited writer first second third limits =
      writeSegmentedFragments writer [first, second, third] (first ++ second ++ third).length
        limits.maxFragmentSize (maxFragmentSize_pos_of_validate h) := by
  unfold writeRecordSegmentsLimited
  simp only [segmentsLength_eq, if_pos hbound]
  split
  next hvalidate =>
    rw [h] at hvalidate
    cases hvalidate
  next => rfl

theorem writeRecordSegmentsLimited_of_error {first second third : Bytes} {limits : RecordLimits} {error : RecordError}
    (hbound : (first ++ second ++ third).length < usizeBound)
    (h : validateRecordLength (first ++ second ++ third).length limits = .error error) :
    writeRecordSegmentsLimited writer first second third limits = throw (.error error) := by
  unfold writeRecordSegmentsLimited
  simp only [segmentsLength_eq, if_pos hbound]
  split
  next hvalidate =>
    rw [h] at hvalidate
    cases hvalidate
    rfl
  next hvalidate =>
    rw [h] at hvalidate
    cases hvalidate

/-- With its indices or without them, the writer does the same. -/
theorem writeRecordSegmentsLimited_eq_lift (first second third : Bytes) (limits : RecordLimits)
    (hwire : limits.maxFragmentSize ≤ 0x7fffffff) :
    writeRecordSegmentsLimited writer first second third limits =
      CheckedM.lift (writer.writeRecordSegmentsLimited first second third limits) := by
  by_cases hbound : (first ++ second ++ third).length < usizeBound
  · cases hvalidate : validateRecordLength (first ++ second ++ third).length limits with
    | ok =>
      have hsize := maxFragmentSize_pos_of_validate hvalidate
      rw [writeRecordSegmentsLimited_of_ok writer hbound hvalidate, Writer.writeRecordSegmentsLimited_eq hsize hvalidate]
      exact writeSegmentedFragments_eq writer hsize hwire first second third
    | error =>
      rw [writeRecordSegmentsLimited_of_error writer hbound hvalidate,
        Writer.writeRecordSegmentsLimited_refused hbound hvalidate]
      rfl
  · rw [Writer.writeRecordSegmentsLimited_overflow hbound]
    unfold writeRecordSegmentsLimited
    simp only [segmentsLength_eq, if_neg hbound]
    rfl

end Writer.Indexed

/-- Whatever the segments and the limits are, the segmented writer never reaches an index that is not
there and never fills a fifth slice. With a socket that takes some of what it is offered, it succeeds
exactly if the contiguous writer succeeds on the concatenation, both write the same bytes, and it only
fails before it has written anything, when the length is refused: never for a socket that took nothing. -/
theorem segmented_writer_matches_contiguous (first second third : Bytes) (limits : RecordLimits)
    (hwire : limits.maxFragmentSize ≤ 0x7fffffff) (writer : Writer) (written : Bytes) :
    (∀ after, Indexed.writeRecordSegmentsLimited writer first second third limits written ≠
      .error .outOfBounds after) ∧
    (writer.Willing →
      (∀ after, Indexed.writeRecordSegmentsLimited writer first second third limits written = .ok () after ↔
        writer.writeRecordLimited (first ++ second ++ third) limits written = .ok () after) ∧
      (∀ stop after, Indexed.writeRecordSegmentsLimited writer first second third limits written =
          .error stop after →
        after = written ∧ (∀ kind, stop ≠ .error (.io kind)) ∧
          ∃ error, validateRecordLength (first ++ second ++ third).length limits = .error error)) := by
  rw [Indexed.writeRecordSegmentsLimited_eq_lift writer first second third limits hwire]
  refine ⟨fun after => ?_, fun hwilling => ?_⟩
  · unfold CheckedM.lift
    split <;> simp
  · cases hvalidate : validateRecordLength (first ++ second ++ third).length limits with
    | ok =>
      have hsize := maxFragmentSize_pos_of_validate hvalidate
      have hsegmented : writer.Emits (writer.writeRecordSegmentsLimited first second third limits) _ :=
        (writeRecordSegmentsLimited_writes hsize hwire hvalidate).emits
      have hcontiguous : writer.Emits (writer.writeRecordLimited (first ++ second ++ third) limits) _ :=
        writeRecordLimited_emits hsize hwire hvalidate
      simp only [CheckedM.lift, (hsegmented written).2 hwilling, (hcontiguous written).2 hwilling]
      exact ⟨fun after => ⟨fun h => by cases h; rfl, fun h => by cases h; rfl⟩, fun stop after h => by cases h⟩
    | error error =>
      obtain ⟨error', hio, hrejected⟩ :=
        writeRecordSegmentsLimited_rejected writer hvalidate
      have hcontiguous : writer.writeRecordLimited (first ++ second ++ third) limits = throw error := by
        unfold writeRecordLimited
        simp only [hvalidate]
      rw [hrejected, hcontiguous]
      refine ⟨fun after => ⟨nofun, nofun⟩, fun stop after h => ?_⟩
      cases h
      exact ⟨rfl, fun kind hstop => hio kind (by cases hstop; rfl), error, rfl⟩

/-- Four bytes in an empty, a three-byte and a one-byte segment, cut into fragments of two. -/
theorem segmented_writer_matches_contiguous_bytewise : ∃ after,
    Indexed.writeRecordSegmentsLimited (byteWriter true) [] [1, 2, 3] [4] ⟨10, 2, 2, by decide⟩ [] = .ok () after ∧
    (byteWriter true).writeRecordLimited [1, 2, 3, 4] ⟨10, 2, 2, by decide⟩ [] = .ok () after := by
  have hemits : (byteWriter true).Emits ((byteWriter true).writeRecordLimited [1, 2, 3, 4] ⟨10, 2, 2, by decide⟩) _ :=
    writeRecordLimited_emits (by decide) (by decide) (by decide)
  have hcontiguous := (hemits []).2 (byteWriter_willing true)
  exact ⟨_, (((segmented_writer_matches_contiguous [] [1, 2, 3] [4] ⟨10, 2, 2, by decide⟩ (by decide) (byteWriter true)
    []).2 (byteWriter_willing true)).1 _).mpr hcontiguous, hcontiguous⟩

end NfsEmbed.Rpc
