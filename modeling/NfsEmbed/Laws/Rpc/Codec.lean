import NfsEmbed.Rpc.Codec

/-!
# What the codec primitives read and write

Each primitive is tied to the bytes of its value: a decoder primitive reads exactly them, an encoder
primitive appends exactly them. The two padding formulas of the source meet here
(`padding_mask_eq`), and so do the two length limits an opaque field has: the caller's, and the
32-bit length word's.
-/

namespace NfsEmbed.Rpc

open Lib

variable {c : Decoder} {w r value input : Bytes} {limit : Nat} {α : Type} {decode : DecodeM α} {F : Format UInt8 α}
  {a : α}

/-! ## The bytes of a value -/

def boolBytes (value : Bool) : Bytes := (if value then 1 else 0 : UInt32).toBeBytes

/-- A variable-length opaque field: length word, data, padding. -/
def opaqueBytes (value : Bytes) : Bytes :=
  (UInt32.ofNat value.length).toBeBytes ++ (value ++ List.replicate (padding value.length) 0)

@[simp] theorem length_boolBytes (value : Bool) : (boolBytes value).length = 4 :=
  UInt32.length_toBeBytes _

theorem padding_lt (length : Nat) : padding length < 4 := by unfold padding; omega

/-- Padding ends on a word boundary. -/
theorem add_padding_mod (length : Nat) : (length + padding length) % 4 = 0 := by unfold padding; omega

theorem length_opaqueBytes (value : Bytes) :
    (opaqueBytes value).length = 4 + (value.length + padding value.length) := by
  simp only [opaqueBytes, List.length_append, UInt32.length_toBeBytes, List.length_replicate]

theorem length_opaqueBytes_le (value : Bytes) : (opaqueBytes value).length ≤ value.length + 7 := by
  have := padding_lt value.length
  rw [length_opaqueBytes]
  omega

/-- The decoder masks where the encoder divides. -/
theorem padding_mask_eq (length : Nat) : (4 - (length &&& 3)) &&& 3 = padding length := by
  have hmask : ∀ n : Nat, n &&& 3 = n % 4 := fun n => Nat.and_two_pow_sub_one_eq_mod n 2
  rw [hmask, hmask, padding]

/-! ## Decoder primitives -/

namespace Decoder

/-- `take` as the check on the end that it is. -/
theorem take_run (count : Nat) (c : Decoder) :
    take count c = match checkedAdd c.position count with
      | none => .error .overflow c
      | some stop =>
        if stop ≤ c.input.length then .ok (c.rest.take count) { c with position := stop }
        else .error .truncated c := by
  simp only [take, ReadM.bind_apply, ReadM.get_apply]
  cases checkedAdd c.position count with
  | none => rfl
  | some stop =>
    by_cases h : stop ≤ c.input.length
    · simp only [if_pos h]; rfl
    · simp only [if_neg h]; rfl

/-- A word that stands inside the input is taken, however long the input goes on. -/
theorem take_apply (hin : c.position ≤ c.input.length) (hposition : c.position + w.length < usizeBound)
    (hrest : c.rest = w ++ r) : take w.length c = .ok w (c.advance w.length) := by
  have hlength := congrArg List.length hrest
  simp only [Cursor.rest, List.length_drop, List.length_append] at hlength
  rw [take_run, checkedAdd_of_lt hposition]
  simp only [if_pos (show c.position + w.length ≤ c.input.length by omega), hrest, List.take_left]
  rfl

theorem take_reads (count : Nat) :
    Reads usizeBound (take count) (fun value w => value.length = count ∧ w = value) where
  exact {c c' a} h := by
    rw [take_run] at h
    split at h
    next => cases h
    next stop hstop =>
      obtain ⟨_, rfl⟩ := checkedAdd_eq_some.mp hstop
      split at h
      next hle =>
        cases h
        have hlen : (c.rest.take count).length = count := by
          simp only [Cursor.rest, List.length_take, List.length_drop]; omega
        refine ⟨c.rest.take count, ⟨hlen, rfl⟩, ?_, ?_⟩
        · change c.rest = c.rest.take count ++ (c.advance count).rest
          rw [Cursor.rest_advance, List.take_append_drop]
        · rw [hlen]; rfl
      next => cases h
  accepts {c a w r} hin h hrest := by
    obtain ⟨rfl, rfl⟩ := h
    have hpast := hin.advance hrest
    exact take_apply hin.1 (Nat.lt_of_le_of_lt hpast.1 hpast.2) hrest

/-- A position that was reached fits the machine word. -/
theorem take_position_lt {count : Nat} {c' : Decoder} (h : take count c = .ok value c') :
    c'.position < usizeBound := by
  rw [take_run] at h
  split at h
  next => cases h
  next stop hstop =>
    split at h
    next => cases h; exact checkedAdd_eq_some.mp hstop |>.2 ▸ (checkedAdd_eq_some.mp hstop).1
    next => cases h

theorem readU32_reads : Reads usizeBound readU32 (fun value w => w = value.toBeBytes) := by
  refine ((take_reads 4).bind fun bytes => Reads.pure _).congr fun value w => ⟨fun h => ?_, fun h => ?_⟩
  · obtain ⟨bytes, u, v, ⟨hlen, rfl⟩, ⟨rfl, rfl⟩, rfl⟩ := h
    rw [UInt32.toBeBytes_fromBeBytes hlen, List.append_nil]
  · subst h
    exact ⟨_, _, [], ⟨value.length_toBeBytes, rfl⟩, ⟨value.fromBeBytes_toBeBytes.symm, rfl⟩,
      (List.append_nil _).symm⟩

/-- A word near the start is read off any input, however long. -/
theorem readU32_apply {value : UInt32} (hposition : c.position + 4 < usizeBound)
    (hrest : c.rest = value.toBeBytes ++ r) : readU32 c = .ok value (c.advance 4) := by
  have hlength := congrArg List.length hrest
  simp only [Cursor.rest, List.length_drop, List.length_append, UInt32.length_toBeBytes] at hlength
  have htake := take_apply (by omega) (by rwa [UInt32.length_toBeBytes]) hrest
  rw [UInt32.length_toBeBytes] at htake
  rw [readU32, ReadM.bind_apply, htake]
  exact congrArg (EStateM.Result.ok · (c.advance 4)) value.fromBeBytes_toBeBytes

theorem readU64_reads : Reads usizeBound readU64 (fun value w => w = value.toBeBytes) := by
  refine ((take_reads 8).bind fun bytes => Reads.pure _).congr fun value w => ⟨fun h => ?_, fun h => ?_⟩
  · obtain ⟨bytes, u, v, ⟨hlen, rfl⟩, ⟨rfl, rfl⟩, rfl⟩ := h
    rw [UInt64.toBeBytes_fromBeBytes hlen, List.append_nil]
  · subst h
    exact ⟨_, _, [], ⟨value.length_toBeBytes, rfl⟩, ⟨value.fromBeBytes_toBeBytes.symm, rfl⟩,
      (List.append_nil _).symm⟩

theorem readBool_reads : Reads usizeBound readBool (fun value w => w = boolBytes value) := by
  refine (readU32_reads.bind fun value => (Reads.pure false).ite (value = 0)
    ((Reads.pure true).ite (value = 1) (Reads.throw _))).congr fun b w => ⟨fun h => ?_, fun h => ?_⟩
  · obtain ⟨value, u, v, rfl, hb, rfl⟩ := h
    rcases hb with ⟨rfl, rfl, rfl⟩ | ⟨-, ⟨rfl, rfl, rfl⟩ | ⟨-, hb⟩⟩
    · rfl
    · rfl
    · exact hb.elim
  · subst h
    refine ⟨if b then 1 else 0, _, [], rfl, ?_, (List.append_nil _).symm⟩
    cases b
    · exact .inl ⟨rfl, rfl, rfl⟩
    · exact .inr ⟨by decide, .inl ⟨rfl, rfl, rfl⟩⟩

theorem readFixed_reads (n : Nat) :
    Reads usizeBound (readFixed n) (fun value w => w = value.bytes) where
  exact {c c' a} h := by
    rw [readFixed, ReadM.bind_apply] at h
    split at h
    next bytes c₁ htake =>
      obtain ⟨w, ⟨hlen, rfl⟩, hrest, rfl⟩ := (take_reads n).exact htake
      split at h
      next =>
        cases h
        exact ⟨w, rfl, hrest, rfl⟩
      next hne => exact absurd hlen hne
    next => cases h
  accepts {c a w r} hin h hrest := by
    subst h
    have htake := (take_reads n).accepts hin ⟨a.length_eq, rfl⟩ hrest
    rw [readFixed, ReadM.bind_apply, htake]
    change (if h : a.bytes.length = n then _ else _ : DecodeM (Fixed n)) _ = _
    rw [dif_pos a.length_eq]
    rfl

theorem readLength_reads (field : String) (limit : Nat) :
    Reads usizeBound (readLength field limit)
      (fun length w => length ≤ limit ∧ length < 2 ^ 32 ∧ w = (UInt32.ofNat length).toBeBytes) := by
  refine (readU32_reads.bind fun value => (Reads.throw _).ite (value.toNat > limit)
    (Reads.pure value.toNat)).congr fun length w => ⟨fun h => ?_, fun h => ?_⟩
  · obtain ⟨value, u, v, rfl, hcheck, rfl⟩ := h
    rcases hcheck with ⟨-, hcheck⟩ | ⟨hle, rfl, rfl⟩
    · exact hcheck.elim
    · exact ⟨by omega, value.toNat_lt, by rw [UInt32.ofNat_toNat, List.append_nil]⟩
  · obtain ⟨hle, hlt, rfl⟩ := h
    have hnat : (UInt32.ofNat length).toNat = length := UInt32.toNat_ofNat_of_lt' hlt
    exact ⟨UInt32.ofNat length, _, [], rfl, .inr ⟨by omega, hnat.symm, rfl⟩, (List.append_nil _).symm⟩

theorem readLength_apply (field : String) {length : Nat} (hlength : length < 2 ^ 32) (hlimit : length ≤ limit)
    (hposition : c.position + 4 < usizeBound) (hrest : c.rest = (UInt32.ofNat length).toBeBytes ++ r) :
    readLength field limit c = .ok length (c.advance 4) := by
  have hnat : (UInt32.ofNat length).toNat = length := UInt32.toNat_ofNat_of_lt' hlength
  rw [readLength, ReadM.bind_apply, readU32_apply hposition hrest]
  simp only [hnat, if_neg (Nat.not_lt.mpr hlimit)]
  rfl

/-- An opaque value is read with zeroes as its padding only. -/
theorem readOpaqueSlice_reads (field : String) (limit : Nat) :
    Reads usizeBound (readOpaqueSlice field limit)
      (fun value w => value.length ≤ limit ∧ value.length < 2 ^ 32 ∧ w = opaqueBytes value) := by
  refine ((readLength_reads field limit).bind fun length => (take_reads length).bind fun value =>
    (take_reads _).bind fun pad => (Reads.throw _).ite (pad.any (· ≠ 0) = true)
      (Reads.pure value)).congr fun value w => ⟨fun h => ?_, fun h => ?_⟩
  · obtain ⟨length, u, v, ⟨hle, hlt, rfl⟩, ⟨bytes, u₁, v₁, ⟨hlen, rfl⟩, ⟨pad, u₂, v₂, ⟨hpad, rfl⟩,
      hzero, rfl⟩, rfl⟩, rfl⟩ := h
    rcases hzero with ⟨-, hzero⟩ | ⟨hz, rfl, rfl⟩
    · exact hzero.elim
    · subst hlen
      have hreplicate : u₂ = List.replicate (padding value.length) 0 := by
        rw [padding_mask_eq] at hpad
        refine List.eq_replicate_iff.mpr ⟨hpad, fun b hb => ?_⟩
        by_contra hne
        exact hz (List.any_eq_true.mpr ⟨b, hb, decide_eq_true hne⟩)
      refine ⟨hle, hlt, ?_⟩
      rw [opaqueBytes, ← hreplicate]
      simp only [List.append_nil]
  · obtain ⟨hle, hlt, rfl⟩ := h
    refine ⟨value.length, _, _, ⟨hle, hlt, rfl⟩, ⟨value, _, _, ⟨rfl, rfl⟩,
      ⟨List.replicate (padding value.length) 0, _, [], ⟨?_, rfl⟩, .inr ⟨?_, rfl, rfl⟩,
        (List.append_nil _).symm⟩, rfl⟩, rfl⟩
    · rw [padding_mask_eq, List.length_replicate]
    · intro hany
      obtain ⟨b, hb, hne⟩ := List.any_eq_true.mp hany
      exact of_decide_eq_true hne (List.eq_of_mem_replicate hb)

/-- An opaque value whose padding may be anything: the padding alone decides. -/
theorem readOpaqueSlice_apply {pad : Bytes} {field : String} (hlength : value.length < 2 ^ 32)
    (hlimit : value.length ≤ limit) (hpad : pad.length = padding value.length)
    (hposition : c.position + (4 + value.length + pad.length) < usizeBound)
    (hrest : c.rest = (UInt32.ofNat value.length).toBeBytes ++ (value ++ (pad ++ r))) :
    readOpaqueSlice field limit c =
      if pad.any (· ≠ 0) then .error .invalidPadding (c.advance (4 + value.length + pad.length))
      else .ok value (c.advance (4 + value.length + pad.length)) := by
  have hroom := congrArg List.length hrest
  simp only [Cursor.rest, List.length_drop, List.length_append, UInt32.length_toBeBytes] at hroom
  have hword := readLength_apply field hlength hlimit (by omega) hrest
  have hrest₁ := Cursor.rest_advance_of_append hrest
  rw [UInt32.length_toBeBytes] at hrest₁
  have hvalue := take_apply (by simp only [Cursor.advance_position, Cursor.advance_input]; omega)
    (by simp only [Cursor.advance_position]; omega) hrest₁
  have hrest₂ := Cursor.rest_advance_of_append hrest₁
  have hzeros := take_apply (by simp only [Cursor.advance_position, Cursor.advance_input]; omega)
    (by simp only [Cursor.advance_position]; omega) hrest₂
  simp only [Cursor.advance_advance] at hvalue hzeros
  simp only [readOpaqueSlice, ReadM.bind_apply, hword, hvalue, padding_mask_eq, ← hpad, hzeros]
  by_cases hany : pad.any (· ≠ 0) = true
  · simp only [if_pos hany]
    rfl
  · simp only [if_neg hany]
    rfl

theorem readOpaqueSlice_position_lt {field : String} {c' : Decoder} (h : readOpaqueSlice field limit c = .ok value c') :
    c'.position < usizeBound := by
  simp only [readOpaqueSlice, ReadM.bind_apply] at h
  split at h
  next =>
    split at h
    next =>
      split at h
      next pad c₁ hpad =>
        have hlt := take_position_lt hpad
        split at h
        · cases h
        · cases h
          exact hlt
      next => cases h
    next => cases h
  next => cases h

/-- A limit below the range of the length word is the only limit there is. -/
theorem readOpaque_reads_of_lt (field : String) (h : limit < 2 ^ 32) : Reads usizeBound (readOpaque field limit)
      (fun value w => value.length ≤ limit ∧ w = opaqueBytes value) :=
  (readOpaqueSlice_reads field limit).congr fun _ _ =>
    ⟨fun hw => ⟨hw.1, hw.2.2⟩, fun hw => ⟨hw.1, Nat.lt_of_le_of_lt hw.1 h, hw.2⟩⟩

/-- Reading an array reads its count, then its members. -/
theorem readArray_reads (h : Reads usizeBound decode F) (field : String) (limit : Nat) :
    Reads usizeBound (readArray field limit decode) (fun values w => values.length ≤ limit ∧
      values.length < 2 ^ 32 ∧ ∃ v, F.many values v ∧ w = (UInt32.ofNat values.length).toBeBytes ++ v) := by
  refine ((readLength_reads field limit).bind fun length => h.many length).congr fun values w =>
    ⟨fun hw => ?_, fun hw => ?_⟩
  · obtain ⟨length, u, v, ⟨hle, hlt, rfl⟩, ⟨rfl, hmany⟩, rfl⟩ := hw
    exact ⟨hle, hlt, v, hmany, rfl⟩
  · obtain ⟨hle, hlt, v, hmany, rfl⟩ := hw
    exact ⟨values.length, _, v, ⟨hle, hlt, rfl⟩, ⟨rfl, hmany⟩, rfl⟩

theorem map_run {γ : Type} (decode : DecodeM α) (f : α → γ) (input : Bytes) :
    (run decode input).map f = run (f <$> decode) input := by
  unfold run
  rw [map_eq_pure_bind, ReadM.bind_apply]
  cases decode (new input) <;> rfl

theorem finish_run (c : Decoder) :
    finish c = if c.position = c.input.length then .ok () c else .error .trailingBytes c := by
  simp only [finish, ReadM.bind_apply, ReadM.get_apply]
  by_cases h : c.position = c.input.length
  · simp only [if_pos h]; rfl
  · simp only [if_neg h]; rfl

/-- A value is decoded if it takes up the whole input. -/
theorem run_finish_ok (h : Reads usizeBound decode F) :
    run (do let value ← decode; finish; return value) input = .ok a ↔
      ∃ c, decode (new input) = .ok a c ∧ c.position = input.length := by
  simp only [run, ReadM.bind_apply]
  cases hd : decode (new input) with
  | error => simp only [reduceCtorEq, false_and, exists_false]
  | ok _ c =>
    have hinput : c.input = input := h.input_eq hd
    simp only [finish_run, hinput]
    by_cases hend : c.position = input.length
    · simp only [if_pos hend]
      refine Iff.intro (fun heq => ?_) (fun heq => ?_)
      · cases heq
        exact ⟨c, rfl, hend⟩
      · obtain ⟨c', heq, _⟩ := heq
        cases heq
        rfl
    · simp only [if_neg hend]
      refine Iff.intro (fun heq => nomatch heq) (fun heq => ?_)
      obtain ⟨c', heq, hend'⟩ := heq
      cases heq
      exact absurd hend' hend

/-- What a decoding function that ends with `finish` accepts is spelled by its whole input. -/
theorem format_of_run_finish (h : Reads usizeBound decode F)
    (hrun : run (do let value ← decode; finish; return value) input = .ok a) : F a input :=
  h.format_of_whole ((run_finish_ok h).mp hrun)

/-- A decoding function that ends with `finish` accepts exactly the whole inputs its format
relates to a value, as long as the input is one a slice can hold. -/
theorem run_finish_ok_iff (h : Reads usizeBound decode F) (hlen : input.length < usizeBound) :
    run (do let value ← decode; finish; return value) input = .ok a ↔ F a input :=
  (run_finish_ok h).trans (h.whole_iff hlen)

/-- A decoding function that takes all of its input. -/
theorem format_of_run (h : ReadsRest usizeBound decode F) (hrun : run decode input = .ok a) : F a input := by
  unfold run at hrun
  split at hrun
  next value decoder hdecode =>
    cases hrun
    exact h.exact hdecode
  next => cases hrun

theorem run_ok_iff (h : ReadsRest usizeBound decode F) (hlen : input.length < usizeBound) :
    run decode input = .ok a ↔ F a input := by
  constructor
  · exact format_of_run h
  · intro hw
    obtain ⟨c', hread⟩ := h.accepts (c := new input) ⟨Nat.zero_le _, hlen⟩ hw
    unfold run
    rw [hread]

end Decoder

/-! ## Encoder primitives -/

namespace Encoder

theorem writeU32_writes (value : UInt32) : Writes (writeU32 value) True value.toBeBytes :=
  Writes.append _

theorem writeU64_writes (value : UInt64) : Writes (writeU64 value) True value.toBeBytes :=
  Writes.append _

theorem writeBool_writes (value : Bool) : Writes (writeBool value) True (boolBytes value) :=
  Writes.append _

theorem writeFixed_writes (value : Bytes) : Writes (writeFixed value) True value :=
  Writes.append _

/-- A value is written unless its length has no word. -/
theorem writeOpaque_writes (value : Bytes) :
    Writes (writeOpaque value) (value.length < 2 ^ 32) (opaqueBytes value) := by
  unfold writeOpaque
  by_cases h : value.length < 2 ^ 32
  · rw [if_pos h]
    refine ((writeU32_writes _).seq ((Writes.append value).seq (Writes.append _))).congr ?_ fun _ => rfl
    simp only [and_self, h]
  · rw [if_neg h]
    exact (Writes.throw _ []).congr ⟨False.elim, h⟩ False.elim

/-- What a whole encoding yields, and when it fails. -/
theorem run_ok_iff {encode : EncodeM Unit} {P : Prop} (h : Writes encode P w) {b : Bytes} :
    run encode = .ok b ↔ P ∧ b = w := by
  unfold run
  by_cases hP : P
  · rw [h.run_nil hP]
    simp [Except.map, hP, eq_comm]
  · obtain ⟨e, he⟩ := (h []).2 hP
    rw [he]
    simp [Except.map, hP]

theorem run_error_iff {encode : EncodeM Unit} {P : Prop} (h : Writes encode P w) :
    (∃ e, run encode = .error e) ↔ ¬ P := by
  unfold run
  by_cases hP : P
  · rw [h.run_nil hP]
    simp [Except.map, hP]
  · obtain ⟨e, he⟩ := (h []).2 hP
    rw [he]
    simp [Except.map, hP]

end Encoder

end NfsEmbed.Rpc
