import NfsEmbed.Handles.Codec

/-!
# What a handle says

The decoder accepts exactly what the encoder makes: a handle that decodes to an export and a key is,
byte for byte, the handle of that export and that key. Nothing about the tag function is needed.

`decodeAny_ok_iff` is the law for one codec. That nobody else can make a handle rests on the tag function,
which is not modelled.
-/

namespace NfsEmbed.Handles.HandleCodec

open Lib Rpc Vfs

variable (codec : HandleCodec)

variable {handle : Bytes} {exportId : ExportId} {object : ObjectKey}

theorem length_payload (exportId : ExportId) (object : ObjectKey) :
    (codec.payload exportId object).length = PAYLOAD_SIZE := by
  simp [payload, codec.instanceId.length_eq, PAYLOAD_SIZE, INSTANCE_SIZE]

theorem length_tag (payload : Bytes) : (codec.tag payload).length = TAG_SIZE := by
  simp [tag, TAG_SIZE, (codec.mac payload).length_eq]

theorem length_encode (exportId : ExportId) (object : ObjectKey) :
    (codec.encode exportId object).length = HANDLE_SIZE := by
  rw [encode, List.length_append, length_payload, length_tag, HANDLE_SIZE]

/-- The payload of a handle, cut into its fields. -/
theorem take_payload (handle : Bytes) :
    handle.take PAYLOAD_SIZE = handle.take 1 ++ (handle.drop 1).take 8 ++ (handle.drop 9).take 4 ++
      (handle.drop 13).take 8 ++ (handle.drop 21).take 8 := by
  rw [← List.take_add, ← List.take_add, ← List.take_add, ← List.take_add]
  rfl

/-- What is accepted is what the encoder makes. -/
theorem encode_of_decodeAny (h : codec.decodeAny handle = .ok (exportId, object)) :
    handle = codec.encode exportId object := by
  unfold decodeAny at h
  split at h
  next => cases h
  next hlen =>
  split at h
  next => cases h
  next hformat =>
  split at h
  next => cases h
  next hinstance =>
  split at h
  next => cases h
  next htag =>
    obtain ⟨rfl, rfl⟩ := Prod.mk.inj (Except.ok.inj h)
    simp only [ne_eq, Decidable.not_not] at hlen hformat hinstance htag
    have hlength : handle.length = 45 := hlen
    have hpayload : codec.payload ⟨UInt32.fromBeBytes ((handle.drop 9).take 4)⟩
        ⟨UInt64.fromBeBytes ((handle.drop 13).take 8), UInt64.fromBeBytes ((handle.drop 21).take 8)⟩ =
        handle.take PAYLOAD_SIZE := by
      rw [take_payload, hformat, hinstance, payload, UInt32.toBeBytes_fromBeBytes (by simp [hlength]),
        UInt64.toBeBytes_fromBeBytes (by simp [hlength]), UInt64.toBeBytes_fromBeBytes (by simp [hlength])]
    rw [encode, hpayload, htag, List.take_append_drop]

/-- The encoder's handles are accepted. -/
theorem decodeAny_encode (exportId : ExportId) (object : ObjectKey) :
    codec.decodeAny (codec.encode exportId object) = .ok (exportId, object) := by
  have hinstance : codec.instanceId.bytes.length = 8 := codec.instanceId.length_eq
  have htake : (codec.encode exportId object).take PAYLOAD_SIZE = codec.payload exportId object :=
    List.take_left' (codec.length_payload exportId object)
  have hdrop : (codec.encode exportId object).drop PAYLOAD_SIZE =
      codec.tag (codec.payload exportId object) :=
    List.drop_left' (codec.length_payload exportId object)
  unfold decodeAny
  rw [htake, hdrop, length_encode]
  simp [encode, payload, List.drop_append, List.take_append, hinstance, List.drop_of_length_le]

/-- A key decoded for an export comes from the handle of that export and that key. -/
theorem decode_ok_iff : codec.decode exportId handle = .ok object ↔ handle = codec.encode exportId object := by
  unfold decode
  constructor
  · intro h
    split at h
    next => cases h
    next encodedExport object' hany =>
      split at h
      next => cases h
      next hexport =>
        cases h
        rw [← not_ne_iff.mp hexport]
        exact codec.encode_of_decodeAny hany
  · intro h
    subst h
    rw [decodeAny_encode]
    simp

theorem decodeAny_ok_iff :
    codec.decodeAny handle = .ok (exportId, object) ↔ handle = codec.encode exportId object := by
  constructor
  · exact codec.encode_of_decodeAny
  · intro h
    rw [h, decodeAny_encode]

/-- The payload of an issued handle under any other tag is refused. -/
theorem decodeAny_of_other_tag (hlength : handle.length = HANDLE_SIZE)
    (hpayload : handle.take PAYLOAD_SIZE = codec.payload exportId object)
    (hne : handle ≠ codec.encode exportId object) : codec.decodeAny handle = .error .invalidTag := by
  have hinstance : codec.instanceId.bytes.length = 8 := codec.instanceId.length_eq
  have hformat : handle.take 1 = [FORMAT_VERSION] := by
    have := congrArg (List.take 1) hpayload
    simpa [List.take_take, PAYLOAD_SIZE, payload] using this
  have hissuer : (handle.drop 1).take 8 = codec.instanceId.bytes := by
    have := congrArg (fun bytes => (bytes.drop 1).take 8) hpayload
    simpa [List.drop_take, List.take_take, PAYLOAD_SIZE, INSTANCE_SIZE, payload, List.take_append, hinstance] using this
  have htag : codec.tag (handle.take PAYLOAD_SIZE) ≠ handle.drop PAYLOAD_SIZE := by
    intro htag
    apply hne
    rw [encode, ← hpayload, htag, List.take_append_drop]
  unfold decodeAny
  rw [if_neg (not_not_intro hlength), if_neg (not_not_intro hformat), if_neg (not_not_intro hissuer), if_pos htag]

/-- A handle of another instance is told apart before its tag is looked at. -/
theorem decodeAny_of_other_instance (hlength : handle.length = HANDLE_SIZE)
    (hformat : handle.take 1 = [FORMAT_VERSION]) (hinstance : (handle.drop 1).take 8 ≠ codec.instanceId.bytes) :
    codec.decodeAny handle = .error .staleInstance := by
  unfold decodeAny
  rw [if_neg (not_not_intro hlength), if_neg (not_not_intro hformat), if_pos hinstance]

/-- Whatever the keyed hash is: a byte string decodes to an export and a key exactly if it is the handle
that was issued for them. -/
theorem handles_decode_iff_issued :
    (∀ handle exportId object, codec.decodeAny handle = .ok (exportId, object) ↔
      handle = codec.encode exportId object) ∧
    (∀ handle exportId object, codec.decode exportId handle = .ok object ↔
      handle = codec.encode exportId object) ∧
    (∀ exportId exportId' object, exportId' ≠ exportId →
      codec.decode exportId' (codec.encode exportId object) = .error .wrongExport) ∧
    (∀ exportId exportId' object object', codec.encode exportId object = codec.encode exportId' object' →
      exportId = exportId' ∧ object = object') ∧
    (∀ handle decoded, codec.decodeAny handle = .ok decoded → handle.length = 45) ∧
    (∀ handle exportId object, handle.take PAYLOAD_SIZE = (codec.encode exportId object).take PAYLOAD_SIZE →
      handle ≠ codec.encode exportId object → ∃ error, codec.decodeAny handle = .error error) ∧
    (∀ handle : Bytes, handle.length = 45 → handle.take 1 = [FORMAT_VERSION] →
      (handle.drop 1).take 8 ≠ codec.instanceId.bytes →
      codec.decodeAny handle = .error .staleInstance ∧
        ∀ exportId, codec.decode exportId handle = .error .staleInstance) := by
  refine ⟨fun _ _ _ => codec.decodeAny_ok_iff, fun _ _ _ => codec.decode_ok_iff, ?_, ?_, ?_, ?_, ?_⟩
  · intro exportId exportId' object hne
    unfold decode
    rw [decodeAny_encode]
    exact if_pos hne.symm
  · intro exportId exportId' object object' heq
    have hdecoded := codec.decodeAny_encode exportId object
    rw [heq, decodeAny_encode] at hdecoded
    obtain ⟨hexport, hobject⟩ := Prod.mk.inj (Except.ok.inj hdecoded)
    exact ⟨hexport.symm, hobject.symm⟩
  · intro handle decoded h
    rw [codec.encode_of_decodeAny h, length_encode]
    rfl
  · intro handle exportId object hpayload hne
    rw [encode, List.take_left' (codec.length_payload exportId object)] at hpayload
    by_cases hlength : handle.length = HANDLE_SIZE
    · exact ⟨_, codec.decodeAny_of_other_tag hlength hpayload hne⟩
    · exact ⟨.invalidLength, if_pos hlength⟩
  · intro handle hlength hformat hinstance
    have hany := codec.decodeAny_of_other_instance hlength hformat hinstance
    refine ⟨hany, fun exportId => ?_⟩
    unfold decode
    rw [hany]

end NfsEmbed.Handles.HandleCodec
