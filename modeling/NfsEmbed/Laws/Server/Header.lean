import NfsEmbed.Client.Call
import NfsEmbed.Laws.Rpc.Codec

/-!
# The header of a call

The server takes a record for a call exactly if a client could have encoded it as one, with a credential
and a verifier of at most 400 bytes.
-/

namespace NfsEmbed.Server

open Lib Rpc

namespace CallHeader

/-- The bodies are within the bounds of RFC 5531. -/
def Bounded (call : CallHeader) : Prop := call.credentialBody.length ≤ 400 ∧ call.verifier.length ≤ 400

/-- What stands after the message type. -/
def bodyBytes (call : CallHeader) : Bytes :=
  call.rpcVersion.toBeBytes ++ (call.program.toBeBytes ++ (call.version.toBeBytes ++ (call.procedure.toBeBytes ++
    (call.credentialFlavor.toBeBytes ++ (opaqueBytes call.credentialBody ++ (call.verifierFlavor.toBeBytes ++
    (opaqueBytes call.verifier ++ call.args)))))))

def bytes (call : CallHeader) : Bytes := call.xid.toBeBytes ++ (RPC_CALL.toBeBytes ++ call.bodyBytes)

end CallHeader

theorem rpcCallWithVerifier_writes {call : CallHeader} (h : call.Bounded) :
    Writes (rpcCallWithVerifier call) True call.bytes := by
  have hcredential : call.credentialBody.length < 2 ^ 32 := Nat.lt_of_le_of_lt h.1 (by decide)
  have hverifier : call.verifier.length < 2 ^ 32 := Nat.lt_of_le_of_lt h.2 (by decide)
  refine ((Encoder.writeU32_writes _).seq <| (Encoder.writeU32_writes _).seq <| (Encoder.writeU32_writes _).seq <|
    (Encoder.writeU32_writes _).seq <| (Encoder.writeU32_writes _).seq <| (Encoder.writeU32_writes _).seq <|
    (Encoder.writeU32_writes _).seq <| (Encoder.writeOpaque_writes _).seq <| (Encoder.writeU32_writes _).seq <|
    (Encoder.writeOpaque_writes _).seq <| Encoder.writeFixed_writes _).congr ?_ fun _ => rfl
  simp only [hcredential, hverifier, and_self]

theorem decodeCallBody_reads (xid : UInt32) : ReadsRest usizeBound (decodeCallBody xid)
    (fun call w => call.xid = xid ∧ call.Bounded ∧ w = call.bodyBytes) := by
  have hreads := ReadsRest.bind Decoder.readU32_reads fun rpcVersion => .bind Decoder.readU32_reads fun program =>
    .bind Decoder.readU32_reads fun version => .bind Decoder.readU32_reads fun procedure =>
    .bind Decoder.readU32_reads fun credentialFlavor =>
    .bind (Decoder.readOpaqueSlice_reads "RPC credential" 400) fun credentialBody =>
    .bind Decoder.readU32_reads fun verifierFlavor =>
    .bind (Decoder.readOpaqueSlice_reads "RPC verifier" 400) fun verifier =>
    .rest fun args => CallHeader.mk xid rpcVersion program version procedure credentialFlavor credentialBody
      verifierFlavor verifier args
  refine ReadsRest.congr hreads fun call w => ⟨fun h => ?_, fun h => ?_⟩
  · obtain ⟨_, _, _, rfl, ⟨_, _, _, rfl, ⟨_, _, _, rfl, ⟨_, _, _, rfl, ⟨_, _, _, rfl, ⟨_, _, _, ⟨hcredential, -, rfl⟩,
      ⟨_, _, _, rfl, ⟨_, _, _, ⟨hverifier, -, rfl⟩, rfl, rfl⟩, rfl⟩, rfl⟩, rfl⟩, rfl⟩, rfl⟩, rfl⟩, rfl⟩ := h
    exact ⟨rfl, ⟨hcredential, hverifier⟩, rfl⟩
  · obtain ⟨rfl, ⟨hcredential, hverifier⟩, rfl⟩ := h
    exact ⟨_, _, _, rfl, ⟨_, _, _, rfl, ⟨_, _, _, rfl, ⟨_, _, _, rfl, ⟨_, _, _, rfl, ⟨_, _, _,
      ⟨hcredential, Nat.lt_of_le_of_lt hcredential (by decide), rfl⟩, ⟨_, _, _, rfl, ⟨_, _, _,
      ⟨hverifier, Nat.lt_of_le_of_lt hverifier (by decide), rfl⟩, rfl, rfl⟩, rfl⟩, rfl⟩, rfl⟩, rfl⟩, rfl⟩, rfl⟩, rfl⟩

/-- A message that is no call ends the header. -/
theorem decodeCallHeader_reads : ReadsRest usizeBound decodeCallHeader fun result w =>
    (result = none ∧ ∃ (xid messageType : UInt32) (rest : Bytes), messageType ≠ RPC_CALL ∧
      w = xid.toBeBytes ++ (messageType.toBeBytes ++ rest)) ∨
    ∃ call : CallHeader, result = some call ∧ call.Bounded ∧ w = call.bytes := by
  refine (ReadsRest.bind Decoder.readU32_reads fun xid => .bind Decoder.readU32_reads fun messageType =>
    (ReadsRest.pure none).ite (messageType ≠ RPC_CALL) ((decodeCallBody_reads xid).map some)).congr
    fun result w => ⟨fun h => ?_, fun h => ?_⟩
  · obtain ⟨xid, _, _, rfl, ⟨messageType, _, rest, rfl, hbody, rfl⟩, rfl⟩ := h
    rcases hbody with ⟨htype, rfl⟩ | ⟨htype, call, rfl, rfl, hbounded, rfl⟩
    · exact .inl ⟨rfl, xid, messageType, rest, htype, rfl⟩
    · rw [not_not.mp htype]
      exact .inr ⟨call, rfl, hbounded, rfl⟩
  · rcases h with ⟨rfl, xid, messageType, rest, htype, rfl⟩ | ⟨call, rfl, hbounded, rfl⟩
    · exact ⟨xid, _, _, rfl, ⟨messageType, _, rest, rfl, .inl ⟨htype, rfl⟩, rfl⟩, rfl⟩
    · exact ⟨call.xid, _, _, rfl, ⟨RPC_CALL, _, _, rfl, .inr ⟨not_not.mpr rfl, call, rfl, rfl, hbounded, rfl⟩, rfl⟩, rfl⟩

/-- A header that is decoded is spelled as a client spells it. -/
theorem bytes_of_decodeCallHeader {record : Bytes} {call : CallHeader}
    (h : Decoder.run decodeCallHeader record = .ok (some call)) : call.Bounded ∧ record = call.bytes := by
  rcases Decoder.format_of_run decodeCallHeader_reads h with ⟨hnone, -⟩ | ⟨call', hcall, hbounded, hbytes⟩
  · cases hnone
  · cases hcall
    exact ⟨hbounded, hbytes⟩

/-- The records that are taken for a call are those that a client encodes it as. -/
theorem decodeCallHeader_ok_iff {record : Bytes} (hrecord : record.length < usizeBound) {call : CallHeader} :
    Decoder.run decodeCallHeader record = .ok (some call) ↔
      call.Bounded ∧ Encoder.run (rpcCallWithVerifier call) = .ok record := by
  constructor
  · intro h
    obtain ⟨hbounded, hbytes⟩ := bytes_of_decodeCallHeader h
    exact ⟨hbounded, (Encoder.run_ok_iff (rpcCallWithVerifier_writes hbounded)).mpr ⟨trivial, hbytes⟩⟩
  · intro h
    obtain ⟨-, hbytes⟩ := (Encoder.run_ok_iff (rpcCallWithVerifier_writes h.1)).mp h.2
    exact (Decoder.run_ok_iff decodeCallHeader_reads hrecord).mpr (.inr ⟨call, rfl, h.1, hbytes⟩)

end NfsEmbed.Server
