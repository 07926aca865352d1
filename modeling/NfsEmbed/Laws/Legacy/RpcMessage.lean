import NfsEmbed.Laws.Legacy.Xdr
import NfsEmbed.Laws.Rpc.Auth
import NfsEmbed.Laws.Server.Header
import NfsEmbed.Legacy.RpcMessage

/-!
# RPC messages of the pre-1.0 implementation, and of the server that replaced it

Every message is read back from what is written for it. What the new server takes for a call, the old one
takes for the same call, unless an authentication flavor has a number it does not know: then it reads no
message at all, where the new server answers with an authentication error.

The laws are `messages_read_back` and `calls_read_alike`. What a server does with a message is not the
subject here.
-/

namespace NfsEmbed.Legacy

open Lib Rpc

/-! ## Round trips -/

theorem readWords_consumes (words : List UInt32) :
    Consumes (readWords words.length) (words.flatMap UInt32.toBeBytes) words := by
  induction words with
  | nil => exact Consumes.pure []
  | cons word _ ih => exact (deserialize_consumes word trivial).bind (ih.map _)

instance : LawfulXdr (List UInt32) where
  spell value := (UInt32.ofNat value.length).toBeBytes ++ value.flatMap UInt32.toBeBytes
  Fits bound value := value.length < bound
  serialize_writes value := by
    show Writes (if value.length < 2 ^ 32 - 1 then _ else _) _ _
    by_cases h : value.length < 2 ^ 32 - 1
    · rw [if_pos h]
      refine ((serialize_writes (UInt32.ofNat value.length)).seq
        (Writes.forM (fun word : UInt32 => serialize_writes word) value)).congr ?_ fun _ => rfl
      exact ⟨fun _ => h, fun _ => ⟨trivial, fun _ _ => trivial⟩⟩
    · rw [if_neg h]
      exact (Writes.throw _ _).congr ⟨False.elim, h⟩ fun _ => rfl
  deserialize_consumes value hfits := by
    have hlength : (UInt32.ofNat value.length).toNat = value.length := UInt32.toNat_ofNat_of_lt' hfits
    refine (deserialize_consumes (UInt32.ofNat value.length) trivial).bind ?_
    rw [hlength]
    exact readWords_consumes value

section Union

variable {υ α β : Type} [Inhabited υ] [Xdr α] [Xdr β] [LawfulXdr α] [LawfulXdr β]

@[reducible] def LawfulXdr.union (arms : υ → α ⊕ β) (ofArms : α ⊕ β → υ) (h : ∀ value, ofArms (arms value) = value) :
    @LawfulXdr υ (xdrUnion arms ofArms) :=
  letI := xdrUnion arms ofArms
  { spell := fun value =>
      match arms value with
      | .inl value => (0 : UInt32).toBeBytes ++ spell value
      | .inr value => (1 : UInt32).toBeBytes ++ spell value
    Fits := fun bound value =>
      match arms value with
      | .inl value => Fits bound value
      | .inr value => Fits bound value
    serialize_writes := fun value => by
      show Writes (match arms value with | .inl value => _ | .inr value => _) _ _
      cases arms value with
      | inl value => exact ((serialize_writes (0 : UInt32)).seq (serialize_writes value)).congr (iff_of_eq (true_and _)) fun _ => rfl
      | inr value => exact ((serialize_writes (1 : UInt32)).seq (serialize_writes value)).congr (iff_of_eq (true_and _)) fun _ => rfl
    deserialize_consumes := fun value hfits => by
      conv => arg 3; rw [← h value]
      cases harms : arms value with
      | inl value =>
        rw [harms] at hfits
        exact (deserialize_consumes (0 : UInt32) trivial).bind ((deserialize_consumes value hfits).map _)
      | inr value =>
        rw [harms] at hfits
        exact (deserialize_consumes (1 : UInt32) trivial).bind ((deserialize_consumes value hfits).map _) }

end Union

namespace Message

instance : LawfulXdr AuthStat := .enum _ _ _ fun stat => by cases stat <;> rfl

instance : LawfulXdr AuthFlavor := .enum _ _ _ fun flavor => by cases flavor <;> rfl

instance : LawfulXdr AuthUnix := .struct _ _ fun _ => rfl

instance : LawfulXdr OpaqueAuth := .struct _ _ fun _ => rfl

instance : LawfulXdr CallBody := .struct _ _ fun _ => rfl

instance : LawfulXdr MismatchInfo := .struct _ _ fun _ => rfl

def acceptBytes : AcceptBody → Bytes
  | .success => (0 : UInt32).toBeBytes
  | .progUnavail => (1 : UInt32).toBeBytes
  | .progMismatch info => (2 : UInt32).toBeBytes ++ spell info
  | .procUnavail => (3 : UInt32).toBeBytes
  | .garbageArgs => (4 : UInt32).toBeBytes

instance : LawfulXdr AcceptBody where
  spell := acceptBytes
  Fits _ _ := True
  serialize_writes body := by
    cases body with
    | progMismatch info =>
      exact ((serialize_writes (2 : UInt32)).seq (serialize_writes (info.low, info.high))).congr
        ⟨fun _ => trivial, fun _ => ⟨trivial, trivial, trivial⟩⟩ fun _ => rfl
    | success | progUnavail | procUnavail | garbageArgs => exact serialize_writes (_ : UInt32)
  deserialize_consumes body _ := by
    cases body with
    | progMismatch info =>
      exact (deserialize_consumes (2 : UInt32) trivial).bind
        ((deserialize_consumes info (And.intro trivial trivial)).map AcceptBody.progMismatch)
    | success => exact (deserialize_consumes (0 : UInt32) trivial).bind_nil (Consumes.pure _)
    | progUnavail => exact (deserialize_consumes (1 : UInt32) trivial).bind_nil (Consumes.pure _)
    | procUnavail => exact (deserialize_consumes (3 : UInt32) trivial).bind_nil (Consumes.pure _)
    | garbageArgs => exact (deserialize_consumes (4 : UInt32) trivial).bind_nil (Consumes.pure _)

instance : LawfulXdr AcceptedReply := .struct _ _ fun _ => rfl

instance : LawfulXdr RejectedReply := .union _ _ fun reply => by cases reply <;> rfl

instance : LawfulXdr ReplyBody := .union _ _ fun body => by cases body <;> rfl

instance : LawfulXdr RpcBody := .union _ _ fun body => by cases body <;> rfl

instance : LawfulXdr RpcMsg := .struct _ _ fun _ => rfl

theorem RpcMsg.fits_mono {message : RpcMsg} {bound bound' : Nat} (h : Fits bound message) (hle : bound ≤ bound') :
    Fits bound' message := by
  obtain ⟨xid, body⟩ := message
  have hauth : ∀ {auth : OpaqueAuth}, Fits bound auth → Fits bound' auth := fun h => ⟨trivial, Nat.lt_of_lt_of_le h.2 hle⟩
  refine ⟨trivial, ?_⟩
  cases body with
  | call =>
    obtain ⟨-, -, -, -, -, hcred, hverf⟩ := h
    exact ⟨trivial, trivial, trivial, trivial, hauth hcred, hauth hverf⟩
  | reply reply =>
    cases reply with
    | msgAccepted => exact ⟨hauth h.2.1, trivial⟩
    | msgDenied reply =>
      cases reply with
      | rpcMismatch => exact ⟨trivial, trivial⟩
      | authError => exact trivial

/-- Every message is read back from what is written for it, whatever stands before and behind it, if its vectors can
be written at all. -/
theorem messages_read_back (message : RpcMsg) (hfits : Fits (2 ^ 32 - 1) message) (output rest : Bytes) :
    ∃ w, (serialize message).run output = .ok ((), output ++ w) ∧
      (deserialize : Reader RpcMsg).run (w ++ rest) = .ok (message, rest) :=
  ⟨spell message, (serialize_writes message output).1 hfits,
    deserialize_consumes message (RpcMsg.fits_mono hfits (by decide)) rest⟩

/-- A call whose credentials have five bytes, which are padded. -/
theorem messages_read_back_padded :
    let message : RpcMsg := ⟨7, .call ⟨2, 100003, 3, 0, ⟨.unix, [1, 2, 3, 4, 5]⟩, ⟨.null, []⟩⟩⟩
    ∃ w, (serialize message).run [9] = .ok ((), [9] ++ w) ∧ (deserialize : Reader RpcMsg).run (w ++ [1]) = .ok (message, [1]) := by
  intro message
  refine messages_read_back message ⟨trivial, ?_⟩ [9] [1]
  exact ⟨trivial, trivial, trivial, trivial, ⟨trivial, (by decide : 5 < 2 ^ 32 - 1)⟩,
    ⟨trivial, (by decide : 0 < 2 ^ 32 - 1)⟩⟩

/-! ## What is read of a call -/

/-- The error of an authentication flavor without a name. -/
def unknownFlavor : IoError := .invalidData "Invalid value for auth_flavor"

theorem AuthFlavor.toU32_of_fromU32 {number : UInt32} {flavor : AuthFlavor} (h : AuthFlavor.fromU32 number = some flavor) :
    flavor.toU32 = number := by
  unfold AuthFlavor.fromU32 at h
  split at h <;> cases h <;> rfl

/-- A flavor without a name is an error. -/
theorem opaqueAuth_rejects {number : UInt32} (h : AuthFlavor.fromU32 number = none) :
    Rejects (deserialize : Reader OpaqueAuth) number.toBeBytes unknownFlavor := by
  have hflavor : Rejects (deserialize : Reader AuthFlavor) (number.toBeBytes ++ []) unknownFlavor := by
    refine Rejects.after (deserialize_consumes number trivial) ?_
    rw [h]
    exact Rejects.throw _
  rw [List.append_nil] at hflavor
  exact (hflavor.bind _).bind _

/-- What the old server makes of a call that the new one has read. -/
def received (header : Server.CallHeader) : Except IoError (RpcMsg × Bytes) :=
  match AuthFlavor.fromU32 header.credentialFlavor, AuthFlavor.fromU32 header.verifierFlavor with
  | some credential, some verifier =>
    .ok (⟨header.xid, .call {
      rpcvers := header.rpcVersion, prog := header.program, vers := header.version, proc := header.procedure
      cred := ⟨credential, header.credentialBody⟩, verf := ⟨verifier, header.verifier⟩ }⟩, header.args)
  | _, _ => .error unknownFlavor

/-- A call that fails behind its numbers. -/
theorem rpcMsg_rejects (xid rpcvers prog vers proc : UInt32) {w : Bytes} {error : IoError}
    (h : Rejects (deserialize : Reader (OpaqueAuth × OpaqueAuth)) w error) :
    Rejects (deserialize : Reader RpcMsg) (spell xid ++ (spell (0 : UInt32) ++ (spell rpcvers ++ (spell prog ++
      (spell vers ++ (spell proc ++ w)))))) error := by
  have hbody : Rejects (deserialize : Reader CallBody) (spell rpcvers ++ (spell prog ++ (spell vers ++ (spell proc ++ w)))) error :=
    (Rejects.after (deserialize_consumes rpcvers trivial) <| (Rejects.after (deserialize_consumes prog trivial) <|
      (Rejects.after (deserialize_consumes vers trivial) <| (Rejects.after (deserialize_consumes proc trivial) <|
      h.bind _).bind _).bind _).bind _).bind _
  exact (Rejects.after (deserialize_consumes xid trivial) <| (Rejects.after (deserialize_consumes (0 : UInt32) trivial) <|
    hbody.bind _).bind _).bind _

/-- The old server reads the header of the new one. -/
theorem rpcMsg_run {header : Server.CallHeader} (h : header.Bounded) :
    (deserialize : Reader RpcMsg).run header.bytes = received header := by
  have hcredential : header.credentialBody.length < 2 ^ 32 := Nat.lt_of_le_of_lt h.1 (by decide)
  have hverifier : header.verifier.length < 2 ^ 32 := Nat.lt_of_le_of_lt h.2 (by decide)
  unfold received
  cases hcred : AuthFlavor.fromU32 header.credentialFlavor with
  | none =>
    have hrejects : Rejects (deserialize : Reader (OpaqueAuth × OpaqueAuth)) header.credentialFlavor.toBeBytes unknownFlavor :=
      (opaqueAuth_rejects hcred).bind _
    have hrun := rpcMsg_rejects header.xid header.rpcVersion header.program header.version header.procedure hrejects
      (opaqueBytes header.credentialBody ++ (header.verifierFlavor.toBeBytes ++ (opaqueBytes header.verifier ++ header.args)))
    simp only [List.append_assoc] at hrun
    exact hrun
  | some credential =>
    have hflavor := AuthFlavor.toU32_of_fromU32 hcred
    have hcred : Consumes (deserialize : Reader OpaqueAuth) (header.credentialFlavor.toBeBytes ++ opaqueBytes header.credentialBody)
        ⟨credential, header.credentialBody⟩ := by
      rw [← hflavor]
      exact deserialize_consumes (OpaqueAuth.mk credential header.credentialBody) ⟨trivial, hcredential⟩
    cases hverf : AuthFlavor.fromU32 header.verifierFlavor with
    | none =>
      have hrejects : Rejects (deserialize : Reader (OpaqueAuth × OpaqueAuth)) _ unknownFlavor :=
        .after hcred ((opaqueAuth_rejects hverf).bind _)
      have hrun := rpcMsg_rejects header.xid header.rpcVersion header.program header.version header.procedure hrejects
        (opaqueBytes header.verifier ++ header.args)
      simp only [List.append_assoc] at hrun
      exact hrun
    | some verifier =>
      have hfits : Fits (2 ^ 32) (RpcMsg.mk header.xid (.call (.mk header.rpcVersion header.program header.version
          header.procedure ⟨credential, header.credentialBody⟩ ⟨verifier, header.verifier⟩))) :=
        ⟨trivial, trivial, trivial, trivial, trivial, ⟨trivial, hcredential⟩, trivial, hverifier⟩
      dsimp only
      rw [← deserialize_consumes _ hfits header.args]
      refine congrArg _ ?_
      unfold Server.CallHeader.bytes Server.CallHeader.bodyBytes
      rw [← hflavor, ← AuthFlavor.toU32_of_fromU32 hverf]
      show _ = (_ ++ (_ ++ (_ ++ (_ ++ (_ ++ (_ ++ ((_ ++ _) ++ (_ ++ _)))))))) ++ _
      simp only [List.append_assoc]
      rfl

/-- The bytes of a credential that is taken for a user. -/
theorem authSys_bytes {flavor : UInt32} {body : Bytes} {uid gid : UInt32} {gids : List UInt32} {name : Bytes}
    (h : decodePrincipal flavor body = .ok (.authSys uid gid gids name)) :
    ∃ stamp : UInt32, name.length ≤ MAX_MACHINE_NAME ∧ gids.length ≤ MAX_GROUPS ∧
      body = stamp.toBeBytes ++ (opaqueBytes name ++ (uid.toBeBytes ++ (gid.toBeBytes ++
        ((UInt32.ofNat gids.length).toBeBytes ++ gids.flatMap UInt32.toBeBytes)))) := by
  unfold decodePrincipal at h
  split at h
  next => split at h <;> cases h
  next =>
    split at h
    next =>
      obtain ⟨stamp, _, _, _, _, heq, hname, hgids, hbody⟩ := Decoder.format_of_run_finish decodeAuthSys_reads h
      cases heq
      exact ⟨stamp, hname, hgids, hbody⟩
    next => cases h

/-- Both servers read the same calls, from whatever record: the one of a call that the new server has read is read by
the old one as the same call, with the same arguments behind it, unless one of the two flavors has a number that the
old server has no name for. It then reads no message. A credential that the new server takes for a user is one to the
old server, with the same numbers and the same name. -/
theorem calls_read_alike (record : Bytes) (header : Server.CallHeader)
    (hrecord : Decoder.run Server.decodeCallHeader record = .ok (some header)) :
    (deserialize : Reader RpcMsg).run record = received header ∧
    ∀ uid gid gids name, decodePrincipal header.credentialFlavor header.credentialBody = .ok (.authSys uid gid gids name) →
      ∃ stamp, (deserialize : Reader AuthUnix).run header.credentialBody = .ok (⟨stamp, name, uid, gid, gids⟩, []) := by
  obtain ⟨hbounded, rfl⟩ := Server.bytes_of_decodeCallHeader hrecord
  refine ⟨rpcMsg_run hbounded, fun uid gid gids name hprincipal => ?_⟩
  obtain ⟨stamp, hname, hgids, hbody⟩ := authSys_bytes hprincipal
  have hfits : Fits (2 ^ 32) (AuthUnix.mk stamp name uid gid gids) :=
    ⟨trivial, Nat.lt_of_le_of_lt hname (by decide), trivial, trivial, Nat.lt_of_le_of_lt hgids (by decide)⟩
  have hrun := deserialize_consumes _ hfits []
  rw [List.append_nil] at hrun
  rw [hbody]
  exact ⟨stamp, hrun⟩

/-- A call of `NULL` by user 501 in group 20. -/
def nullCallOf501 : Server.CallHeader where
  xid := 7
  rpcVersion := 2
  program := 100003
  version := 3
  procedure := 0
  credentialFlavor := 1
  credentialBody := [0, 0, 0, 9, 0, 0, 0, 0, 0, 0, 1, 245, 0, 0, 0, 20, 0, 0, 0, 0]
  verifierFlavor := 0
  verifier := []
  args := []

/-- A `NULL` call with credentials of user 501. -/
theorem calls_read_alike_null :
    (deserialize : Reader RpcMsg).run nullCallOf501.bytes = received nullCallOf501 ∧
    ∃ stamp, (deserialize : Reader AuthUnix).run nullCallOf501.credentialBody = .ok (⟨stamp, [], 501, 20, []⟩, []) := by
  obtain ⟨hread, hcredential⟩ := calls_read_alike nullCallOf501.bytes nullCallOf501 (by decide +kernel)
  exact ⟨hread, hcredential 501 20 [] [] (by decide +kernel)⟩

end Message

end NfsEmbed.Legacy
