import NfsEmbed.Laws.Rpc.Auth
import NfsEmbed.Laws.Server.Header
import NfsEmbed.Laws.Server.Isolation

/-!
# Credentials on the wire

A client spells a principal in one way, up to a stamp that the server drops: the server reads back
what the client spelled, takes no other spelling, and treats calls with different stamps as one.

The law is `call_parses_canonically`.
-/

namespace NfsEmbed.Server

open Lib Rpc Vfs Replay

/-- The limits of RFC 5531 on a credential. -/
def WithinLimits : Principal → Prop
  | .anonymous => True
  | .authSys _ _ supplementaryGids machineName =>
    supplementaryGids.length ≤ MAX_GROUPS ∧ machineName.length ≤ MAX_MACHINE_NAME

/-- The canonical spelling of an `AUTH_SYS` principal. -/
def authSysBytes (stamp uid gid : UInt32) (gids : List UInt32) (name : Bytes) : Bytes :=
  stamp.toBeBytes ++ (opaqueBytes name ++ (uid.toBeBytes ++ (gid.toBeBytes ++
    ((UInt32.ofNat gids.length).toBeBytes ++ gids.flatMap UInt32.toBeBytes))))

theorem authSysBody_writes (stamp uid gid : UInt32) (gids : List UInt32) (name : Bytes) :
    Writes (authSysBody stamp uid gid gids name) (name.length < 2 ^ 32) (authSysBytes stamp uid gid gids name) := by
  refine ((Encoder.writeU32_writes _).seq <| (Encoder.writeOpaque_writes _).seq <|
    (Encoder.writeU32_writes _).seq <| (Encoder.writeU32_writes _).seq <| (Encoder.writeU32_writes _).seq <|
    Writes.forM Encoder.writeU32_writes gids).congr ?_ fun _ => rfl
  simp

/-- A credential within the limits is short enough for a header. -/
theorem length_authSysBytes_le {stamp uid gid : UInt32} {gids : List UInt32} {name : Bytes}
    (hgids : gids.length ≤ MAX_GROUPS) (hname : name.length ≤ MAX_MACHINE_NAME) :
    (authSysBytes stamp uid gid gids name).length ≤ 400 := by
  have hopaque := length_opaqueBytes_le name
  have hgroups : (gids.flatMap UInt32.toBeBytes).length = 4 * gids.length := by
    simp only [List.length_flatMap, UInt32.length_toBeBytes, List.map_const', List.sum_replicate,
      smul_eq_mul, Nat.mul_comm]
  unfold authSysBytes
  simp only [List.length_append, UInt32.length_toBeBytes]
  unfold MAX_GROUPS at hgids
  unfold MAX_MACHINE_NAME at hname
  omega

/-- An `AUTH_SYS` body decodes to the principal it spells, and to nothing else. -/
theorem decodePrincipal_authSys_iff {body : Bytes} {principal : Principal} :
    decodePrincipal AUTH_SYS body = .ok principal ↔
      ∃ stamp uid gid gids name, principal = .authSys uid gid gids name ∧ WithinLimits principal ∧
        body = authSysBytes stamp uid gid gids name := by
  have hdecode : decodePrincipal AUTH_SYS body =
      Decoder.run (do let principal ← decodeAuthSys; Decoder.finish; return principal) body := rfl
  rw [hdecode]
  constructor
  · intro h
    obtain ⟨stamp, uid, gid, gids, name, rfl, hname, hgids, hbody⟩ :=
      Decoder.format_of_run_finish decodeAuthSys_reads h
    exact ⟨stamp, uid, gid, gids, name, rfl, ⟨hgids, hname⟩, hbody⟩
  · rintro ⟨stamp, uid, gid, gids, name, rfl, ⟨hgids, hname⟩, rfl⟩
    have hlength := @length_authSysBytes_le stamp uid gid gids name hgids hname
    refine (Decoder.run_finish_ok_iff decodeAuthSys_reads ?_).mpr
      ⟨stamp, uid, gid, gids, name, rfl, hname, hgids, rfl⟩
    exact Nat.lt_of_le_of_lt hlength (by decide)

/-- The credential of a principal within the limits can be encoded, fits a header and decodes to the
principal. -/
theorem credential_ok (stamp : UInt32) {principal : Principal} (h : WithinLimits principal) :
    ∃ flavor body, credential stamp principal = .ok (flavor, body) ∧ body.length ≤ 400 ∧
      decodePrincipal flavor body = .ok principal := by
  cases principal with
  | anonymous => exact ⟨AUTH_NONE, [], rfl, Nat.zero_le _, rfl⟩
  | authSys uid gid gids name =>
    have hrun : Encoder.run (authSysBody stamp uid gid gids name) =
        .ok (authSysBytes stamp uid gid gids name) := by
      rw [Encoder.run_ok_iff (authSysBody_writes stamp uid gid gids name)]
      exact ⟨Nat.lt_of_le_of_lt h.2 (by decide), rfl⟩
    refine ⟨AUTH_SYS, authSysBytes stamp uid gid gids name, ?_, length_authSysBytes_le h.1 h.2,
      decodePrincipal_authSys_iff.mpr ⟨stamp, uid, gid, gids, name, rfl, h, rfl⟩⟩
    show (Encoder.run (authSysBody stamp uid gid gids name) >>= fun body => pure (AUTH_SYS, body)) = _
    rw [hrun]
    rfl

/-- What the server makes of the call a client encodes. -/
theorem rpcCall_header (xid program version procedure stamp : UInt32) {principal : Principal} (args : Bytes)
    (h : WithinLimits principal) :
    ∃ flavor body record, rpcCall xid program version procedure stamp principal args = .ok record ∧
      decodePrincipal flavor body = .ok principal ∧
      (record.length < usizeBound → Decoder.run decodeCallHeader record = .ok (some
        ⟨xid, 2, program, version, procedure, flavor, body, AUTH_NONE, [], args⟩)) := by
  obtain ⟨flavor, body, hcredential, hlength, hprincipal⟩ := credential_ok stamp h
  let header : CallHeader := ⟨xid, 2, program, version, procedure, flavor, body, AUTH_NONE, [], args⟩
  have hbounded : header.Bounded := ⟨hlength, Nat.zero_le _⟩
  have hencode : Encoder.run (rpcCallWithVerifier header) = .ok header.bytes :=
    (Encoder.run_ok_iff (rpcCallWithVerifier_writes hbounded)).mpr ⟨trivial, rfl⟩
  refine ⟨flavor, body, header.bytes, ?_, hprincipal, fun hrecord => ?_⟩
  · unfold rpcCall
    rw [hcredential]
    exact hencode
  · exact (decodeCallHeader_ok_iff hrecord).mpr ⟨hbounded, hencode⟩

/-- Call headers and credentials parse canonically. The header of an encoded call is read back with the
principal and with the arguments from their first byte on; an `AUTH_SYS` body is accepted exactly if it
is the encoding of the principal for some stamp; and neither the replay key nor the fingerprint, nor
anything the server does, depends on the stamp. -/
theorem call_parses_canonically (state : ConnectionState) (clientAddr : SocketAddr)
    (xid program version procedure : UInt32) (args : Bytes) :
    (∀ stamp principal, WithinLimits principal →
      ∃ record, rpcCall xid program version procedure stamp principal args = .ok record ∧
        (record.length < usizeBound →
          ∃ header, Decoder.run decodeCallHeader record = .ok (some header) ∧
            header.xid = xid ∧ header.rpcVersion = 2 ∧ header.program = program ∧
            header.version = version ∧ header.procedure = procedure ∧ header.args = args ∧
            header.verifierFlavor = AUTH_NONE ∧ header.verifier = [] ∧
            decodePrincipal header.credentialFlavor header.credentialBody = .ok principal)) ∧
    (∀ body principal, decodePrincipal AUTH_SYS body = .ok principal ↔
      ∃ stamp uid gid gids name, principal = .authSys uid gid gids name ∧ WithinLimits principal ∧
        Encoder.run (authSysBody stamp uid gid gids name) = .ok body) ∧
    (∀ principal, WithinLimits principal →
      program = Portmap.PROGRAM ∨ principalAllowed state.authPolicy principal →
      ∃ next, ∀ stamp record, rpcCall xid program version procedure stamp principal args = .ok record →
        record.length < usizeBound →
        dispatchRecord state clientAddr record = Prog.ask (S := serverSignature)
          (ServerOp.begin
            ⟨SocketAddr.new clientAddr.ip 0, requestExportId state program procedure args, xid⟩
            ⟨state.externals.sha256 (Call.mk program version procedure args principal).hashed⟩) next) := by
  refine ⟨?_, ?_, ?_⟩
  · intro stamp principal hlimits
    obtain ⟨flavor, body, record, hrecord, hprincipal, hheader⟩ :=
      rpcCall_header xid program version procedure stamp args hlimits
    exact ⟨record, hrecord, fun hlength => ⟨_, hheader hlength, rfl, rfl, rfl, rfl, rfl, rfl, rfl, rfl, hprincipal⟩⟩
  · intro body principal
    rw [decodePrincipal_authSys_iff]
    refine exists_congr fun stamp => exists_congr fun uid => exists_congr fun gid => exists_congr fun gids =>
      exists_congr fun name => and_congr_right fun heq => and_congr_right fun hlimits => ?_
    subst heq
    rw [Encoder.run_ok_iff (authSysBody_writes stamp uid gid gids name)]
    exact (and_iff_right (Nat.lt_of_le_of_lt hlimits.2 (by decide))).symm
  · intro principal hlimits hallowed
    -- what is asked and done after the checks does not look at the credential
    obtain ⟨next, hnext⟩ : ∃ next, dispatchAuthorized state clientAddr
        ⟨xid, 2, program, version, procedure, AUTH_NONE, [], AUTH_NONE, [], args⟩ principal =
          Prog.ask (S := serverSignature) (ServerOp.begin
            ⟨SocketAddr.new clientAddr.ip 0, requestExportId state program procedure args, xid⟩
            ⟨state.externals.sha256 (Call.mk program version procedure args principal).hashed⟩) next :=
      ⟨_, rfl⟩
    refine ⟨next, fun stamp record hrecord hlength => ?_⟩
    obtain ⟨flavor, body, record', hrecord', hprincipal, hheader⟩ :=
      rpcCall_header xid program version procedure stamp args hlimits
    cases hrecord.symm.trans hrecord'
    have hpass : ¬ (program ≠ Portmap.PROGRAM ∧ ¬ principalAllowed state.authPolicy principal = true) := by
      rintro ⟨hprogram, hdenied⟩
      exact hallowed.elim hprogram hdenied
    unfold dispatchRecord
    rw [hheader hlength]
    show dispatchHeader state clientAddr
      ⟨xid, 2, program, version, procedure, flavor, body, AUTH_NONE, [], args⟩ = _
    unfold dispatchHeader
    rw [if_neg (by simp)]
    dsimp only
    rw [hprincipal]
    dsimp only
    rw [if_neg (by simp), if_neg hpass]
    exact hnext

/-- A server that takes `AUTH_SYS` credentials. -/
def userState : ConnectionState := { sampleState with authPolicy := .authSys }

def sampleUser : Principal := .authSys 1000 100 [10, 20] [0x65, 0x32, 0x65]

/-- A null call of the NFS program by a user, with two stamps. -/
theorem call_parses_canonically_user :
    rpcCall 910 Nfs3.PROGRAM 3 0 0x12345678 sampleUser [] ≠ rpcCall 910 Nfs3.PROGRAM 3 0 0x87654321 sampleUser [] ∧
    ∃ next, ∀ stamp record, rpcCall 910 Nfs3.PROGRAM 3 0 stamp sampleUser [] = .ok record →
      record.length < usizeBound →
      dispatchRecord userState (.v4 0x7f000001 700) record = Prog.ask (S := serverSignature)
        (ServerOp.begin ⟨.v4 0x7f000001 0, ⟨0⟩, 910⟩
          ⟨userState.externals.sha256 (Call.mk Nfs3.PROGRAM 3 0 [] sampleUser).hashed⟩) next :=
  ⟨by decide, (call_parses_canonically userState (.v4 0x7f000001 700) 910 Nfs3.PROGRAM 3 0 []).2.2 sampleUser
    ⟨by decide, by decide⟩ (.inr (by decide))⟩

end NfsEmbed.Server
