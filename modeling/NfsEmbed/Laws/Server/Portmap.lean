import NfsEmbed.Laws.Server.Capacity
import NfsEmbed.Laws.Server.Portmapper

/-!
# The two portmappers

The listener of the server answers calls of the portmapper itself if it is enabled, and the standalone
portmapper has a dispatcher of its own. Where the header of a call is well formed, both send the same
bytes: an argument that cannot be decoded is an error in one and a reply in the other, and the error
becomes that reply.

The law is `portmappers_agree`.
-/

namespace NfsEmbed.Server

open Lib Rpc Vfs Replay

variable {record : Bytes} {header : CallHeader}

/-! ## The standalone portmapper -/

/-- `dispatch_record` after the header. -/
def Portmapper.answerCall (header : CallHeader) (nfsPort mountPort : UInt16) : Option Bytes :=
  if header.program ≠ Portmap.PROGRAM then some (acceptedReply header.xid PROG_UNAVAIL [])
  else if header.version ≠ Portmap.VERSION then
    some (acceptedReply header.xid PROG_MISMATCH (words [Portmap.VERSION, Portmap.VERSION]))
  else dispatchProcedure header.xid header.procedure header.args nfsPort mountPort

theorem Portmapper.orReturn_bind {α β : Type} {decode : DecodeM α} {decoder decoder' : Decoder} {value : α}
    (h : decode decoder = .ok value decoder') {answer : Option Bytes} {next : α → AnswerM β} :
    (orReturn decode answer >>= next) decoder = next value decoder' := by
  rw [ReadM.bind_apply, orReturn, h]

/-- It reads the header field by field as the listener does, and finds nothing to object to. -/
theorem Portmapper.dispatchRecord_of_header (hdecoded : Decoder.run decodeCallHeader record = .ok (some header))
    (hversion : header.rpcVersion = 2) (hpresentable : Presentable header) (nfsPort mountPort : UInt16) :
    Portmapper.dispatchRecord record nfsPort mountPort = answerCall header nfsPort mountPort := by
  obtain ⟨hflavor, hverifier, principal, hprincipal⟩ := hpresentable
  unfold Decoder.run at hdecoded
  split at hdecoded
  next header' last hheader =>
    cases hdecoded
    obtain ⟨xid, c₁, hxid, hheader⟩ := ReadM.of_bind_ok hheader
    obtain ⟨messageType, c₂, hmessageType, hheader⟩ := ReadM.of_bind_ok hheader
    split at hheader
    next => cases hheader
    next hcall =>
      obtain ⟨header', c, hbody, hheader⟩ := ReadM.of_bind_ok hheader
      cases hheader
      obtain ⟨rpcVersion, c₃, hrpcVersion, hbody⟩ := ReadM.of_bind_ok hbody
      obtain ⟨program, c₄, hprogram, hbody⟩ := ReadM.of_bind_ok hbody
      obtain ⟨version, c₅, hversion', hbody⟩ := ReadM.of_bind_ok hbody
      obtain ⟨procedure, c₆, hprocedure, hbody⟩ := ReadM.of_bind_ok hbody
      obtain ⟨credentialFlavor, c₇, hcredentialFlavor, hbody⟩ := ReadM.of_bind_ok hbody
      obtain ⟨credential, c₈, hcredential, hbody⟩ := ReadM.of_bind_ok hbody
      obtain ⟨verifierFlavor, c₉, hverifierFlavor, hbody⟩ := ReadM.of_bind_ok hbody
      obtain ⟨verifier, c₁₀, hverifier', hbody⟩ := ReadM.of_bind_ok hbody
      obtain ⟨decoder, c₁₁, hget, hbody⟩ := ReadM.of_bind_ok hbody
      cases hget
      cases hbody
      dsimp only at hversion hflavor hverifier hprincipal
      subst hversion hflavor hverifier
      have hknown : ¬ (decodePrincipal credentialFlavor credential).toOption.isNone := by
        rw [hprincipal]
        exact nofun
      unfold Portmapper.dispatchRecord answer
      rw [orReturn_bind hxid, orReturn_bind hmessageType, if_neg hcall]
      rw [orReturn_bind hrpcVersion, if_neg (not_not.mpr rfl)]
      rw [orReturn_bind hprogram, orReturn_bind hversion', orReturn_bind hprocedure, orReturn_bind hcredentialFlavor,
        orReturn_bind hcredential, if_neg hknown]
      rw [orReturn_bind hverifierFlavor, orReturn_bind hverifier', if_neg (by simp)]
      unfold answerCall
      by_cases hportmap : program ≠ Portmap.PROGRAM
      · rw [if_pos hportmap, if_pos hportmap]
        rfl
      · rw [if_neg hportmap, if_neg hportmap]
        by_cases hother : version ≠ Portmap.VERSION
        · rw [if_pos hother, if_pos hother]
          rfl
        · rw [if_neg hother, if_neg hother]
          rfl
  next => cases hdecoded

/-! ## The listener -/

section Listener

variable {state : ConnectionState} {xid version procedure : UInt32} {args : Bytes}

/-- What a request of the listener is answered with that asks nobody. -/
def AnsweredBy (state : ConnectionState) (xid : UInt32) (program : ServerM EncodedReply) (bytes : Bytes) : Prop :=
  ∃ result reply, program = Prog.ofExcept result ∧ protocolReply state xid result = .ok reply ∧ reply.intoBytes = bytes

theorem AnsweredBy.reply (bytes : Bytes) : AnsweredBy state xid (pure (state.reply bytes)) bytes :=
  ⟨.ok (state.reply bytes), state.reply bytes, rfl, rfl, intoBytes_reply _ _⟩

/-- `GETPORT` of the listener decodes the same argument. -/
theorem getPort_eq (state : ConnectionState) :
    getPort state = Portmap.decodeMapping >>= fun request =>
      pure (portmapPort state request.prog request.vers request.prot) := by
  unfold getPort Portmap.decodeMapping
  simp only [bind_assoc, pure_bind]

/-- Both ports are that of the listener. -/
theorem portmapPort_eq (state : ConnectionState) (request : Portmap.Mapping) :
    portmapPort state request.prog request.vers request.prot =
      Portmap.getPort request state.localPort state.localPort := by
  unfold portmapPort Portmap.getPort
  by_cases htcp : request.prot = Portmap.IPPROTO_TCP
  · by_cases hnfs : request.prog = Nfs3.PROGRAM ∧ request.vers = Nfs3.VERSION
    · simp [htcp, hnfs]
    · simp [htcp, hnfs]
  · simp [htcp]

theorem run_getPort (state : ConnectionState) (args : Bytes) :
    Decoder.run (getPort state) args =
      (Decoder.run Portmap.decodeMapping args).map fun request =>
        Portmap.getPort request state.localPort state.localPort := by
  rw [getPort_eq]
  unfold Decoder.run
  rw [ReadM.bind_apply]
  cases Portmap.decodeMapping (Decoder.new args) with
  | error => rfl
  | ok request =>
    show Except.ok (portmapPort state request.prog request.vers request.prot) = Except.ok _
    rw [portmapPort_eq]

/-- The errors of `dispatch_portmap` become the replies of the other dispatcher. -/
theorem dispatchPortmap_answered (procedure : UInt32) (args : Bytes) :
    ∃ bytes, Portmapper.dispatchProcedure xid procedure args state.localPort state.localPort = some bytes ∧
      AnsweredBy state xid (dispatchPortmap state xid procedure args) bytes := by
  unfold Portmapper.dispatchProcedure
  split
  next hnull =>
    cases hnull
    show ∃ bytes, _ ∧ AnsweredBy state xid (bareReply state xid (if args.isEmpty then SUCCESS else GARBAGE_ARGS)) bytes
    cases args.isEmpty with
    | true | false => exact ⟨_, rfl, .reply _⟩
  next hnull =>
    split
    next hgetPort =>
      cases hgetPort
      show ∃ bytes, _ ∧ AnsweredBy state xid (decoded (Decoder.run (getPort state) args) >>= fun port =>
        pure (state.reply (acceptedReply xid SUCCESS port.toBeBytes))) bytes
      rw [run_getPort]
      cases Decoder.run Portmap.decodeMapping args with
      | ok => exact ⟨_, rfl, .reply _⟩
      | error error => exact ⟨_, rfl, .error (.decode error), _, rfl, rfl, intoBytes_reply _ _⟩
    next hgetPort =>
      refine ⟨_, rfl, ?_⟩
      unfold dispatchPortmap
      split
      next => exact absurd rfl hnull
      next => exact absurd rfl hgetPort
      next => exact .reply _

theorem dispatchCall_answered (henabled : state.portmapper = .enabled) (hprogram : header.program = Portmap.PROGRAM)
    (context : RequestContext) : ∃ bytes, Portmapper.answerCall header state.localPort state.localPort = some bytes ∧
      AnsweredBy state header.xid
        (dispatchCall state header.xid header.program header.version header.procedure header.args context) bytes := by
  have hcall : dispatchCall state header.xid Portmap.PROGRAM header.version header.procedure header.args context =
      if header.version ≠ Portmap.VERSION then
        pure (state.reply (programMismatch header.xid Portmap.VERSION Portmap.VERSION))
      else dispatchPortmap state header.xid header.procedure header.args := by
    unfold dispatchCall
    rw [if_neg (by decide), if_neg (by decide), if_pos ⟨rfl, henabled⟩]
  unfold Portmapper.answerCall
  rw [hprogram, hcall, if_neg (not_not.mpr rfl)]
  by_cases hversion : header.version ≠ Portmap.VERSION
  · rw [if_pos hversion, if_pos hversion]
    exact ⟨_, rfl, .reply _⟩
  · rw [if_neg hversion, if_neg hversion]
    exact dispatchPortmap_answered header.procedure header.args

/-- A short reply goes out as it is. -/
theorem AnsweredBy.executed {context : RequestContext} {bytes : Bytes} (h : AnsweredBy state header.xid
      (dispatchCall state header.xid header.program header.version header.procedure header.args context) bytes)
    (hlimits : state.limits.Usable) (hshort : bytes.length ≤ MAXIMUM_MUTATION_REPLY_SIZE) :
    ∃ reply, executeRequest state header.xid header.program header.version header.procedure header.args context =
      .done reply ∧ reply.intoBytes = bytes := by
  obtain ⟨result, reply, hcall, hreply, hbytes⟩ := h
  have hlen : reply.len = bytes.length := by rw [← hbytes, EncodedReply.length_intoBytes]
  refine ⟨reply, ?_, hbytes⟩
  have hbounded : boundedReply state header.xid reply = .ok reply := by
    unfold boundedReply
    rw [hlen, ServerLimits.fits_of_short hlimits hshort]
  have houtcome : (Prog.ofExcept result : ServerM EncodedReply).outcome = (Prog.done result : ServerM _) := by
    cases result <;> rfl
  unfold executeRequest
  rw [hcall, houtcome, Prog.done_bind, hreply]
  show Prog.ofExcept (boundedReply state header.xid reply) = _
  rw [hbounded]
  rfl

end Listener

/-! ## Both -/

/-- The request got its execution, and is no duplicate. -/
def Executed (history : Dialogue) : Prop :=
  ∃ lease, (⟨.spawn lease, .ok ()⟩ : Exchange serverSignature) ∈ history

/-- No policy keeps a call of the portmapper from the replay cache. -/
theorem dispatchRecord_authorized {state : ConnectionState} {clientAddr : SocketAddr}
    (hdecoded : Decoder.run decodeCallHeader record = .ok (some header)) (hversion : header.rpcVersion = 2)
    (hpresentable : Presentable header) (hprogram : header.program = Portmap.PROGRAM) :
    ∃ principal, dispatchRecord state clientAddr record = dispatchAuthorized state clientAddr header principal := by
  obtain ⟨hflavor, hverifier, principal, hprincipal⟩ := hpresentable
  refine ⟨principal, ?_⟩
  unfold dispatchRecord
  rw [hdecoded]
  show dispatchHeader state clientAddr header = _
  unfold dispatchHeader
  rw [if_neg (by simp [hflavor, hverifier]), hprincipal]
  dsimp only
  rw [if_neg (not_not.mpr hversion), if_neg fun h => h.1 hprogram]

section Execution

variable {state : ConnectionState} {clientAddr : SocketAddr} {header : CallHeader} {principal : Principal}

/-- What the execution of a request is run with. -/
def executionContext (state : ConnectionState) (clientAddr : SocketAddr) (header : CallHeader) (principal : Principal) :
    RequestContext :=
  ⟨principal, clientAddr, requestExportId state header.program header.procedure header.args⟩

/-- A dialogue in which a request gets its execution ends with it. -/
theorem execution_of_executed {history : Dialogue} {result : Except ServerError EncodedReply}
    (hends : (dispatchAuthorized state clientAddr header principal).Ends history result) (hexecuted : Executed history) :
    ∃ lease rest, (execution lease (executeRequest state header.xid header.program header.version header.procedure
      header.args (executionContext state clientAddr header principal))).Ends rest result := by
  obtain ⟨lease, hspawn⟩ := hexecuted
  cases hends with
  | @ask _ _ answer rest _ hrest =>
    replace hspawn := List.mem_cons.mp hspawn
    rcases hspawn with hbegin | hspawn
    · cases hbegin
    cases answer with
    | error =>
      cases hrest
      exact absurd hspawn List.not_mem_nil
    | ok decision =>
      cases decision with
      | replay =>
        cases hrest
        exact absurd hspawn List.not_mem_nil
      | wait =>
        cases hrest with
        | @ask _ _ answer _ _ hrest =>
          replace hspawn := List.mem_cons.mp hspawn
          rcases hspawn with hwait | hspawn
          · cases hwait
          cases answer with
          | ok | error =>
            cases hrest
            exact absurd hspawn List.not_mem_nil
      | execute lease' =>
        cases hrest with
        | @ask _ _ answer rest _ hrest =>
          cases answer with
          | error =>
            -- its lease is dropped
            cases hrest with
            | ask hrest =>
              cases hrest
              simp at hspawn
          | ok => exact ⟨lease', rest, hrest⟩

/-- A request that the cache does not know can get its execution. -/
theorem executed_of_done {reply : EncodedReply} (hexecute : executeRequest state header.xid header.program header.version
      header.procedure header.args (executionContext state clientAddr header principal) = .done reply) :
    ∃ history result, (dispatchAuthorized state clientAddr header principal).Ends history result ∧ Executed history := by
  let lease : ReplayEntryKey := ⟨⟨clientAddr, ⟨0⟩, 0⟩, ⟨⟨List.replicate 32 0, rfl⟩⟩, 0⟩
  refine ⟨[⟨.begin _ _, .ok (.execute lease)⟩, ⟨.spawn lease, .ok ()⟩, ⟨.complete lease reply, ()⟩], .ok reply, .ask (.ask ?_), ⟨lease, by simp⟩⟩
  show (execution lease (executeRequest state header.xid header.program header.version header.procedure header.args
    (executionContext state clientAddr header principal))).Ends _ _
  unfold execution
  rw [hexecute]
  exact .ask (.done reply)

end Execution

/-- A call of the portmapper comes to its execution under every policy, and is answered by it. -/
theorem dispatchRecord_executed {state : ConnectionState} {clientAddr : SocketAddr}
    (hdecoded : Decoder.run decodeCallHeader record = .ok (some header)) (hversion : header.rpcVersion = 2)
    (hpresentable : Presentable header) (hprogram : header.program = Portmap.PROGRAM) {bytes : Bytes}
    (hexecutes : ∀ context, ∃ reply, executeRequest state header.xid header.program header.version header.procedure
      header.args context = .done reply ∧ reply.intoBytes = bytes) :
    (∀ history result, (dispatchRecord state clientAddr record).Ends history result → Executed history →
      ∃ reply, result = .ok reply ∧ reply.intoBytes = bytes) ∧
    ∃ history result, (dispatchRecord state clientAddr record).Ends history result ∧ Executed history := by
  obtain ⟨principal, hdispatch⟩ := dispatchRecord_authorized hdecoded hversion hpresentable hprogram
  obtain ⟨reply, hexecute, hbytes⟩ := hexecutes (executionContext state clientAddr header principal)
  rw [hdispatch]
  refine ⟨fun history result hends hexecuted => ?_, executed_of_done hexecute⟩
  obtain ⟨lease, rest, hexecution⟩ := execution_of_executed hends hexecuted
  unfold execution at hexecution
  rw [hexecute] at hexecution
  cases hexecution with
  | ask hdone =>
    cases hdone
    exact ⟨reply, rfl, hbytes⟩

/-- Every well-formed call of the portmapper gets the same bytes from the listener that has it enabled, under
every policy, and from the portmapper of its own. -/
theorem portmappers_agree (state : ConnectionState) (henabled : state.portmapper = .enabled) (clientAddr : SocketAddr)
    (record : Bytes) (header : CallHeader) (hdecoded : Decoder.run decodeCallHeader record = .ok (some header))
    (hversion : header.rpcVersion = 2) (hpresentable : Presentable header)
    (hprogram : header.program = Portmap.PROGRAM) :
    ∃ bytes, Portmapper.dispatchRecord record state.localPort state.localPort = some bytes ∧
      (∀ context, AnsweredBy state header.xid
        (dispatchCall state header.xid header.program header.version header.procedure header.args context) bytes) ∧
      (state.limits.validate = .ok () →
        (∀ history result, (dispatchRecord state clientAddr record).Ends history result → Executed history →
          ∃ reply, result = .ok reply ∧ reply.intoBytes = bytes) ∧
        ∃ history result, (dispatchRecord state clientAddr record).Ends history result ∧ Executed history) := by
  have hanswered := fun context => @dispatchCall_answered header state henabled hprogram context
  obtain ⟨bytes, hportmapper, -⟩ := hanswered ⟨.anonymous, clientAddr, ⟨0⟩⟩
  have hlistener : ∀ context, AnsweredBy state header.xid
      (dispatchCall state header.xid header.program header.version header.procedure header.args context) bytes := by
    intro context
    obtain ⟨bytes', hsame, hcall⟩ := hanswered context
    rw [hportmapper] at hsame
    cases hsame
    exact hcall
  have hdispatch := Portmapper.dispatchRecord_of_header hdecoded hversion hpresentable state.localPort state.localPort
  refine ⟨bytes, hdispatch.trans hportmapper, hlistener, fun hlimits => ?_⟩
  have hshort : bytes.length ≤ MAXIMUM_MUTATION_REPLY_SIZE :=
    Nat.le_trans (Portmapper.dispatchRecord_short record bytes (hdispatch.trans hportmapper)) (by decide)
  exact dispatchRecord_executed hdecoded hversion hpresentable hprogram fun context =>
    (hlistener context).executed (ServerLimits.usable_of_validate hlimits) hshort

/-- A client asks for the port of NFS over TCP. -/
def getPortHeader : CallHeader where
  xid := 7
  rpcVersion := 2
  program := Portmap.PROGRAM
  version := Portmap.VERSION
  procedure := Portmapper.PORTMAP_GETPORT
  credentialFlavor := AUTH_NONE
  credentialBody := []
  verifierFlavor := AUTH_NONE
  verifier := []
  args := words [Nfs3.PROGRAM, Nfs3.VERSION, Portmap.IPPROTO_TCP, 0]

theorem portmappers_agree_getPort : ∃ bytes,
    Portmapper.dispatchRecord getPortHeader.bytes 2049 2049 = some bytes ∧ bytes = acceptedReply 7 SUCCESS (words [2049]) ∧
    ∀ context, AnsweredBy { sampleState with portmapper := .enabled, localPort := 2049 } 7
      (dispatchCall { sampleState with portmapper := .enabled, localPort := 2049 } 7 Portmap.PROGRAM Portmap.VERSION
        Portmapper.PORTMAP_GETPORT getPortHeader.args context) bytes := by
  obtain ⟨bytes, hportmapper, hlistener, -⟩ := portmappers_agree
    { sampleState with portmapper := .enabled, localPort := 2049 } rfl (.v4 0 700) getPortHeader.bytes getPortHeader
    (by decide) rfl ⟨rfl, rfl, .anonymous, rfl⟩ rfl
  refine ⟨bytes, hportmapper, ?_, hlistener⟩
  have hsame : Portmapper.dispatchRecord getPortHeader.bytes 2049 2049 = some (acceptedReply 7 SUCCESS (words [2049])) := by
    decide
  exact Option.some.inj (hportmapper.symm.trans hsame)

end NfsEmbed.Server
