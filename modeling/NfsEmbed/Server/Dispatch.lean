import NfsEmbed.Server.Fingerprint
import NfsEmbed.Server.Mount

/-!
# Handling a record (`dispatch_record`, `execute_request` and `dispatch_call` in `server/connection.rs`)

The execution of a request runs in a task of its own, which `dispatch_record` waits for; here it is
part of the program that waits. Tracing has no influence on the reply and is left out.
-/

namespace NfsEmbed.Server

open Lib Rpc Vfs Replay

variable (state : ConnectionState)

/-- The export a request is about, as far as its arguments tell before they are decoded. -/
def requestExportId (program procedure : UInt32) (args : Bytes) : ExportId :=
  if program = Nfs3.PROGRAM ∧ procedure ≠ 0 then
    match Decoder.run (Decoder.readOpaqueSlice "NFS file handle" 64) args with
    | .ok handle =>
      match state.handles.decodeAny handle with
      | .ok (exportId, _) => exportId
      | .error _ => state.exports.head?.elim ⟨0⟩ ExportState.id
    | .error _ => state.exports.head?.elim ⟨0⟩ ExportState.id
  else if program = Mount3.PROGRAM ∧ (procedure = 1 ∨ procedure = 3) then
    match Decoder.run (Decoder.readOpaqueSlice "MOUNT path" 1024) args with
    | .ok path => (selectExport state path).elim ⟨0⟩ ExportState.id
    | .error _ => ⟨0⟩
  else ⟨0⟩

def dispatchCall (xid program version procedure : UInt32) (args : Bytes) (context : RequestContext) :
    ServerM EncodedReply :=
  if program = Nfs3.PROGRAM then
    if version ≠ Nfs3.VERSION then
      pure (state.reply (programMismatch xid Nfs3.VERSION Nfs3.VERSION))
    else dispatchNfs state xid context procedure args
  else if program = Mount3.PROGRAM then
    if version ≠ Mount3.VERSION then
      pure (state.reply (programMismatch xid Mount3.VERSION Mount3.VERSION))
    else dispatchMount state xid context procedure args
  else if program = Portmap.PROGRAM ∧ state.portmapper = .enabled then
    if version ≠ Portmap.VERSION then
      pure (state.reply (programMismatch xid Portmap.VERSION Portmap.VERSION))
    else dispatchPortmap state xid procedure args
  else bareReply state xid PROG_UNAVAIL

/-- The reply for what `dispatch_call` returned, unless it is an error that ends the request. -/
def protocolReply (xid : UInt32) : Except ServerError EncodedReply → Except ServerError EncodedReply
  | .ok reply => .ok reply
  | .error (.decode _) => .ok (state.reply (acceptedReply xid GARBAGE_ARGS []))
  | .error (.encode _) => .ok (state.reply (acceptedReply xid SYSTEM_ERR []))
  | .error error => .error error

/-- A reply that exceeds the outbound limits is replaced. -/
def boundedReply (xid : UInt32) (reply : EncodedReply) : Except ServerError EncodedReply :=
  match validateRecordLength reply.len state.limits.recordLimits with
  | .ok _ => .ok reply
  | .error _ =>
    let boundedError := state.reply (acceptedReply xid SYSTEM_ERR [])
    match validateRecordLength boundedError.len state.limits.recordLimits with
    | .ok _ => .ok boundedError
    | .error error => .error (.record error)

def executeRequest (xid program version procedure : UInt32) (args : Bytes) (context : RequestContext) :
    ServerM EncodedReply := do
  let result ← (dispatchCall state xid program version procedure args context).outcome
  Prog.ofExcept ((protocolReply state xid result).bind (boundedReply state xid))

/-! ## Records -/

structure CallHeader where
  xid : UInt32
  rpcVersion : UInt32
  program : UInt32
  version : UInt32
  procedure : UInt32
  credentialFlavor : UInt32
  credentialBody : Bytes
  verifierFlavor : UInt32
  verifier : Bytes
  /-- What follows the header. -/
  args : Bytes
deriving DecidableEq, Repr

/-- The fields after the message type. -/
def decodeCallBody (xid : UInt32) : DecodeM CallHeader := do
  let rpcVersion ← Decoder.readU32
  let program ← Decoder.readU32
  let version ← Decoder.readU32
  let procedure ← Decoder.readU32
  let credentialFlavor ← Decoder.readU32
  let credentialBody ← Decoder.readOpaqueSlice "RPC credential" 400
  let verifierFlavor ← Decoder.readU32
  let verifier ← Decoder.readOpaqueSlice "RPC verifier" 400
  let decoder ← get
  return {
    xid, rpcVersion, program, version, procedure, credentialFlavor, credentialBody, verifierFlavor,
    verifier, args := decoder.rest }

/-- The header of a call; `none` if the message is not a call. -/
def decodeCallHeader : DecodeM (Option CallHeader) := do
  let xid ← Decoder.readU32
  let messageType ← Decoder.readU32
  if messageType ≠ RPC_CALL then return none
  return some (← decodeCallBody xid)

/-- `record.get(..4)` as a number. -/
def recordXid (record : Bytes) : Option UInt32 :=
  if 4 ≤ record.length then some (UInt32.fromBeBytes (record.take 4)) else none

def CallHeader.call (header : CallHeader) (principal : Principal) : Call where
  program := header.program
  version := header.version
  procedure := header.procedure
  args := header.args
  principal := principal

/-- The spawned task: it runs the request and resolves the lease with the outcome. -/
def execution (lease : ReplayEntryKey) (request : ServerM EncodedReply) : ServerM EncodedReply := do
  match ← request.outcome with
  | .ok reply => Prog.ask (S := serverSignature) (ServerOp.complete lease reply) fun _ => .done reply
  | .error error => Prog.ask (S := serverSignature) (ServerOp.cancel lease) fun _ => .fail error

/-- The part of `dispatch_record` after the request got its lease. -/
def executeLease (header : CallHeader) (context : RequestContext) (lease : ReplayEntryKey) :
    ServerM EncodedReply := do
  match ← Prog.ask (S := serverSignature) (ServerOp.spawn lease) Prog.done with
  | .error error =>
    -- the lease is dropped
    Prog.ask (S := serverSignature) (ServerOp.cancel lease) fun _ => .fail error
  | .ok () =>
    execution lease
      (executeRequest state header.xid header.program header.version header.procedure header.args context)

/-- The part of `dispatch_record` after the principal was accepted. -/
def dispatchAuthorized (clientAddr : SocketAddr) (header : CallHeader) (principal : Principal) :
    ServerM EncodedReply := do
  let exportId := requestExportId state header.program header.procedure header.args
  let fingerprint := ⟨(state.externals.sha256 (header.call principal).hashed)⟩
  let key := { clientAddr := SocketAddr.new clientAddr.ip 0, exportId, xid := header.xid }
  match ← Prog.ask (S := serverSignature) (ServerOp.begin key fingerprint) Prog.done with
  | .error error => .fail (.replay error)
  | .ok (.replay reply) => pure reply
  | .ok (.wait receiver) =>
    match ← Prog.ask (S := serverSignature) (ServerOp.wait receiver) Prog.done with
    | .ok reply => pure reply
    | .error error => .fail error
  | .ok (.execute lease) => executeLease state header { principal, clientAddr, exportId } lease

/-- The checks of `dispatch_record` on a decoded header. -/
def dispatchHeader (clientAddr : SocketAddr) (header : CallHeader) : ServerM EncodedReply :=
  if header.verifierFlavor ≠ AUTH_NONE ∨ header.verifier ≠ [] then
    pure (state.reply (authError header.xid 3))
  else
    match decodePrincipal header.credentialFlavor header.credentialBody with
    | .error _ => pure (state.reply (authError header.xid 1))
    | .ok principal =>
      if header.rpcVersion ≠ 2 then pure (state.reply (rpcMismatch header.xid 2 2))
      else if header.program ≠ Portmap.PROGRAM ∧ ¬ principalAllowed state.authPolicy principal then
        pure (state.reply (authError header.xid 5))
      else dispatchAuthorized state clientAddr header principal

def dispatchRecord (clientAddr : SocketAddr) (record : Bytes) : ServerM EncodedReply := do
  match ← decoded (Decoder.run decodeCallHeader record) with
  | none => .fail (.protocol "received an RPC reply on a server connection")
  | some header => dispatchHeader state clientAddr header

end NfsEmbed.Server
