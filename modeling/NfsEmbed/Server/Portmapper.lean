import NfsEmbed.Lib.Transition
import NfsEmbed.Rpc.Record
import NfsEmbed.Server.Mount

/-!
# The standalone portmapper (`server/portmapper.rs` and `portmap/dispatch.rs`)

A connection reads a record, answers it and goes on with the next one. A datagram is answered in the same
way, without record marking.
-/

namespace NfsEmbed.Portmap

open Rpc

/-- The argument of `GETPORT`. -/
structure Mapping where
  prog : UInt32
  vers : UInt32
  prot : UInt32
  port : UInt32
deriving DecidableEq, Repr

def getPort (request : Mapping) (nfsPort mountPort : UInt16) : UInt32 :=
  if request.prot ≠ IPPROTO_TCP then 0
  else if request.prog = Nfs3.PROGRAM ∧ request.vers = Nfs3.VERSION then nfsPort.toUInt32
  else if request.prog = Mount3.PROGRAM ∧ request.vers = Mount3.VERSION then mountPort.toUInt32
  else 0

def decodeMapping : DecodeM Mapping := do
  let prog ← Decoder.readU32
  let vers ← Decoder.readU32
  let prot ← Decoder.readU32
  let port ← Decoder.readU32
  Decoder.finish
  return { prog, vers, prot, port }

end NfsEmbed.Portmap

namespace NfsEmbed.Server.Portmapper

open Lib Rpc

def AUTH_BAD_CRED : UInt32 := 1

def AUTH_BAD_VERF : UInt32 := 3

def PORTMAP_NULL : UInt32 := 0

def PORTMAP_GETPORT : UInt32 := 3

def MAX_PORTMAP_RECORD_SIZE : Nat := 4096

def MAX_PORTMAP_FRAGMENTS : Nat := 16

/-- `rpc_mismatch` of this file; its other replies are built as those of the connections. -/
def rpcMismatch (xid : UInt32) : Bytes := Server.rpcMismatch xid 2 2

/-- A function that decodes and may return its answer early. -/
abbrev AnswerM := ReadM (Option Bytes) UInt8

/-- `match .. { Ok(value) => value, Err(_) => return answer }` -/
def orReturn {α : Type} (decode : DecodeM α) (answer : Option Bytes) : AnswerM α := fun decoder =>
  match decode decoder with
  | .ok value decoder => .ok value decoder
  | .error _ decoder => .error answer decoder

def dispatchProcedure (xid procedure : UInt32) (args : Bytes) (nfsPort mountPort : UInt16) : Option Bytes :=
  if procedure = PORTMAP_NULL then
    if args.isEmpty then some (acceptedReply xid SUCCESS []) else some (acceptedReply xid GARBAGE_ARGS [])
  else if procedure = PORTMAP_GETPORT then
    match Decoder.run Portmap.decodeMapping args with
    | .error _ => some (acceptedReply xid GARBAGE_ARGS [])
    | .ok request => some (acceptedReply xid SUCCESS (Portmap.getPort request nfsPort mountPort).toBeBytes)
  else some (acceptedReply xid PROC_UNAVAIL [])

/-- The body of `dispatch_record`, on the decoder of the record. -/
def answer (nfsPort mountPort : UInt16) : AnswerM (Option Bytes) := do
  let xid ← orReturn Decoder.readU32 none
  let messageType ← orReturn Decoder.readU32 (some (acceptedReply xid GARBAGE_ARGS []))
  if messageType ≠ RPC_CALL then return none
  let rpcVersion ← orReturn Decoder.readU32 (some (acceptedReply xid GARBAGE_ARGS []))
  if rpcVersion ≠ 2 then return some (rpcMismatch xid)
  let program ← orReturn Decoder.readU32 (some (acceptedReply xid GARBAGE_ARGS []))
  let version ← orReturn Decoder.readU32 (some (acceptedReply xid GARBAGE_ARGS []))
  let procedure ← orReturn Decoder.readU32 (some (acceptedReply xid GARBAGE_ARGS []))
  let credentialFlavor ← orReturn Decoder.readU32 (some (acceptedReply xid GARBAGE_ARGS []))
  let credential ← orReturn (Decoder.readOpaqueSlice "RPC credential" 400) (some (authError xid AUTH_BAD_CRED))
  if (decodePrincipal credentialFlavor credential).toOption.isNone then return some (authError xid AUTH_BAD_CRED)
  let verifierFlavor ← orReturn Decoder.readU32 (some (authError xid AUTH_BAD_VERF))
  let verifier ← orReturn (Decoder.readOpaqueSlice "RPC verifier" 400) (some (authError xid AUTH_BAD_VERF))
  if verifierFlavor ≠ AUTH_NONE ∨ verifier ≠ [] then return some (authError xid AUTH_BAD_VERF)
  if program ≠ Portmap.PROGRAM then return some (acceptedReply xid PROG_UNAVAIL [])
  if version ≠ Portmap.VERSION then
    return some (acceptedReply xid PROG_MISMATCH (words [Portmap.VERSION, Portmap.VERSION]))
  let decoder ← get
  return dispatchProcedure xid procedure decoder.rest nfsPort mountPort

/-- The reply to a record, if there is one. -/
def dispatchRecord (record : Bytes) (nfsPort mountPort : UInt16) : Option Bytes :=
  match answer nfsPort mountPort (Decoder.new record) with
  | .ok reply _ => reply
  | .error reply _ => reply

/-! ## Connections -/

def recordLimits : RecordLimits where
  maxRecordSize := MAX_PORTMAP_RECORD_SIZE
  maxFragmentSize := MAX_PORTMAP_RECORD_SIZE
  maxFragments := MAX_PORTMAP_FRAGMENTS
  maxRecordSize_le := by decide

/-- How `serve_tcp_connection` stands. -/
inductive Phase where
  | serving
  | returned
  | failed (error : ServerError)

structure TcpConnection where
  /-- What the client still sends. -/
  stream : Bytes
  phase : Phase
  /-- The records that were read and handled, with their replies. -/
  handled : List (Bytes × Option Bytes)
  /-- The bytes on the socket. -/
  output : Bytes

/-- One turn of the loop of `serve_tcp_connection`. -/
inductive TcpStep (nfsPort mountPort : UInt16) (socket : Writer) : TcpConnection → Unit → TcpConnection → Prop
  | reply (connection : TcpConnection) (record rest reply output : Bytes) :
    connection.phase = .serving → readRecord recordLimits connection.stream = .ok (record, rest) →
    dispatchRecord record nfsPort mountPort = some reply →
    socket.writeRecordLimited reply recordLimits connection.output = .ok () output →
    TcpStep nfsPort mountPort socket connection ()
      { connection with stream := rest, handled := connection.handled ++ [(record, some reply)], output }
  | drop (connection : TcpConnection) (record rest : Bytes) :
    connection.phase = .serving → readRecord recordLimits connection.stream = .ok (record, rest) →
    dispatchRecord record nfsPort mountPort = none →
    TcpStep nfsPort mountPort socket connection ()
      { connection with stream := rest, handled := connection.handled ++ [(record, none)] }
  /-- The stream ends, the idle timeout expires or the server shuts down. -/
  | ends (connection : TcpConnection) :
    connection.phase = .serving → TcpStep nfsPort mountPort socket connection () { connection with phase := .returned }
  | readFails (connection : TcpConnection) (error : RecordError) :
    connection.phase = .serving → readRecord recordLimits connection.stream = .error error →
    error ≠ .io .unexpectedEof →
    TcpStep nfsPort mountPort socket connection () { connection with phase := .failed (.record error) }
  | writeFails (connection : TcpConnection) (record rest reply output : Bytes) (error : RecordError) :
    connection.phase = .serving → readRecord recordLimits connection.stream = .ok (record, rest) →
    dispatchRecord record nfsPort mountPort = some reply →
    socket.writeRecordLimited reply recordLimits connection.output = .error error output →
    TcpStep nfsPort mountPort socket connection ()
      { connection with stream := rest, phase := .failed (.record error), output }
  | writeExpires (connection : TcpConnection) (record rest reply output : Bytes) :
    connection.phase = .serving → readRecord recordLimits connection.stream = .ok (record, rest) →
    dispatchRecord record nfsPort mountPort = some reply →
    TcpStep nfsPort mountPort socket connection ()
      { connection with stream := rest, phase := .failed .requestTimeout, output }

def tcpMachine (nfsPort mountPort : UInt16) (socket : Writer) : Machine TcpConnection Unit where
  Start connection := connection.phase = .serving ∧ connection.handled = [] ∧ connection.output = []
  Step := TcpStep nfsPort mountPort socket

end NfsEmbed.Server.Portmapper
