import NfsEmbed.Server.Config

/-!
# Building replies (`server/connection.rs`)
-/

namespace NfsEmbed.Server

open Lib Rpc Vfs Nfs3 Mount3

def RPC_CALL : UInt32 := 0

def RPC_REPLY : UInt32 := 1

def MSG_ACCEPTED : UInt32 := 0

def SUCCESS : UInt32 := 0

def PROG_UNAVAIL : UInt32 := 1

def PROG_MISMATCH : UInt32 := 2

def PROC_UNAVAIL : UInt32 := 3

def GARBAGE_ARGS : UInt32 := 4

def SYSTEM_ERR : UInt32 := 5

/-! ## RPC replies -/

/-- Words written one after the other. -/
def words (values : List UInt32) : Bytes := values.flatMap UInt32.toBeBytes

/-- What `accepted_reply_encoder` has written when it returns. -/
def acceptedReplyEncoder (xid status : UInt32) : Bytes :=
  words [xid, RPC_REPLY, MSG_ACCEPTED, AUTH_NONE, 0, status]

def acceptedReply (xid status : UInt32) (body : Bytes) : Bytes := acceptedReplyEncoder xid status ++ body

def programMismatch (xid low high : UInt32) : Bytes :=
  acceptedReplyEncoder xid PROG_MISMATCH ++ words [low, high]

def rpcMismatch (xid low high : UInt32) : Bytes := words [xid, RPC_REPLY, 1, 0, low, high]

def authError (xid status : UInt32) : Bytes := words [xid, RPC_REPLY, 1, 1, status]

/-- `.into()` on a reply that was built in a vector. -/
def ConnectionState.reply (state : ConnectionState) (bytes : Bytes) : EncodedReply :=
  EncodedReply.ofVec ⟨bytes, state.externals.capacity bytes, state.externals.le_capacity bytes⟩

def errorReply (state : ConnectionState) (xid : Option UInt32) (status : UInt32) : EncodedReply :=
  state.reply (acceptedReply (xid.getD 0) status [])

/-- The result is encoded directly behind the accepted-reply header. -/
def typedReply (xid : UInt32) (encode : EncodeM Unit) : Except EncodeError Bytes :=
  (encode.run (acceptedReplyEncoder xid SUCCESS)).map Prod.snd

def typedNfsReply {ρ : Type} [EncodeNfsResult ρ] (xid : UInt32) (result : ρ) : Except EncodeError Bytes :=
  typedReply xid (encodeResult result)

def typedMountReply {ρ : Type} [EncodeMountResult ρ] (xid : UInt32) (result : ρ) :
    Except EncodeError Bytes :=
  typedReply xid (EncodeMountResult.encodeResult result)

/-! ## Status codes -/

def nfsStatus : NfsError → UInt32
  | .permission => 1
  | .notFound => 2
  | .io => 5
  | .noDeviceOrAddress => 6
  | .access => 13
  | .exists => 17
  | .crossDevice => 18
  | .noDevice => 19
  | .notDirectory => 20
  | .isDirectory => 21
  | .invalid => 22
  | .fileTooLarge => 27
  | .noSpace => 28
  | .readOnly => 30
  | .tooManyLinks => 31
  | .nameTooLong => 63
  | .notEmpty => 66
  | .quota => 69
  | .stale => 70
  | .remote => 71
  | .notSynchronized => 10002
  | .badCookie => 10003
  | .notSupported => 10004
  | .tooSmall => 10005
  | .serverFault => 10006
  | .badType => 10007
  | .jukebox => 10008

def wireNfsStatus (status : UInt32) : NfsStatus := (NfsStatus.fromCode status).getD .serverFault

def mountStatus : NfsError → MountStatus
  | .permission => .permission
  | .notFound => .notFound
  | .io => .io
  | .access => .access
  | .notDirectory => .notDirectory
  | .invalid => .invalid
  | .nameTooLong => .nameTooLong
  | .notSupported => .notSupported
  | _ => .serverFault

/-! ## Handles and names of a request -/

def decodeObject (handle : FileHandle) (state : ConnectionState) (exportId : ExportId) :
    Except UInt32 ObjectKey :=
  match state.handles.decode exportId handle with
  | .ok object => .ok object
  | .error .staleInstance => .error 70
  | .error _ => .error 10001

def decodeDirectoryOperation (arguments : DirectoryOperationArgs) (state : ConnectionState)
    (exportId : ExportId) : Except UInt32 (ObjectKey × NfsName) :=
  match decodeObject arguments.directory state exportId with
  | .error status => .error status
  | .ok parent =>
    if arguments.name.length > NfsName.MAX_LEN then .error NfsStatus.nameTooLong.code
    else
      match NfsName.new arguments.name with
      | .error error => .error (nfsStatus error)
      | .ok name => .ok (parent, name)

def principalAllowed (policy : AuthPolicy) (principal : Principal) : Bool :=
  match policy, principal with
  | .authSys, .authSys _ _ _ _ => true
  | .anonymous, .anonymous => true
  | .authSysOrAnonymous, _ => true
  | _, _ => false

def durabilitySatisfies (actual requested : WriteStability) : Bool :=
  match actual, requested with
  | .fileSync, _ => true
  | .dataSync, .dataSync | .dataSync, .unstable => true
  | .unstable, .unstable => true
  | _, _ => false

end NfsEmbed.Server
