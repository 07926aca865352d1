import Mathlib.Order.Nat
import NfsEmbed.Lib.Maximum
import NfsEmbed.Server.Nfs

/-!
# MOUNT and PORTMAP procedures (`dispatch_mount` and `dispatch_portmap` in `server/connection.rs`)
-/

namespace NfsEmbed.Portmap

def PROGRAM : UInt32 := 100000

def VERSION : UInt32 := 2

def IPPROTO_TCP : UInt32 := 6

end NfsEmbed.Portmap

namespace NfsEmbed.Server

open Lib Rpc Vfs Mount3

/-- `?` on a decoder's result. -/
def decoded {α : Type} (result : Except DecodeError α) : ServerM α :=
  Prog.ofExcept (result.mapError .decode)

variable (state : ConnectionState) (xid : UInt32) (context : RequestContext)

/-- The last of the longest matching exports, which is what `max_by_key` picks. -/
def selectExport (requested : Bytes) : Option ExportState :=
  maxByKey (fun entry : ExportState => entry.path.length)
    (state.exports.filter fun entry => exportMatches entry.path requested)

/-! ## Walking to the mounted object -/

/-- `slice::strip_prefix`. -/
def stripPrefix (start bytes : Bytes) : Option Bytes :=
  if start.isPrefixOf bytes then some (bytes.drop start.length) else none

/-- What is left of the requested path below the export. -/
def mountSuffix (exportPath requested : Bytes) : Except NfsError Bytes :=
  if exportPath = [0x2f] then (stripPrefix [0x2f] requested).elim (.error .notFound) .ok
  else
    match stripPrefix exportPath requested with
    | none => .error .notFound
    | some rest => .ok ((stripPrefix [0x2f] rest).getD [])

def pathComponents (suffix : Bytes) : List Bytes :=
  (suffix.splitOn 0x2f).filter fun component => !component.isEmpty

/-- The loop of `resolve_mount_object`. -/
def walk (entry : ExportState) (object : ObjectKey) : List Bytes → ServerM (Except NfsError ObjectKey)
  | [] => pure (.ok object)
  | component :: rest =>
    match NfsName.new component with
    | .error error => pure (.error error)
    | .ok name => do
      match ← callVfs context entry (.lookup object name) with
      | .error error => pure (.error error)
      | .ok found => walk entry found.object rest

def resolveMountObject (entry : ExportState) (requested : Bytes) : ServerM (Except NfsError ObjectKey) :=
  match mountSuffix entry.path requested with
  | .error error => pure (.error error)
  | .ok suffix => do
    let root ← callVfs context entry .root
    walk context entry root (pathComponents suffix)

/-! ## One procedure each -/

/-- `typed_mount_reply(xid, &result)?` -/
def mountReply {ρ : Type} [EncodeMountResult ρ] (result : ρ) : ServerM EncodedReply :=
  encoded state (typedMountReply xid result)

/-- `accepted_reply(xid, status, &[])`, as the result of an arm. -/
def bareReply (status : UInt32) : ServerM EncodedReply :=
  pure (state.reply (acceptedReply xid status []))

def decodeMountPath (args : Bytes) : Except DecodeError Bytes :=
  Decoder.run (do let path ← Decoder.readString "MOUNT path" 1024; Decoder.finish; return path) args

def authFlavors : AuthPolicy → List UInt32
  | .anonymous => [AUTH_NONE]
  | .authSys => [AUTH_SYS]
  | .authSysOrAnonymous => [AUTH_SYS, AUTH_NONE]

def alreadyMounted (path : Bytes) (mounts : MountTable) : Bool :=
  mounts.any fun mount => mount.1 = context.clientAddr.ip ∧ mount.2 = path

/-- `state.mounts.lock().await`, with what is done while the lock is held. -/
def lockMounts (update : MountTable → MountTable) : ServerM MountTable :=
  Prog.ask (S := serverSignature) (ServerOp.mounts update) Prog.done

/-- What `MNT` does under the lock. -/
def recordMount (path : Bytes) (mounts : MountTable) : MountTable :=
  if alreadyMounted context path mounts ∨ mounts.length ≥ state.limits.maxMounts then mounts
  else mounts ++ [(context.clientAddr.ip, path)]

def mnt (args : Bytes) : ServerM EncodedReply := do
  let path ← decoded (decodeMountPath args)
  match selectExport state path with
  | none => mountReply state xid (MountResult.err .notFound)
  | some entry =>
    let requestContext := { context with exportId := entry.id }
    match ← resolveMountObject requestContext entry path with
    | .error error => mountReply state xid (MountResult.err (mountStatus error))
    | .ok root =>
      match ← callVfs requestContext entry (.getattr root) with
      | .error error => mountReply state xid (MountResult.err (mountStatus error))
      | .ok attributes =>
        if attributes.fileType ≠ .directory then mountReply state xid (MountResult.err .notDirectory)
        else
          let mounts ← lockMounts (recordMount state context path)
          if ¬ alreadyMounted context path mounts ∧ mounts.length ≥ state.limits.maxMounts then
            mountReply state xid (MountResult.err .io)
          else
            mountReply state xid
              (MountResult.ok (state.handles.encode entry.id root) (authFlavors state.authPolicy))

def xdrOpaqueSize (length : Nat) : Option Nat := do
  checkedAdd (← checkedAdd 4 length) ((4 - length % 4) % 4)

def outboundLengthFits (length : Nat) (limits : ServerLimits) : Bool :=
  length ≤ limits.maxRpcRecordSize ∧ divCeil length limits.maxRpcFragmentSize ≤ limits.maxFragmentsPerRecord

def dumpLength (mounts : MountTable) : Option Nat :=
  mounts.foldlM
    (fun length mount => do
      let length ← checkedAdd length 4
      let length ← checkedAdd length (← xdrOpaqueSize mount.1.display.length)
      checkedAdd length (← xdrOpaqueSize mount.2.length))
    (24 + 4)

def dump : ServerM EncodedReply := do
  let mounts ← lockMounts id
  if (dumpLength mounts).all fun length => !outboundLengthFits length state.limits then
    bareReply state xid SYSTEM_ERR
  else
    mountReply state xid (DumpResult.mk (mounts.map fun mount => ⟨mount.1.display, mount.2⟩))

def umnt (args : Bytes) : ServerM EncodedReply := do
  let path ← decoded (decodeMountPath args)
  let _ ← lockMounts fun mounts =>
    mounts.filter fun mount => mount.1 ≠ context.clientAddr.ip ∨ mount.2 ≠ path
  bareReply state xid SUCCESS

def umntAll : ServerM EncodedReply := do
  let _ ← lockMounts fun mounts => mounts.filter fun mount => mount.1 ≠ context.clientAddr.ip
  bareReply state xid SUCCESS

def exportLength : Option Nat :=
  state.exports.foldlM
    (fun length entry => do
      let length ← checkedAdd length 4
      let length ← checkedAdd length (← xdrOpaqueSize entry.path.length)
      checkedAdd length 4)
    (24 + 4)

def exportList : ServerM EncodedReply :=
  if (exportLength state).all fun length => !outboundLengthFits length state.limits then
    bareReply state xid SYSTEM_ERR
  else mountReply state xid (ExportResult.mk (state.exports.map fun entry => ⟨entry.path, []⟩))

def dispatchMount (procedure : UInt32) (args : Bytes) : ServerM EncodedReply :=
  if procedure ∈ [0, 2, 4, 5] ∧ args ≠ [] then bareReply state xid GARBAGE_ARGS
  else
    match procedure with
    | 0 => bareReply state xid SUCCESS
    | 1 => mnt state xid context args
    | 2 => dump state xid
    | 3 => umnt state xid context args
    | 4 => umntAll state xid context
    | 5 => exportList state xid
    | _ => bareReply state xid PROC_UNAVAIL

/-! ## PORTMAP -/

def portmapPort (program version transport : UInt32) : UInt32 :=
  if transport = Portmap.IPPROTO_TCP ∧
      ((program = Nfs3.PROGRAM ∧ version = Nfs3.VERSION) ∨
        (program = Mount3.PROGRAM ∧ version = Mount3.VERSION)) then
    state.localPort.toUInt32
  else 0

def getPort : DecodeM UInt32 := do
  let program ← Decoder.readU32
  let version ← Decoder.readU32
  let transport ← Decoder.readU32
  let _port ← Decoder.readU32
  Decoder.finish
  return portmapPort state program version transport

def dispatchPortmap (procedure : UInt32) (args : Bytes) : ServerM EncodedReply :=
  match procedure with
  | 0 => bareReply state xid (if args.isEmpty then SUCCESS else GARBAGE_ARGS)
  | 3 => do
    let port ← decoded (Decoder.run (getPort state) args)
    pure (state.reply (acceptedReply xid SUCCESS port.toBeBytes))
  | _ => bareReply state xid PROC_UNAVAIL

end NfsEmbed.Server
