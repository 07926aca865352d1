import NfsEmbed.Handles.Codec
import NfsEmbed.Mount3.Types
import NfsEmbed.Nfs3.Codec
import NfsEmbed.Replay.Cache
import NfsEmbed.Rpc.Auth
import NfsEmbed.Rpc.Record
import NfsEmbed.Vfs.Address
import NfsEmbed.Vfs.Interface

/-!
# Server configuration (`server/config.rs`, `server/limits.rs`, `server/builder.rs`)

Timeouts are left out: a deadline that expires is something the environment does.
-/

namespace NfsEmbed.Server

open Lib Rpc Vfs Handles Replay

inductive AuthPolicy where
  | authSys
  | anonymous
  | authSysOrAnonymous
deriving DecidableEq, Repr

inductive PortmapperMode where
  | disabled
  | enabled
deriving DecidableEq, Repr

inductive ServerError where
  | invalidConfiguration (reason : String)
  | record (error : RecordError)
  | decode (error : DecodeError)
  | encode (error : EncodeError)
  | replay (error : ReplayError)
  | replayWaiterClosed
  | shuttingDown
  | protocol (reason : String)
  | requestTimeout
deriving DecidableEq, Repr

/-! ## Limits -/

def MAXIMUM_MUTATION_REPLY_SIZE : Nat := 304

def MAX_VALID_RPC_CALL_PREFIX_SIZE : Nat := 440

def MAX_FILE_HANDLE_XDR_SIZE : Nat := 68

def WRITE_ARGUMENT_FIXED_SIZE : Nat := MAX_FILE_HANDLE_XDR_SIZE + 8 + 4 + 4 + 4

def WRITE_PADDING_ALLOWANCE : Nat := 3

def MAXIMUM_WRITE_RECORD_OVERHEAD : Nat :=
  MAX_VALID_RPC_CALL_PREFIX_SIZE + WRITE_ARGUMENT_FIXED_SIZE + WRITE_PADDING_ALLOWANCE

def MAXIMUM_READ_REPLY_OVERHEAD : Nat := 24 + 4 + 88 + 4 + 4 + 4 + 3

def READDIR_REPLY_OVERHEAD : Nat := 24 + 4

/-- `tokio::sync::Semaphore::MAX_PERMITS`. -/
def MAX_PERMITS : Nat := usizeMax / 8

structure ServerLimits where
  maxConnections : Nat
  maxRequestsPerConnection : Nat
  maxInflightRequests : Nat
  maxRpcRecordSize : Nat
  maxRpcFragmentSize : Nat
  maxFragmentsPerRecord : Nat
  maxBufferedRequestBytes : Nat
  maxBufferedReplyBytes : Nat
  maxReadSize : UInt32
  maxWriteSize : UInt32
  maxReaddirResponseSize : UInt32
  replayCacheCapacity : Nat
  replayCacheMaxBytes : Nat
  maxMounts : Nat
  /-- It is a `usize`. -/
  maxRpcRecordSize_le : maxRpcRecordSize ≤ usizeMax
deriving Repr

/-- `usize::div_ceil`. -/
def divCeil (a b : Nat) : Nat := (a + b - 1) / b

namespace ServerLimits

def productionDefaults : ServerLimits where
  maxConnections := 1024
  maxRequestsPerConnection := 32
  maxInflightRequests := 2048
  maxRpcRecordSize := 2 * 1024 * 1024
  maxRpcFragmentSize := 1024 * 1024
  maxFragmentsPerRecord := 16
  maxBufferedRequestBytes := 64 * 1024 * 1024
  maxBufferedReplyBytes := 64 * 1024 * 1024
  maxReadSize := 1024 * 1024
  maxWriteSize := 1024 * 1024
  maxReaddirResponseSize := 1024 * 1024
  replayCacheCapacity := 4096
  replayCacheMaxBytes := 64 * 1024 * 1024
  maxMounts := 4096
  maxRpcRecordSize_le := by decide

def transportRecordCapacity (limits : ServerLimits) : Nat :=
  min limits.maxRpcRecordSize (saturatingMul limits.maxRpcFragmentSize limits.maxFragmentsPerRecord)

/-- The limits of one record on the wire. -/
def recordLimits (limits : ServerLimits) : RecordLimits where
  maxRecordSize := limits.maxRpcRecordSize
  maxFragmentSize := limits.maxRpcFragmentSize
  maxFragments := limits.maxFragmentsPerRecord
  maxRecordSize_le := limits.maxRpcRecordSize_le

/-- The checks of `validate` up to the division. -/
def validateRuntime (limits : ServerLimits) : Except String Unit :=
  if limits.maxConnections = 0 then .error "max_connections must be greater than zero"
  else if limits.maxRequestsPerConnection = 0 ∨ limits.maxInflightRequests = 0 then
    .error "request concurrency limits must be greater than zero"
  else if limits.maxConnections > MAX_PERMITS ∨ limits.maxRequestsPerConnection > MAX_PERMITS ∨
      limits.maxInflightRequests > MAX_PERMITS then
    .error "connection and request limits exceed the runtime maximum"
  else if limits.maxRpcFragmentSize = 0 ∨ limits.maxRpcRecordSize < limits.maxRpcFragmentSize then
    .error "RPC record limit must be at least the non-zero fragment limit"
  else if limits.maxRpcFragmentSize > 0x7fffffff ∨ limits.maxRpcRecordSize ≥ 2 ^ 32 then
    .error "RPC record and fragment limits exceed wire or budgeting capacity"
  else if limits.maxFragmentsPerRecord = 0 ∨ limits.replayCacheCapacity = 0 ∨
      limits.replayCacheMaxBytes = 0 ∨ limits.maxMounts = 0 then
    .error "fragment, replay, and mount limits must be greater than zero"
  else if limits.maxBufferedRequestBytes < limits.maxRpcRecordSize ∨
      limits.maxBufferedReplyBytes < limits.maxRpcRecordSize ∨
      limits.maxBufferedRequestBytes > MAX_PERMITS ∨ limits.maxBufferedReplyBytes > MAX_PERMITS then
    .error "buffer byte budgets must each hold one record and fit the runtime semaphore"
  else .ok ()

/-- The checks that follow, on the number of fragments of the longest reply to a mutation. -/
def validateReplies (limits : ServerLimits) (replyFragments : Nat) : Except String Unit :=
  if limits.maxRpcRecordSize < MAXIMUM_MUTATION_REPLY_SIZE ∨ replyFragments > limits.maxFragmentsPerRecord then
    .error "RPC limits must be able to carry every mutation reply"
  else if limits.maxReadSize = 0 ∨ limits.maxWriteSize = 0 ∨ limits.maxReaddirResponseSize = 0 ∨
      limits.maxReadSize.toNat > limits.transportRecordCapacity - MAXIMUM_READ_REPLY_OVERHEAD ∨
      limits.maxWriteSize.toNat > limits.transportRecordCapacity - MAXIMUM_WRITE_RECORD_OVERHEAD ∨
      limits.maxReaddirResponseSize.toNat > limits.transportRecordCapacity - READDIR_REPLY_OVERHEAD then
    .error "transfer limits exceed the effective RPC transport capacity"
  else .ok ()

def validate (limits : ServerLimits) : Except String Unit := do
  limits.validateRuntime
  limits.validateReplies (divCeil MAXIMUM_MUTATION_REPLY_SIZE limits.maxRpcFragmentSize)

end ServerLimits

/-! ## Exports -/

/-- An export. Its backend is what answers the calls made on it. -/
structure ExportState where
  id : ExportId
  path : Bytes
deriving DecidableEq, Repr

/-- The check of `NfsServerBuilder::build` on one export, after the ones before it. -/
def validateExport (earlier : List ExportState) (entry : ExportState) : Except String Unit :=
  if 0 ∈ entry.path ∨ entry.path.length > 1024 then .error "export path is invalid"
  else if ¬ [0x2f].isPrefixOf entry.path ∨ (entry.path.length > 1 ∧ [0x2f].isSuffixOf entry.path) then
    .error "export path must be absolute and must not have a trailing slash"
  else if earlier.any fun other => other.id = entry.id ∨ other.path = entry.path then
    .error "export IDs and paths must be unique"
  else .ok ()

def validateExports (earlier : List ExportState) : List ExportState → Except String Unit
  | [] => .ok ()
  | entry :: exports =>
    match validateExport earlier entry with
    | .error reason => .error reason
    | .ok () => validateExports (earlier ++ [entry]) exports

/-! ## Connection state -/

/-- Library functions outside the source. -/
structure Externals where
  sha256 : Bytes → Fixed 32
  /-- The capacity of a vector in which these bytes were written. -/
  capacity : Bytes → Nat
  le_capacity : ∀ bytes, bytes.length ≤ capacity bytes

/-- The part of `ConnectionState` that does not change while the server runs. -/
structure ConnectionState where
  exports : List ExportState
  limits : ServerLimits
  authPolicy : AuthPolicy
  portmapper : PortmapperMode
  handles : HandleCodec
  localPort : UInt16
  externals : Externals

abbrev MountTable := List (IpAddr × Bytes)

end NfsEmbed.Server
