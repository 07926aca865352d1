import NfsEmbed.Rpc.Codec
import NfsEmbed.Vfs.Types

/-!
# The MOUNT protocol (`mount3/`)
-/

namespace NfsEmbed.Mount3

open Lib Rpc Vfs Encoder

def PROGRAM : UInt32 := 100005

def VERSION : UInt32 := 3

inductive MountStatus where
  | ok | permission | notFound | io | access | notDirectory | invalid | nameTooLong | notSupported
  | serverFault
deriving DecidableEq, Repr

def MountStatus.code : MountStatus → UInt32
  | ok => 0
  | permission => 1
  | notFound => 2
  | io => 5
  | access => 13
  | notDirectory => 20
  | invalid => 22
  | nameTooLong => 63
  | notSupported => 10004
  | serverFault => 10006

inductive MountResult where
  | ok (fileHandle : Bytes) (authFlavors : List UInt32)
  | err (status : MountStatus)
deriving DecidableEq, Repr

structure MountEntry where
  host : Bytes
  path : Bytes
deriving DecidableEq, Repr

structure DumpResult where
  mounts : List MountEntry
deriving DecidableEq, Repr

structure ExportEntry where
  path : Bytes
  groups : List Bytes
deriving DecidableEq, Repr

structure ExportResult where
  exports : List ExportEntry
deriving DecidableEq, Repr

class EncodeMountResult (ρ : Type) where
  encodeResult : ρ → EncodeM Unit

instance : EncodeMountResult MountResult where
  encodeResult
    | .ok fileHandle authFlavors => do
      writeU32 0
      writeOpaque fileHandle
      if authFlavors.length ≥ 2 ^ 32 then throw (.tooLarge authFlavors.length)
      writeU32 (UInt32.ofNat authFlavors.length)
      authFlavors.forM writeU32
    | .err status => writeU32 status.code

instance : EncodeMountResult DumpResult where
  encodeResult result := do
    result.mounts.forM fun mount => do
      writeBool true
      writeOpaque mount.host
      writeOpaque mount.path
    writeBool false

instance : EncodeMountResult ExportResult where
  encodeResult result := do
    result.exports.forM fun entry => do
      writeBool true
      writeOpaque entry.path
      entry.groups.forM fun group => do
        writeBool true
        writeOpaque group
      writeBool false
    writeBool false

/-- Export paths match at component boundaries. -/
def exportMatches (exportPath requestPath : Bytes) : Bool :=
  requestPath = exportPath ∨ (exportPath = [0x2f] ∧ [0x2f].isPrefixOf requestPath) ∨
    (exportPath.isPrefixOf requestPath ∧ requestPath[exportPath.length]? = some 0x2f)

end NfsEmbed.Mount3
