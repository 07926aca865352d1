import NfsEmbed.Vfs.Context
import NfsEmbed.Vfs.Types

/-!
# File handles (`handles/codec.rs`)

The keyed HMAC state is a function from a payload to a tag. No property of HMAC is used; the key is
chosen at random when the codec is made, so any function may turn up.
-/

namespace NfsEmbed.Handles

open Lib Rpc Vfs

def FORMAT_VERSION : UInt8 := 1

def INSTANCE_SIZE : Nat := 8

def TAG_SIZE : Nat := 16

def PAYLOAD_SIZE : Nat := 1 + INSTANCE_SIZE + 4 + 8 + 8

def HANDLE_SIZE : Nat := PAYLOAD_SIZE + TAG_SIZE

structure HandleCodec where
  instanceId : Fixed INSTANCE_SIZE
  /-- `HmacSha256` with the secret of this instance, up to `finalize`. -/
  mac : Bytes → Fixed 32

inductive HandleError where
  | invalidLength
  | invalidFormat
  | staleInstance
  | wrongExport
  | invalidTag
deriving DecidableEq, Repr

namespace HandleCodec

variable (codec : HandleCodec)

def tag (payload : Bytes) : Bytes := (codec.mac payload).bytes.take TAG_SIZE

/-- The authenticated part of a handle. -/
def payload (exportId : ExportId) (object : ObjectKey) : Bytes :=
  [FORMAT_VERSION] ++ codec.instanceId.bytes ++ exportId.id.toBeBytes ++ object.fileId.toBeBytes ++
    object.generation.toBeBytes

def encode (exportId : ExportId) (object : ObjectKey) : Bytes :=
  codec.payload exportId object ++ codec.tag (codec.payload exportId object)

def decodeAny (handle : Bytes) : Except HandleError (ExportId × ObjectKey) :=
  if handle.length ≠ HANDLE_SIZE then .error .invalidLength
  else if handle.take 1 ≠ [FORMAT_VERSION] then .error .invalidFormat
  else if (handle.drop 1).take 8 ≠ codec.instanceId.bytes then .error .staleInstance
  -- `verify_truncated_left` compares with the first bytes of the code
  else if codec.tag (handle.take PAYLOAD_SIZE) ≠ handle.drop PAYLOAD_SIZE then .error .invalidTag
  else .ok
    (⟨UInt32.fromBeBytes ((handle.drop 9).take 4)⟩,
      { fileId := UInt64.fromBeBytes ((handle.drop 13).take 8)
        generation := UInt64.fromBeBytes ((handle.drop 21).take 8) })

def decode (exportId : ExportId) (handle : Bytes) : Except HandleError ObjectKey :=
  match codec.decodeAny handle with
  | .error error => .error error
  | .ok (encodedExport, object) =>
    if encodedExport ≠ exportId then .error .wrongExport else .ok object

end HandleCodec

end NfsEmbed.Handles
