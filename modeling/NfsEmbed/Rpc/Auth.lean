import NfsEmbed.Rpc.Codec
import NfsEmbed.Vfs.Context

/-!
# Credentials (`rpc/auth.rs`)
-/

namespace NfsEmbed.Rpc

open Lib Vfs

def AUTH_NONE : UInt32 := 0

def AUTH_SYS : UInt32 := 1

def MAX_MACHINE_NAME : Nat := 255

def MAX_GROUPS : Nat := 16

/-- The body of an `AUTH_SYS` credential; the stamp is read and dropped. -/
def decodeAuthSys : DecodeM Principal := do
  let _stamp ← Decoder.readU32
  let machineName ← Decoder.readString "AUTH_SYS machine name" MAX_MACHINE_NAME
  let uid ← Decoder.readU32
  let gid ← Decoder.readU32
  let supplementaryGids ← Decoder.readArray "AUTH_SYS groups" MAX_GROUPS Decoder.readU32
  return .authSys uid gid supplementaryGids machineName

def decodePrincipal (flavor : UInt32) (body : Bytes) : Except DecodeError Principal :=
  if flavor = AUTH_NONE then
    if body = [] then .ok .anonymous else .error .trailingBytes
  else if flavor = AUTH_SYS then
    Decoder.run (do let principal ← decodeAuthSys; Decoder.finish; return principal) body
  else .error (.invalidDiscriminant "authentication flavor" flavor)

end NfsEmbed.Rpc
