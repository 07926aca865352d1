import NfsEmbed.Lib.BigEndian
import NfsEmbed.Vfs.Context

/-!
# The request fingerprint (`dispatch_record` and `hash_principal` in `server/connection.rs`)

The hash function is outside the source, and feeding it piece by piece is feeding it the
concatenation, so what is modelled is the byte string that is hashed.
-/

namespace NfsEmbed.Server

open Lib Vfs

/-- What `hash_principal` feeds to the hasher. -/
def hashPrincipal : Principal → Bytes
  | .anonymous => [0]
  | .authSys uid gid supplementaryGids machineName =>
    [1] ++ uid.toBeBytes ++ gid.toBeBytes ++ (UInt32.ofNat supplementaryGids.length).toBeBytes ++
      supplementaryGids.flatMap UInt32.toBeBytes ++ (UInt32.ofNat machineName.length).toBeBytes ++
      machineName

/-- What a call is fingerprinted by. -/
structure Call where
  program : UInt32
  version : UInt32
  procedure : UInt32
  args : Bytes
  principal : Principal
deriving DecidableEq, Repr

/-- What `dispatch_record` feeds to the hasher. -/
def Call.hashed (call : Call) : Bytes :=
  call.program.toBeBytes ++ call.version.toBeBytes ++ call.procedure.toBeBytes ++ call.args ++
    hashPrincipal call.principal

end NfsEmbed.Server
