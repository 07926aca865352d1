import NfsEmbed.Lib.BigEndian

/-!
# Request context (`vfs/context.rs`)
-/

namespace NfsEmbed.Vfs

open Lib

/-- `std::net::SocketAddr`. -/
inductive SocketAddr where
  | v4 (ip : BitVec 32) (port : UInt16)
  | v6 (ip : BitVec 128) (port : UInt16) (flowinfo scopeId : UInt32)
deriving DecidableEq, Repr

/-- `std::net::IpAddr`. -/
inductive IpAddr where
  | v4 (ip : BitVec 32)
  | v6 (ip : BitVec 128)
deriving DecidableEq, Repr

def SocketAddr.ip : SocketAddr → IpAddr
  | v4 ip _ => .v4 ip
  | v6 ip _ _ _ => .v6 ip

/-- `SocketAddr::new`. -/
def SocketAddr.new (ip : IpAddr) (port : UInt16) : SocketAddr :=
  match ip with
  | .v4 ip => .v4 ip port
  | .v6 ip => .v6 ip port 0 0

structure ExportId where
  id : UInt32
deriving DecidableEq, Repr

/-- The authenticated caller of an RPC request. -/
inductive Principal where
  | anonymous
  | authSys (uid gid : UInt32) (supplementaryGids : List UInt32) (machineName : Bytes)
deriving DecidableEq, Repr

/-- Context supplied to every backend operation. -/
structure RequestContext where
  principal : Principal
  clientAddr : SocketAddr
  exportId : ExportId
deriving DecidableEq, Repr

end NfsEmbed.Vfs
