import NfsEmbed.Server.Dispatch

/-!
# The call a client sends

`rpc_call_with_verifier` of the test client: the header of a call, followed by arguments that are
already encoded. Its credential is the body `auth_sys_body` writes for fixed values, here for any, or
nothing.
-/

namespace NfsEmbed.Server

open Lib Rpc Vfs Encoder

def rpcCallWithVerifier (call : CallHeader) : EncodeM Unit := do
  writeU32 call.xid
  writeU32 RPC_CALL
  writeU32 call.rpcVersion
  writeU32 call.program
  writeU32 call.version
  writeU32 call.procedure
  writeU32 call.credentialFlavor
  writeOpaque call.credentialBody
  writeU32 call.verifierFlavor
  writeOpaque call.verifier
  writeFixed call.args

def authSysBody (stamp uid gid : UInt32) (supplementaryGids : List UInt32) (machineName : Bytes) :
    EncodeM Unit := do
  writeU32 stamp
  writeOpaque machineName
  writeU32 uid
  writeU32 gid
  writeU32 (UInt32.ofNat supplementaryGids.length)
  supplementaryGids.forM writeU32

/-- The flavor and the body of a principal's credential. -/
def credential (stamp : UInt32) : Principal → Except EncodeError (UInt32 × Bytes)
  | .anonymous => .ok (AUTH_NONE, [])
  | .authSys uid gid supplementaryGids machineName => do
    let body ← Encoder.run (authSysBody stamp uid gid supplementaryGids machineName)
    return (AUTH_SYS, body)

/-- A call of RPC version 2 with the credential of a principal and no verifier. -/
def rpcCall (xid program version procedure stamp : UInt32) (principal : Principal) (args : Bytes) :
    Except EncodeError Bytes := do
  let (credentialFlavor, credentialBody) ← credential stamp principal
  Encoder.run (rpcCallWithVerifier {
    xid, rpcVersion := 2, program, version, procedure, credentialFlavor, credentialBody,
    verifierFlavor := AUTH_NONE, verifier := [], args })

end NfsEmbed.Server
