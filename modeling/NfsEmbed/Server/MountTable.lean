import NfsEmbed.Lib.Transition
import NfsEmbed.Server.Connection

/-!
# MOUNT requests at the same time (`state.mounts` in `server/connection.rs`)

Any number of MOUNT requests are on their way, each running `dispatch_mount`. Between the calls of a
request to its backend the others go on; what a request does under the lock of the mount table is one
step. A request that is cancelled or times out takes no more steps.
-/

namespace NfsEmbed.Server

open Lib Rpc Vfs

structure MountRequest where
  xid : UInt32
  context : RequestContext
  procedure : UInt32
  args : Bytes
  thread : Thread

def MountRequest.new (state : ConnectionState) (xid : UInt32) (context : RequestContext) (procedure : UInt32)
    (args : Bytes) : MountRequest where
  xid := xid
  context := context
  procedure := procedure
  args := args
  thread := ⟨[], dispatchMount state xid context procedure args⟩

/-- The request has its answer. -/
def MountRequest.resume (request : MountRequest) (op : ServerOp) (next : op.Answer → ServerM EncodedReply)
    (answer : op.Answer) : MountRequest :=
  { request with thread := ⟨request.thread.history ++ [⟨op, answer⟩], next answer⟩ }

/-- The requests are in the order of their arrival. -/
structure MountServer where
  table : MountTable
  requests : List MountRequest

inductive MountEvent where
  | arrive
  | answer
  /-- The lock section of a request. -/
  | lock (index : Nat)

inductive MountStep (state : ConnectionState) : MountServer → MountEvent → MountServer → Prop
  | arrive (server : MountServer) (xid : UInt32) (context : RequestContext) (procedure : UInt32) (args : Bytes) :
    MountStep state server .arrive
      { server with requests := server.requests ++ [.new state xid context procedure args] }
  | answer (server : MountServer) (index : Nat) (request : MountRequest) (op : ServerOp)
      (next : op.Answer → ServerM EncodedReply) (answer : op.Answer) :
    server.requests[index]? = some request → request.thread.program = Prog.ask (S := serverSignature) op next →
    (∀ update, op ≠ .mounts update) →
    MountStep state server .answer { server with requests := server.requests.set index (request.resume op next answer) }
  | lock (server : MountServer) (index : Nat) (request : MountRequest) (update : MountTable → MountTable)
      (next : MountTable → ServerM EncodedReply) :
    server.requests[index]? = some request →
    request.thread.program = Prog.ask (S := serverSignature) (.mounts update) next →
    MountStep state server (.lock index)
      { table := update server.table
        requests := server.requests.set index (request.resume (.mounts update) next server.table) }

/-- The table is empty before the first request. -/
def mountMachine (state : ConnectionState) : Machine MountServer MountEvent where
  Start server := server.table = [] ∧ server.requests = []
  Step := MountStep state

end NfsEmbed.Server
