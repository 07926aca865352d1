import NfsEmbed.Client.Results
import NfsEmbed.Server.Dispatch

/-!
# Reading a reply

A client reads the header of a reply and then the result of its procedure. A reply that is no accepted
one, or has more or less than the result, is none to it, and so is a request that got no reply.
-/

namespace NfsEmbed.Client

open Lib Rpc Nfs3 Server

/-- The header of an accepted reply to this transaction, and its status. -/
def acceptedStatus (xid : UInt32) : XdrParser UInt32 := do
  let replyXid ← u32
  let messageType ← u32
  let replyStatus ← u32
  let flavor ← u32
  let length ← u32
  if replyXid = xid ∧ messageType = RPC_REPLY ∧ replyStatus = MSG_ACCEPTED ∧ flavor = AUTH_NONE ∧ length = 0 then
    u32
  else failure

section Results

variable {ρ : Type} (parse : XdrParser ρ) (xid : UInt32)

def acceptedResult : XdrParser ρ := do
  if (← acceptedStatus xid) = SUCCESS then parse else failure

/-- What a client makes of a whole reply. -/
def readReply (reply : Bytes) : Option ρ :=
  match (acceptedResult parse xid).run reply with
  | some (result, []) => some result
  | _ => none

/-- What reaches the client of the outcome of a request. -/
def deliveredAs : Except ServerError EncodedReply → Option ρ
  | .ok reply => readReply parse xid reply.intoBytes
  | .error _ => none

end Results

end NfsEmbed.Client
