import NfsEmbed.Legacy.Nfs

/-!
# RPC messages of the pre-1.0 implementation (`rpc/message_legacy.rs`)

The replies the NFS handlers write, and what they read of a call's header. The handlers deny no call, so
the other kind of reply is left out.
-/

namespace NfsEmbed.Legacy

open Lib

structure CallBody where
  vers : UInt32
  proc : UInt32
deriving DecidableEq, Repr

structure MismatchInfo where
  low : UInt32
  high : UInt32
deriving DecidableEq, Repr

inductive AcceptBody where
  | success
  | progUnavail
  | progMismatch (info : MismatchInfo)
  | procUnavail
  | garbageArgs
deriving DecidableEq, Repr

def AcceptBody.serialize : AcceptBody → Writer Unit
  | success => Xdr.serialize (0 : UInt32)
  | progUnavail => Xdr.serialize (1 : UInt32)
  | progMismatch info => do
    Xdr.serialize (2 : UInt32)
    Xdr.serialize (info.low, info.high)
  | procUnavail => Xdr.serialize (3 : UInt32)
  | garbageArgs => Xdr.serialize (4 : UInt32)

/-- `rpc_msg` with an accepted reply, whose verifier is the default one. -/
structure ReplyMessage where
  xid : UInt32
  replyData : AcceptBody
deriving DecidableEq, Repr

def ReplyMessage.serialize (message : ReplyMessage) : Writer Unit := do
  Xdr.serialize message.xid
  -- `REPLY`, `MSG_ACCEPTED`
  Xdr.serialize (1 : UInt32)
  Xdr.serialize (0 : UInt32)
  -- `opaque_auth::default()`: `AUTH_NULL` and no bytes
  Xdr.serialize (0 : UInt32)
  Xdr.serialize ([] : Bytes)
  message.replyData.serialize

def procUnavailReplyMessage (xid : UInt32) : ReplyMessage := ⟨xid, .procUnavail⟩

def progMismatchReplyMessage (xid acceptedVer : UInt32) : ReplyMessage := ⟨xid, .progMismatch ⟨acceptedVer, acceptedVer⟩⟩

def garbageArgsReplyMessage (xid : UInt32) : ReplyMessage := ⟨xid, .garbageArgs⟩

def makeSuccessReply (xid : UInt32) : ReplyMessage := ⟨xid, .success⟩

end NfsEmbed.Legacy
