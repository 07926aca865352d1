import NfsEmbed.Legacy.Message

/-!
# Whole RPC messages of the pre-1.0 implementation (`rpc/message_legacy.rs`)

The server reads calls with their credentials, and writes denied replies besides those of the handlers. Of
the three unions with two arms, a discriminant that is neither of them is no error: the value stays at its
default, and nothing is read behind the discriminant.
-/

namespace NfsEmbed.Legacy

open Lib Rpc

/-! ## Vectors of words and unions of two arms -/

/-- The loop over a vector that has its length already. -/
def readWords : Nat → Reader (List UInt32)
  | 0 => return []
  | count + 1 => do
    let word : UInt32 ← deserialize
    return word :: (← readWords count)

/-- `Vec<u32>`. -/
instance : Xdr (List UInt32) where
  serialize value := do
    if value.length < 2 ^ 32 - 1 then
      serialize (UInt32.ofNat value.length)
      value.forM serialize
    else throw ⟨"assertion failed: self.len() < u32::MAX as usize"⟩
  deserialize := do
    let length : UInt32 ← deserialize
    readWords length.toNat

/-- `XDR` of a union with the discriminants 0 and 1, given by its arms. -/
@[reducible] def xdrUnion {υ α β : Type} [Inhabited υ] [Xdr α] [Xdr β] (arms : υ → α ⊕ β) (ofArms : α ⊕ β → υ) : Xdr υ where
  serialize value :=
    match arms value with
    | .inl value => do
      serialize (0 : UInt32)
      serialize value
    | .inr value => do
      serialize (1 : UInt32)
      serialize value
  deserialize := do
    let c : UInt32 ← deserialize
    if c = 0 then return ofArms (.inl (← deserialize))
    else if c = 1 then return ofArms (.inr (← deserialize))
    else return default

/-! ## Authentication -/

namespace Message

inductive AuthStat where
  | badcred | rejectedcred | badverf | rejectedverf | tooweak
deriving DecidableEq, Repr

namespace AuthStat

def toU32 : AuthStat → UInt32
  | badcred => 1
  | rejectedcred => 2
  | badverf => 3
  | rejectedverf => 4
  | tooweak => 5

def fromU32 (value : UInt32) : Option AuthStat :=
  match value with
  | 1 => some badcred
  | 2 => some rejectedcred
  | 3 => some badverf
  | 4 => some rejectedverf
  | 5 => some tooweak
  | _ => none

end AuthStat

instance : Xdr AuthStat := xdrEnum "auth_stat" AuthStat.toU32 AuthStat.fromU32

inductive AuthFlavor where
  | null | unix | short | des
deriving DecidableEq, Repr

namespace AuthFlavor

def toU32 : AuthFlavor → UInt32
  | null => 0
  | unix => 1
  | short => 2
  | des => 3

def fromU32 (value : UInt32) : Option AuthFlavor :=
  match value with
  | 0 => some null
  | 1 => some unix
  | 2 => some short
  | 3 => some des
  | _ => none

end AuthFlavor

instance : Xdr AuthFlavor := xdrEnum "auth_flavor" AuthFlavor.toU32 AuthFlavor.fromU32

structure AuthUnix where
  stamp : UInt32
  machinename : Bytes
  uid : UInt32
  gid : UInt32
  gids : List UInt32
deriving DecidableEq, Repr

instance : Xdr AuthUnix :=
  xdrStruct (fun a => (a.stamp, a.machinename, a.uid, a.gid, a.gids))
    fun (stamp, machinename, uid, gid, gids) => ⟨stamp, machinename, uid, gid, gids⟩

structure OpaqueAuth where
  flavor : AuthFlavor := .null
  body : Bytes := []
deriving DecidableEq, Repr

instance : Xdr OpaqueAuth := xdrStruct (fun a => (a.flavor, a.body)) fun (flavor, body) => ⟨flavor, body⟩

/-! ## Calls -/

/-- `call_body`, of which the handlers get `Legacy.CallBody`. -/
structure CallBody where
  rpcvers : UInt32 := 0
  prog : UInt32 := 0
  vers : UInt32 := 0
  proc : UInt32 := 0
  cred : OpaqueAuth := {}
  verf : OpaqueAuth := {}
deriving DecidableEq, Repr

instance : Xdr CallBody :=
  xdrStruct (fun c => (c.rpcvers, c.prog, c.vers, c.proc, c.cred, c.verf))
    fun (rpcvers, prog, vers, proc, cred, verf) => ⟨rpcvers, prog, vers, proc, cred, verf⟩

/-! ## Replies -/

instance : Xdr MismatchInfo := xdrStruct (fun i => (i.low, i.high)) fun (low, high) => ⟨low, high⟩

instance : Xdr AcceptBody where
  serialize := AcceptBody.serialize
  deserialize := do
    let c : UInt32 ← deserialize
    if c = 0 then return .success
    else if c = 1 then return .progUnavail
    else if c = 2 then return .progMismatch (← deserialize)
    else if c = 3 then return .procUnavail
    -- all numbers from 4 on
    else return .garbageArgs

structure AcceptedReply where
  verf : OpaqueAuth := {}
  replyData : AcceptBody := .success
deriving DecidableEq, Repr

instance : Xdr AcceptedReply := xdrStruct (fun r => (r.verf, r.replyData)) fun (verf, replyData) => ⟨verf, replyData⟩

inductive RejectedReply where
  | rpcMismatch (info : MismatchInfo)
  | authError (stat : AuthStat)
deriving DecidableEq, Repr

namespace RejectedReply

instance : Inhabited RejectedReply := ⟨.rpcMismatch ⟨0, 0⟩⟩

def arms : RejectedReply → MismatchInfo ⊕ AuthStat
  | rpcMismatch info => .inl info
  | authError stat => .inr stat

instance : Xdr RejectedReply := xdrUnion arms (Sum.elim rpcMismatch authError)

end RejectedReply

inductive ReplyBody where
  | msgAccepted (reply : AcceptedReply)
  | msgDenied (reply : RejectedReply)
deriving DecidableEq, Repr

namespace ReplyBody

instance : Inhabited ReplyBody := ⟨.msgAccepted {}⟩

def arms : ReplyBody → AcceptedReply ⊕ RejectedReply
  | msgAccepted reply => .inl reply
  | msgDenied reply => .inr reply

instance : Xdr ReplyBody := xdrUnion arms (Sum.elim msgAccepted msgDenied)

end ReplyBody

/-! ## Messages -/

inductive RpcBody where
  | call (body : CallBody)
  | reply (body : ReplyBody)
deriving DecidableEq, Repr

namespace RpcBody

instance : Inhabited RpcBody := ⟨.call {}⟩

def arms : RpcBody → CallBody ⊕ ReplyBody
  | call body => .inl body
  | reply body => .inr body

instance : Xdr RpcBody := xdrUnion arms (Sum.elim call reply)

end RpcBody

structure RpcMsg where
  xid : UInt32
  body : RpcBody
deriving DecidableEq, Repr

instance : Xdr RpcMsg := xdrStruct (fun m => (m.xid, m.body)) fun (xid, body) => ⟨xid, body⟩

end Message

end NfsEmbed.Legacy
