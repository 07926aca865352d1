import NfsEmbed.Lib.Table
import NfsEmbed.Rpc.Codec
import NfsEmbed.Rpc.Reply
import NfsEmbed.Vfs.Context

/-!
# The replay cache (`replay/cache.rs`)

The fields behind the cache's mutex are `CacheInner`; a function that locks the cache is a function
on it. `complete` locks twice, once to see whether the reply may be worth copying and once to store
it, and other callers may run in between: the two lock sections are `eligibleBeforeCopy` and
`complete`.

An `Instant` is a natural number, and so is a `Duration`: `duration_since` is truncated subtraction.
A `oneshot` channel is a number both of its ends share; sending is returning what was sent.
-/

namespace NfsEmbed.Replay

open Lib Rpc Vfs

structure ReplayKey where
  clientAddr : SocketAddr
  exportId : ExportId
  xid : UInt32
deriving DecidableEq, Repr

structure RequestFingerprint where
  digest : Fixed 32
deriving DecidableEq, Repr

inductive ReplayError where
  | capacity
  | cancelled
deriving DecidableEq, Repr

structure ReplayEntryKey where
  request : ReplayKey
  fingerprint : RequestFingerprint
  generation : UInt64
deriving DecidableEq, Repr

structure LatestGeneration where
  fingerprint : RequestFingerprint
  generation : UInt64
deriving DecidableEq, Repr

/-- A `oneshot` channel for the result of an execution. -/
abbrev Channel := Nat

inductive ReplayState where
  | inFlight (waiters : List Channel)
  | completed (encodedReply : EncodedReply) (retainedBytes : Nat) (completedAt : Nat)

/-- What a state of an entry is charged. -/
def ReplayState.charged : ReplayState → Nat
  | .inFlight _ => 0
  | .completed _ retainedBytes _ => retainedBytes

/-- `Execute` hands out the lease, which is the key of the entry it owns. -/
inductive ReplayDecision where
  | execute (lease : ReplayEntryKey)
  | replay (reply : EncodedReply)
  | wait (receiver : Channel)

structure CacheInner where
  entries : Table ReplayEntryKey ReplayState
  latest : Table ReplayKey LatestGeneration
  completedOrder : List ReplayEntryKey
  completedBytes : Nat
  nextGeneration : UInt64

structure ReplayCache where
  capacity : Nat
  maxCompletedBytes : Nat
  ttl : Nat
  maxCompletedBytes_le : maxCompletedBytes ≤ usizeMax

namespace CacheInner

def new : CacheInner where
  entries := ∅
  latest := ∅
  completedOrder := []
  completedBytes := 0
  nextGeneration := 0

def isLatest (inner : CacheInner) (key : ReplayEntryKey) : Bool :=
  match inner.latest.lookup key.request with
  | some latest => latest.generation == key.generation && latest.fingerprint == key.fingerprint
  | none => false

/-- `matches!(entries.get(key), Some(ReplayState::Completed { .. }))` -/
def isCompleted (inner : CacheInner) (key : ReplayEntryKey) : Bool :=
  match inner.entries.lookup key with
  | some (.completed ..) => true
  | _ => false

/-- `matches!(entries.get(key), Some(ReplayState::InFlight { .. }))` -/
def isInFlight (inner : CacheInner) (key : ReplayEntryKey) : Bool :=
  match inner.entries.lookup key with
  | some (.inFlight _) => true
  | _ => false

/-- The end of `remove_completed` and of `cancel`: forget the generation if it is the latest. -/
def forgetLatest (inner : CacheInner) (key : ReplayEntryKey) : CacheInner :=
  if inner.isLatest key then { inner with latest := inner.latest.erase key.request } else inner

def removeCompleted (inner : CacheInner) (key : ReplayEntryKey) : CacheInner :=
  let removed := { inner with
    entries := inner.entries.erase key
    completedBytes := match inner.entries.lookup key with
      | some (.completed _ retainedBytes _) => inner.completedBytes - retainedBytes
      | _ => inner.completedBytes }
  removed.forgetLatest key

def removeCompletedForRequest (inner : CacheInner) (request : ReplayKey) : CacheInner :=
  match inner.latest.lookup request with
  | none => inner
  | some latest =>
    let key := ⟨request, latest.fingerprint, latest.generation⟩
    if inner.isCompleted key then inner.removeCompleted key else inner

/-- The loop of `expire`; the list is the completion order still to be looked at. -/
def expireFrom (now ttl : Nat) : List ReplayEntryKey → CacheInner → CacheInner
  | [], inner => { inner with completedOrder := [] }
  | oldest :: rest, inner =>
    match inner.entries.lookup oldest with
    | some (.completed _ _ completedAt) =>
      if now - completedAt < ttl then { inner with completedOrder := oldest :: rest }
      else expireFrom now ttl rest ({ inner with completedOrder := rest }.removeCompleted oldest)
    -- entries removed because of XID reuse or eviction leave a tombstone in the order queue
    | some (.inFlight _) | none => expireFrom now ttl rest { inner with completedOrder := rest }

def expire (now ttl : Nat) (inner : CacheInner) : CacheInner :=
  expireFrom now ttl inner.completedOrder inner

def compactCompletionOrder (inner : CacheInner) : CacheInner :=
  let compactAt := max (saturatingMul inner.entries.size 2) 64
  if inner.completedOrder.length > compactAt then
    { inner with completedOrder := inner.completedOrder.filter inner.isCompleted }
  else inner

/-- The loop of `evict_oldest_completed`. -/
def evictFrom : List ReplayEntryKey → CacheInner → Bool × CacheInner
  | [], inner => (false, { inner with completedOrder := [] })
  | oldest :: rest, inner =>
    if inner.isCompleted oldest then
      (true, { inner with completedOrder := rest }.removeCompleted oldest)
    else evictFrom rest { inner with completedOrder := rest }

def evictOldestCompleted (inner : CacheInner) : Bool × CacheInner :=
  evictFrom inner.completedOrder inner

/-- The `while` loop of `complete`. Every round that does not break shortens the order queue, so its
length bounds the rounds. -/
def makeRoom (maxCompletedBytes retainedBytes : Nat) : Nat → CacheInner → CacheInner
  | 0, inner => inner
  | rounds + 1, inner =>
    if saturatingAdd inner.completedBytes retainedBytes > maxCompletedBytes then
      match inner.evictOldestCompleted with
      | (true, inner) => makeRoom maxCompletedBytes retainedBytes rounds inner
      | (false, inner) => inner
    else inner

/-- `cancel`, with the sends it makes. -/
def cancel (inner : CacheInner) (key : ReplayEntryKey) :
    CacheInner × List (Channel × Except ReplayError EncodedReply) :=
  match inner.entries.lookup key with
  | some (.inFlight waiters) =>
    ({ inner with entries := inner.entries.erase key }.forgetLatest key,
      waiters.map fun waiter => (waiter, .error .cancelled))
  | _ => (inner.forgetLatest key, [])

/-- Writing through the reference `get_mut` gave to an in-flight entry. -/
def setWaiters (inner : CacheInner) (key : ReplayEntryKey) (waiters : List Channel) : CacheInner :=
  { inner with entries := inner.entries.insert key (.inFlight waiters) }

/-- The end of `begin`: open a new generation of the request. -/
def openGeneration (inner : CacheInner) (key : ReplayKey) (fingerprint : RequestFingerprint) :
    CacheInner :=
  { inner with
    nextGeneration := inner.nextGeneration + 1
    latest := inner.latest.insert key ⟨fingerprint, inner.nextGeneration⟩
    entries := inner.entries.insert ⟨key, fingerprint, inner.nextGeneration⟩ (.inFlight []) }

/-- The end of a successful `complete`: the reply becomes the youngest completed entry. -/
def pushCompleted (inner : CacheInner) (key : ReplayEntryKey) (stored : EncodedReply)
    (retainedBytes now : Nat) : CacheInner :=
  { inner with
    completedBytes := saturatingAdd inner.completedBytes retainedBytes
    entries := inner.entries.insert key (.completed stored retainedBytes now)
    completedOrder := inner.completedOrder ++ [key] }

end CacheInner

namespace ReplayCache

variable (cache : ReplayCache)

/-- The part of `begin` after the exact duplicate was ruled out: free a slot and open a new
generation. -/
def grant (key : ReplayKey) (fingerprint : RequestFingerprint) (inner : CacheInner) :
    Except ReplayError ReplayDecision × CacheInner :=
  let inner := inner.removeCompletedForRequest key
  let (room, inner) :=
    if inner.entries.size ≥ cache.capacity then inner.evictOldestCompleted else (true, inner)
  if room then
    (.ok (.execute ⟨key, fingerprint, inner.nextGeneration⟩), inner.openGeneration key fingerprint)
  else (.error .capacity, inner)

/-- `begin`. `now` is the instant read before the lock is taken, `isClosed` tells which receivers
are gone, and `channel` is the channel a duplicate would wait on. -/
def begin (isClosed : Channel → Bool) (now : Nat) (channel : Channel) (key : ReplayKey)
    (fingerprint : RequestFingerprint) (inner : CacheInner) :
    Except ReplayError ReplayDecision × CacheInner :=
  let inner := inner.expire now cache.ttl
  match inner.latest.lookup key with
  | some latest =>
    if latest.fingerprint = fingerprint then
      let entryKey := ⟨key, fingerprint, latest.generation⟩
      match inner.entries.lookup entryKey with
      | some (.inFlight waiters) =>
        -- closed waiters are discarded before the new receiver is added
        let waiters := waiters.filter (fun waiter => !isClosed waiter) ++ [channel]
        (.ok (.wait channel), inner.setWaiters entryKey waiters)
      | some (.completed encodedReply _ _) => (.ok (.replay encodedReply), inner)
      | none => cache.grant key fingerprint inner
    else cache.grant key fingerprint inner
  | none => cache.grant key fingerprint inner

/-- The first lock section of `complete`. The lock is taken only when the reply would have to be
copied. -/
def eligibleBeforeCopy (key : ReplayEntryKey) (reply : EncodedReply) (inner : CacheInner) : Bool :=
  decide (reply.len ≤ cache.maxCompletedBytes) &&
    (!reply.replayStorageRequiresCopy || (inner.isLatest key && inner.isInFlight key))

/-- The attempt of `complete` to retain a reply: whether it is retained, and the new fields. -/
def retain (now : Nat) (key : ReplayEntryKey) (stored : EncodedReply) (retainedBytes : Nat)
    (inner : CacheInner) : Bool × CacheInner :=
  -- a single over-budget allocation is rejected before eviction
  if retainedBytes ≤ cache.maxCompletedBytes then
    let inner :=
      inner.makeRoom cache.maxCompletedBytes retainedBytes (inner.completedOrder.length + 1)
    if saturatingAdd inner.completedBytes retainedBytes ≤ cache.maxCompletedBytes then
      (true, (inner.pushCompleted key stored retainedBytes now).compactCompletionOrder)
    else (false, inner)
  else (false, inner)

/-- The second lock section of `complete`, with the sends it makes. -/
def complete (now : Nat) (key : ReplayEntryKey) (reply : EncodedReply)
    (replayStorage : Option (EncodedReply × Nat)) (inner : CacheInner) :
    CacheInner × List (Channel × Except ReplayError EncodedReply) :=
  match inner.entries.lookup key with
  | some (.inFlight waiters) =>
    let inner := { inner with entries := inner.entries.erase key }
    let isLatest := inner.isLatest key
    let (retained, inner) :=
      match isLatest, replayStorage with
      | true, some (encodedReply, retainedBytes) =>
        cache.retain now key encodedReply retainedBytes inner
      | _, _ => (false, inner)
    let inner :=
      if isLatest && !retained then { inner with latest := inner.latest.erase key.request }
      else inner
    (inner, waiters.map fun waiter => (waiter, .ok reply))
  | _ => (inner, [])

end ReplayCache

end NfsEmbed.Replay
