import NfsEmbed.Lib.Transition
import NfsEmbed.Replay.Cache

/-!
# Runs of the replay cache

Any number of callers share one cache. The world is the cache together with what its callers hold:
the unresolved leases, the receivers that were dropped, and what was delivered on the channels. A
step is one lock section or one thing a caller does by itself.

A lease is consumed by `complete`, `cancel` or by dropping it, so it is resolved once; while its
owner is between the two lock sections of `complete` it is `completing`.

Three things about the environment stand in the guards. Instants come from a clock that does not run
backwards, and `begin` reads it before it waits for the lock, so what it read may be older than the
clock. Fewer than `2 ^ 64` calls of `begin` are made. Allocations that are alive at once are
disjoint, so what the cache retains and what it is about to retain fit the address space together;
only a byte limit of `usize::MAX` leaves anything for this to exclude.
-/

namespace NfsEmbed.Replay

open Lib Rpc

/-- What the owner of an unresolved lease has done with it. -/
inductive LeasePhase where
  | held
  | completing (reply : EncodedReply) (alloc : Allocator) (eligibleBeforeCopy : Bool)

structure World where
  inner : CacheInner
  leases : Table ReplayEntryKey LeasePhase
  closed : List Channel
  channels : Nat
  clock : Nat
  begins : Nat
  deliveries : List (Channel × Except ReplayError EncodedReply)

inductive Event where
  | begin (now : Nat) (key : ReplayKey) (fingerprint : RequestFingerprint)
      (outcome : Except ReplayError ReplayDecision)
  | prepare (lease : ReplayEntryKey) (reply : EncodedReply) (alloc : Allocator)
  | store (lease : ReplayEntryKey) (reply : EncodedReply) (alloc : Allocator)
  | cancel (lease : ReplayEntryKey)
  | drop (lease : ReplayEntryKey)
  | close (receiver : Channel)
  | tick (now : Nat)

namespace World

def new (clock : Nat) : World where
  inner := CacheInner.new
  leases := ∅
  closed := []
  channels := 0
  clock := clock
  begins := 0
  deliveries := []

/-- Sending on a channel whose receiver is gone delivers nothing. -/
def deliver (w : World) (sends : List (Channel × Except ReplayError EncodedReply)) : World :=
  { w with deliveries := w.deliveries ++ sends.filter fun send => send.1 ∉ w.closed }

@[simp] theorem deliver_inner (w : World) (sends : List (Channel × Except ReplayError EncodedReply)) :
    (w.deliver sends).inner = w.inner := rfl

/-- The lock section of `begin` at the instant `now`; an `Execute` decision opens a lease. -/
def begin (cache : ReplayCache) (now : Nat) (key : ReplayKey) (fingerprint : RequestFingerprint)
    (w : World) : Except ReplayError ReplayDecision × World :=
  let result := cache.begin (· ∈ w.closed) now w.channels key fingerprint w.inner
  (result.1,
    { w with
      inner := result.2
      leases := match result.1 with
        | .ok (.execute lease) => w.leases.insert lease .held
        | _ => w.leases
      channels := w.channels + 1
      begins := w.begins + 1 })

/-- The first lock section of `complete`. -/
def prepare (cache : ReplayCache) (lease : ReplayEntryKey) (reply : EncodedReply) (alloc : Allocator)
    (w : World) : World :=
  let eligible := cache.eligibleBeforeCopy lease reply w.inner
  { w with leases := w.leases.insert lease (.completing reply alloc eligible) }

/-- The second lock section of `complete`. -/
def store (cache : ReplayCache) (lease : ReplayEntryKey) (reply : EncodedReply) (alloc : Allocator)
    (eligibleBeforeCopy : Bool) (w : World) : World :=
  let replayStorage := if eligibleBeforeCopy then some (reply.replayStorage alloc) else none
  let result := cache.complete w.clock lease reply replayStorage w.inner
  { w with inner := result.1, leases := w.leases.erase lease }.deliver result.2

/-- The lock section of `cancel`, which dropping an unfinished lease runs too. -/
def cancel (lease : ReplayEntryKey) (w : World) : World :=
  let result := w.inner.cancel lease
  { w with inner := result.1, leases := w.leases.erase lease }.deliver result.2

end World

/-- The memory the cache retains and a reply it is about to retain do not overlap. -/
def FitsMemory (cache : ReplayCache) (w : World) (charge : Nat) : Prop :=
  cache.maxCompletedBytes < usizeMax ∨
    w.inner.entries.weight ReplayState.charged + charge ≤ usizeMax

inductive Step (cache : ReplayCache) : World → Event → World → Prop
  | begin (w : World) (now : Nat) (key : ReplayKey) (fingerprint : RequestFingerprint) :
    now ≤ w.clock → w.begins + 1 < 2 ^ 64 →
    Step cache w (.begin now key fingerprint (w.begin cache now key fingerprint).1)
      (w.begin cache now key fingerprint).2
  | prepare (w : World) (lease : ReplayEntryKey) (reply : EncodedReply) (alloc : Allocator) :
    w.leases.lookup lease = some .held →
    Step cache w (.prepare lease reply alloc) (w.prepare cache lease reply alloc)
  | store (w : World) (lease : ReplayEntryKey) (reply : EncodedReply) (alloc : Allocator)
      (eligibleBeforeCopy : Bool) :
    w.leases.lookup lease = some (.completing reply alloc eligibleBeforeCopy) →
    FitsMemory cache w (reply.charge alloc) →
    Step cache w (.store lease reply alloc) (w.store cache lease reply alloc eligibleBeforeCopy)
  | cancel (w : World) (lease : ReplayEntryKey) :
    w.leases.lookup lease = some .held → Step cache w (.cancel lease) (w.cancel lease)
  | drop (w : World) (lease : ReplayEntryKey) :
    w.leases.lookup lease = some .held → Step cache w (.drop lease) (w.cancel lease)
  | close (w : World) (receiver : Channel) :
    receiver < w.channels →
    Step cache w (.close receiver) { w with closed := receiver :: w.closed }
  | tick (w : World) (now : Nat) :
    w.clock ≤ now → Step cache w (.tick now) { w with clock := now }

/-- The cache and its callers as a transition system. -/
def machine (cache : ReplayCache) : Machine World Event where
  Start w := ∃ clock, w = World.new clock
  Step := Step cache

end NfsEmbed.Replay
