import NfsEmbed.Laws.Replay.Invariant

/-!
# Retransmissions are executed at most once

From the moment `begin` hands out a lease, a retransmission of the same request waits for it or gets
its reply, until one of the listed interruptions happens (`Interrupts`). The cache *remembers* the
lease in between: it is the latest generation of its request, and is in flight or completed with the
reply given to `complete`. Every step keeps that or is an interruption.

The law is `retransmission_answered_or_interrupted`. What is done under a lease is not the cache's matter.
-/

namespace NfsEmbed.Replay

open Lib Rpc

variable {reply : EncodedReply} {alloc : Allocator} {w' : World} {other : ReplayEntryKey} {now : Nat}
  {key : ReplayKey} {fingerprint : RequestFingerprint}

/-- The steps that may end the cache's memory of a lease. -/
inductive Interrupts (cache : ReplayCache) (lease : ReplayEntryKey) : Edge World Event → Prop
  | cancelled (w w' : World) : Interrupts cache lease ⟨w, .cancel lease, w'⟩
  | dropped (w w' : World) : Interrupts cache lease ⟨w, .drop lease, w'⟩
  /-- The same XID was reused for a different request. -/
  | reused (w w' : World) (now : Nat) (fingerprint : RequestFingerprint) (granted : ReplayEntryKey) :
    fingerprint ≠ lease.fingerprint →
    Interrupts cache lease ⟨w, .begin now lease.request fingerprint (.ok (.execute granted)), w'⟩
  /-- The reply alone exceeds the byte limit. -/
  | notRetained (w w' : World) (reply : EncodedReply) (alloc : Allocator) :
    cache.maxCompletedBytes < reply.charge alloc →
    Interrupts cache lease ⟨w, .store lease reply alloc, w'⟩
  /-- The reply made room for another request when the cache was full. -/
  | evictedForCapacity (w w' : World) (now : Nat) (key : ReplayKey)
      (fingerprint : RequestFingerprint) (granted : ReplayEntryKey) :
    w.inner.isCompleted lease = true → w'.inner.isCompleted lease = false →
    key ≠ lease.request → cache.capacity ≤ (w.inner.expire now cache.ttl).entries.size →
    Interrupts cache lease ⟨w, .begin now key fingerprint (.ok (.execute granted)), w'⟩
  /-- The reply made room for another reply that did not fit the byte limit with it. -/
  | evictedForBytes (w w' : World) (other : ReplayEntryKey) (reply : EncodedReply)
      (alloc : Allocator) :
    w.inner.isCompleted lease = true → w'.inner.isCompleted lease = false → other ≠ lease →
    cache.maxCompletedBytes < w.inner.completedBytes + reply.charge alloc →
    Interrupts cache lease ⟨w, .store other reply alloc, w'⟩
  /-- The reply outlived its time to live. -/
  | expired (w w' : World) (now : Nat) (key : ReplayKey) (fingerprint : RequestFingerprint)
      (outcome : Except ReplayError ReplayDecision) :
    w.inner.Expired now cache.ttl lease → w'.inner.isCompleted lease = false →
    Interrupts cache lease ⟨w, .begin now key fingerprint outcome, w'⟩

/-- The lease was resolved by `complete` with this reply. -/
def CompletedWith (lease : ReplayEntryKey) (reply : EncodedReply) (alloc : Allocator)
    (trace : List (Edge World Event)) : Prop :=
  ∃ w w', (⟨w, .store lease reply alloc, w'⟩ : Edge World Event) ∈ trace

/-- The cache knows the lease after the steps `trace`. -/
structure Remembers (cache : ReplayCache) (lease : ReplayEntryKey) (trace : List (Edge World Event))
    (w : World) : Prop where
  latest : w.inner.isLatest lease = true
  /-- In flight, and if found ineligible for retention then for its size only; or completed. -/
  state : (∃ phase, w.leases.lookup lease = some phase ∧
      ∀ reply alloc, phase = .completing reply alloc false →
        cache.maxCompletedBytes < reply.charge alloc) ∨
    (∃ reply alloc bytes at', CompletedWith lease reply alloc trace ∧
      w.inner.entries.lookup lease = some (.completed (reply.replayStorage alloc).1 bytes at'))

variable {cache : ReplayCache} {lease : ReplayEntryKey} {trace : List (Edge World Event)} {w : World}

theorem CompletedWith.snoc (h : CompletedWith lease reply alloc trace) (edge : Edge World Event) :
    CompletedWith lease reply alloc (trace ++ [edge]) := by
  obtain ⟨w, w', hmem⟩ := h
  exact ⟨w, w', List.mem_append_left _ hmem⟩

namespace Remembers

/-- A step that leaves the entry, the lease and the latest generation alone is not noticed. -/
theorem frame (h : Remembers cache lease trace w) (edge : Edge World Event) (hlatest : w'.inner.isLatest lease = true)
    (hlease : w'.leases.lookup lease = w.leases.lookup lease)
    (hentry : w.inner.isCompleted lease = true → w'.inner.entries.lookup lease = w.inner.entries.lookup lease) :
    Remembers cache lease (trace ++ [edge]) w' where
  latest := hlatest
  state := by
    rcases h.state with hflight | ⟨reply, alloc, bytes, at', hwith, hcompleted⟩
    · exact .inl (by rwa [hlease])
    · refine .inr ⟨reply, alloc, bytes, at', hwith.snoc edge, ?_⟩
      rw [hentry (CacheInner.isCompleted_of_lookup hcompleted), hcompleted]

/-- A remembered lease has an entry. -/
theorem mem_entries (h : Remembers cache lease trace w) (hsound : Sound cache w) :
    lease ∈ w.inner.entries :=
  hsound.consistent.latest_bound _ _ (CacheInner.isLatest_iff.mp h.latest)

/-- The lease a later `begin` opens is another one. -/
theorem ne_fresh (h : Remembers cache lease trace w) (hsound : Sound cache w) (key : ReplayKey)
    (fingerprint : RequestFingerprint) : lease ≠ ⟨key, fingerprint, w.inner.nextGeneration⟩ := by
  intro heq
  have hlt := hsound.consistent.entry_generation_lt lease (h.mem_entries hsound)
  rw [heq] at hlt
  exact UInt64.lt_irrefl _ hlt

/-- Another lock section of `begin` keeps the lease, or is the interruption. -/
theorem begin (h : Remembers cache lease trace w) (hsound : Sound cache w) (now : Nat)
    (key : ReplayKey) (fingerprint : RequestFingerprint) :
    Remembers cache lease (trace ++ [⟨w,
        .begin now key fingerprint (w.begin cache now key fingerprint).1,
        (w.begin cache now key fingerprint).2⟩]) (w.begin cache now key fingerprint).2 ∨
      Interrupts cache lease ⟨w, .begin now key fingerprint (w.begin cache now key fingerprint).1,
        (w.begin cache now key fingerprint).2⟩ := by
  obtain ⟨expired, outcome, after, hexpire, hexpired, hcase, hbegin⟩ := hsound.begin_cases now key fingerprint
  rw [hbegin]
  dsimp only [World.begun]
  by_cases hmem : lease ∈ expired
  · refine .inr (.expired _ _ _ _ _ _ (hexpired lease hmem) (Bool.eq_false_iff.mpr fun hafter => ?_))
    exact hexpire.notMem_of_isCompleted (hcase.isCompleted_of_after hafter) hmem
  have hlatest := hexpire.isLatest_of_notMem hsound.consistent h.latest hmem
  have hlookup := hexpire.lookup_of_notMem hmem
  have hlatestLookup := CacheInner.isLatest_iff.mp hlatest
  cases hcase with
  | wait generation _ _ hentry =>
    refine .inl (h.frame _ hlatest rfl fun hcompleted => ?_)
    -- the entry waited on is in flight, so it is another one
    have hne : lease ≠ ⟨key, fingerprint, generation⟩ := by
      intro heq
      rw [← heq, hlookup] at hentry
      obtain ⟨reply, bytes, at', hstate⟩ := CacheInner.isCompleted_iff.mp hcompleted
      rw [hstate] at hentry
      cases hentry
    exact (AList.lookup_insert_ne hne).trans hlookup
  | replay => exact .inl (h.frame _ hlatest rfl fun _ => hlookup)
  | execute removed room hnew htrim hevicted =>
    have hnext : room.nextGeneration = w.inner.nextGeneration :=
      htrim.nextGeneration.trans hexpire.nextGeneration
    have hfresh := h.ne_fresh hsound key fingerprint
    rw [← hnext] at hfresh
    by_cases hkey : key = lease.request
    · subst hkey
      refine .inr (.reused _ _ _ _ _ ?_)
      rintro rfl
      exact hnew lease.generation hlatestLookup
    have hsame : (room.openGeneration key fingerprint).entries.lookup lease =
        room.entries.lookup lease := AList.lookup_insert_ne hfresh
    by_cases hremoved : lease ∈ removed
    · refine .inr (.evictedForCapacity _ _ _ _ _ _ ?_ ?_ hkey (hevicted lease hremoved (Ne.symm hkey)))
      · rw [← CacheInner.isCompleted_congr hlookup]
        exact htrim.completed lease hremoved
      · rw [Bool.eq_false_iff]
        intro hafter
        rw [CacheInner.isCompleted_congr hsame] at hafter
        exact htrim.notMem_of_isCompleted hafter hremoved
    · refine .inl (h.frame _ ?_ (AList.lookup_insert_ne hfresh) fun _ => ?_)
      · have hroomLatest := CacheInner.isLatest_iff.mp
          (htrim.isLatest_of_notMem hexpire.consistent hlatest hremoved)
        rw [CacheInner.isLatest_iff]
        exact (AList.lookup_insert_ne (Ne.symm hkey)).trans hroomLatest
      · exact hsame.trans ((htrim.lookup_of_notMem hremoved).trans hlookup)
  | full _ _ htrim =>
    refine .inl (h.frame _ ?_ rfl fun _ => ?_)
    · exact htrim.isLatest_of_notMem hexpire.consistent hlatest List.not_mem_nil
    · exact (htrim.lookup_of_notMem List.not_mem_nil).trans hlookup

/-- While the generation is the latest, only the size of its reply makes it ineligible. -/
theorem eligible (h : Remembers cache lease trace w) (hsound : Sound cache w) {phase : LeasePhase}
    (hlease : w.leases.lookup lease = some phase) (hnot : cache.eligibleBeforeCopy lease reply w.inner = false)
    (alloc : Allocator) : cache.maxCompletedBytes < reply.charge alloc := by
  have hflight : w.inner.isInFlight lease = true :=
    (hsound.lease_iff lease).mp (AList.lookup_isSome.mp (by rw [hlease]; rfl))
  unfold ReplayCache.eligibleBeforeCopy at hnot
  rw [h.latest, hflight, Bool.and_self, Bool.or_true, Bool.and_true, decide_eq_false_iff_not] at hnot
  exact Nat.lt_of_lt_of_le (Nat.lt_of_not_le hnot) (reply.len_le_charge alloc)

/-- So does handing in a reply. -/
theorem prepare (h : Remembers cache lease trace w) (hsound : Sound cache w)
    (hother : w.leases.lookup other = some .held) (reply : EncodedReply) (alloc : Allocator) (edge : Edge World Event) :
    Remembers cache lease (trace ++ [edge]) (w.prepare cache other reply alloc) := by
  by_cases heq : lease = other
  · subst heq
    refine ⟨h.latest, .inl ⟨_, AList.lookup_insert _, ?_⟩⟩
    rintro reply' alloc' hphase
    obtain ⟨rfl, rfl, hnot⟩ := LeasePhase.completing.inj hphase
    exact h.eligible hsound hother hnot alloc
  · exact h.frame edge h.latest (AList.lookup_insert_ne heq) fun _ => rfl

/-- The lease itself completes. -/
theorem store_self (h : Remembers cache lease trace w) (hsound : Sound cache w) {eligible : Bool}
    (hlease : w.leases.lookup lease = some (.completing reply alloc eligible)) :
    Remembers cache lease (trace ++ [⟨w, .store lease reply alloc,
        w.store cache lease reply alloc eligible⟩]) (w.store cache lease reply alloc eligible) ∨
      Interrupts cache lease ⟨w, .store lease reply alloc,
        w.store cache lease reply alloc eligible⟩ := by
  by_cases hcharge : cache.maxCompletedBytes < reply.charge alloc
  · exact .inr (.notRetained _ _ reply alloc hcharge)
  obtain ⟨waiters, hentry⟩ := hsound.inFlight_of_lease hlease
  have heligible : eligible = true := by
    cases eligible with
    | true => rfl
    | false =>
      rcases h.state with ⟨phase, hphase, hsize⟩ | ⟨_, _, _, _, _, hcompleted⟩
      · rw [hlease, Option.some.injEq] at hphase
        exact absurd (hsize reply alloc hphase.symm) hcharge
      · rw [hentry] at hcompleted
        cases hcompleted
  subst heligible
  have hcase := (complete_cases cache hsound.consistent hentry w.clock reply
    (some (reply.replayStorage alloc))).1
  left
  unfold World.store
  rw [if_pos rfl]
  dsimp only
  revert hcase
  generalize cache.complete w.clock lease reply (some (reply.replayStorage alloc)) w.inner = result
  obtain ⟨after, sends⟩ := result
  intro hcase
  dsimp only at hcase ⊢
  cases hcase with
  | stale hstale =>
    rw [h.latest] at hstale
    cases hstale
  | unretained _ hover => exact absurd (hover _ _ rfl) hcharge
  | retained stored bytes _ _ hlatest hstored htrim =>
    obtain ⟨rfl, rfl⟩ : (reply.replayStorage alloc).1 = stored ∧ reply.charge alloc = bytes :=
      ⟨congrArg Prod.fst (Option.some.inj hstored), congrArg Prod.snd (Option.some.inj hstored)⟩
    have hnotMem := htrim.notMem_of_isInFlight (CacheInner.isInFlight_of_lookup hentry)
    refine ⟨?_, .inr ⟨reply, alloc, reply.charge alloc, w.clock,
      ⟨_, _, List.mem_append_right _ (List.mem_singleton_self _)⟩, ?_⟩⟩
    · have := CacheInner.isLatest_iff.mp
        (htrim.isLatest_of_notMem hsound.consistent hlatest hnotMem)
      rw [World.deliver_inner, CacheInner.isLatest_iff, CacheInner.compactCompletionOrder_latest]
      exact this
    · rw [World.deliver_inner, CacheInner.compactCompletionOrder_entries]
      exact AList.lookup_insert _

/-- Another lease completes. -/
theorem store_other (h : Remembers cache lease trace w) (hsound : Sound cache w) (hne : other ≠ lease)
    {eligible : Bool} (hother : w.leases.lookup other = some (.completing reply alloc eligible)) :
    Remembers cache lease (trace ++ [⟨w, .store other reply alloc,
        w.store cache other reply alloc eligible⟩]) (w.store cache other reply alloc eligible) ∨
      Interrupts cache lease ⟨w, .store other reply alloc,
        w.store cache other reply alloc eligible⟩ := by
  obtain ⟨waiters, hentry⟩ := hsound.inFlight_of_lease hother
  have hcase := (complete_cases cache hsound.consistent hentry w.clock reply
    (if eligible then some (reply.replayStorage alloc) else none)).1
  have hlease : AList.lookup lease (w.leases.erase other) = w.leases.lookup lease :=
    AList.lookup_erase_ne (Ne.symm hne)
  have herase : AList.lookup lease (w.inner.entries.erase other) = w.inner.entries.lookup lease :=
    AList.lookup_erase_ne (Ne.symm hne)
  unfold World.store
  dsimp only
  revert hcase
  generalize cache.complete w.clock other reply
    (if eligible then some (reply.replayStorage alloc) else none) w.inner = result
  obtain ⟨after, sends⟩ := result
  intro hcase
  dsimp only at hcase ⊢
  cases hcase with
  | stale => exact .inl (h.frame _ h.latest hlease fun _ => herase)
  | unretained hlatest =>
    have hrequest : lease.request ≠ other.request := fun heq =>
      hne (CacheInner.isLatest_unique hlatest h.latest heq.symm)
    refine .inl (h.frame _ ?_ hlease fun _ => herase)
    rw [CacheInner.isLatest_iff]
    exact (AList.lookup_erase_ne hrequest).trans (CacheInner.isLatest_iff.mp h.latest)
  | retained stored bytes removed mid _ hstored htrim hevicted =>
    have hbytes : bytes = reply.charge alloc := by
      split at hstored
      next => exact (congrArg Prod.snd (Option.some.inj hstored)).symm
      next => cases hstored
    subst hbytes
    have hentries : ((mid.pushCompleted other stored (reply.charge alloc) w.clock
        ).compactCompletionOrder).entries.lookup lease = mid.entries.lookup lease := by
      rw [CacheInner.compactCompletionOrder_entries]
      exact AList.lookup_insert_ne (Ne.symm hne)
    by_cases hremoved : lease ∈ removed
    · refine .inr (.evictedForBytes _ _ _ _ _ (htrim.completed lease hremoved) ?_ hne ?_)
      · rw [Bool.eq_false_iff]
        intro hafter
        rw [World.deliver_inner, CacheInner.isCompleted_congr hentries] at hafter
        exact htrim.notMem_of_isCompleted hafter hremoved
      · exact Nat.lt_of_lt_of_le (hevicted (List.ne_nil_of_mem hremoved)) (saturatingAdd_le _ _)
    · refine .inl (h.frame _ ?_ hlease fun _ => hentries.trans (htrim.lookup_of_notMem hremoved))
      have hmid := CacheInner.isLatest_iff.mp
        (htrim.isLatest_of_notMem hsound.consistent h.latest hremoved)
      rw [World.deliver_inner, CacheInner.isLatest_iff, CacheInner.compactCompletionOrder_latest]
      exact hmid

/-- Another lease is cancelled. -/
theorem cancel_other (h : Remembers cache lease trace w) (hsound : Sound cache w) (hne : other ≠ lease)
    (hother : w.leases.lookup other = some .held) (edge : Edge World Event) :
    Remembers cache lease (trace ++ [edge]) (w.cancel other) := by
  obtain ⟨waiters, hentry⟩ := hsound.inFlight_of_lease hother
  unfold World.cancel
  rw [cancel_eq hentry]
  refine h.frame edge ?_ (AList.lookup_erase_ne (Ne.symm hne)) fun _ => ?_
  · exact CacheInner.isLatest_iff.mpr (CacheInner.forgetLatest_latest.mpr
      ⟨CacheInner.isLatest_iff.mp h.latest, Ne.symm hne⟩)
  · change ((w.inner.eraseEntry other).forgetLatest other).entries.lookup lease = _
    rw [CacheInner.forgetLatest_entries]
    exact AList.lookup_erase_ne (Ne.symm hne)

/-- Every step keeps the memory of a lease or is one of the interruptions. -/
theorem step (h : Remembers cache lease trace w) (hsound : Sound cache w) {e : Event} (hstep : Step cache w e w') :
    Remembers cache lease (trace ++ [⟨w, e, w'⟩]) w' ∨ Interrupts cache lease ⟨w, e, w'⟩ := by
  cases hstep with
  | begin now key fingerprint => exact h.begin hsound now key fingerprint
  | prepare _ reply alloc hother => exact .inl (h.prepare hsound hother reply alloc _)
  | store other _ _ _ hother =>
    by_cases heq : other = lease
    · subst heq
      exact h.store_self hsound hother
    · exact h.store_other hsound heq hother
  | cancel other hother =>
    by_cases heq : other = lease
    · subst heq
      exact .inr (.cancelled _ _)
    · exact .inl (h.cancel_other hsound heq hother _)
  | drop other hother =>
    by_cases heq : other = lease
    · subst heq
      exact .inr (.dropped _ _)
    · exact .inl (h.cancel_other hsound heq hother _)
  | close | tick => exact .inl (h.frame _ h.latest rfl fun _ => rfl)

/-- A run keeps the memory of a lease until an interruption. -/
theorem run {w : World} (hw : (machine cache).Reachable w) (h : Remembers cache lease [] w)
    (hrun : (machine cache).Run w trace w') :
    Remembers cache lease trace w' ∨ ∃ edge ∈ trace, Interrupts cache lease edge :=
  Machine.Run.until (P := Remembers cache lease)
    (fun _ _ _ _ hreach hP hstep => hP.step (Sound.reachable hreach) hstep) hw hrun h

/-- What `begin` hands out is remembered. -/
theorem of_execute (hsound : Sound cache w) (h : (w.begin cache now key fingerprint).1 = .ok (.execute lease)) :
    lease.request = key ∧ lease.fingerprint = fingerprint ∧
      Remembers cache lease [] (w.begin cache now key fingerprint).2 := by
  obtain ⟨expired, outcome, after, _, _, hcase, hbegin⟩ := hsound.begin_cases now key fingerprint
  rw [hbegin] at h ⊢
  subst h
  cases hcase with
  | execute =>
    refine ⟨rfl, rfl, ?_, .inl ⟨.held, AList.lookup_insert _, nofun⟩⟩
    exact CacheInner.isLatest_iff.mpr (AList.lookup_insert _)

end Remembers

/-- The lease that `begin` opens was not open before. -/
theorem notMem_of_execute {cache : ReplayCache} {w : World} {lease : ReplayEntryKey} (hsound : Sound cache w)
    (h : (w.begin cache now key fingerprint).1 = .ok (.execute lease)) : lease ∉ w.leases := by
  obtain ⟨expired, outcome, after, hexpire, _, hcase, hbegin⟩ := hsound.begin_cases now key fingerprint
  rw [hbegin] at h
  subst h
  cases hcase with
  | execute _ _ _ htrim =>
    intro hmem
    obtain ⟨phase, hphase⟩ := Option.isSome_iff_exists.mp (AList.lookup_isSome.mpr hmem)
    obtain ⟨waiters, hentry⟩ := hsound.inFlight_of_lease hphase
    rw [htrim.nextGeneration, hexpire.nextGeneration] at hentry
    apply (hsound.consistent.fresh_notMem key fingerprint).1
    exact AList.lookup_isSome.mp (by rw [hentry]; rfl)

/-- It is then held. -/
theorem begin_leases_of_execute {cache : ReplayCache} {w : World} {lease : ReplayEntryKey}
    (h : (w.begin cache now key fingerprint).1 = .ok (.execute lease)) :
    (w.begin cache now key fingerprint).2.leases = w.leases.insert lease .held := by
  unfold World.begin at h ⊢
  dsimp only at h ⊢
  rw [h]

theorem begin_leases_of_ne_execute {cache : ReplayCache} {w : World}
    (h : ∀ lease, (w.begin cache now key fingerprint).1 ≠ .ok (.execute lease)) :
    (w.begin cache now key fingerprint).2.leases = w.leases := by
  unfold World.begin at h ⊢
  dsimp only at h ⊢
  split
  next lease heq => exact absurd heq (h lease)
  next => rfl

/-- A retransmission is answered from the lease: it waits while the lease is unresolved, and gets the
wire bytes given to `complete` once it has completed. -/
def AnsweredFrom (lease : ReplayEntryKey) (trace : List (Edge World Event)) (w : World)
    (outcome : Except ReplayError ReplayDecision) (w' : World) : Prop :=
  (lease ∈ w.leases ∧ ∃ receiver waiters, outcome = .ok (.wait receiver) ∧
    w'.inner.entries.lookup lease = some (.inFlight waiters) ∧ receiver ∈ waiters) ∨
  (lease ∉ w.leases ∧ ∃ reply alloc stored, CompletedWith lease reply alloc trace ∧
    outcome = .ok (.replay stored) ∧ stored.intoBytes = reply.intoBytes)

/-- A retransmission of a remembered request is answered from its lease, unless the reply expires
just then. -/
theorem Remembers.answered (h : Remembers cache lease trace w) (hsound : Sound cache w) (now : Nat) :
    AnsweredFrom lease trace w (w.begin cache now lease.request lease.fingerprint).1
        (w.begin cache now lease.request lease.fingerprint).2 ∨
      Interrupts cache lease ⟨w, .begin now lease.request lease.fingerprint
        (w.begin cache now lease.request lease.fingerprint).1,
        (w.begin cache now lease.request lease.fingerprint).2⟩ := by
  obtain ⟨expired, outcome, after, hexpire, hexpired, hcase, hbegin⟩ :=
    hsound.begin_cases now lease.request lease.fingerprint
  rw [hbegin]
  by_cases hmem : lease ∈ expired
  · refine .inr (.expired _ _ _ _ _ _ (hexpired lease hmem) (Bool.eq_false_iff.mpr fun hafter => ?_))
    exact hexpire.notMem_of_isCompleted (hcase.isCompleted_of_after hafter) hmem
  left
  have hlatest := CacheInner.isLatest_iff.mp
    (hexpire.isLatest_of_notMem hsound.consistent h.latest hmem)
  have hlookup := hexpire.lookup_of_notMem hmem
  cases hcase with
  | wait _ waiters hkey hentry =>
    rw [hlatest, Option.some.injEq, LatestGeneration.mk.injEq] at hkey
    obtain ⟨-, rfl⟩ := hkey
    have hflight : w.inner.entries.lookup lease = some (.inFlight waiters) := hlookup ▸ hentry
    refine .inl ⟨(hsound.lease_iff lease).mpr (CacheInner.isInFlight_of_lookup hflight),
      w.channels, _, rfl, AList.lookup_insert _, ?_⟩
    exact List.mem_append_right _ (List.mem_singleton_self _)
  | replay _ stored bytes at' hkey hentry =>
    rw [hlatest, Option.some.injEq, LatestGeneration.mk.injEq] at hkey
    obtain ⟨-, rfl⟩ := hkey
    have hcompleted : w.inner.entries.lookup lease = some (.completed stored bytes at') :=
      hlookup ▸ hentry
    have hnotLease : lease ∉ w.leases := by
      rw [hsound.lease_iff, CacheInner.not_isInFlight_of_isCompleted
        (CacheInner.isCompleted_of_lookup hcompleted)]
      exact Bool.false_ne_true
    refine .inr ⟨hnotLease, ?_⟩
    rcases h.state with ⟨phase, hphase, _⟩ | ⟨reply, alloc, bytes', at'', hwith, hstate⟩
    · exact absurd (AList.lookup_isSome.mp (by rw [hphase]; rfl)) hnotLease
    · rw [hcompleted] at hstate
      obtain ⟨rfl, -, -⟩ := ReplayState.completed.inj (Option.some.inj hstate)
      exact ⟨reply, alloc, _, hwith, rfl, reply.replayStorage_intoBytes alloc⟩
  | execute _ _ hnew | full _ hnew => exact absurd hlatest (hnew lease.generation)

/-- At-most-once execution of retransmissions: after an `Execute` decision, a later `begin` of the
same request is answered from that lease unless an interruption happened in between. In particular
a second `Execute` decision has an interruption before it. -/
theorem retransmission_answered_or_interrupted {cache : ReplayCache} {w₀ w₁ w₂ w₃ : World}
    {trace : List (Edge World Event)} {first now : Nat} {key : ReplayKey}
    {fingerprint : RequestFingerprint} {lease : ReplayEntryKey}
    {outcome : Except ReplayError ReplayDecision}
    (hreach : (machine cache).Reachable w₀)
    (hexecute : Step cache w₀ (.begin first key fingerprint (.ok (.execute lease))) w₁)
    (hrun : (machine cache).Run w₁ trace w₂)
    (hbegin : Step cache w₂ (.begin now key fingerprint outcome) w₃) :
    (AnsweredFrom lease trace w₂ outcome w₃ ∨
      ∃ edge ∈ trace ++ [⟨w₂, .begin now key fingerprint outcome, w₃⟩],
        Interrupts cache lease edge) ∧
    ((∃ lease', outcome = .ok (.execute lease')) →
      ∃ edge ∈ trace ++ [⟨w₂, .begin now key fingerprint outcome, w₃⟩],
        Interrupts cache lease edge) := by
  have hreach₁ : (machine cache).Reachable w₁ := hreach.run (Machine.Run.nil.snoc hexecute)
  have hmain : AnsweredFrom lease trace w₂ outcome w₃ ∨
      ∃ edge ∈ trace ++ [⟨w₂, .begin now key fingerprint outcome, w₃⟩],
        Interrupts cache lease edge := by
    generalize hdecision : Except.ok (ReplayDecision.execute lease) = decision at hexecute
    cases hexecute with
    | begin =>
      obtain ⟨rfl, rfl, hremembers⟩ :=
        Remembers.of_execute (Sound.reachable hreach) hdecision.symm
      rcases hremembers.run hreach₁ hrun with hremembers | ⟨edge, hmem, hinterrupts⟩
      · cases hbegin with
        | begin =>
          rcases hremembers.answered (Sound.reachable (hreach₁.run hrun)) now with
            hanswered | hinterrupts
          · exact .inl hanswered
          · exact .inr ⟨_, List.mem_append_right _ (List.mem_singleton_self _), hinterrupts⟩
      · exact .inr ⟨edge, List.mem_append_left _ hmem, hinterrupts⟩
  refine ⟨hmain, ?_⟩
  rintro ⟨lease', rfl⟩
  rcases hmain with (⟨_, _, _, h, _⟩ | ⟨_, _, _, _, _, h, _⟩) | hinterrupted
  · cases h
  · cases h
  · exact hinterrupted

/-- The retransmission of the sample run, after its execution completed. -/
theorem retransmission_completed :
    AnsweredFrom Sample.lease Sample.trace Sample.completed
        (.ok (.replay (Sample.reply.replayStorage Sample.alloc).1))
        (Sample.completed.begin Sample.cache 0 Sample.key Sample.fingerprint).2 ∨
      ∃ edge ∈ Sample.trace ++ [⟨Sample.completed, .begin 0 Sample.key Sample.fingerprint
          (.ok (.replay (Sample.reply.replayStorage Sample.alloc).1)),
          (Sample.completed.begin Sample.cache 0 Sample.key Sample.fingerprint).2⟩],
        Interrupts Sample.cache Sample.lease edge :=
  (retransmission_answered_or_interrupted Sample.new_reachable Sample.admitted Sample.executing_run
    (Step.begin Sample.completed 0 Sample.key Sample.fingerprint (by decide) (by decide))).1

end NfsEmbed.Replay
