import NfsEmbed.Laws.Replay.Consistency

/-!
# What the lock sections do

One case analysis for each lock section of the cache: `begin_cases`, `complete_cases` and
`cancel_eq` list everything the section can return and the fields it leaves behind. The
invariants of runs are derived from these lists and never look into the sections again.
-/

namespace NfsEmbed.Replay

open Lib Rpc

variable {cache : ReplayCache} {inner : CacheInner}

variable {after : CacheInner} {entry key other : ReplayEntryKey} {reply : EncodedReply} {bytes at' : Nat}
  {waiters : List Channel} {fingerprint : RequestFingerprint}

variable {isClosed : Channel → Bool} {channel : Channel} {outcome : Except ReplayError ReplayDecision}
  {waiters' : List Channel} {now : Nat} {storage : Option (EncodedReply × Nat)}

/-! ## `begin` -/

/-- The outcomes of `begin` once expired entries are gone. -/
inductive BeginCase (cache : ReplayCache) (isClosed : Channel → Bool) (channel : Channel)
    (key : ReplayKey) (fingerprint : RequestFingerprint) (inner : CacheInner) :
    Except ReplayError ReplayDecision → CacheInner → Prop
  | wait (generation : UInt64) (waiters : List Channel) :
    inner.latest.lookup key = some ⟨fingerprint, generation⟩ →
    inner.entries.lookup ⟨key, fingerprint, generation⟩ = some (.inFlight waiters) →
    BeginCase cache isClosed channel key fingerprint inner (.ok (.wait channel))
      (inner.setWaiters ⟨key, fingerprint, generation⟩
        (waiters.filter (fun waiter => !isClosed waiter) ++ [channel]))
  | replay (generation : UInt64) (reply : EncodedReply) (bytes at' : Nat) :
    inner.latest.lookup key = some ⟨fingerprint, generation⟩ →
    inner.entries.lookup ⟨key, fingerprint, generation⟩ = some (.completed reply bytes at') →
    BeginCase cache isClosed channel key fingerprint inner (.ok (.replay reply)) inner
  | execute (removed : List ReplayEntryKey) (after : CacheInner) :
    (∀ generation, inner.latest.lookup key ≠ some ⟨fingerprint, generation⟩) →
    Trimmed inner removed after →
    (∀ entry ∈ removed, entry.request ≠ key → cache.capacity ≤ inner.entries.size) →
    (∀ entry, entry.request = key → after.isCompleted entry = false) →
    after.entries.size < cache.capacity →
    BeginCase cache isClosed channel key fingerprint inner
      (.ok (.execute ⟨key, fingerprint, after.nextGeneration⟩)) (after.openGeneration key fingerprint)
  | full (after : CacheInner) :
    (∀ generation, inner.latest.lookup key ≠ some ⟨fingerprint, generation⟩) →
    Trimmed inner [] after → cache.capacity ≤ after.entries.size →
    BeginCase cache isClosed channel key fingerprint inner (.error .capacity) after

/-- Removing the completed generation of a request makes room by itself, so eviction and the
capacity error are left for requests that have none. -/
theorem grant_cases (h : Consistent inner) (hsize : inner.entries.size ≤ cache.capacity)
    (isClosed : Channel → Bool) (channel : Channel) (key : ReplayKey)
    (fingerprint : RequestFingerprint)
    (hnew : ∀ generation, inner.latest.lookup key ≠ some ⟨fingerprint, generation⟩) :
    BeginCase cache isClosed channel key fingerprint inner
      (cache.grant key fingerprint inner).1 (cache.grant key fingerprint inner).2 := by
  obtain ⟨reused, hreuse, hrequest, hgone⟩ := h.removeCompletedForRequest_trimmed key
  unfold ReplayCache.grant
  dsimp only
  by_cases hfull : (inner.removeCompletedForRequest key).entries.size ≥ cache.capacity
  · have hnone : reused = [] := by
      have := hreuse.size
      rw [← List.length_eq_zero_iff]
      omega
    subst hnone
    have hsizeEq : cache.capacity ≤ inner.entries.size := by
      have := hreuse.size
      simp only [List.length_nil] at this
      omega
    have hevict := hreuse.consistent.evictOldestCompleted_trimmed
    rw [if_pos hfull]
    split at hevict
    next after heq =>
      obtain ⟨evicted, htrim, _⟩ := hevict
      rw [heq]
      refine BeginCase.execute _ after hnew (hreuse.trans htrim) (fun _ _ _ => hsizeEq) ?_ ?_
      · intro entry hentry
        have hbefore := hgone entry hentry
        rw [Bool.eq_false_iff]
        intro hafter
        rw [CacheInner.isCompleted_congr
          (htrim.lookup_of_notMem (htrim.notMem_of_isCompleted hafter)), hbefore] at hafter
        cases hafter
      · have := (hreuse.trans htrim).size
        simp only [List.nil_append, List.length_singleton] at this
        omega
    next after heq =>
      obtain ⟨htrim, _⟩ := hevict
      rw [heq]
      refine BeginCase.full after hnew (hreuse.trans htrim) ?_
      have := htrim.size
      simp only [List.length_nil] at this
      omega
  · rw [if_neg hfull]
    exact BeginCase.execute reused _ hnew hreuse
      (fun entry hmem hne => absurd (hrequest entry hmem) hne) hgone (Nat.lt_of_not_ge hfull)

/-- What `begin` does: expiry, and then one of its cases. -/
theorem begin_cases (cache : ReplayCache) (h : Consistent inner) (hsize : inner.entries.size ≤ cache.capacity)
    (isClosed : Channel → Bool) (now : Nat) (channel : Channel) (key : ReplayKey)
    (fingerprint : RequestFingerprint) :
    ∃ expired, Trimmed inner expired (inner.expire now cache.ttl) ∧
      (∀ entry ∈ expired, inner.Expired now cache.ttl entry) ∧
      BeginCase cache isClosed channel key fingerprint (inner.expire now cache.ttl)
        (cache.begin isClosed now channel key fingerprint inner).1
        (cache.begin isClosed now channel key fingerprint inner).2 := by
  obtain ⟨expired, htrim, hexpired⟩ := h.expire_trimmed now cache.ttl
  refine ⟨expired, htrim, hexpired, ?_⟩
  have hsize' : (inner.expire now cache.ttl).entries.size ≤ cache.capacity := by
    have := htrim.size
    omega
  have hgrant := grant_cases htrim.consistent hsize' isClosed channel key fingerprint
  unfold ReplayCache.begin
  dsimp only
  split
  next latest hlatest =>
    split
    next heq =>
      obtain ⟨_, generation⟩ := latest
      subst heq
      split
      next waiters hentry => exact BeginCase.wait generation waiters hlatest hentry
      next reply bytes at' hentry => exact BeginCase.replay generation reply bytes at' hlatest hentry
      next hentry =>
        have hbound := htrim.consistent.latest_bound key _ hlatest
        exact absurd hbound (AList.lookup_eq_none.mp hentry)
    next hne =>
      apply hgrant
      intro generation heq
      rw [hlatest] at heq
      cases heq
      exact hne rfl
  next hlatest =>
    apply hgrant
    intro generation heq
    rw [hlatest] at heq
    cases heq

/-- A trim makes no completed entry. -/
theorem Trimmed.completed_of_after {removed : List ReplayEntryKey} (h : Trimmed inner removed after)
    (hentry : after.entries.lookup entry = some (.completed reply bytes at')) :
    inner.entries.lookup entry = some (.completed reply bytes at') := by
  rwa [h.lookup_of_notMem (h.notMem_of_isCompleted (CacheInner.isCompleted_of_lookup hentry))] at hentry

/-- Opening an entry makes no completed one. -/
theorem completed_of_insert_inFlight {entries : Table ReplayEntryKey ReplayState} {opened : ReplayEntryKey}
    (h : AList.lookup entry (entries.insert opened (.inFlight waiters)) = some (.completed reply bytes at')) :
    entries.lookup entry = some (.completed reply bytes at') := by
  rw [Table.lookup_insert_eq] at h
  split at h
  next => cases h
  next => exact h

/-- `begin` makes no completed entry. -/
theorem BeginCase.completed_of_after {key : ReplayKey}
    (h : BeginCase cache isClosed channel key fingerprint inner outcome after)
    (hentry : after.entries.lookup entry = some (.completed reply bytes at')) :
    inner.entries.lookup entry = some (.completed reply bytes at') := by
  cases h with
  | wait => exact completed_of_insert_inFlight hentry
  | replay => exact hentry
  | execute _ _ _ htrim => exact htrim.completed_of_after (completed_of_insert_inFlight hentry)
  | full _ _ htrim => exact htrim.completed_of_after hentry

theorem BeginCase.isCompleted_of_after {key : ReplayKey}
    (h : BeginCase cache isClosed channel key fingerprint inner outcome after)
    (hentry : after.isCompleted entry = true) : inner.isCompleted entry = true := by
  obtain ⟨reply, bytes, at', hlookup⟩ := CacheInner.isCompleted_iff.mp hentry
  exact CacheInner.isCompleted_of_lookup (h.completed_of_after hlookup)

theorem CacheInner.setWaiters_inFlight_iff :
    (inner.setWaiters key waiters).entries.lookup entry = some (.inFlight waiters') ↔
      if entry = key then waiters' = waiters
      else inner.entries.lookup entry = some (.inFlight waiters') := by
  unfold CacheInner.setWaiters
  rw [Table.lookup_insert_eq]
  split
  next => simp only [Option.some.injEq, ReplayState.inFlight.injEq, eq_comm]
  next => exact Iff.rfl

theorem CacheInner.setWaiters_isInFlight (h : inner.entries.lookup key = some (.inFlight waiters))
    (entry : ReplayEntryKey) : (inner.setWaiters key waiters').isInFlight entry = inner.isInFlight entry := by
  rw [Bool.eq_iff_iff, CacheInner.isInFlight_iff, CacheInner.isInFlight_iff]
  simp only [CacheInner.setWaiters_inFlight_iff]
  split
  next heq => exact ⟨fun _ => ⟨waiters, heq ▸ h⟩, fun _ => ⟨waiters', rfl⟩⟩
  next => exact Iff.rfl

theorem CacheInner.openGeneration_inFlight_iff {key : ReplayKey} :
    (inner.openGeneration key fingerprint).entries.lookup entry = some (.inFlight waiters) ↔
      if entry = ⟨key, fingerprint, inner.nextGeneration⟩ then waiters = []
      else inner.entries.lookup entry = some (.inFlight waiters) := by
  unfold CacheInner.openGeneration
  rw [Table.lookup_insert_eq]
  split
  next => simp only [Option.some.injEq, ReplayState.inFlight.injEq, eq_comm]
  next => exact Iff.rfl

theorem CacheInner.openGeneration_isInFlight {key : ReplayKey} :
    (inner.openGeneration key fingerprint).isInFlight entry = true ↔
      entry = ⟨key, fingerprint, inner.nextGeneration⟩ ∨ inner.isInFlight entry = true := by
  rw [CacheInner.isInFlight_iff]
  simp only [CacheInner.openGeneration_inFlight_iff]
  split
  next heq => simp only [heq, exists_eq, true_or]
  next hne => simp only [hne, false_or, CacheInner.isInFlight_iff]

/-! ## `complete`

The entry being completed is taken out of the map before room is made for its reply. Eviction looks
at completed entries only, so making room first and taking the entry out afterwards is the same,
and keeps the containers consistent in between. -/

namespace CacheInner

/-- The map without one entry; the rest of the fields is left as it is. -/
abbrev eraseEntry (inner : CacheInner) (key : ReplayEntryKey) : CacheInner :=
  { inner with entries := inner.entries.erase key }

variable {key : ReplayEntryKey}

theorem eraseEntry_inFlight_iff : (inner.eraseEntry key).entries.lookup other = some (.inFlight waiters) ↔
      other ≠ key ∧ inner.entries.lookup other = some (.inFlight waiters) := by
  rw [Table.lookup_erase_eq]
  by_cases heq : other = key
  · rw [if_pos heq]
    simp only [heq, reduceCtorEq, ne_eq, not_true_eq_false, false_and]
  · rw [if_neg heq]
    simp only [ne_eq, heq, not_false_eq_true, true_and]

theorem isCompleted_eraseEntry (h : inner.isInFlight key = true) (other : ReplayEntryKey) :
    (inner.eraseEntry key).isCompleted other = inner.isCompleted other := by
  obtain ⟨waiters, hlookup⟩ := isInFlight_iff.mp h
  by_cases heq : other = key
  · subst heq
    unfold isCompleted
    rw [AList.lookup_erase, hlookup]
  · exact isCompleted_congr (AList.lookup_erase_ne heq)

theorem removeCompleted_eraseEntry (hne : other ≠ key) :
    (inner.eraseEntry key).removeCompleted other = (inner.removeCompleted other).eraseEntry key := by
  unfold removeCompleted forgetLatest isLatest eraseEntry
  dsimp only
  rw [AList.lookup_erase_ne hne, AList.erase_erase]
  split <;> split <;> rfl

/-- Evicting does not look at the entry that is being completed. -/
theorem evictFrom_eraseEntry (order : List ReplayEntryKey) (h : inner.isInFlight key = true) :
    evictFrom order (inner.eraseEntry key) =
      ((evictFrom order inner).1, (evictFrom order inner).2.eraseEntry key) := by
  induction order generalizing inner with
  | nil => rfl
  | cons oldest rest ih =>
    unfold evictFrom
    rw [isCompleted_eraseEntry h]
    by_cases hcompleted : inner.isCompleted oldest = true
    · have hne : oldest ≠ key := by
        rintro rfl
        rw [not_isInFlight_of_isCompleted hcompleted] at h
        cases h
      rw [if_pos hcompleted, if_pos hcompleted]
      exact congrArg (true, ·)
        (@removeCompleted_eraseEntry { inner with completedOrder := rest } oldest key hne)
    · rw [if_neg hcompleted, if_neg hcompleted]
      exact @ih { inner with completedOrder := rest } h

theorem makeRoom_eraseEntry (budget bytes rounds : Nat) (hc : Consistent inner)
    (h : inner.isInFlight key = true) :
    (inner.eraseEntry key).makeRoom budget bytes rounds =
      (inner.makeRoom budget bytes rounds).eraseEntry key := by
  induction rounds generalizing inner with
  | zero => rfl
  | succ _ ih =>
    have hevict := hc.evictOldestCompleted_trimmed
    have hcommute := evictFrom_eraseEntry inner.completedOrder h
    unfold makeRoom
    unfold evictOldestCompleted at hevict ⊢
    rw [hcommute]
    split
    · split at hevict
      next after heq =>
        obtain ⟨evicted, htrim, _⟩ := hevict
        rw [heq]
        exact ih htrim.consistent (by rwa [htrim.isInFlight])
      next after heq => rw [heq]
    · rfl

end CacheInner

@[simp] theorem CacheInner.compactCompletionOrder_entries :
    inner.compactCompletionOrder.entries = inner.entries := by
  unfold CacheInner.compactCompletionOrder
  dsimp only
  split <;> rfl

@[simp] theorem CacheInner.compactCompletionOrder_latest :
    inner.compactCompletionOrder.latest = inner.latest := by
  unfold CacheInner.compactCompletionOrder
  dsimp only
  split <;> rfl

@[simp] theorem CacheInner.compactCompletionOrder_completedBytes :
    inner.compactCompletionOrder.completedBytes = inner.completedBytes := by
  unfold CacheInner.compactCompletionOrder
  dsimp only
  split <;> rfl

@[simp] theorem CacheInner.compactCompletionOrder_nextGeneration :
    inner.compactCompletionOrder.nextGeneration = inner.nextGeneration := by
  unfold CacheInner.compactCompletionOrder
  dsimp only
  split <;> rfl

/-- The fields `complete` can leave behind. -/
inductive CompleteCase (cache : ReplayCache) (now : Nat) (key : ReplayEntryKey)
    (storage : Option (EncodedReply × Nat)) (inner : CacheInner) : CacheInner → Prop
  | stale : inner.isLatest key = false →
    CompleteCase cache now key storage inner (inner.eraseEntry key)
  | unretained : inner.isLatest key = true →
    (∀ stored bytes, storage = some (stored, bytes) → cache.maxCompletedBytes < bytes) →
    CompleteCase cache now key storage inner
      { inner.eraseEntry key with latest := inner.latest.erase key.request }
  | retained (stored : EncodedReply) (bytes : Nat) (removed : List ReplayEntryKey)
      (mid : CacheInner) :
    inner.isLatest key = true → storage = some (stored, bytes) → Trimmed inner removed mid →
    (removed ≠ [] → cache.maxCompletedBytes < saturatingAdd inner.completedBytes bytes) →
    saturatingAdd mid.completedBytes bytes ≤ cache.maxCompletedBytes →
    CompleteCase cache now key storage inner
      (mid.pushCompleted key stored bytes now).compactCompletionOrder

/-- What `complete` leaves behind, with the room it made. -/
inductive Completion (cache : ReplayCache) (now : Nat) (key : ReplayEntryKey)
    (storage : Option (EncodedReply × Nat)) (inner : CacheInner) : CacheInner → Prop
  | stale : inner.isLatest key = false → Completion cache now key storage inner (inner.eraseEntry key)
  | unretained : inner.isLatest key = true →
    (∀ stored bytes, storage = some (stored, bytes) → cache.maxCompletedBytes < bytes) →
    Completion cache now key storage inner
      { inner.eraseEntry key with latest := inner.latest.erase key.request }
  | retained (stored : EncodedReply) (bytes : Nat) :
    inner.isLatest key = true → storage = some (stored, bytes) → bytes ≤ cache.maxCompletedBytes →
    Completion cache now key storage inner
      ((inner.makeRoom cache.maxCompletedBytes bytes (inner.completedOrder.length + 1)).pushCompleted
        key stored bytes now).compactCompletionOrder

theorem retain_eq (h : Consistent inner) (hflight : inner.isInFlight key = true) (now : Nat) (stored : EncodedReply)
    (hbytes : bytes ≤ cache.maxCompletedBytes) : cache.retain now key stored bytes (inner.eraseEntry key) =
      (true, ((inner.makeRoom cache.maxCompletedBytes bytes (inner.completedOrder.length + 1)).pushCompleted
        key stored bytes now).compactCompletionOrder) := by
  obtain ⟨removed, htrim, hroom, hnone⟩ :=
    h.makeRoom_trimmed hbytes (inner.completedOrder.length + 1) (Nat.lt_succ_self _)
  unfold ReplayCache.retain
  rw [if_pos hbytes, CacheInner.makeRoom_eraseEntry _ _ _ h hflight]
  dsimp only
  rw [if_pos hroom]
  unfold CacheInner.pushCompleted
  dsimp only
  rw [Table.insert_erase]

/-- A lease completes its entry: the waiters get the reply, whatever becomes of it. -/
theorem complete_completion (cache : ReplayCache) (h : Consistent inner)
    (hentry : inner.entries.lookup key = some (.inFlight waiters)) (now : Nat) (reply : EncodedReply)
    (storage : Option (EncodedReply × Nat)) :
    Completion cache now key storage inner (cache.complete now key reply storage inner).1 ∧
      (cache.complete now key reply storage inner).2 =
        waiters.map fun waiter => (waiter, .ok reply) := by
  have hlatestErase : (inner.eraseEntry key).isLatest key = inner.isLatest key := rfl
  unfold ReplayCache.complete
  rw [hentry]
  dsimp only
  refine ⟨?_, rfl⟩
  rw [hlatestErase]
  cases hlatest : inner.isLatest key with
  | false => exact Completion.stale hlatest
  | true =>
    cases storage with
    | none =>
      refine Completion.unretained hlatest ?_
      rintro _ _ ⟨⟩
    | some stored =>
      obtain ⟨stored, bytes⟩ := stored
      dsimp only
      by_cases hbytes : bytes ≤ cache.maxCompletedBytes
      · simp only [retain_eq h (CacheInner.isInFlight_of_lookup hentry) now stored hbytes, Bool.not_true,
          Bool.and_false, Bool.false_eq_true, if_false]
        exact Completion.retained stored bytes hlatest rfl hbytes
      · have hretain : cache.retain now key stored bytes (inner.eraseEntry key) =
            (false, inner.eraseEntry key) := by
          unfold ReplayCache.retain
          rw [if_neg hbytes]
        simp only [hretain, Bool.not_false, Bool.and_true, if_true]
        refine Completion.unretained hlatest ?_
        rintro _ _ ⟨⟩
        exact Nat.lt_of_not_le hbytes

theorem Completion.completeCase (h : Consistent inner) (hcompletion : Completion cache now key storage inner after) :
    CompleteCase cache now key storage inner after := by
  cases hcompletion with
  | stale hlatest => exact .stale hlatest
  | unretained hlatest hover => exact .unretained hlatest hover
  | retained stored bytes hlatest hstorage hbytes =>
    obtain ⟨removed, htrim, hroom, hnone⟩ :=
      h.makeRoom_trimmed hbytes (inner.completedOrder.length + 1) (Nat.lt_succ_self _)
    exact .retained stored bytes removed _ hlatest hstorage htrim
      (fun hremoved => Nat.lt_of_not_le fun hle => hremoved (hnone hle)) hroom

/-- What `complete` does, and whom it answers. -/
theorem complete_cases (cache : ReplayCache) (h : Consistent inner)
    (hentry : inner.entries.lookup key = some (.inFlight waiters)) (now : Nat) (reply : EncodedReply)
    (storage : Option (EncodedReply × Nat)) :
    CompleteCase cache now key storage inner (cache.complete now key reply storage inner).1 ∧
      (cache.complete now key reply storage inner).2 =
        waiters.map fun waiter => (waiter, .ok reply) := by
  obtain ⟨hcompletion, hsends⟩ := complete_completion cache h hentry now reply storage
  exact ⟨hcompletion.completeCase h, hsends⟩

/-- Completing a lease takes its entry out of flight and touches no other in-flight entry. -/
theorem CompleteCase.inFlight_iff (h : CompleteCase cache now key storage inner after) :
    after.entries.lookup other = some (.inFlight waiters) ↔
      other ≠ key ∧ inner.entries.lookup other = some (.inFlight waiters) := by
  cases h with
  | stale | unretained => exact CacheInner.eraseEntry_inFlight_iff
  | retained _ _ _ _ _ _ htrim =>
    rw [CacheInner.compactCompletionOrder_entries]
    unfold CacheInner.pushCompleted
    rw [Table.lookup_insert_eq, ← htrim.inFlight_iff]
    by_cases heq : other = key
    · rw [if_pos heq]
      simp only [heq, Option.some.injEq, reduceCtorEq, ne_eq, not_true_eq_false, false_and]
    · rw [if_neg heq]
      simp only [ne_eq, heq, not_false_eq_true, true_and]

/-! ## `cancel` -/

/-- Cancelling takes the entry out and tells those who wait. -/
theorem cancel_eq (hentry : inner.entries.lookup key = some (.inFlight waiters)) :
    inner.cancel key = ((inner.eraseEntry key).forgetLatest key,
      waiters.map fun waiter => (waiter, .error .cancelled)) := by
  unfold CacheInner.cancel
  rw [hentry]

theorem cancel_inFlight_iff :
    ((inner.eraseEntry key).forgetLatest key).entries.lookup other = some (.inFlight waiters) ↔
      other ≠ key ∧ inner.entries.lookup other = some (.inFlight waiters) := by
  rw [CacheInner.forgetLatest_entries]
  exact CacheInner.eraseEntry_inFlight_iff

end NfsEmbed.Replay
