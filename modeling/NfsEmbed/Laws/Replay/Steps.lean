import NfsEmbed.Laws.Replay.Order

/-!
# Steps behind the lock

One inversion for the steps of a run: what a step can do to the fields behind the lock, and which
lease it stores a reply for. What a step does to generations, executions and completed entries is
read off it.
-/

namespace NfsEmbed.Replay

open Lib Rpc

/-- The lease an event stores the reply of. -/
def Event.stored : Event → Option ReplayEntryKey
  | .store lease _ _ => some lease
  | _ => none

variable {cache : ReplayCache} {inner : CacheInner} {w w' : World} {e : Event}

/-- Everything a step can do behind the lock. -/
inductive InnerStep (cache : ReplayCache) (w : World) (e : Event) : CacheInner → Prop
  | same : e.stored = none → InnerStep cache w e w.inner
  | begin (now : Nat) (key : ReplayKey) (fingerprint : RequestFingerprint) (expired : List ReplayEntryKey)
      (outcome : Except ReplayError ReplayDecision) (after : CacheInner) :
    e.stored = none → Trimmed w.inner expired (w.inner.expire now cache.ttl) →
    BeginCase cache (· ∈ w.closed) w.channels key fingerprint (w.inner.expire now cache.ttl) outcome after →
    after.completedOrder <:+ w.inner.completedOrder →
    w.inner.nextGeneration < w.inner.nextGeneration + 1 → InnerStep cache w e after
  | complete (lease : ReplayEntryKey) (waiters : List Channel) (storage : Option (EncodedReply × Nat))
      (after : CacheInner) :
    e.stored = some lease → w.inner.entries.lookup lease = some (.inFlight waiters) →
    Completion cache w.clock lease storage w.inner after → InnerStep cache w e after
  | cancel (lease : ReplayEntryKey) (waiters : List Channel) :
    e.stored = none → w.inner.entries.lookup lease = some (.inFlight waiters) →
    InnerStep cache w e ((w.inner.eraseEntry lease).forgetLatest lease)

/-- Every step of a run is one of the lock sections. -/
theorem innerStep (hsound : Sound cache w) (hstep : Step cache w e w') : InnerStep cache w e w'.inner := by
  cases hstep with
  | begin now key fingerprint _ hbegins =>
    obtain ⟨expired, hexpire, _, hcase⟩ :=
      begin_cases cache hsound.consistent hsound.size_le (· ∈ w.closed) now w.channels key fingerprint
    exact .begin now key fingerprint expired _ _ rfl hexpire hcase
      (begin_suffix cache (· ∈ w.closed) now w.channels key fingerprint w.inner)
      (hsound.nextGeneration_lt hbegins)
  | store lease reply alloc eligible hlease =>
    obtain ⟨waiters, hentry⟩ := hsound.inFlight_of_lease hlease
    exact .complete lease waiters _ _ rfl hentry (complete_completion cache hsound.consistent hentry
      w.clock reply (if eligible then some (reply.replayStorage alloc) else none)).1
  | cancel lease hlease | drop lease hlease =>
    obtain ⟨waiters, hentry⟩ := hsound.inFlight_of_lease hlease
    unfold World.cancel
    rw [cancel_eq hentry]
    exact .cancel lease waiters rfl hentry
  | prepare | close | tick => exact .same rfl

/-- A trim makes no generation the latest. -/
theorem Trimmed.isLatest_of_after {removed : List ReplayEntryKey} {after : CacheInner}
    (h : Trimmed inner removed after) {key : ReplayEntryKey} (hkey : after.isLatest key = true) :
    inner.isLatest key = true := by
  rw [CacheInner.isLatest_iff, h.latest] at hkey
  split at hkey
  next => cases hkey
  next => exact CacheInner.isLatest_iff.mpr hkey

theorem Trimmed.mem_of_after {removed : List ReplayEntryKey} {after : CacheInner}
    (h : Trimmed inner removed after) {key : ReplayEntryKey} (hkey : key ∈ after.entries) :
    key ∈ inner.entries := by
  rw [← AList.lookup_isSome, h.entries] at hkey
  split at hkey
  next => cases hkey
  next => exact AList.lookup_isSome.mp hkey

theorem eraseEntry_completed {lease key : ReplayEntryKey} {reply : EncodedReply} {bytes at' : Nat}
    (h : (inner.eraseEntry lease).entries.lookup key = some (.completed reply bytes at')) :
    inner.entries.lookup key = some (.completed reply bytes at') := by
  rw [Table.lookup_erase_eq] at h
  split at h
  next => cases h
  next => exact h

variable {after : CacheInner}

/-- A generation that an entry belongs to never becomes the latest again. -/
theorem InnerStep.isLatest_of_after (h : InnerStep cache w e after) (hc : Consistent w.inner)
    {key : ReplayEntryKey} (hkey : key ∈ w.inner.entries) (hlatest : after.isLatest key = true) :
    w.inner.isLatest key = true := by
  cases h with
  | same => exact hlatest
  | begin _ _ _ _ _ _ _ hexpire hcase =>
    apply hexpire.isLatest_of_after
    cases hcase with
    | wait | replay => exact hlatest
    | execute _ _ _ htrim =>
      apply htrim.isLatest_of_after
      rw [CacheInner.isLatest_iff] at hlatest ⊢
      unfold CacheInner.openGeneration at hlatest
      rw [Table.lookup_insert_eq] at hlatest
      split at hlatest
      next hrequest =>
        -- the generation that was opened is not the one of an entry
        obtain ⟨rfl, hgeneration⟩ := LatestGeneration.mk.inj (Option.some.inj hlatest)
        have hlt := hc.entry_generation_lt key hkey
        rw [← hgeneration, htrim.nextGeneration, hexpire.nextGeneration] at hlt
        exact absurd hlt (UInt64.lt_irrefl _)
      next => exact hlatest
    | full _ _ htrim => exact htrim.isLatest_of_after hlatest
  | complete _ _ _ _ _ _ hcompletion =>
    cases hcompletion.completeCase hc with
    | stale => exact hlatest
    | unretained =>
      rw [CacheInner.isLatest_iff, Table.lookup_erase_eq] at hlatest
      split at hlatest
      next => cases hlatest
      next => exact CacheInner.isLatest_iff.mpr hlatest
    | retained _ _ _ _ _ _ htrim =>
      apply htrim.isLatest_of_after
      rw [CacheInner.isLatest_iff, CacheInner.compactCompletionOrder_latest] at hlatest
      exact CacheInner.isLatest_iff.mpr hlatest
  | cancel =>
    rw [CacheInner.isLatest_iff, CacheInner.forgetLatest_latest] at hlatest
    exact CacheInner.isLatest_iff.mpr hlatest.1

/-- A step makes an entry only under the generation it opens. -/
theorem InnerStep.mem_of_after (h : InnerStep cache w e after) (hc : Consistent w.inner)
    {key : ReplayEntryKey} (hkey : key ∈ after.entries) : key ∈ w.inner.entries ∨ key.generation = w.inner.nextGeneration := by
  cases h with
  | same => exact .inl hkey
  | begin _ _ _ _ _ _ _ hexpire hcase =>
    cases hcase with
    | wait _ _ _ hentry =>
      refine .inl (hexpire.mem_of_after ?_)
      rcases (AList.mem_insert _).mp hkey with rfl | hkey
      · exact AList.lookup_isSome.mp (by rw [hentry]; rfl)
      · exact hkey
    | replay => exact .inl (hexpire.mem_of_after hkey)
    | execute _ _ _ htrim =>
      rcases (AList.mem_insert _).mp hkey with rfl | hkey
      · exact .inr (htrim.nextGeneration.trans hexpire.nextGeneration)
      · exact .inl (hexpire.mem_of_after (htrim.mem_of_after hkey))
    | full _ _ htrim => exact .inl (hexpire.mem_of_after (htrim.mem_of_after hkey))
  | complete _ _ _ _ _ hentry hcompletion =>
    left
    cases hcompletion.completeCase hc with
    | stale | unretained => exact (AList.mem_erase.mp hkey).2
    | retained _ _ _ _ _ _ htrim =>
      rw [CacheInner.compactCompletionOrder_entries] at hkey
      rcases (AList.mem_insert _).mp hkey with rfl | hkey
      · exact AList.lookup_isSome.mp (by rw [hentry]; rfl)
      · exact htrim.mem_of_after hkey
  | cancel =>
    rw [CacheInner.forgetLatest_entries] at hkey
    exact .inl (AList.mem_erase.mp hkey).2

/-- A step takes the stored lease out of flight, and brings in only the generation it opens. -/
theorem InnerStep.isInFlight_of_after (h : InnerStep cache w e after) (hc : Consistent w.inner)
    {key : ReplayEntryKey} (hkey : after.isInFlight key = true) : e.stored ≠ some key ∧
      (w.inner.isInFlight key = true ∨ key.generation = w.inner.nextGeneration) := by
  cases h with
  | same hevent => exact ⟨by simp [hevent], .inl hkey⟩
  | begin _ _ _ _ _ _ hevent hexpire hcase =>
    refine ⟨by simp [hevent], ?_⟩
    cases hcase with
    | wait _ _ _ hentry =>
      rw [CacheInner.setWaiters_isInFlight hentry, hexpire.isInFlight] at hkey
      exact .inl hkey
    | replay =>
      rw [hexpire.isInFlight] at hkey
      exact .inl hkey
    | execute _ _ _ htrim =>
      rw [CacheInner.openGeneration_isInFlight, htrim.isInFlight, hexpire.isInFlight] at hkey
      rcases hkey with rfl | hkey
      · exact .inr (htrim.nextGeneration.trans hexpire.nextGeneration)
      · exact .inl hkey
    | full _ _ htrim =>
      rw [htrim.isInFlight, hexpire.isInFlight] at hkey
      exact .inl hkey
  | complete _ _ _ _ hevent _ hcompletion =>
    obtain ⟨waiters', hlookup⟩ := CacheInner.isInFlight_iff.mp hkey
    rw [(hcompletion.completeCase hc).inFlight_iff] at hlookup
    rw [hevent, ne_eq, Option.some.injEq]
    exact ⟨Ne.symm hlookup.1, .inl (CacheInner.isInFlight_of_lookup hlookup.2)⟩
  | cancel _ _ hevent =>
    obtain ⟨waiters', hlookup⟩ := CacheInner.isInFlight_iff.mp hkey
    rw [cancel_inFlight_iff] at hlookup
    exact ⟨by simp [hevent], .inl (CacheInner.isInFlight_of_lookup hlookup.2)⟩

/-- The lease a reply is stored for was in flight. -/
theorem InnerStep.isInFlight_of_stored (h : InnerStep cache w e after) {lease : ReplayEntryKey}
    (hstored : e.stored = some lease) : w.inner.isInFlight lease = true := by
  cases h with
  | complete _ _ _ _ hevent hentry =>
    cases hevent.symm.trans hstored
    exact CacheInner.isInFlight_of_lookup hentry
  | same hevent | begin _ _ _ _ _ _ hevent | cancel _ _ hevent =>
    cases hevent.symm.trans hstored

/-- Generations are numbered upwards. -/
theorem InnerStep.nextGeneration_le (h : InnerStep cache w e after) (hc : Consistent w.inner) :
    w.inner.nextGeneration ≤ after.nextGeneration := by
  cases h with
  | same => exact UInt64.le_refl _
  | begin _ _ _ _ _ _ _ hexpire hcase _ hwrap =>
    rw [← hexpire.nextGeneration] at hwrap ⊢
    cases hcase with
    | wait | replay => exact UInt64.le_refl _
    | execute _ _ _ htrim =>
      rw [← htrim.nextGeneration] at hwrap ⊢
      exact UInt64.le_of_lt hwrap
    | full _ _ htrim =>
      rw [htrim.nextGeneration]
      exact UInt64.le_refl _
  | complete _ _ _ _ _ _ hcompletion =>
    cases hcompletion.completeCase hc with
    | stale | unretained => exact UInt64.le_refl _
    | retained _ _ _ _ _ _ htrim =>
      rw [CacheInner.compactCompletionOrder_nextGeneration, ← htrim.nextGeneration]
      exact UInt64.le_refl _
  | cancel =>
    rw [CacheInner.forgetLatest_nextGeneration]
    exact UInt64.le_refl _

/-- Unless a reply is retained, completed entries are only taken away, the oldest first. -/
theorem InnerStep.shrinks_or_retained (h : InnerStep cache w e after) (hc : Consistent w.inner) :
    (after.completedOrder <:+ w.inner.completedOrder ∧
      ∀ key reply bytes at', after.entries.lookup key = some (.completed reply bytes at') →
        w.inner.entries.lookup key = some (.completed reply bytes at')) ∨
    ∃ lease stored bytes removed mid, e.stored = some lease ∧ w.inner.isInFlight lease = true ∧ Trimmed w.inner removed mid ∧
      mid.completedOrder <:+ w.inner.completedOrder ∧
      after = (mid.pushCompleted lease stored bytes w.clock).compactCompletionOrder := by
  cases h with
  | same => exact .inl ⟨List.suffix_refl _, fun _ _ _ _ => id⟩
  | begin _ _ _ _ _ _ _ hexpire hcase hsuffix =>
    exact .inl ⟨hsuffix, fun key reply bytes at' hkey =>
      hexpire.completed_of_after (hcase.completed_of_after hkey)⟩
  | complete lease _ _ _ hevent hentry hcompletion =>
    cases hcompletion with
    | stale | unretained => exact .inl ⟨List.suffix_refl _, fun _ _ _ _ => eraseEntry_completed⟩
    | retained stored bytes _ _ hbytes =>
      obtain ⟨removed, htrim, _⟩ := hc.makeRoom_trimmed hbytes (w.inner.completedOrder.length + 1)
        (Nat.lt_succ_self _)
      exact .inr ⟨lease, stored, bytes, removed, _, hevent, CacheInner.isInFlight_of_lookup hentry, htrim,
        CacheInner.makeRoom_suffix _ _ _ _, rfl⟩
  | cancel =>
    refine .inl ⟨?_, fun key reply bytes at' hkey => ?_⟩
    · rw [CacheInner.forgetLatest_completedOrder]
    · rw [CacheInner.forgetLatest_entries] at hkey
      exact eraseEntry_completed hkey

end NfsEmbed.Replay
