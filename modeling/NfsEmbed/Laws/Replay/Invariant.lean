import NfsEmbed.Laws.Replay.Sections
import NfsEmbed.Replay.Run

/-!
# The representation invariant of the replay cache

Every reachable cache keeps its capacity, its byte budget and its bookkeeping: the latest generation
of a request has an entry, a completed entry is the latest of its request and stands once in the
completion order, and the order queue stays bounded although tombstones are deleted lazily.

The law is `representationInvariant_of_reachable`.
-/

namespace NfsEmbed.Replay

open Lib Rpc

namespace Consistent

variable {inner : CacheInner} {key : ReplayEntryKey} {waiters : List Channel}

/-- The state of an in-flight entry is not seen by the other containers. -/
theorem setWaiters (h : Consistent inner) (hkey : inner.entries.lookup key = some (.inFlight waiters))
    (waiters' : List Channel) :
    Consistent (inner.setWaiters key waiters') := by
  have hlookup : ∀ other state,
      AList.lookup other (inner.entries.insert key (.inFlight waiters')) = some state →
      (other = key ∧ state = .inFlight waiters') ∨
        (other ≠ key ∧ inner.entries.lookup other = some state) := by
    intro other state hstate
    rw [Table.lookup_insert_eq] at hstate
    split at hstate
    next heq => exact .inl ⟨heq, (Option.some.inj hstate).symm⟩
    next hne => exact .inr ⟨hne, hstate⟩
  have hcompleted : ∀ other, (inner.setWaiters key waiters').isCompleted other = true →
      inner.isCompleted other = true := by
    intro other hother
    obtain ⟨reply, bytes, at', hstate⟩ := CacheInner.isCompleted_iff.mp hother
    rcases hlookup other _ hstate with ⟨_, hstate⟩ | ⟨_, hstate⟩
    · cases hstate
    · exact CacheInner.isCompleted_of_lookup hstate
  have hmem : key ∈ inner.entries := AList.lookup_isSome.mp (by rw [hkey]; rfl)
  refine
    { latest_bound := fun request latest hlatest =>
        (AList.mem_insert _).mpr (.inr (h.latest_bound request latest hlatest))
      completed_latest := fun other hother => h.completed_latest other (hcompleted other hother)
      order_nodup := h.order_nodup
      completed_mem_order := fun other hother => h.completed_mem_order other (hcompleted other hother)
      order_not_inFlight := ?_
      bytes_eq := ?_
      wire_le_charged := ?_
      entry_generation_lt := ?_
      order_generation_lt := h.order_generation_lt }
  · intro other hother
    rw [Bool.eq_false_iff]
    intro hflight
    have hnot := h.order_not_inFlight other hother
    obtain ⟨waiters'', hstate⟩ := CacheInner.isInFlight_iff.mp hflight
    rcases hlookup other _ hstate with ⟨rfl, _⟩ | ⟨_, hstate⟩
    · rw [CacheInner.isInFlight_of_lookup hkey] at hnot
      cases hnot
    · rw [CacheInner.isInFlight_of_lookup hstate] at hnot
      cases hnot
  · change inner.completedBytes = Table.weight _ (inner.entries.insert key _)
    rw [h.bytes_eq, ← Table.insert_erase, Table.weight_insert _ (AList.lookup_erase key _),
      ← Table.weight_erase _ hkey]
    rfl
  · intro other state hstate
    rcases hlookup other state hstate with ⟨_, rfl⟩ | ⟨_, hstate⟩
    · exact Nat.le_refl _
    · exact h.wire_le_charged other state hstate
  · intro other hother
    rcases (AList.mem_insert _).mp hother with rfl | hother
    · exact h.entry_generation_lt _ hmem
    · exact h.entry_generation_lt other hother

/-- A generation that was never handed out is in neither container. -/
theorem fresh_notMem (h : Consistent inner) (request : ReplayKey)
    (fingerprint : RequestFingerprint) :
    (⟨request, fingerprint, inner.nextGeneration⟩ : ReplayEntryKey) ∉ inner.entries ∧
      (⟨request, fingerprint, inner.nextGeneration⟩ : ReplayEntryKey) ∉ inner.completedOrder :=
  ⟨fun hmem => UInt64.lt_irrefl _ (h.entry_generation_lt _ hmem),
    fun hmem => UInt64.lt_irrefl _ (h.order_generation_lt _ hmem)⟩

/-- Granting a lease keeps the cache consistent. -/
theorem openGeneration (h : Consistent inner) {request : ReplayKey}
    (fingerprint : RequestFingerprint)
    (hnone : ∀ entry, entry.request = request → inner.isCompleted entry = false)
    (hwrap : inner.nextGeneration < inner.nextGeneration + 1) :
    Consistent (inner.openGeneration request fingerprint) := by
  obtain ⟨hfresh, hfreshOrder⟩ := h.fresh_notMem request fingerprint
  have hother : ∀ other : ReplayEntryKey, other ≠ ⟨request, fingerprint, inner.nextGeneration⟩ →
      (inner.openGeneration request fingerprint).entries.lookup other = inner.entries.lookup other :=
    fun other hne => AList.lookup_insert_ne hne
  have hnew : (inner.openGeneration request fingerprint).entries.lookup
      ⟨request, fingerprint, inner.nextGeneration⟩ = some (.inFlight []) := AList.lookup_insert _
  have hcompleted : ∀ other, (inner.openGeneration request fingerprint).isCompleted other = true →
      inner.isCompleted other = true := by
    intro other hcompleted
    by_cases heq : other = ⟨request, fingerprint, inner.nextGeneration⟩
    · obtain ⟨reply, bytes, at', hstate⟩ := CacheInner.isCompleted_iff.mp hcompleted
      rw [heq, hnew] at hstate
      cases hstate
    · rwa [CacheInner.isCompleted_congr (hother other heq)] at hcompleted
  refine
    { latest_bound := ?_
      completed_latest := ?_
      order_nodup := h.order_nodup
      completed_mem_order := fun other hother => h.completed_mem_order other (hcompleted other hother)
      order_not_inFlight := ?_
      bytes_eq := ?_
      wire_le_charged := ?_
      entry_generation_lt := ?_
      order_generation_lt := fun other hother =>
        UInt64.lt_trans (h.order_generation_lt other hother) hwrap }
  · intro request' latest hlatest
    unfold CacheInner.openGeneration at hlatest ⊢
    rw [Table.lookup_insert_eq] at hlatest
    split at hlatest
    next heq =>
      cases hlatest
      rw [heq]
      exact (AList.mem_insert _).mpr (.inl rfl)
    next => exact (AList.mem_insert _).mpr (.inr (h.latest_bound request' latest hlatest))
  · intro other hother
    have hcompleted := hcompleted other hother
    have hne : other.request ≠ request := by
      intro heq
      rw [hnone other heq] at hcompleted
      cases hcompleted
    unfold CacheInner.openGeneration
    rw [Table.lookup_insert_eq, if_neg hne]
    exact h.completed_latest other hcompleted
  · intro other hmem
    rw [CacheInner.isInFlight_congr (hother other fun heq => hfreshOrder (heq ▸ hmem))]
    exact h.order_not_inFlight other hmem
  · unfold CacheInner.openGeneration
    rw [Table.weight_insert _ (AList.lookup_eq_none.mpr hfresh)]
    exact h.bytes_eq.trans (Nat.zero_add _).symm
  · intro other state hstate
    by_cases heq : other = ⟨request, fingerprint, inner.nextGeneration⟩
    · rw [heq, hnew] at hstate
      cases hstate
      exact Nat.le_refl _
    · rw [hother other heq] at hstate
      exact h.wire_le_charged other state hstate
  · intro other hmem
    rcases (AList.mem_insert _).mp hmem with rfl | hmem
    · exact hwrap
    · exact UInt64.lt_trans (h.entry_generation_lt other hmem) hwrap

/-- Resolving a lease without retaining its reply. -/
theorem resolve (h : Consistent inner) (hkey : inner.entries.lookup key = some (.inFlight waiters)) :
    Consistent ((inner.eraseEntry key).forgetLatest key) := by
  have hlookup : ∀ other state,
      ((inner.eraseEntry key).forgetLatest key).entries.lookup other = some state →
      inner.entries.lookup other = some state := by
    intro other state hstate
    rw [CacheInner.forgetLatest_entries, Table.lookup_erase_eq] at hstate
    split at hstate
    next => cases hstate
    next => exact hstate
  have hcompleted : ∀ other, ((inner.eraseEntry key).forgetLatest key).isCompleted other = true →
      inner.isCompleted other = true := by
    intro other hother
    obtain ⟨reply, bytes, at', hstate⟩ := CacheInner.isCompleted_iff.mp hother
    exact CacheInner.isCompleted_of_lookup (hlookup other _ hstate)
  refine
    { latest_bound := ?_
      completed_latest := ?_
      order_nodup := by rw [CacheInner.forgetLatest_completedOrder]; exact h.order_nodup
      completed_mem_order := ?_
      order_not_inFlight := ?_
      bytes_eq := ?_
      wire_le_charged := fun other state hstate => h.wire_le_charged other state (hlookup other state hstate)
      entry_generation_lt := ?_
      order_generation_lt := ?_ }
  · intro request latest hlatest
    obtain ⟨hlatest, hne⟩ := CacheInner.forgetLatest_latest.mp hlatest
    rw [CacheInner.forgetLatest_entries]
    exact AList.mem_erase.mpr ⟨hne, h.latest_bound request latest hlatest⟩
  · intro other hother
    refine CacheInner.forgetLatest_latest.mpr ⟨h.completed_latest other (hcompleted other hother), ?_⟩
    -- a completed entry is not the in-flight one
    rintro rfl
    have := CacheInner.not_isInFlight_of_isCompleted (hcompleted _ hother)
    rw [CacheInner.isInFlight_of_lookup hkey] at this
    cases this
  · intro other hother
    rw [CacheInner.forgetLatest_completedOrder]
    exact h.completed_mem_order other (hcompleted other hother)
  · intro other hother
    rw [CacheInner.forgetLatest_completedOrder] at hother
    rw [Bool.eq_false_iff]
    intro hflight
    obtain ⟨waiters, hstate⟩ := CacheInner.isInFlight_iff.mp hflight
    have := h.order_not_inFlight other hother
    rw [CacheInner.isInFlight_of_lookup (hlookup other _ hstate)] at this
    cases this
  · rw [CacheInner.forgetLatest_completedBytes, CacheInner.forgetLatest_entries]
    exact h.bytes_eq.trans ((Table.weight_erase _ hkey).symm.trans (Nat.zero_add _))
  · intro other hother
    rw [CacheInner.forgetLatest_entries] at hother
    rw [CacheInner.forgetLatest_nextGeneration]
    exact h.entry_generation_lt other (AList.mem_erase.mp hother).2
  · intro other hother
    rw [CacheInner.forgetLatest_completedOrder] at hother
    rw [CacheInner.forgetLatest_nextGeneration]
    exact h.order_generation_lt other hother

/-- Retaining a reply of the latest generation, charged exactly. -/
theorem pushCompleted (h : Consistent inner)
    (hkey : inner.entries.lookup key = some (.inFlight waiters))
    (hlatest : inner.isLatest key = true) {stored : EncodedReply} {bytes : Nat} (now : Nat)
    (hwire : stored.len ≤ bytes)
    (hexact : saturatingAdd inner.completedBytes bytes = inner.completedBytes + bytes) :
    Consistent (inner.pushCompleted key stored bytes now) := by
  have hflight := CacheInner.isInFlight_of_lookup hkey
  have hmem : key ∈ inner.entries := AList.lookup_isSome.mp (by rw [hkey]; rfl)
  have hnotMem : key ∉ inner.completedOrder := by
    intro hmem
    rw [h.order_not_inFlight key hmem] at hflight
    cases hflight
  have hother : ∀ other, other ≠ key →
      (inner.pushCompleted key stored bytes now).entries.lookup other = inner.entries.lookup other :=
    fun other hne => AList.lookup_insert_ne hne
  have hnew : (inner.pushCompleted key stored bytes now).entries.lookup key =
      some (.completed stored bytes now) := AList.lookup_insert _
  refine
    { latest_bound := fun request latest hlatest =>
        (AList.mem_insert _).mpr (.inr (h.latest_bound request latest hlatest))
      completed_latest := ?_
      order_nodup := ?_
      completed_mem_order := ?_
      order_not_inFlight := ?_
      bytes_eq := ?_
      wire_le_charged := ?_
      entry_generation_lt := ?_
      order_generation_lt := ?_ }
  · intro other hcompleted
    by_cases heq : other = key
    · rw [heq]
      exact CacheInner.isLatest_iff.mp hlatest
    · rw [CacheInner.isCompleted_congr (hother other heq)] at hcompleted
      exact h.completed_latest other hcompleted
  · exact List.nodup_append.mpr ⟨h.order_nodup, List.nodup_singleton _, fun a ha b hb heq =>
      hnotMem (List.mem_singleton.mp hb ▸ heq ▸ ha)⟩
  · intro other hcompleted
    by_cases heq : other = key
    · exact List.mem_append_right _ (List.mem_singleton.mpr heq)
    · rw [CacheInner.isCompleted_congr (hother other heq)] at hcompleted
      exact List.mem_append_left _ (h.completed_mem_order other hcompleted)
  · intro other hmem
    by_cases heq : other = key
    · rw [heq]
      exact CacheInner.not_isInFlight_of_isCompleted (CacheInner.isCompleted_of_lookup hnew)
    · rw [CacheInner.isInFlight_congr (hother other heq)]
      rcases List.mem_append.mp hmem with hmem | hmem
      · exact h.order_not_inFlight other hmem
      · exact absurd (List.mem_singleton.mp hmem) heq
  · change saturatingAdd inner.completedBytes bytes =
      Table.weight _ (inner.entries.insert key (.completed stored bytes now))
    have hrest := Table.weight_erase ReplayState.charged hkey
    rw [hexact, h.bytes_eq, ← Table.insert_erase, Table.weight_insert _ (AList.lookup_erase key _),
      ← hrest]
    change 0 + _ + bytes = bytes + _
    omega
  · intro other state hstate
    by_cases heq : other = key
    · rw [heq, hnew] at hstate
      cases hstate
      exact hwire
    · rw [hother other heq] at hstate
      exact h.wire_le_charged other state hstate
  · intro other hother
    rcases (AList.mem_insert _).mp hother with rfl | hother
    · exact h.entry_generation_lt _ hmem
    · exact h.entry_generation_lt other hother
  · intro other hother
    rcases List.mem_append.mp hother with hother | hother
    · exact h.order_generation_lt other hother
    · rw [List.mem_singleton.mp hother]
      exact h.entry_generation_lt key hmem

/-- Compaction deletes tombstones only, and bounds the order queue. -/
theorem compactCompletionOrder (h : Consistent inner) :
    Consistent inner.compactCompletionOrder ∧
      inner.compactCompletionOrder.completedOrder.length ≤ max 64 (2 * inner.entries.size) := by
  have hcap := saturatingMul_le inner.entries.size 2
  unfold CacheInner.compactCompletionOrder
  dsimp only
  split
  next =>
    have hsub : ∀ key ∈ inner.completedOrder.filter inner.isCompleted, key ∈ inner.completedOrder :=
      fun key hkey => List.mem_of_mem_filter hkey
    refine ⟨?_, ?_⟩
    · exact
        { h with
          order_nodup := h.order_nodup.filter _
          completed_mem_order := fun key hkey =>
            List.mem_filter.mpr ⟨h.completed_mem_order key hkey, hkey⟩
          order_not_inFlight := fun key hkey => h.order_not_inFlight key (hsub key hkey)
          order_generation_lt := fun key hkey => h.order_generation_lt key (hsub key hkey) }
    · have := Table.length_le_size (t := inner.entries) (h.order_nodup.filter inner.isCompleted)
        (fun key hkey => by
          obtain ⟨reply, bytes, at', hlookup⟩ :=
            CacheInner.isCompleted_iff.mp (List.mem_filter.mp hkey).2
          exact AList.lookup_isSome.mp (by rw [hlookup]; rfl))
      dsimp only
      omega
  next hle => exact ⟨h, by omega⟩

end Consistent

/-! ## Runs -/

/-- The world after a `begin`, by its outcome and what it left behind the lock. -/
def World.begun (w : World) (outcome : Except ReplayError ReplayDecision) (after : CacheInner) : World :=
  { w with
    inner := after
    leases := match outcome with
      | .ok (.execute lease) => w.leases.insert lease .held
      | _ => w.leases
    channels := w.channels + 1
    begins := w.begins + 1 }

/-- What holds of the cache and its callers after any number of steps. -/
structure Sound (cache : ReplayCache) (w : World) : Prop where
  consistent : Consistent w.inner
  size_le : w.inner.entries.size ≤ cache.capacity
  bytes_le : w.inner.completedBytes ≤ cache.maxCompletedBytes
  order_le : w.inner.completedOrder.length ≤ max 64 (2 * cache.capacity)
  lease_iff : ∀ key, key ∈ w.leases ↔ w.inner.isInFlight key = true
  generation_le : w.inner.nextGeneration.toNat ≤ w.begins
  begins_lt : w.begins < 2 ^ 64

namespace Sound

variable {cache : ReplayCache} {w : World}

theorem new (clock : Nat) : Sound cache (World.new clock) where
  consistent := consistent_new
  size_le := Nat.zero_le _
  bytes_le := Nat.zero_le _
  order_le := Nat.zero_le _
  lease_iff key := ⟨fun h => absurd h (AList.notMem_empty key), nofun⟩
  generation_le := Nat.le_refl _
  begins_lt := Nat.two_pow_pos 64

/-- An unresolved lease owns an in-flight entry. -/
theorem inFlight_of_lease (h : Sound cache w) {lease : ReplayEntryKey} {phase : LeasePhase}
    (hlease : w.leases.lookup lease = some phase) :
    ∃ waiters, w.inner.entries.lookup lease = some (.inFlight waiters) :=
  CacheInner.isInFlight_iff.mp
    ((h.lease_iff lease).mp (AList.lookup_isSome.mp (by rw [hlease]; rfl)))

/-- The generation counter does not wrap while fewer than `2 ^ 64` calls are made. -/
theorem nextGeneration_lt (h : Sound cache w) (hbegins : w.begins + 1 < 2 ^ 64) :
    w.inner.nextGeneration < w.inner.nextGeneration + 1 := by
  have := h.generation_le
  rw [UInt64.lt_iff_toNat_lt, UInt64.toNat_add]
  simp only [UInt64.toNat_one]
  omega

/-- Everything `begin` can do to the world. -/
theorem begin_cases (h : Sound cache w) (now : Nat) (key : ReplayKey) (fingerprint : RequestFingerprint) :
    ∃ expired outcome after, Trimmed w.inner expired (w.inner.expire now cache.ttl) ∧
      (∀ entry ∈ expired, w.inner.Expired now cache.ttl entry) ∧
      BeginCase cache (· ∈ w.closed) w.channels key fingerprint (w.inner.expire now cache.ttl) outcome after ∧
      w.begin cache now key fingerprint = (outcome, w.begun outcome after) := by
  obtain ⟨expired, hexpire, hexpired, hcase⟩ :=
    Replay.begin_cases cache h.consistent h.size_le (· ∈ w.closed) now w.channels key fingerprint
  exact ⟨expired, _, _, hexpire, hexpired, hcase, rfl⟩

theorem begin (h : Sound cache w) (now : Nat) (key : ReplayKey) (fingerprint : RequestFingerprint)
    (hbegins : w.begins + 1 < 2 ^ 64) :
    Sound cache (w.begin cache now key fingerprint).2 := by
  obtain ⟨expired, outcome, after, hexpire, _, hcase, hbegin⟩ := h.begin_cases now key fingerprint
  rw [hbegin]
  dsimp only [World.begun]
  generalize w.inner.expire now cache.ttl = mid at hexpire hcase
  have hsize : mid.entries.size ≤ cache.capacity := by
    have := hexpire.size
    have := h.size_le
    omega
  have hbytes := Nat.le_trans hexpire.bytes h.bytes_le
  have horder := Nat.le_trans hexpire.order h.order_le
  have hnextMid : mid.nextGeneration.toNat ≤ w.begins + 1 := by
    rw [hexpire.nextGeneration]
    exact Nat.le_succ_of_le h.generation_le
  have hlease : ∀ entry, entry ∈ w.leases ↔ mid.isInFlight entry = true := by
    intro entry
    rw [hexpire.isInFlight]
    exact h.lease_iff entry
  cases hcase with
  | wait _ _ _ hentry =>
    refine
      { consistent := hexpire.consistent.setWaiters hentry _
        size_le := Nat.le_trans (Nat.le_of_eq (Table.size_insert_of_some hentry _)) hsize
        bytes_le := hbytes
        order_le := horder
        lease_iff := fun entry => by
          rw [CacheInner.setWaiters_isInFlight hentry]
          exact hlease entry
        generation_le := hnextMid
        begins_lt := hbegins }
  | replay =>
    exact
      { consistent := hexpire.consistent
        size_le := hsize
        bytes_le := hbytes
        order_le := horder
        lease_iff := hlease
        generation_le := hnextMid
        begins_lt := hbegins }
  | execute _ room _ htrim _ hgone hroom =>
    have hnext : room.nextGeneration = w.inner.nextGeneration :=
      htrim.nextGeneration.trans hexpire.nextGeneration
    have hwrap := h.nextGeneration_lt hbegins
    have hfresh := (htrim.consistent.fresh_notMem key fingerprint).1
    refine
      { consistent := htrim.consistent.openGeneration fingerprint hgone (by rwa [hnext])
        size_le := ?_
        bytes_le := Nat.le_trans htrim.bytes hbytes
        order_le := Nat.le_trans htrim.order horder
        lease_iff := ?_
        generation_le := ?_
        begins_lt := hbegins }
    · unfold CacheInner.openGeneration
      dsimp only
      rw [Table.size_insert (AList.lookup_eq_none.mpr hfresh)]
      exact hroom
    · intro entry
      rw [AList.mem_insert, hlease, ← htrim.isInFlight]
      exact CacheInner.openGeneration_isInFlight.symm
    · have := h.generation_le
      change (room.nextGeneration + 1).toNat ≤ w.begins + 1
      rw [hnext, UInt64.toNat_add, UInt64.toNat_one]
      omega
  | full _ _ htrim =>
    exact
      { consistent := htrim.consistent
        size_le := Nat.le_trans (Nat.le_of_eq htrim.size) hsize
        bytes_le := Nat.le_trans htrim.bytes hbytes
        order_le := Nat.le_trans htrim.order horder
        lease_iff := fun entry => by
          rw [htrim.isInFlight]
          exact hlease entry
        generation_le := by
          rw [htrim.nextGeneration]
          exact hnextMid
        begins_lt := hbegins }

/-- Resolving a lease in the cache and consuming it. -/
theorem lease_iff_erase (h : Sound cache w) {lease : ReplayEntryKey} {after : CacheInner}
    (hafter : ∀ other waiters, after.entries.lookup other = some (.inFlight waiters) ↔
      other ≠ lease ∧ w.inner.entries.lookup other = some (.inFlight waiters))
    (entry : ReplayEntryKey) :
    entry ∈ w.leases.erase lease ↔ after.isInFlight entry = true := by
  rw [AList.mem_erase, h.lease_iff, CacheInner.isInFlight_iff, CacheInner.isInFlight_iff]
  simp only [hafter, exists_and_left]

/-- Where nothing is retained the fields shrink, and where something is, there is room for it and it
is charged exactly. -/
theorem complete (h : Sound cache w) {lease : ReplayEntryKey} {waiters : List Channel}
    (hentry : w.inner.entries.lookup lease = some (.inFlight waiters)) {reply : EncodedReply}
    {alloc : Allocator} {storage : Option (EncodedReply × Nat)} {after : CacheInner}
    (hstorage : ∀ stored ∈ storage, stored = reply.replayStorage alloc)
    (hmemory : FitsMemory cache w (reply.charge alloc))
    (hcase : CompleteCase cache w.clock lease storage w.inner after) :
    Sound cache { w with inner := after, leases := w.leases.erase lease } := by
  have hlease := h.lease_iff_erase fun other waiters => hcase.inFlight_iff
  have hsizeErase : Table.size (w.inner.entries.erase lease) ≤ cache.capacity := by
    have := Table.size_erase hentry
    have := h.size_le
    omega
  have hresolve := h.consistent.resolve hentry
  cases hcase with
  | stale hlatest =>
    have hforget : (w.inner.eraseEntry lease).forgetLatest lease = w.inner.eraseEntry lease := by
      unfold CacheInner.forgetLatest
      rw [if_neg]
      exact Bool.eq_false_iff.mp hlatest
    exact { h with consistent := hforget ▸ hresolve, size_le := hsizeErase, lease_iff := hlease }
  | unretained hlatest =>
    have hforget : (w.inner.eraseEntry lease).forgetLatest lease =
        { w.inner.eraseEntry lease with latest := w.inner.latest.erase lease.request } := by
      unfold CacheInner.forgetLatest
      rw [if_pos]
      exact hlatest
    exact { h with consistent := hforget ▸ hresolve, size_le := hsizeErase, lease_iff := hlease }
  | retained stored bytes _ mid hlatest hstored htrim _ hroom =>
    obtain ⟨rfl, rfl⟩ : stored = (reply.replayStorage alloc).1 ∧ bytes = reply.charge alloc := by
      have := hstorage _ hstored
      exact ⟨congrArg Prod.fst this, congrArg Prod.snd this⟩
    have hmid : mid.entries.lookup lease = some (.inFlight waiters) := htrim.inFlight_iff.mpr hentry
    have hexact : saturatingAdd mid.completedBytes (reply.charge alloc) =
        mid.completedBytes + reply.charge alloc := by
      have := htrim.bytes
      have := h.consistent.bytes_eq
      unfold saturatingAdd at hroom ⊢
      rcases hmemory with hbudget | hfits
      · omega
      · omega
    have hwire : (reply.replayStorage alloc).1.len ≤ reply.charge alloc := by
      unfold EncodedReply.len
      rw [EncodedReply.replayStorage_storage]
      exact reply.len_le_charge alloc
    have hlatestMid : mid.isLatest lease = true :=
      htrim.isLatest_of_notMem h.consistent hlatest
        (htrim.notMem_of_isInFlight (CacheInner.isInFlight_of_lookup hentry))
    have hpush := htrim.consistent.pushCompleted hmid hlatestMid w.clock hwire hexact
    have hcompact := hpush.compactCompletionOrder
    have hsize : (mid.pushCompleted lease (reply.replayStorage alloc).1 (reply.charge alloc)
        w.clock).entries.size ≤ cache.capacity := by
      have := htrim.size
      have := h.size_le
      have hinsert := Table.size_insert_of_some hmid
        (.completed (reply.replayStorage alloc).1 (reply.charge alloc) w.clock)
      change Table.size (mid.entries.insert lease _) ≤ _
      omega
    exact
      { consistent := hcompact.1
        size_le := by rw [CacheInner.compactCompletionOrder_entries]; exact hsize
        bytes_le := by rw [CacheInner.compactCompletionOrder_completedBytes]; exact hroom
        order_le := Nat.le_trans hcompact.2 (by omega)
        lease_iff := hlease
        generation_le := by
          rw [CacheInner.compactCompletionOrder_nextGeneration]
          exact htrim.nextGeneration ▸ h.generation_le
        begins_lt := h.begins_lt }

theorem cancel (h : Sound cache w) {lease : ReplayEntryKey} {waiters : List Channel}
    (hentry : w.inner.entries.lookup lease = some (.inFlight waiters)) :
    Sound cache { w with
      inner := (w.inner.eraseEntry lease).forgetLatest lease
      leases := w.leases.erase lease } := by
  refine
    { h with
      consistent := h.consistent.resolve hentry
      size_le := ?_
      bytes_le := by rw [CacheInner.forgetLatest_completedBytes]; exact h.bytes_le
      order_le := by rw [CacheInner.forgetLatest_completedOrder]; exact h.order_le
      lease_iff := h.lease_iff_erase fun other waiters => cancel_inFlight_iff
      generation_le := by rw [CacheInner.forgetLatest_nextGeneration]; exact h.generation_le }
  have := Table.size_erase hentry
  have := h.size_le
  rw [CacheInner.forgetLatest_entries]
  change Table.size (w.inner.entries.erase lease) ≤ _
  omega

/-- Delivering touches neither the cache nor the leases. -/
theorem deliver (h : Sound cache w) (sends : List (Channel × Except ReplayError EncodedReply)) :
    Sound cache (w.deliver sends) := { h with }

theorem step (h : Sound cache w) {e : Event} {w' : World} (hstep : Step cache w e w') :
    Sound cache w' := by
  cases hstep with
  | begin now key fingerprint _ hbegins => exact h.begin now key fingerprint hbegins
  | prepare lease _ _ hlease =>
    refine { h with lease_iff := fun key => Iff.trans ?_ (h.lease_iff key) }
    have hmem : lease ∈ w.leases := AList.lookup_isSome.mp (by rw [hlease]; rfl)
    exact (AList.mem_insert _).trans (or_iff_right_of_imp fun heq => heq ▸ hmem)
  | store _ reply alloc eligible hlease hmemory =>
    obtain ⟨waiters, hentry⟩ := h.inFlight_of_lease hlease
    have hstorage : ∀ stored ∈ (if eligible then some (reply.replayStorage alloc) else none),
        stored = reply.replayStorage alloc := by
      intro stored hstored
      split at hstored
      next => exact (Option.some.inj hstored).symm
      next => cases hstored
    have hcase := complete_cases cache h.consistent hentry w.clock reply
      (if eligible then some (reply.replayStorage alloc) else none)
    exact (h.complete hentry hstorage hmemory hcase.1).deliver _
  | cancel lease hlease | drop lease hlease =>
    obtain ⟨waiters, hentry⟩ := h.inFlight_of_lease hlease
    unfold World.cancel
    rw [cancel_eq hentry]
    exact (h.cancel hentry).deliver _
  | close | tick => exact { h with }

/-- Every reachable cache is consistent and within its limits. -/
theorem reachable (h : (machine cache).Reachable w) : Sound cache w := by
  refine h.invariant ?_ fun _ _ _ hsound hstep => hsound.step hstep
  rintro _ ⟨clock, rfl⟩
  exact Sound.new clock

end Sound

/-- The representation invariant, as a reader of the source would state it. -/
structure RepresentationInvariant (cache : ReplayCache) (inner : CacheInner) : Prop where
  entries_le : inner.entries.size ≤ cache.capacity
  completedBytes_eq : inner.completedBytes = inner.entries.weight ReplayState.charged
  completedBytes_le : inner.completedBytes ≤ cache.maxCompletedBytes
  wireLength_le : inner.entries.weight ReplayState.wireLength ≤ cache.maxCompletedBytes
  latest_bound : ∀ request latest, inner.latest.lookup request = some latest →
    (⟨request, latest.fingerprint, latest.generation⟩ : ReplayEntryKey) ∈ inner.entries
  completed_latest : ∀ key, inner.isCompleted key = true → inner.isLatest key = true
  completed_unique : ∀ key key', inner.isCompleted key = true → inner.isCompleted key' = true →
    key.request = key'.request → key = key'
  completed_once : ∀ key, inner.isCompleted key = true → inner.completedOrder.count key = 1
  order_le : inner.completedOrder.length ≤ max 64 (2 * cache.capacity)

/-- Every reachable cache satisfies its representation invariant. -/
theorem representationInvariant_of_reachable {cache : ReplayCache} {w : World}
    (h : (machine cache).Reachable w) : RepresentationInvariant cache w.inner := by
  have hsound := Sound.reachable h
  have hc := hsound.consistent
  refine
    { entries_le := hsound.size_le
      completedBytes_eq := hc.bytes_eq
      completedBytes_le := hsound.bytes_le
      wireLength_le := ?_
      latest_bound := hc.latest_bound
      completed_latest := fun key hkey => CacheInner.isLatest_iff.mpr (hc.completed_latest key hkey)
      completed_unique := fun key key' hkey hkey' => hc.completed_unique hkey hkey'
      completed_once := fun key hkey =>
        List.count_eq_one_of_mem hc.order_nodup (hc.completed_mem_order key hkey)
      order_le := hsound.order_le }
  have hcharged : w.inner.entries.weight ReplayState.wireLength ≤
      w.inner.entries.weight ReplayState.charged :=
    Table.weight_mono fun entry hentry =>
      hc.wire_le_charged entry.1 entry.2 (Table.mem_entries_iff.mp hentry)
  have hbytes := hsound.bytes_le
  rw [hc.bytes_eq] at hbytes
  exact Nat.le_trans hcharged hbytes

/-! ## A run

A client sends a request, retransmits it while it is executed, and the execution completes with a
segmented reply. -/

namespace Sample

def cache : ReplayCache := ⟨2, 1024, 10, by decide⟩

def key : ReplayKey := ⟨.v4 0x7f000001 1234, ⟨1⟩, 7⟩

def fingerprint : RequestFingerprint := ⟨⟨List.replicate 32 7, rfl⟩⟩

def lease : ReplayEntryKey := ⟨key, fingerprint, 0⟩

def alloc : Allocator := ⟨id, fun _ => Nat.le_refl _⟩

def reply : EncodedReply := EncodedReply.segmented [0, 0, 0, 7] [1, 2, 3] 1

def executing : World := ((World.new 0).begin cache 0 key fingerprint).2

def waiting : World := (executing.begin cache 0 key fingerprint).2

def preparing : World := waiting.prepare cache lease reply alloc

def completed : World := preparing.store cache lease reply alloc true

theorem new_reachable : (machine cache).Reachable (World.new 0) :=
  ⟨World.new 0, [], ⟨0, rfl⟩, .nil⟩

theorem admitted :
    Step cache (World.new 0) (.begin 0 key fingerprint (.ok (.execute lease))) executing :=
  Step.begin (World.new 0) 0 key fingerprint (by decide) (by decide)

theorem executing_reachable : (machine cache).Reachable executing :=
  new_reachable.run (Machine.Run.nil.snoc admitted)

theorem waited : Step cache executing (.begin 0 key fingerprint (.ok (.wait 1))) waiting :=
  Step.begin executing 0 key fingerprint (by decide) (by decide)

/-- The two lock sections of `complete`. -/
def resolution : List (Edge World Event) :=
  [⟨waiting, .prepare lease reply alloc, preparing⟩, ⟨preparing, .store lease reply alloc, completed⟩]

theorem waiting_run : (machine cache).Run waiting resolution completed :=
  (Machine.Run.nil.snoc (Step.prepare waiting lease reply alloc rfl)).snoc
    (Step.store preparing lease reply alloc true rfl (.inl (by decide)))

/-- The steps after the request was admitted. -/
def trace : List (Edge World Event) :=
  ⟨executing, .begin 0 key fingerprint (.ok (.wait 1)), waiting⟩ :: resolution

theorem executing_run : (machine cache).Run executing trace completed :=
  (Machine.Run.nil.snoc waited).append waiting_run

theorem completed_reachable : (machine cache).Reachable completed :=
  executing_reachable.run executing_run

end Sample

theorem representationInvariant_completed :
    Sample.completed.inner.isCompleted Sample.lease = true ∧
      RepresentationInvariant Sample.cache Sample.completed.inner :=
  ⟨rfl, representationInvariant_of_reachable Sample.completed_reachable⟩

end NfsEmbed.Replay
