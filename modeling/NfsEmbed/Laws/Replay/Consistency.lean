import NfsEmbed.Replay.Cache

/-!
# Consistency of the cache's containers

The three containers and the byte counter agree with each other (`Consistent`), and every helper of
the cache keeps the agreement. Expiry, eviction and XID reuse only take completed entries away and
pop tombstones; what they may change is said once, as `Trimmed`, and each helper is shown to be one.
-/

namespace NfsEmbed.Replay

open Lib Rpc

variable {key' key : ReplayEntryKey} {bytes : Nat}

variable {inner' : CacheInner} {reply : EncodedReply} {at' : Nat} {waiters : List Channel}
  {rest : List ReplayEntryKey}

/-- The wire length a state of an entry retains. -/
def ReplayState.wireLength : ReplayState → Nat
  | .inFlight _ => 0
  | .completed encodedReply _ _ => encodedReply.len

namespace CacheInner

variable {inner : CacheInner} {key : ReplayEntryKey}

/-- The latest generation is the one the index has. -/
theorem isLatest_iff : inner.isLatest key = true ↔
    inner.latest.lookup key.request = some ⟨key.fingerprint, key.generation⟩ := by
  unfold isLatest
  split
  next latest h =>
    rw [h, Bool.and_eq_true, beq_iff_eq, beq_iff_eq, Option.some.injEq]
    cases latest
    simp only [LatestGeneration.mk.injEq, and_comm]
  next h => simp only [h, Bool.false_eq_true, reduceCtorEq]

/-- A request has one latest generation. -/
theorem isLatest_unique (h : inner.isLatest key = true) (h' : inner.isLatest key' = true)
    (hrequest : key.request = key'.request) : key = key' := by
  rw [isLatest_iff] at h h'
  rw [hrequest, h', Option.some.injEq, LatestGeneration.mk.injEq] at h
  cases key; cases key'
  simp only at hrequest h
  simp only [hrequest, h]

@[simp] theorem forgetLatest_entries : (inner.forgetLatest key).entries = inner.entries := by
  unfold forgetLatest
  split <;> rfl

@[simp] theorem forgetLatest_completedOrder :
    (inner.forgetLatest key).completedOrder = inner.completedOrder := by
  unfold forgetLatest
  split <;> rfl

@[simp] theorem forgetLatest_completedBytes :
    (inner.forgetLatest key).completedBytes = inner.completedBytes := by
  unfold forgetLatest
  split <;> rfl

@[simp] theorem forgetLatest_nextGeneration :
    (inner.forgetLatest key).nextGeneration = inner.nextGeneration := by
  unfold forgetLatest
  split <;> rfl

/-- Forgetting a generation leaves every other latest generation. -/
theorem forgetLatest_latest {request : ReplayKey} {latest : LatestGeneration} :
    (inner.forgetLatest key).latest.lookup request = some latest ↔
      inner.latest.lookup request = some latest ∧
        (⟨request, latest.fingerprint, latest.generation⟩ : ReplayEntryKey) ≠ key := by
  unfold forgetLatest
  split
  next hlatest =>
    have hlatest := isLatest_iff.mp hlatest
    rw [Table.lookup_erase_eq]
    by_cases heq : request = key.request
    · subst heq
      rw [if_pos rfl, hlatest]
      simp only [reduceCtorEq, Option.some.injEq, false_iff, not_and, not_not]
      rintro rfl
      rfl
    · rw [if_neg heq]
      exact ⟨fun h => ⟨h, fun hkey => heq (congrArg ReplayEntryKey.request hkey)⟩, And.left⟩
  next hnot =>
    refine ⟨fun h => ⟨h, ?_⟩, And.left⟩
    rintro rfl
    exact hnot (isLatest_iff.mpr h)

theorem isCompleted_iff : inner.isCompleted key = true ↔
    ∃ reply bytes at', inner.entries.lookup key = some (.completed reply bytes at') := by
  unfold isCompleted
  split
  next reply bytes at' h => simp only [true_iff]; exact ⟨reply, bytes, at', h⟩
  next h =>
    simp only [Bool.false_eq_true, false_iff]
    rintro ⟨reply, bytes, at', h'⟩
    exact h reply bytes at' h'

theorem isInFlight_iff : inner.isInFlight key = true ↔
    ∃ waiters, inner.entries.lookup key = some (.inFlight waiters) := by
  unfold isInFlight
  split
  next waiters h => simp only [true_iff]; exact ⟨waiters, h⟩
  next h =>
    simp only [Bool.false_eq_true, false_iff]
    rintro ⟨waiters, h'⟩
    exact h waiters h'

/-- Whether a key is completed depends on its entry alone. -/
theorem isCompleted_congr (h : inner.entries.lookup key = inner'.entries.lookup key') :
    inner.isCompleted key = inner'.isCompleted key' := by
  unfold isCompleted
  rw [h]

theorem isInFlight_congr (h : inner.entries.lookup key = inner'.entries.lookup key') :
    inner.isInFlight key = inner'.isInFlight key' := by
  unfold isInFlight
  rw [h]

theorem isCompleted_of_lookup (h : inner.entries.lookup key = some (.completed reply bytes at')) :
    inner.isCompleted key = true := isCompleted_iff.mpr ⟨reply, bytes, at', h⟩

theorem isInFlight_of_lookup (h : inner.entries.lookup key = some (.inFlight waiters)) :
    inner.isInFlight key = true :=
  isInFlight_iff.mpr ⟨waiters, h⟩

theorem not_isInFlight_of_isCompleted (h : inner.isCompleted key = true) :
    inner.isInFlight key = false := by
  obtain ⟨reply, bytes, at', h⟩ := isCompleted_iff.mp h
  unfold isInFlight
  rw [h]

end CacheInner

/-- The containers and the byte counter agree. -/
structure Consistent (inner : CacheInner) : Prop where
  latest_bound : ∀ request latest, inner.latest.lookup request = some latest →
    (⟨request, latest.fingerprint, latest.generation⟩ : ReplayEntryKey) ∈ inner.entries
  completed_latest : ∀ key, inner.isCompleted key = true →
    inner.latest.lookup key.request = some ⟨key.fingerprint, key.generation⟩
  order_nodup : inner.completedOrder.Nodup
  completed_mem_order : ∀ key, inner.isCompleted key = true → key ∈ inner.completedOrder
  order_not_inFlight : ∀ key ∈ inner.completedOrder, inner.isInFlight key = false
  bytes_eq : inner.completedBytes = inner.entries.weight ReplayState.charged
  wire_le_charged : ∀ key state, inner.entries.lookup key = some state →
    state.wireLength ≤ state.charged
  entry_generation_lt : ∀ key ∈ inner.entries, key.generation < inner.nextGeneration
  order_generation_lt : ∀ key ∈ inner.completedOrder, key.generation < inner.nextGeneration

/-- A new cache is consistent. -/
theorem consistent_new : Consistent CacheInner.new where
  latest_bound := nofun
  completed_latest := nofun
  order_nodup := List.nodup_nil
  completed_mem_order := nofun
  order_not_inFlight := nofun
  bytes_eq := rfl
  wire_le_charged := nofun
  entry_generation_lt := fun key h => absurd h (AList.notMem_empty key)
  order_generation_lt := nofun

namespace Consistent

variable {inner : CacheInner}

/-- A request has at most one completed generation. -/
theorem completed_unique (h : Consistent inner) (hkey : inner.isCompleted key = true)
    (hkey' : inner.isCompleted key' = true) (hrequest : key.request = key'.request) : key = key' :=
  CacheInner.isLatest_unique (CacheInner.isLatest_iff.mpr (h.completed_latest key hkey))
    (CacheInner.isLatest_iff.mpr (h.completed_latest key' hkey')) hrequest

/-- Removing a completed entry, written out. -/
theorem removeCompleted_eq (h : Consistent inner)
    (hkey : inner.entries.lookup key = some (.completed reply bytes at')) : inner.removeCompleted key =
      { inner with
        entries := inner.entries.erase key
        completedBytes := inner.completedBytes - bytes
        latest := inner.latest.erase key.request } := by
  have hlatest := h.completed_latest key (CacheInner.isCompleted_of_lookup hkey)
  simp only [CacheInner.removeCompleted, CacheInner.forgetLatest, CacheInner.isLatest, hkey,
    hlatest, BEq.rfl, Bool.and_self, if_true]

end Consistent

/-! ## Trimming

Expiry, eviction and XID reuse take completed entries away and pop tombstones, and nothing else. -/

/-- `after` is `before` without the completed entries `removed`. -/
structure Trimmed (before : CacheInner) (removed : List ReplayEntryKey) (after : CacheInner) :
    Prop where
  consistent : Consistent after
  completed : ∀ key ∈ removed, before.isCompleted key = true
  entries : ∀ key, after.entries.lookup key =
    if key ∈ removed then none else before.entries.lookup key
  latest : ∀ request, after.latest.lookup request =
    if request ∈ removed.map ReplayEntryKey.request then none else before.latest.lookup request
  nextGeneration : after.nextGeneration = before.nextGeneration
  size : after.entries.size + removed.length = before.entries.size
  bytes : after.completedBytes ≤ before.completedBytes
  order : after.completedOrder.length ≤ before.completedOrder.length

namespace Trimmed

variable {a b c : CacheInner} {removed removed' : List ReplayEntryKey}

theorem refl (h : Consistent a) : Trimmed a [] a where
  consistent := h
  completed := nofun
  entries _ := (if_neg List.not_mem_nil).symm
  latest _ := (if_neg List.not_mem_nil).symm
  nextGeneration := rfl
  size := rfl
  bytes := Nat.le_refl _
  order := Nat.le_refl _

/-- What survives a trim is as it was. -/
theorem lookup_of_notMem (h : Trimmed a removed b) (hkey : key ∉ removed) :
    b.entries.lookup key = a.entries.lookup key := by
  rw [h.entries, if_neg hkey]

theorem notMem_of_isCompleted (h : Trimmed a removed b) (hkey : b.isCompleted key = true) : key ∉ removed := by
  intro hmem
  obtain ⟨reply, bytes, at', hlookup⟩ := CacheInner.isCompleted_iff.mp hkey
  rw [h.entries, if_pos hmem] at hlookup
  cases hlookup

/-- Only completed entries are taken away. -/
theorem notMem_of_isInFlight (h : Trimmed a removed b) (hkey : a.isInFlight key = true) : key ∉ removed := by
  intro hmem
  rw [CacheInner.not_isInFlight_of_isCompleted (h.completed key hmem)] at hkey
  cases hkey

/-- In-flight entries survive with their waiters, and none appears. -/
theorem inFlight_iff (h : Trimmed a removed b) : b.entries.lookup key = some (.inFlight waiters) ↔
      a.entries.lookup key = some (.inFlight waiters) := by
  constructor
  · intro hb
    rw [h.entries] at hb
    split at hb
    next => cases hb
    next => exact hb
  · intro ha
    rw [h.lookup_of_notMem (h.notMem_of_isInFlight (CacheInner.isInFlight_of_lookup ha)), ha]

theorem isInFlight (h : Trimmed a removed b) (key : ReplayEntryKey) :
    b.isInFlight key = a.isInFlight key := by
  rw [Bool.eq_iff_iff, CacheInner.isInFlight_iff, CacheInner.isInFlight_iff]
  exact exists_congr fun waiters => h.inFlight_iff

/-- A latest generation that survives stays the latest. -/
theorem isLatest_of_notMem (h : Trimmed a removed b) (ha : Consistent a) (hlatest : a.isLatest key = true)
    (hkey : key ∉ removed) : b.isLatest key = true := by
  rw [CacheInner.isLatest_iff, h.latest, if_neg, CacheInner.isLatest_iff.mp hlatest]
  intro hmem
  obtain ⟨other, hother, hrequest⟩ := List.mem_map.mp hmem
  have hotherLatest := CacheInner.isLatest_iff.mpr
    (ha.completed_latest other (h.completed other hother))
  exact hkey (CacheInner.isLatest_unique hotherLatest hlatest hrequest ▸ hother)

/-- Two rounds of removals are one. -/
theorem trans (h : Trimmed a removed b) (h' : Trimmed b removed' c) :
    Trimmed a (removed ++ removed') c where
  consistent := h'.consistent
  completed key hkey := by
    rcases List.mem_append.mp hkey with hkey | hkey
    · exact h.completed key hkey
    · have hb := h'.completed key hkey
      rwa [← CacheInner.isCompleted_congr (h.lookup_of_notMem (h.notMem_of_isCompleted hb))]
  entries key := by
    rw [h'.entries, h.entries]
    by_cases hkey : key ∈ removed <;> by_cases hkey' : key ∈ removed' <;>
      simp only [List.mem_append, hkey, hkey', if_true, if_false, or_true, or_false, or_self]
  latest request := by
    rw [h'.latest, h.latest]
    simp only [List.map_append, List.mem_append]
    by_cases hr : request ∈ removed.map ReplayEntryKey.request <;>
      by_cases hr' : request ∈ removed'.map ReplayEntryKey.request <;>
      simp only [hr, hr', if_true, if_false, or_true, or_false, or_self]
  nextGeneration := h'.nextGeneration.trans h.nextGeneration
  size := by
    have := h.size
    have := h'.size
    rw [List.length_append]
    omega
  bytes := Nat.le_trans h'.bytes h.bytes
  order := Nat.le_trans h'.order h.order

/-- Removing a completed entry leaves a tombstone in the order queue. -/
theorem removeCompleted (h : Consistent a) (hkey : a.isCompleted key = true) :
    Trimmed a [key] (a.removeCompleted key) := by
  obtain ⟨reply, bytes, at', hlookup⟩ := CacheInner.isCompleted_iff.mp hkey
  have hother : ∀ key', (a.removeCompleted key).isCompleted key' = true →
      key' ≠ key ∧ a.isCompleted key' = true := by
    intro key' hkey'
    obtain ⟨reply', bytes', at'', hlookup'⟩ := CacheInner.isCompleted_iff.mp hkey'
    rw [h.removeCompleted_eq hlookup, Table.lookup_erase_eq] at hlookup'
    split at hlookup'
    next => cases hlookup'
    next hne => exact ⟨hne, CacheInner.isCompleted_of_lookup hlookup'⟩
  rw [h.removeCompleted_eq hlookup] at hother ⊢
  refine
    { consistent := ?_, completed := ?_, entries := ?_, latest := ?_, nextGeneration := rfl,
      size := Table.size_erase hlookup, bytes := Nat.sub_le _ _, order := Nat.le_refl _ }
  · refine
      { latest_bound := ?_, completed_latest := ?_, order_nodup := h.order_nodup,
        completed_mem_order := fun key' hkey' => h.completed_mem_order key' (hother key' hkey').2,
        order_not_inFlight := ?_, bytes_eq := ?_, wire_le_charged := ?_,
        entry_generation_lt := fun key' hkey' =>
          h.entry_generation_lt key' (AList.mem_erase.mp hkey').2,
        order_generation_lt := h.order_generation_lt }
    · intro request latest hlatest
      rw [Table.lookup_erase_eq] at hlatest
      split at hlatest
      next => cases hlatest
      next hne =>
        exact AList.mem_erase.mpr
          ⟨fun heq => hne (congrArg ReplayEntryKey.request heq), h.latest_bound request latest hlatest⟩
    · intro key' hkey'
      obtain ⟨hne, hcompleted⟩ := hother key' hkey'
      rw [Table.lookup_erase_eq,
        if_neg fun hrequest => hne (h.completed_unique hcompleted hkey hrequest)]
      exact h.completed_latest key' hcompleted
    · intro key' hmem
      rw [Bool.eq_false_iff]
      intro hflight
      obtain ⟨waiters, hwaiters⟩ := CacheInner.isInFlight_iff.mp hflight
      rw [Table.lookup_erase_eq] at hwaiters
      split at hwaiters
      next => cases hwaiters
      next =>
        have := h.order_not_inFlight key' hmem
        rw [CacheInner.isInFlight_of_lookup hwaiters] at this
        cases this
    · have := Table.weight_erase ReplayState.charged hlookup
      rw [h.bytes_eq, ← this]
      exact Nat.add_sub_cancel_left _ _
    · intro key' state hstate
      rw [Table.lookup_erase_eq] at hstate
      split at hstate
      next => cases hstate
      next => exact h.wire_le_charged key' state hstate
  · intro key' hkey'
    rw [List.mem_singleton.mp hkey']
    exact hkey
  · intro key'
    rw [Table.lookup_erase_eq]
    simp only [List.mem_singleton]
  · intro request
    rw [Table.lookup_erase_eq]
    simp only [List.map_cons, List.map_nil, List.mem_singleton]

/-- Popping a tombstone. -/
theorem pop (h : Consistent a) {front : ReplayEntryKey} (horder : a.completedOrder = front :: rest)
    (hfront : a.isCompleted front = false) : Trimmed a [] { a with completedOrder := rest } := by
  have hsub : ∀ key ∈ rest, key ∈ a.completedOrder := fun key hkey => by
    rw [horder]
    exact List.mem_cons_of_mem _ hkey
  refine { refl h with consistent := ?_, order := ?_ }
  · refine
      { h with
        order_nodup := ?_
        completed_mem_order := ?_
        order_not_inFlight := fun key hkey => h.order_not_inFlight key (hsub key hkey)
        order_generation_lt := fun key hkey => h.order_generation_lt key (hsub key hkey) }
    · have := h.order_nodup
      rw [horder] at this
      exact this.of_cons
    · intro key hkey
      have hmem := h.completed_mem_order key hkey
      rw [horder] at hmem
      rcases List.mem_cons.mp hmem with rfl | hmem
      · exact absurd hkey (by rw [Bool.not_eq_true]; exact hfront)
      · exact hmem
  · simp only [horder, List.length_cons]
    omega

end Trimmed

/-- A completed entry older than the time to live. -/
def CacheInner.Expired (inner : CacheInner) (now ttl : Nat) (key : ReplayEntryKey) : Prop :=
  ∃ reply bytes at', inner.entries.lookup key = some (.completed reply bytes at') ∧ ttl ≤ now - at'

namespace Consistent

variable {inner : CacheInner}

theorem removeCompleted_withOrder (inner : CacheInner) (key : ReplayEntryKey)
    (order : List ReplayEntryKey) : { inner with completedOrder := order }.removeCompleted key =
      { inner.removeCompleted key with completedOrder := order } := by
  unfold CacheInner.removeCompleted CacheInner.forgetLatest CacheInner.isLatest
  dsimp only
  split <;> split <;> rfl

/-- Popping a completed entry and removing it. -/
theorem popCompleted (h : Consistent inner) {oldest : ReplayEntryKey} (horder : inner.completedOrder = oldest :: rest)
    (hcompleted : inner.isCompleted oldest = true) :
    Trimmed inner [oldest] ({ inner with completedOrder := rest }.removeCompleted oldest) := by
  have hremove := Trimmed.removeCompleted h hcompleted
  have horder' : (inner.removeCompleted oldest).completedOrder = oldest :: rest := by
    obtain ⟨reply, bytes, at', hlookup⟩ := CacheInner.isCompleted_iff.mp hcompleted
    rw [h.removeCompleted_eq hlookup, horder]
  have htombstone : (inner.removeCompleted oldest).isCompleted oldest = false := by
    rw [Bool.eq_false_iff]
    exact fun hkey => hremove.notMem_of_isCompleted hkey (List.mem_singleton_self oldest)
  rw [removeCompleted_withOrder]
  exact hremove.trans (Trimmed.pop hremove.consistent horder' htombstone)

/-- Expiry removes replies that have expired, and changes nothing else. -/
theorem expireFrom_trimmed (now ttl : Nat) (order : List ReplayEntryKey) (h : Consistent inner)
    (horder : inner.completedOrder = order) :
    ∃ removed, Trimmed inner removed (CacheInner.expireFrom now ttl order inner) ∧
      ∀ key ∈ removed, inner.Expired now ttl key := by
  induction order generalizing inner with
  | nil =>
    unfold CacheInner.expireFrom
    rw [← horder]
    exact ⟨[], Trimmed.refl h, nofun⟩
  | cons oldest _ ih =>
    unfold CacheInner.expireFrom
    split
    next reply bytes at' hlookup =>
      split
      next =>
        rw [← horder]
        exact ⟨[], Trimmed.refl h, nofun⟩
      next hexpired =>
        have hpop := h.popCompleted horder (CacheInner.isCompleted_of_lookup hlookup)
        obtain ⟨removed, htrim, hremoved⟩ := ih hpop.consistent (by rw [removeCompleted_withOrder])
        refine ⟨[oldest] ++ removed, hpop.trans htrim, ?_⟩
        intro key hkey
        rcases List.mem_append.mp hkey with hkey | hkey
        · rw [List.mem_singleton.mp hkey]
          exact ⟨reply, bytes, at', hlookup, Nat.le_of_not_lt hexpired⟩
        · obtain ⟨reply', bytes', at'', hlookup', hold⟩ := hremoved key hkey
          rw [hpop.lookup_of_notMem (hpop.notMem_of_isCompleted (htrim.completed key hkey))] at hlookup'
          exact ⟨reply', bytes', at'', hlookup', hold⟩
    all_goals
      next hlookup =>
        have hpop := Trimmed.pop h horder (by unfold CacheInner.isCompleted; rw [hlookup])
        obtain ⟨removed, htrim, hremoved⟩ := ih hpop.consistent rfl
        exact ⟨removed, hpop.trans htrim, hremoved⟩

/-- Expiry takes away expired entries only. -/
theorem expire_trimmed (now ttl : Nat) (h : Consistent inner) :
    ∃ removed, Trimmed inner removed (inner.expire now ttl) ∧
      ∀ key ∈ removed, inner.Expired now ttl key :=
  h.expireFrom_trimmed now ttl inner.completedOrder rfl

/-- XID reuse takes away the completed generation of that request only. -/
theorem removeCompletedForRequest_trimmed (request : ReplayKey) (h : Consistent inner) :
    ∃ removed, Trimmed inner removed (inner.removeCompletedForRequest request) ∧
      (∀ key ∈ removed, key.request = request) ∧
      ∀ key, key.request = request →
        (inner.removeCompletedForRequest request).isCompleted key = false := by
  unfold CacheInner.removeCompletedForRequest
  split
  next hnone =>
    refine ⟨[], Trimmed.refl h, nofun, ?_⟩
    intro key hkey
    rw [Bool.eq_false_iff]
    intro hcompleted
    have := h.completed_latest key hcompleted
    rw [hkey, hnone] at this
    cases this
  next latest hlatest =>
    have hkeyOf : ∀ key, key.request = request → inner.isCompleted key = true →
        key = ⟨request, latest.fingerprint, latest.generation⟩ := by
      intro key hkey hcompleted
      have := h.completed_latest key hcompleted
      rw [hkey, hlatest, Option.some.injEq] at this
      rw [this, ← hkey]
    dsimp only
    split
    next hcompleted =>
      have htrim := Trimmed.removeCompleted h hcompleted
      refine ⟨_, htrim, ?_, ?_⟩
      · intro key hkey
        rw [List.mem_singleton.mp hkey]
      · intro key hkey
        rw [Bool.eq_false_iff]
        intro hkey'
        have hnotMem := htrim.notMem_of_isCompleted hkey'
        rw [CacheInner.isCompleted_congr (htrim.lookup_of_notMem hnotMem)] at hkey'
        exact hnotMem (List.mem_singleton.mpr (hkeyOf key hkey hkey'))
    next hnot =>
      refine ⟨[], Trimmed.refl h, nofun, ?_⟩
      intro key hkey
      rw [Bool.eq_false_iff]
      intro hcompleted
      rw [hkeyOf key hkey hcompleted] at hcompleted
      exact hnot hcompleted

/-- Eviction takes the oldest completed entry away, or finds that there is none. -/
theorem evictFrom_trimmed (order : List ReplayEntryKey) (h : Consistent inner)
    (horder : inner.completedOrder = order) :
    match CacheInner.evictFrom order inner with
    | (true, after) => ∃ key, Trimmed inner [key] after ∧
        after.completedOrder.length < inner.completedOrder.length
    | (false, after) => Trimmed inner [] after ∧ after.completedOrder = [] := by
  induction order generalizing inner with
  | nil =>
    have hsame : { inner with completedOrder := [] } = inner := by rw [← horder]
    unfold CacheInner.evictFrom
    rw [hsame]
    exact ⟨Trimmed.refl h, horder⟩
  | cons oldest _ ih =>
    unfold CacheInner.evictFrom
    split
    next heq =>
      split at heq
      next hcompleted =>
        cases heq
        refine ⟨oldest, h.popCompleted horder hcompleted, ?_⟩
        rw [removeCompleted_withOrder, horder]
        exact Nat.lt_succ_self _
      next hcompleted =>
        have hpop := Trimmed.pop h horder (Bool.eq_false_iff.mpr hcompleted)
        have := ih hpop.consistent rfl
        rw [heq] at this
        obtain ⟨key, htrim, hlength⟩ := this
        exact ⟨key, hpop.trans htrim, Nat.lt_of_lt_of_le hlength hpop.order⟩
    next heq =>
      split at heq
      next => cases heq
      next hcompleted =>
        have hpop := Trimmed.pop h horder (Bool.eq_false_iff.mpr hcompleted)
        have := ih hpop.consistent rfl
        rw [heq] at this
        exact ⟨hpop.trans this.1, this.2⟩

/-- An eviction removes one reply, or there is none left. -/
theorem evictOldestCompleted_trimmed (h : Consistent inner) :
    match inner.evictOldestCompleted with
    | (true, after) => ∃ key, Trimmed inner [key] after ∧
        after.completedOrder.length < inner.completedOrder.length
    | (false, after) => Trimmed inner [] after ∧ after.completedOrder = [] :=
  h.evictFrom_trimmed inner.completedOrder rfl

/-- With an empty order queue nothing is retained. -/
theorem completedBytes_eq_zero (h : Consistent inner) (horder : inner.completedOrder = []) :
    inner.completedBytes = 0 := by
  rw [h.bytes_eq]
  apply Table.weight_eq_zero
  rintro ⟨key, state⟩ hentry
  cases state with
  | inFlight => rfl
  | completed =>
    have hlookup := Table.mem_entries_iff.mp hentry
    have hmem := h.completed_mem_order key (CacheInner.isCompleted_of_lookup hlookup)
    rw [horder] at hmem
    cases hmem

/-- The eviction loop of `complete` ends with room for a reply that is within the budget by itself,
and does nothing when there was room. -/
theorem makeRoom_trimmed {budget : Nat} (hbytes : bytes ≤ budget) (rounds : Nat) (h : Consistent inner)
    (hrounds : inner.completedOrder.length < rounds) :
    ∃ removed, Trimmed inner removed (inner.makeRoom budget bytes rounds) ∧
      saturatingAdd (inner.makeRoom budget bytes rounds).completedBytes bytes ≤ budget ∧
      (saturatingAdd inner.completedBytes bytes ≤ budget → removed = []) := by
  induction rounds generalizing inner with
  | zero => exact absurd hrounds (Nat.not_lt_zero _)
  | succ _ ih =>
    unfold CacheInner.makeRoom
    split
    next hover =>
      have hevict := h.evictOldestCompleted_trimmed
      split
      next after heq =>
        rw [heq] at hevict
        obtain ⟨key, htrim, hlength⟩ := hevict
        obtain ⟨removed, htrim', hroom, _⟩ := ih htrim.consistent (by omega)
        exact ⟨_, htrim.trans htrim', hroom, fun hle => absurd hle (Nat.not_le_of_gt hover)⟩
      next after heq =>
        rw [heq] at hevict
        refine ⟨[], hevict.1, ?_, fun _ => rfl⟩
        rw [hevict.1.consistent.completedBytes_eq_zero hevict.2]
        exact Nat.le_trans (saturatingAdd_le 0 bytes) (by omega)
    next hroom => exact ⟨[], Trimmed.refl h, Nat.le_of_not_gt hroom, fun _ => rfl⟩

end Consistent

end NfsEmbed.Replay
