import NfsEmbed.Lib.Fronts
import NfsEmbed.Laws.Replay.Invariant

/-!
# The completion order

Expiry and eviction work at the front of the order queue only. What they leave there is a rear part
of it, and no completed entry is ever missing from the queue, so the live members, the completed
entries in the order they were completed, lose front parts and gain at the end. Their instants are
then sorted, which makes looking at the front enough.
-/

namespace NfsEmbed.Replay

open Lib Rpc

namespace CacheInner

/-- The completed entries, oldest first. -/
def live (inner : CacheInner) : List ReplayEntryKey := inner.completedOrder.filter inner.isCompleted

/-- When a completed entry was completed. -/
def completedAt (inner : CacheInner) (key : ReplayEntryKey) : Option Nat :=
  match inner.entries.lookup key with
  | some (.completed _ _ completedAt) => some completedAt
  | _ => none

/-- What an entry is charged. -/
def chargedAt (inner : CacheInner) (key : ReplayEntryKey) : Nat :=
  match inner.entries.lookup key with
  | some state => state.charged
  | none => 0

variable {inner : CacheInner} {key : ReplayEntryKey}

theorem completedAt_eq_some {at' : Nat} : inner.completedAt key = some at' ↔
    ∃ reply bytes, inner.entries.lookup key = some (.completed reply bytes at') := by
  unfold completedAt
  split
  next reply bytes at'' h => simp [h]
  next h =>
    simp only [reduceCtorEq, false_iff]
    rintro ⟨reply, bytes, h'⟩
    exact h reply bytes at' h'

/-! ## Popping -/

/-- Expiry drops a front part of the order. -/
theorem expireFrom_suffix (now ttl : Nat) (order : List ReplayEntryKey) (inner : CacheInner) :
    (expireFrom now ttl order inner).completedOrder <:+ order := by
  induction order generalizing inner with
  | nil => exact List.suffix_refl _
  | cons _ _ ih =>
    unfold expireFrom
    split
    · split
      · exact List.suffix_refl _
      · exact (ih _).trans (List.suffix_cons _ _)
    all_goals exact (ih _).trans (List.suffix_cons _ _)

theorem expire_suffix (now ttl : Nat) (inner : CacheInner) :
    (inner.expire now ttl).completedOrder <:+ inner.completedOrder :=
  expireFrom_suffix now ttl inner.completedOrder inner

/-- Expiry stops at a completed entry that is not expired, or when the queue is empty. -/
theorem expireFrom_front (now ttl : Nat) (order : List ReplayEntryKey) (inner : CacheInner) :
    ∀ oldest ∈ (expireFrom now ttl order inner).completedOrder.head?,
      ∃ at', (expireFrom now ttl order inner).completedAt oldest = some at' ∧ now - at' < ttl := by
  induction order generalizing inner with
  | nil =>
    intro oldest holdest
    cases holdest
  | cons _ _ ih =>
    unfold expireFrom
    split
    next reply bytes at' hlookup =>
      split
      next hyoung =>
        intro oldest holdest
        cases holdest
        exact ⟨at', completedAt_eq_some.mpr ⟨reply, bytes, hlookup⟩, hyoung⟩
      next => exact ih _
    all_goals exact ih _

theorem evictFrom_suffix (order : List ReplayEntryKey) (inner : CacheInner) :
    (evictFrom order inner).2.completedOrder <:+ order := by
  induction order generalizing inner with
  | nil => exact List.suffix_refl _
  | cons _ _ ih =>
    unfold evictFrom
    split
    · rw [Consistent.removeCompleted_withOrder]
      exact List.suffix_cons _ _
    · exact (ih _).trans (List.suffix_cons _ _)

theorem evictOldestCompleted_suffix (inner : CacheInner) :
    inner.evictOldestCompleted.2.completedOrder <:+ inner.completedOrder :=
  evictFrom_suffix inner.completedOrder inner

/-- So does making room. -/
theorem makeRoom_suffix (budget bytes rounds : Nat) (inner : CacheInner) :
    (inner.makeRoom budget bytes rounds).completedOrder <:+ inner.completedOrder := by
  induction rounds generalizing inner with
  | zero => exact List.suffix_refl _
  | succ _ ih =>
    have hevict := inner.evictOldestCompleted_suffix
    unfold makeRoom
    split
    · split
      next after heq =>
        rw [heq] at hevict
        exact (ih after).trans hevict
      next after heq =>
        rw [heq] at hevict
        exact hevict
    · exact List.suffix_refl _

theorem removeCompleted_completedOrder (inner : CacheInner) (key : ReplayEntryKey) :
    (inner.removeCompleted key).completedOrder = inner.completedOrder := by
  unfold removeCompleted
  exact forgetLatest_completedOrder

theorem removeCompletedForRequest_completedOrder (inner : CacheInner) (request : ReplayKey) :
    (inner.removeCompletedForRequest request).completedOrder = inner.completedOrder := by
  unfold removeCompletedForRequest
  split
  · rfl
  · dsimp only
    split
    · exact inner.removeCompleted_completedOrder _
    · rfl

/-- Compaction drops tombstones and keeps the order. -/
theorem compactCompletionOrder_sublist (inner : CacheInner) :
    inner.compactCompletionOrder.completedOrder.Sublist inner.completedOrder := by
  unfold compactCompletionOrder
  dsimp only
  split
  · exact List.filter_sublist
  · exact List.Sublist.refl _

end CacheInner

section Begin

variable (cache : ReplayCache) (isClosed : Channel → Bool) (now : Nat) (channel : Channel)
  (key : ReplayKey) (fingerprint : RequestFingerprint) (inner : CacheInner)

theorem grant_suffix : (cache.grant key fingerprint inner).2.completedOrder <:+ inner.completedOrder := by
  have hremove := inner.removeCompletedForRequest_completedOrder key
  have hevict := (inner.removeCompletedForRequest key).evictOldestCompleted_suffix
  rw [hremove] at hevict
  unfold ReplayCache.grant
  dsimp only
  split
  · split
    · exact hevict
    · exact hevict
  · rw [if_pos rfl]
    exact hremove ▸ List.suffix_refl _

theorem begin_suffix :
    (cache.begin isClosed now channel key fingerprint inner).2.completedOrder <:+ inner.completedOrder := by
  have hexpire := inner.expire_suffix now cache.ttl
  have hgrant := (grant_suffix cache key fingerprint (inner.expire now cache.ttl)).trans hexpire
  unfold ReplayCache.begin
  dsimp only
  split
  · split
    · split
      · exact hexpire
      · exact hexpire
      · exact hgrant
    · exact hgrant
  · exact hgrant

end Begin

/-! ## Live members -/

namespace Trimmed

variable {a b : CacheInner} {removed : List ReplayEntryKey}

theorem isCompleted_iff (h : Trimmed a removed b) {key : ReplayEntryKey} :
    b.isCompleted key = true ↔ a.isCompleted key = true ∧ key ∉ removed := by
  constructor
  · intro hkey
    have hnotMem := h.notMem_of_isCompleted hkey
    rw [CacheInner.isCompleted_congr (h.lookup_of_notMem hnotMem)] at hkey
    exact ⟨hkey, hnotMem⟩
  · rintro ⟨hkey, hnotMem⟩
    rwa [CacheInner.isCompleted_congr (h.lookup_of_notMem hnotMem)]

end Trimmed

namespace Consistent

variable {inner after : CacheInner}

/-- What was popped is not completed, so the live members can be read off the longer queue. -/
theorem live_of_suffix (h : Consistent after) {order : List ReplayEntryKey} (hnodup : order.Nodup)
    (hsuffix : after.completedOrder <:+ order) : after.live = order.filter after.isCompleted := by
  obtain ⟨popped, rfl⟩ := hsuffix
  have hpopped : popped.filter after.isCompleted = [] := by
    rw [List.filter_eq_nil_iff]
    intro key hkey hcompleted
    exact (List.nodup_append.mp hnodup).2.2 key hkey key (h.completed_mem_order key hcompleted) rfl
  rw [List.filter_append, hpopped, List.nil_append]
  rfl

/-- The byte counter covers every single entry. -/
theorem chargedAt_le (h : Consistent inner) (key : ReplayEntryKey) :
    inner.chargedAt key ≤ inner.completedBytes := by
  unfold CacheInner.chargedAt
  split
  next state hlookup =>
    rw [h.bytes_eq, ← Table.weight_erase ReplayState.charged hlookup]
    exact Nat.le_add_right _ _
  next => exact Nat.zero_le _

/-- Eviction takes the first live member away with its charge, or there is none. -/
theorem evictFrom_live (order : List ReplayEntryKey) (h : Consistent inner)
    (horder : inner.completedOrder = order) :
    match CacheInner.evictFrom order inner with
    | (true, after) => ∃ key, Trimmed inner [key] after ∧ inner.live = key :: after.live ∧
        after.completedBytes + inner.chargedAt key = inner.completedBytes ∧
        after.completedOrder.length < inner.completedOrder.length
    | (false, after) => inner.live = [] ∧ after = { inner with completedOrder := [] } := by
  induction order generalizing inner with
  | nil =>
    unfold CacheInner.evictFrom CacheInner.live
    rw [horder]
    exact ⟨rfl, rfl⟩
  | cons oldest rest ih =>
    unfold CacheInner.evictFrom
    by_cases hcompleted : inner.isCompleted oldest = true
    · rw [if_pos hcompleted]
      have htrim := h.popCompleted horder hcompleted
      have hnodup := h.order_nodup
      rw [horder, List.nodup_cons] at hnodup
      obtain ⟨reply, bytes, at', hlookup⟩ := CacheInner.isCompleted_iff.mp hcompleted
      have hcharged := h.chargedAt_le oldest
      refine ⟨oldest, htrim, ?_, ?_, ?_⟩
      · have hsuffix : ({ inner with completedOrder := rest }.removeCompleted oldest).completedOrder <:+
            rest := by
          rw [removeCompleted_withOrder]
        rw [htrim.consistent.live_of_suffix hnodup.2 hsuffix]
        unfold CacheInner.live
        rw [horder, List.filter_cons_of_pos hcompleted]
        refine congrArg (oldest :: ·) (List.filter_congr fun key hkey => ?_)
        rw [Bool.eq_iff_iff, htrim.isCompleted_iff, List.mem_singleton]
        refine ⟨fun hkey' => ⟨hkey', ?_⟩, And.left⟩
        rintro rfl
        exact hnodup.1 hkey
      · rw [removeCompleted_withOrder, h.removeCompleted_eq hlookup]
        unfold CacheInner.chargedAt at hcharged ⊢
        rw [hlookup] at hcharged ⊢
        exact Nat.sub_add_cancel hcharged
      · rw [removeCompleted_withOrder, horder]
        exact Nat.lt_succ_self _
    · rw [if_neg hcompleted]
      have hpop := Trimmed.pop h horder (Bool.eq_false_iff.mpr hcompleted)
      have hlive : { inner with completedOrder := rest }.live = inner.live := by
        unfold CacheInner.live
        rw [horder, List.filter_cons_of_neg hcompleted]
        rfl
      have hrest := ih hpop.consistent rfl
      rw [hlive] at hrest
      split at hrest
      next after heq =>
        obtain ⟨key, htrim, hfirst, hbytes, hlength⟩ := hrest
        exact ⟨key, hpop.trans htrim, hfirst, hbytes, Nat.lt_of_lt_of_le hlength hpop.order⟩
      next => exact hrest

/-- What is evicted is the oldest reply that is still there. -/
theorem evictOldestCompleted_live (h : Consistent inner) :
    match inner.evictOldestCompleted with
    | (true, after) => ∃ key, Trimmed inner [key] after ∧ inner.live = key :: after.live ∧
        after.completedBytes + inner.chargedAt key = inner.completedBytes ∧
        after.completedOrder.length < inner.completedOrder.length
    | (false, after) => inner.live = [] ∧ after = { inner with completedOrder := [] } :=
  h.evictFrom_live inner.completedOrder rfl

/-- Without live members nothing is retained. -/
theorem completedBytes_of_live_nil (h : Consistent inner) (hlive : inner.live = []) :
    inner.completedBytes = 0 := by
  rw [h.bytes_eq]
  apply Table.weight_eq_zero
  intro entry hentry
  obtain ⟨key, state⟩ := entry
  cases state with
  | inFlight => rfl
  | completed =>
    have hcompleted := CacheInner.isCompleted_of_lookup (Table.mem_entries_iff.mp hentry)
    have hmem : key ∈ inner.live :=
      List.mem_filter.mpr ⟨h.completed_mem_order key hcompleted, hcompleted⟩
    rw [hlive] at hmem
    cases hmem

end Consistent

/-! ## Making room -/

/-- Once the entries in front are gone, there is room for `bytes` more. -/
def CacheInner.RoomWithout (inner : CacheInner) (budget bytes : Nat) (front : List ReplayEntryKey) : Prop :=
  inner.completedBytes + bytes ≤ budget + (front.map inner.chargedAt).sum

namespace Consistent

variable {inner : CacheInner}

/-- The eviction loop of `complete` takes the shortest front part of the live members that makes
room. -/
theorem makeRoom_shortest {budget bytes : Nat} (hbytes : bytes ≤ budget)
    (hmemory : budget < usizeMax ∨ inner.completedBytes + bytes ≤ usizeMax) (rounds : Nat)
    (h : Consistent inner) (hrounds : inner.completedOrder.length < rounds) :
    ∃ removed, Trimmed inner removed (inner.makeRoom budget bytes rounds) ∧
      ShortestFront (inner.RoomWithout budget bytes) inner.live removed := by
  induction rounds generalizing inner with
  | zero => exact absurd hrounds (Nat.not_lt_zero _)
  | succ _ ih =>
    have hroom : saturatingAdd inner.completedBytes bytes > budget ↔
        ¬ inner.RoomWithout budget bytes [] := by
      unfold saturatingAdd CacheInner.RoomWithout
      simp only [List.map_nil, List.sum_nil]
      omega
    unfold CacheInner.makeRoom
    split
    next hover =>
      have hevict := h.evictOldestCompleted_live
      split
      next after heq =>
        rw [heq] at hevict
        obtain ⟨key, htrim, hlive, hcharge, hlength⟩ := hevict
        obtain ⟨removed, htrim', hshortest⟩ := ih (by omega) htrim.consistent (by omega)
        refine ⟨key :: removed, htrim.trans htrim', ?_⟩
        rw [hlive]
        apply ShortestFront.cons (hroom.mp hover)
        refine hshortest.congr fun front hfront => ?_
        -- a live member that is left is charged what it was
        have hsame : front.map after.chargedAt = front.map inner.chargedAt := by
          refine List.map_congr_left fun other hother => ?_
          have hcompleted := (List.mem_filter.mp (hfront.subset hother)).2
          unfold CacheInner.chargedAt
          rw [htrim.lookup_of_notMem (htrim.notMem_of_isCompleted hcompleted)]
        unfold CacheInner.RoomWithout
        rw [hsame, List.map_cons, List.sum_cons]
        omega
      next after heq =>
        rw [heq] at hevict
        have hzero := h.completedBytes_of_live_nil hevict.1
        have := saturatingAdd_le inner.completedBytes bytes
        omega
    next hover =>
      refine ⟨[], Trimmed.refl h, ShortestFront.nil ?_⟩
      rwa [hroom, not_not] at hover

end Consistent

/-! ## Instants -/

/-- The live members of the order queue are sorted by the instant of their completion. -/
def CacheInner.Sorted (inner : CacheInner) : Prop :=
  (inner.completedOrder.filterMap inner.completedAt).Pairwise (· ≤ ·)

namespace CacheInner.Sorted

variable {inner after : CacheInner}

/-- Popping and removing keep the order. -/
theorem shrink (h : inner.Sorted) (horder : after.completedOrder.Sublist inner.completedOrder)
    (hcompleted : ∀ key at', after.completedAt key = some at' → inner.completedAt key = some at') :
    after.Sorted := by
  unfold CacheInner.Sorted at h ⊢
  rw [List.pairwise_filterMap] at h ⊢
  refine (h.sublist horder).imp ?_
  intro key key' hle at' hat at'' hat'
  exact hle at' (hcompleted key at' hat) at'' (hcompleted key' at'' hat')

/-- A completion at an instant no earlier than all others goes to the end. -/
theorem pushCompleted (h : inner.Sorted) {key : ReplayEntryKey} (hkey : key ∉ inner.completedOrder)
    {now : Nat} (hnow : ∀ key at', inner.completedAt key = some at' → at' ≤ now) (stored : EncodedReply)
    (bytes : Nat) : (inner.pushCompleted key stored bytes now).Sorted := by
  have hother : ∀ other ∈ inner.completedOrder,
      (inner.pushCompleted key stored bytes now).completedAt other = inner.completedAt other := by
    intro other hmem
    have hne : other ≠ key := fun heq => hkey (heq ▸ hmem)
    unfold CacheInner.completedAt CacheInner.pushCompleted
    rw [AList.lookup_insert_ne hne]
  have hself : (inner.pushCompleted key stored bytes now).completedAt key = some now :=
    CacheInner.completedAt_eq_some.mpr ⟨stored, bytes, AList.lookup_insert _⟩
  unfold CacheInner.Sorted at h ⊢
  change List.Pairwise _ (List.filterMap _ (inner.completedOrder ++ [key]))
  rw [List.filterMap_append, List.filterMap_congr hother, List.pairwise_append]
  refine ⟨h, ?_, ?_⟩
  · simp [hself]
  · intro at' hat at'' hat'
    obtain ⟨other, _, hother⟩ := List.mem_filterMap.mp hat
    rw [List.mem_filterMap] at hat'
    simp only [List.mem_singleton, exists_eq_left, hself, Option.some.injEq] at hat'
    rw [← hat']
    exact hnow other at' hother

/-- Looking at the front is enough: expiry leaves exactly the completed entries that are younger than
the time to live. -/
theorem expire_completed_iff (h : inner.Sorted) (hc : Consistent inner) (now ttl : Nat)
    {key : ReplayEntryKey} {reply : EncodedReply} {bytes at' : Nat} :
    (inner.expire now ttl).entries.lookup key = some (.completed reply bytes at') ↔
      inner.entries.lookup key = some (.completed reply bytes at') ∧ now - at' < ttl := by
  obtain ⟨removed, htrim, hremoved⟩ := hc.expire_trimmed now ttl
  constructor
  · intro hlookup
    refine ⟨htrim.completed_of_after hlookup, ?_⟩
    have hsorted : (inner.expire now ttl).Sorted := by
      refine h.shrink (inner.expire_suffix now ttl).sublist ?_
      intro key at' hat
      obtain ⟨reply, bytes, hlookup⟩ := CacheInner.completedAt_eq_some.mp hat
      exact CacheInner.completedAt_eq_some.mpr ⟨reply, bytes, htrim.completed_of_after hlookup⟩
    have hmem := htrim.consistent.completed_mem_order key (CacheInner.isCompleted_of_lookup hlookup)
    have hat := CacheInner.completedAt_eq_some.mpr ⟨reply, bytes, hlookup⟩
    have hfront := CacheInner.expireFrom_front now ttl inner.completedOrder inner
    change ∀ oldest ∈ (inner.expire now ttl).completedOrder.head?, _ at hfront
    unfold CacheInner.Sorted at hsorted
    rw [List.pairwise_filterMap] at hsorted
    cases horder : (inner.expire now ttl).completedOrder with
    | nil =>
      rw [horder] at hmem
      cases hmem
    | cons oldest =>
      rw [horder] at hmem hfront hsorted
      obtain ⟨first, hfirst, hyoung⟩ := hfront oldest rfl
      rcases List.mem_cons.mp hmem with rfl | hrest
      · rw [show first = at' from Option.some.inj (hfirst.symm.trans hat)] at hyoung
        exact hyoung
      · have hle := (List.pairwise_cons.mp hsorted).1 key hrest first hfirst at' hat
        omega
  · rintro ⟨hlookup, hyoung⟩
    rw [htrim.lookup_of_notMem, hlookup]
    intro hmem
    obtain ⟨reply', bytes', at'', hlookup', hold⟩ := hremoved key hmem
    rw [hlookup] at hlookup'
    cases hlookup'
    omega

end CacheInner.Sorted

end NfsEmbed.Replay
