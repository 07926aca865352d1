import NfsEmbed.Laws.Replay.AtMostOnce
import NfsEmbed.Laws.Replay.Steps

/-!
# Expiry and refusal over runs

A reply is replayed only while it is younger than the time to live. A request is refused exactly when
every slot is taken by an execution, and the refusal costs nobody anything.

The laws are `expiry_exact` and `capacity_refusal_exact`.
-/

namespace NfsEmbed.Replay

open Lib Rpc

/-! ## Expired entries -/

/-- `after` is `before` without the entries expired at `now`. -/
structure WithoutExpired (now ttl : Nat) (before after : CacheInner) : Prop where
  entries : ∀ key state, after.entries.lookup key = some state ↔
    before.entries.lookup key = some state ∧ ¬ before.Expired now ttl key
  latest : ∀ request latest, after.latest.lookup request = some latest ↔
    before.latest.lookup request = some latest ∧
      ¬ before.Expired now ttl ⟨request, latest.fingerprint, latest.generation⟩
  completedBytes : after.completedBytes = after.entries.weight ReplayState.charged

section Expiry

variable {inner : CacheInner}

theorem CacheInner.expired_iff {now ttl : Nat} {key : ReplayEntryKey} {reply : EncodedReply}
    {bytes at' : Nat} (h : inner.entries.lookup key = some (.completed reply bytes at')) :
    inner.Expired now ttl key ↔ ttl ≤ now - at' := by
  unfold CacheInner.Expired
  rw [h]
  constructor
  · rintro ⟨_, _, _, heq, hold⟩
    cases heq
    exact hold
  · exact fun hold => ⟨reply, bytes, at', rfl, hold⟩

theorem CacheInner.not_expired_of_inFlight {now ttl : Nat} {key : ReplayEntryKey} {waiters : List Channel}
    (h : inner.entries.lookup key = some (.inFlight waiters)) : ¬ inner.Expired now ttl key := by
  rintro ⟨_, _, _, heq, _⟩
  rw [h] at heq
  cases heq

/-- Looking at the front is enough, since the order is sorted by time. -/
theorem expire_withoutExpired (hc : Consistent inner) (hsorted : inner.Sorted) (now ttl : Nat) :
    WithoutExpired now ttl inner (inner.expire now ttl) := by
  obtain ⟨removed, htrim, hremoved⟩ := hc.expire_trimmed now ttl
  have hentries : ∀ key state, (inner.expire now ttl).entries.lookup key = some state ↔
      inner.entries.lookup key = some state ∧ ¬ inner.Expired now ttl key := by
    intro key state
    cases state with
    | inFlight =>
      rw [htrim.inFlight_iff]
      exact ⟨fun h => ⟨h, CacheInner.not_expired_of_inFlight h⟩, And.left⟩
    | completed =>
      rw [hsorted.expire_completed_iff hc]
      refine and_congr_right fun h => ?_
      rw [CacheInner.expired_iff h, Nat.not_le]
  refine ⟨hentries, fun request latest => ⟨fun h => ?_, fun h => ?_⟩, htrim.consistent.bytes_eq⟩
  · have hbound := htrim.consistent.latest_bound request latest h
    obtain ⟨state, hstate⟩ := Option.isSome_iff_exists.mp (AList.lookup_isSome.mpr hbound)
    refine ⟨?_, ((hentries _ state).mp hstate).2⟩
    rw [htrim.latest] at h
    split at h
    next => cases h
    next => exact h
  · rw [htrim.latest, if_neg]
    · exact h.1
    · intro hmem
      obtain ⟨other, hother, rfl⟩ := List.mem_map.mp hmem
      have hlatest := hc.completed_latest other (htrim.completed other hother)
      rw [h.1, Option.some.injEq] at hlatest
      subst hlatest
      exact h.2 (hremoved other hother)

/-- `begin` replays what the latest generation of the request retains, while it is young enough. -/
theorem begin_replay_iff {cache : ReplayCache} (hc : Consistent inner) (hsorted : inner.Sorted)
    (hsize : inner.entries.size ≤ cache.capacity) (isClosed : Channel → Bool) (now : Nat)
    (channel : Channel) (key : ReplayKey) (fingerprint : RequestFingerprint) (reply : EncodedReply) :
    (cache.begin isClosed now channel key fingerprint inner).1 = .ok (.replay reply) ↔
      ∃ generation bytes at', inner.latest.lookup key = some ⟨fingerprint, generation⟩ ∧
        inner.entries.lookup ⟨key, fingerprint, generation⟩ = some (.completed reply bytes at') ∧
        now - at' < cache.ttl := by
  have hexpire := expire_withoutExpired hc hsorted now cache.ttl
  constructor
  · obtain ⟨expired, _, _, hcase⟩ := begin_cases cache hc hsize isClosed now channel key fingerprint
    intro h
    rw [h] at hcase
    generalize (cache.begin isClosed now channel key fingerprint inner).2 = after at hcase
    cases hcase with
    | replay generation _ bytes at' hlatest hentry =>
      obtain ⟨hentry, hyoung⟩ := (hexpire.entries _ _).mp hentry
      rw [CacheInner.expired_iff hentry, Nat.not_le] at hyoung
      exact ⟨generation, bytes, at', ((hexpire.latest _ _).mp hlatest).1, hentry, hyoung⟩
  · rintro ⟨generation, bytes, at', hlatest, hentry, hyoung⟩
    have hkept : ¬ inner.Expired now cache.ttl ⟨key, fingerprint, generation⟩ := by
      rw [CacheInner.expired_iff hentry, Nat.not_le]
      exact hyoung
    have hlatest' := (hexpire.latest key ⟨fingerprint, generation⟩).mpr ⟨hlatest, hkept⟩
    have hentry' := (hexpire.entries _ _).mpr ⟨hentry, hkept⟩
    unfold ReplayCache.begin
    simp only [hlatest', if_true, hentry']

end Expiry

/-! ## Refusal -/

section Refusal

variable {cache : ReplayCache} {inner : CacheInner}

/-- No live member is left exactly when every entry is in flight. -/
theorem Consistent.live_eq_nil_iff (h : Consistent inner) :
    inner.live = [] ↔ ∀ entry ∈ inner.entries, inner.isInFlight entry = true := by
  constructor
  · intro hlive entry hentry
    obtain ⟨state, hstate⟩ := Option.isSome_iff_exists.mp (AList.lookup_isSome.mpr hentry)
    cases state with
    | inFlight => exact CacheInner.isInFlight_of_lookup hstate
    | completed =>
      have hcompleted := CacheInner.isCompleted_of_lookup hstate
      have hmem : entry ∈ inner.live :=
        List.mem_filter.mpr ⟨h.completed_mem_order entry hcompleted, hcompleted⟩
      rw [hlive] at hmem
      cases hmem
  · intro hall
    rw [List.eq_nil_iff_forall_not_mem]
    intro entry hmem
    have hcompleted := (List.mem_filter.mp hmem).2
    obtain ⟨reply, bytes, at', hlookup⟩ := CacheInner.isCompleted_iff.mp hcompleted
    have hflight := hall entry (AList.lookup_isSome.mp (by rw [hlookup]; rfl))
    rw [CacheInner.not_isInFlight_of_isCompleted hcompleted] at hflight
    cases hflight

theorem Consistent.isCompleted_eq_false (h : Consistent inner) (hlive : inner.live = [])
    (key : ReplayEntryKey) : inner.isCompleted key = false := by
  rw [Bool.eq_false_iff]
  intro hcompleted
  have hmem : key ∈ inner.live := List.mem_filter.mpr ⟨h.completed_mem_order key hcompleted, hcompleted⟩
  rw [hlive] at hmem
  cases hmem

/-- Where nothing is live, the order queue holds tombstones only. -/
theorem Consistent.clearOrder (h : Consistent inner) (hlive : inner.live = []) :
    Consistent { inner with completedOrder := [] } :=
  { h with
    order_nodup := List.nodup_nil
    completed_mem_order := fun key hkey => absurd hkey (by
      rw [Bool.not_eq_true]
      exact h.isCompleted_eq_false hlive key)
    order_not_inFlight := nofun
    order_generation_lt := by rintro _ ⟨⟩ }

/-- XID reuse changes nothing, or takes one entry away. -/
theorem Consistent.removeCompletedForRequest_self_or (h : Consistent inner) (request : ReplayKey) :
    inner.removeCompletedForRequest request = inner ∨
      ∃ key, Trimmed inner [key] (inner.removeCompletedForRequest request) := by
  unfold CacheInner.removeCompletedForRequest
  split
  · exact .inl rfl
  · dsimp only
    split
    next hcompleted => exact .inr ⟨_, Trimmed.removeCompleted h hcompleted⟩
    next => exact .inl rfl

/-- A new generation is refused exactly when the cache is full of executions, and then only
tombstones are popped. -/
theorem grant_refused_iff (h : Consistent inner) (hsize : inner.entries.size ≤ cache.capacity)
    (key : ReplayKey) (fingerprint : RequestFingerprint) :
    ((cache.grant key fingerprint inner).1 = .error .capacity ↔
      inner.entries.size = cache.capacity ∧ inner.live = []) ∧
    ((cache.grant key fingerprint inner).1 = .error .capacity →
      (cache.grant key fingerprint inner).2 = { inner with completedOrder := [] }) := by
  unfold ReplayCache.grant
  dsimp only
  rcases h.removeCompletedForRequest_self_or key with hsame | ⟨reused, htrim⟩
  · rw [hsame]
    by_cases hfull : inner.entries.size ≥ cache.capacity
    · rw [if_pos hfull]
      have hevict := h.evictOldestCompleted_live
      split at hevict
      next after heq =>
        obtain ⟨key, _, hlive, _⟩ := hevict
        rw [heq, if_pos rfl, hlive]
        simp
      next after heq =>
        obtain ⟨hlive, rfl⟩ := hevict
        rw [heq, if_neg Bool.false_ne_true]
        exact ⟨iff_of_true rfl ⟨Nat.le_antisymm hsize hfull, hlive⟩, fun _ => rfl⟩
    · rw [if_neg hfull, if_pos rfl]
      have hne : inner.entries.size ≠ cache.capacity := by omega
      simp [hne]
  · -- an entry was taken away, so there is a slot
    have hshrunk := htrim.size
    rw [List.length_singleton] at hshrunk
    have hcompleted := htrim.completed reused (List.mem_singleton_self _)
    rw [if_neg (show ¬ (inner.removeCompletedForRequest key).entries.size ≥ cache.capacity by omega),
      if_pos rfl]
    refine ⟨iff_of_false (by simp) ?_, by simp⟩
    rintro ⟨_, hlive⟩
    rw [h.isCompleted_eq_false hlive] at hcompleted
    cases hcompleted

/-- A request is refused exactly if executions take up every slot. -/
theorem begin_refused_iff (h : Consistent inner) (hsize : inner.entries.size ≤ cache.capacity)
    (isClosed : Channel → Bool) (now : Nat) (channel : Channel) (key : ReplayKey)
    (fingerprint : RequestFingerprint) :
    ((cache.begin isClosed now channel key fingerprint inner).1 = .error .capacity ↔
      (∀ generation, (inner.expire now cache.ttl).latest.lookup key ≠ some ⟨fingerprint, generation⟩) ∧
      (inner.expire now cache.ttl).entries.size = cache.capacity ∧
      ∀ entry ∈ (inner.expire now cache.ttl).entries,
        (inner.expire now cache.ttl).isInFlight entry = true) ∧
    ((cache.begin isClosed now channel key fingerprint inner).1 = .error .capacity →
      (cache.begin isClosed now channel key fingerprint inner).2 =
        { inner.expire now cache.ttl with completedOrder := [] }) := by
  obtain ⟨expired, htrim, _⟩ := h.expire_trimmed now cache.ttl
  unfold ReplayCache.begin
  dsimp only
  generalize inner.expire now cache.ttl = live at htrim
  have hsize' : live.entries.size ≤ cache.capacity := by
    have := htrim.size
    omega
  have hgrant := grant_refused_iff htrim.consistent hsize' key fingerprint
  rw [htrim.consistent.live_eq_nil_iff] at hgrant
  split
  next latest hlatest =>
    split
    next heq =>
      subst heq
      have hcurrent : ¬ ∀ generation, live.latest.lookup key ≠ some ⟨latest.fingerprint, generation⟩ :=
        fun hnew => hnew latest.generation hlatest
      split
      next => exact ⟨iff_of_false (by simp) fun hfull => hcurrent hfull.1, by simp⟩
      next => exact ⟨iff_of_false (by simp) fun hfull => hcurrent hfull.1, by simp⟩
      next hentry =>
        exact absurd (htrim.consistent.latest_bound key latest hlatest) (AList.lookup_eq_none.mp hentry)
    next hne =>
      have hnew : ∀ generation, live.latest.lookup key ≠ some ⟨fingerprint, generation⟩ := by
        intro generation heq
        rw [hlatest] at heq
        cases heq
        exact hne rfl
      exact ⟨hgrant.1.trans (and_iff_right hnew).symm, hgrant.2⟩
  next hlatest =>
    have hnew : ∀ generation, live.latest.lookup key ≠ some ⟨fingerprint, generation⟩ := by
      intro generation heq
      rw [hlatest] at heq
      cases heq
    exact ⟨hgrant.1.trans (and_iff_right hnew).symm, hgrant.2⟩

end Refusal

/-! ## Expiry over runs -/

section Instants

variable {cache : ReplayCache} {w w' : World} {e : Event}

/-- Time does not go back. -/
theorem clock_le_of_step (hstep : Step cache w e w') : w.clock ≤ w'.clock := by
  cases hstep with
  | tick _ hnow => exact hnow
  | _ => exact Nat.le_refl _

/-- The instants of the completions are in order, and none is ahead of the clock. -/
structure Timed (w : World) : Prop where
  sorted : w.inner.Sorted
  completedAt_le : ∀ key at', w.inner.completedAt key = some at' → at' ≤ w.clock

namespace Timed

theorem new (clock : Nat) : Timed (World.new clock) where
  sorted := List.Pairwise.nil
  completedAt_le := nofun

theorem step (h : Timed w) (hsound : Sound cache w) (hstep : Step cache w e w') : Timed w' := by
  have hclock := clock_le_of_step hstep
  rcases (innerStep hsound hstep).shrinks_or_retained hsound.consistent with
    ⟨hsuffix, hcompleted⟩ |
      ⟨lease, stored, bytes, removed, mid, _, hflight, htrim, hsuffix, hafter⟩
  · have hinstants : ∀ key at', w'.inner.completedAt key = some at' → w.inner.completedAt key = some at' := by
      intro key at' hat
      obtain ⟨reply, bytes, hlookup⟩ := CacheInner.completedAt_eq_some.mp hat
      exact CacheInner.completedAt_eq_some.mpr ⟨reply, bytes, hcompleted key reply bytes at' hlookup⟩
    exact ⟨h.sorted.shrink hsuffix.sublist hinstants, fun key at' hat =>
      Nat.le_trans (h.completedAt_le key at' (hinstants key at' hat)) hclock⟩
  · have hinstants : ∀ key at', mid.completedAt key = some at' → w.inner.completedAt key = some at' := by
      intro key at' hat
      obtain ⟨reply, bytes, hlookup⟩ := CacheInner.completedAt_eq_some.mp hat
      exact CacheInner.completedAt_eq_some.mpr ⟨reply, bytes, htrim.completed_of_after hlookup⟩
    have hmid := h.sorted.shrink hsuffix.sublist hinstants
    have hnotMem : lease ∉ mid.completedOrder := by
      intro hmem
      rw [← htrim.isInFlight, htrim.consistent.order_not_inFlight lease hmem] at hflight
      cases hflight
    have hpush := hmid.pushCompleted hnotMem
      (fun key at' hat => h.completedAt_le key at' (hinstants key at' hat)) stored bytes
    have hcompact : ∀ key, w'.inner.completedAt key =
        (mid.pushCompleted lease stored bytes w.clock).completedAt key := by
      intro key
      rw [hafter]
      unfold CacheInner.completedAt
      rw [CacheInner.compactCompletionOrder_entries]
    refine ⟨?_, fun key at' hat => Nat.le_trans ?_ hclock⟩
    · refine hpush.shrink ?_ fun key at' hat => hcompact key ▸ hat
      rw [hafter]
      exact CacheInner.compactCompletionOrder_sublist _
    · rw [hcompact] at hat
      obtain ⟨reply', bytes', hlookup⟩ := CacheInner.completedAt_eq_some.mp hat
      unfold CacheInner.pushCompleted at hlookup
      rw [Table.lookup_insert_eq] at hlookup
      split at hlookup
      next =>
        cases hlookup
        exact Nat.le_refl _
      next =>
        exact h.completedAt_le key at'
          (hinstants key at' (CacheInner.completedAt_eq_some.mpr ⟨reply', bytes', hlookup⟩))

theorem reachable (h : (machine cache).Reachable w) : Timed w := by
  have hboth : Sound cache w ∧ Timed w := by
    refine h.invariant (I := fun w => Sound cache w ∧ Timed w) ?_
      fun _ _ _ hw hstep => ⟨hw.1.step hstep, hw.2.step hw.1 hstep⟩
    rintro _ ⟨clock, rfl⟩
    exact ⟨Sound.new clock, Timed.new clock⟩
  exact hboth.2

end Timed

end Instants

/-- Front-only expiry is exact: the live members of the order queue are sorted, so after the expiry of
a `begin` at the instant `now` a completed entry is left exactly if it was there and is younger than
the time to live, and executions are not touched. A reply that is replayed is younger than that. -/
theorem expiry_exact {cache : ReplayCache} {w : World} (h : (machine cache).Reachable w) (now : Nat) :
    (w.inner.completedOrder.filterMap w.inner.completedAt).Pairwise (· ≤ ·) ∧
    (∀ key reply bytes at', (w.inner.expire now cache.ttl).entries.lookup key =
        some (.completed reply bytes at') ↔
      w.inner.entries.lookup key = some (.completed reply bytes at') ∧ now - at' < cache.ttl) ∧
    (∀ key waiters, (w.inner.expire now cache.ttl).entries.lookup key = some (.inFlight waiters) ↔
      w.inner.entries.lookup key = some (.inFlight waiters)) ∧
    ∀ key fingerprint reply, (w.begin cache now key fingerprint).1 = .ok (.replay reply) →
      ∃ generation bytes at', w.inner.entries.lookup ⟨key, fingerprint, generation⟩ =
        some (.completed reply bytes at') ∧ now - at' < cache.ttl := by
  have hsound := Sound.reachable h
  have hsorted := (Timed.reachable h).sorted
  obtain ⟨expired, htrim, _⟩ := hsound.consistent.expire_trimmed now cache.ttl
  refine ⟨hsorted, ?_, ?_, ?_⟩
  · intro key reply bytes at'
    exact hsorted.expire_completed_iff hsound.consistent now cache.ttl
  · intro key waiters
    exact htrim.inFlight_iff
  · intro key fingerprint reply hreplay
    obtain ⟨generation, bytes, at', _, hentry, hyoung⟩ := (begin_replay_iff hsound.consistent hsorted
      hsound.size_le (· ∈ w.closed) now w.channels key fingerprint reply).mp hreplay
    exact ⟨generation, bytes, at', hentry, hyoung⟩

/-- Nine ticks after the sample run the reply is still replayed, and at ten it is gone. -/
theorem expiry_exact_completed :
    (Sample.completed.begin Sample.cache 9 Sample.key Sample.fingerprint).1 =
        .ok (.replay (Sample.reply.replayStorage Sample.alloc).1) ∧
      (Sample.completed.inner.expire 10 Sample.cache.ttl).isCompleted Sample.lease = false ∧
      (Sample.completed.inner.completedOrder.filterMap Sample.completed.inner.completedAt).Pairwise (· ≤ ·) :=
  ⟨rfl, rfl, (expiry_exact Sample.completed_reachable 9).1⟩

/-- A refusal for want of capacity is exact and harmless: it happens exactly when, without the expired
entries, the request is not the latest generation of its key and the entries are as many as the
capacity and all in flight; and then nothing but the expired entries is gone, so a later call is
answered with a replay exactly if it would have been. -/
theorem capacity_refusal_exact {cache : ReplayCache} {w : World} (h : (machine cache).Reachable w)
    (now : Nat) (key : ReplayKey) (fingerprint : RequestFingerprint) :
    let live := w.inner.expire now cache.ttl
    let result := w.begin cache now key fingerprint
    WithoutExpired now cache.ttl w.inner live ∧
    (result.1 = .error .capacity ↔
      (∀ generation, live.latest.lookup key ≠ some ⟨fingerprint, generation⟩) ∧
      live.entries.size = cache.capacity ∧ ∀ entry ∈ live.entries, live.isInFlight entry = true) ∧
    (result.1 = .error .capacity →
      (result.2.inner.entries = live.entries ∧ result.2.inner.latest = live.latest ∧
        result.2.inner.completedBytes = live.completedBytes ∧ result.2.leases = w.leases) ∧
      ∀ later ≥ now, ∀ key' fingerprint' reply,
        (result.2.begin cache later key' fingerprint').1 = .ok (.replay reply) ↔
          (w.begin cache later key' fingerprint').1 = .ok (.replay reply)) := by
  intro live result
  have hsound := Sound.reachable h
  have hsorted := (Timed.reachable h).sorted
  have hwithout := expire_withoutExpired hsound.consistent hsorted now cache.ttl
  have hrefusal := begin_refused_iff hsound.consistent hsound.size_le
  obtain ⟨hiff, hafter⟩ := hrefusal (· ∈ w.closed) now w.channels key fingerprint
  refine ⟨hwithout, hiff, fun hrefused => ?_⟩
  have hinner : result.2.inner = { live with completedOrder := [] } := hafter hrefused
  refine ⟨⟨?_, ?_, ?_, ?_⟩, ?_⟩
  · rw [hinner]
  · rw [hinner]
  · rw [hinner]
  · apply begin_leases_of_ne_execute
    intro lease hexecute
    cases hrefused.symm.trans hexecute
  · intro later hlater key' fingerprint' reply
    have hconsistent : Consistent result.2.inner := by
      obtain ⟨expired, htrim, _⟩ := hsound.consistent.expire_trimmed now cache.ttl
      rw [hinner]
      exact htrim.consistent.clearOrder ((htrim.consistent.live_eq_nil_iff).mpr (hiff.mp hrefused).2.2)
    have hsorted' : result.2.inner.Sorted := by
      rw [hinner]
      exact List.Pairwise.nil
    have hsize : result.2.inner.entries.size ≤ cache.capacity := by
      rw [hinner]
      exact Nat.le_of_eq (hiff.mp hrefused).2.1
    refine (begin_replay_iff hconsistent hsorted' hsize _ later _ key' fingerprint' reply).trans
      (Iff.trans ?_ (begin_replay_iff hsound.consistent hsorted hsound.size_le (· ∈ w.closed) later
        w.channels key' fingerprint' reply).symm)
    rw [hinner]
    refine exists_congr fun generation => exists_congr fun bytes => exists_congr fun at' => ?_
    constructor
    · rintro ⟨hlatest, hentry, hyoung⟩
      exact ⟨((hwithout.latest _ _).mp hlatest).1, ((hwithout.entries _ _).mp hentry).1, hyoung⟩
    · rintro ⟨hlatest, hentry, hyoung⟩
      have hkept : ¬ w.inner.Expired now cache.ttl ⟨key', fingerprint', generation⟩ := by
        rw [CacheInner.expired_iff hentry]
        omega
      exact ⟨(hwithout.latest _ ⟨fingerprint', generation⟩).mpr ⟨hlatest, hkept⟩,
        (hwithout.entries _ _).mpr ⟨hentry, hkept⟩, hyoung⟩

namespace Sample

def requestWith (xid : UInt32) : ReplayKey := { key with xid }

/-- Both slots of the cache are taken by executions. -/
def crowded : World := (executing.begin cache 0 (requestWith 8) fingerprint).2

theorem crowded_reachable : (machine cache).Reachable crowded :=
  executing_reachable.run (Machine.Run.nil.snoc
    (Step.begin executing 0 (requestWith 8) fingerprint (by decide) (by decide)))

end Sample

theorem capacity_refusal_crowded :
    let result := Sample.crowded.begin Sample.cache 0 (Sample.requestWith 9) Sample.fingerprint
    result.1 = .error .capacity ∧
      result.2.inner.entries = (Sample.crowded.inner.expire 0 Sample.cache.ttl).entries :=
  ⟨rfl, ((capacity_refusal_exact Sample.crowded_reachable 0 (Sample.requestWith 9)
    Sample.fingerprint).2.2 rfl).1.1⟩

end NfsEmbed.Replay
