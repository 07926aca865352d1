import NfsEmbed.Laws.Replay.Invariant

/-!
# Waiters are resolved by the lease they wait on

A duplicate that was told to wait holds the receiving end of a channel whose sending end sits in the
in-flight entry. The receiver gets the result of that entry's own lease, once, and nothing else: until
the lease is resolved the sender stays in the entry whatever happens to other entries, and when it is
resolved the result is sent.

The law is `waiter_resolved_by_its_lease`. It does not say that every lease is resolved.
-/

namespace NfsEmbed.Replay

open Lib Rpc

/-- The waiters of an in-flight entry. -/
def CacheInner.waiters (inner : CacheInner) (key : ReplayEntryKey) : Option (List Channel) :=
  match inner.entries.lookup key with
  | some (.inFlight waiters) => some waiters
  | _ => none

section Sections

variable {cache : ReplayCache} {inner : CacheInner} {key : ReplayEntryKey}

theorem CacheInner.waiters_eq_some {waiters : List Channel} :
    inner.waiters key = some waiters ↔ inner.entries.lookup key = some (.inFlight waiters) := by
  unfold CacheInner.waiters
  split
  next waiters' h => rw [h, Option.some.injEq, Option.some.injEq, ReplayState.inFlight.injEq]
  next h =>
    simp only [reduceCtorEq, false_iff]
    exact h waiters

/-- Waiters are compared through the in-flight entries that have them. -/
theorem CacheInner.waiters_eq {inner' : CacheInner} {key' : ReplayEntryKey}
    (h : ∀ waiters, inner.entries.lookup key = some (.inFlight waiters) ↔
      inner'.entries.lookup key' = some (.inFlight waiters)) :
    inner.waiters key = inner'.waiters key' := by
  apply Option.ext
  intro waiters
  rw [CacheInner.waiters_eq_some, CacheInner.waiters_eq_some]
  exact h waiters

/-- `begin` leaves the waiters of an entry alone, adds the new channel to them after dropping closed
ones, or opens an entry without any. -/
theorem begin_waiters (h : Consistent inner) (hsize : inner.entries.size ≤ cache.capacity)
    (isClosed : Channel → Bool) (now : Nat) (channel : Channel) (request : ReplayKey)
    (fingerprint : RequestFingerprint) (key : ReplayEntryKey) :
    let after := (cache.begin isClosed now channel request fingerprint inner).2
    after.waiters key = inner.waiters key ∨
      (∃ waiters, inner.waiters key = some waiters ∧
        after.waiters key = some (waiters.filter (fun waiter => !isClosed waiter) ++ [channel])) ∨
      after.waiters key = some [] ∧ inner.waiters key = none := by
  obtain ⟨expired, hexpire, _, hcase⟩ :=
    begin_cases cache h hsize isClosed now channel request fingerprint
  have hmid : (inner.expire now cache.ttl).waiters key = inner.waiters key :=
    CacheInner.waiters_eq fun waiters => hexpire.inFlight_iff
  revert hcase
  generalize cache.begin isClosed now channel request fingerprint inner = result
  obtain ⟨outcome, after⟩ := result
  intro hcase
  dsimp only at hcase ⊢
  rw [← hmid]
  cases hcase with
  | wait generation waiters _ hentry =>
    by_cases heq : key = ⟨request, fingerprint, generation⟩
    · subst heq
      refine .inr (.inl ⟨waiters, CacheInner.waiters_eq_some.mpr hentry, ?_⟩)
      rw [CacheInner.waiters_eq_some, CacheInner.setWaiters_inFlight_iff, if_pos rfl]
    · refine .inl (CacheInner.waiters_eq fun waiters => ?_)
      rw [CacheInner.setWaiters_inFlight_iff, if_neg heq]
  | replay => exact .inl rfl
  | execute _ room _ htrim =>
    have hroom : room.waiters key = (inner.expire now cache.ttl).waiters key :=
      CacheInner.waiters_eq fun waiters => htrim.inFlight_iff
    by_cases heq : key = ⟨request, fingerprint, room.nextGeneration⟩
    · refine .inr (.inr ⟨?_, ?_⟩)
      · rw [CacheInner.waiters_eq_some, CacheInner.openGeneration_inFlight_iff, if_pos heq]
      · have hfresh := (htrim.consistent.fresh_notMem request fingerprint).1
        rw [← hroom, heq]
        unfold CacheInner.waiters
        rw [AList.lookup_eq_none.mpr hfresh]
    · left
      rw [← hroom]
      refine CacheInner.waiters_eq fun waiters => ?_
      rw [CacheInner.openGeneration_inFlight_iff, if_neg heq]
  | full _ _ htrim => exact .inl (CacheInner.waiters_eq fun waiters => htrim.inFlight_iff)

/-- Resolving a lease takes its waiters and no others. -/
theorem waiters_of_inFlight_iff {after : CacheInner} {lease : ReplayEntryKey}
    (hafter : ∀ other waiters, after.entries.lookup other = some (.inFlight waiters) ↔
      other ≠ lease ∧ inner.entries.lookup other = some (.inFlight waiters)) (key : ReplayEntryKey) :
    after.waiters key = if key = lease then none else inner.waiters key := by
  apply Option.ext
  intro waiters
  rw [CacheInner.waiters_eq_some, hafter]
  split
  next heq => simp only [heq, ne_eq, not_true_eq_false, false_and, reduceCtorEq]
  next hne => simp only [ne_eq, hne, not_false_eq_true, true_and, CacheInner.waiters_eq_some]

end Sections

/-! ## Steps -/

/-- What was delivered to a receiver, in order. -/
def World.deliveriesTo (w : World) (receiver : Channel) :
    List (Channel × Except ReplayError EncodedReply) :=
  w.deliveries.filter fun delivery => delivery.1 = receiver

/-- The receiver's sending end sits in the entry of the lease. -/
def World.WaitsOn (w : World) (receiver : Channel) (lease : ReplayEntryKey) : Prop :=
  ∃ waiters, w.inner.waiters lease = some waiters ∧ receiver ∈ waiters

/-- The event resolves the lease with this result. -/
inductive Resolves (lease : ReplayEntryKey) : Event → Except ReplayError EncodedReply → Prop
  | completed (reply : EncodedReply) (alloc : Allocator) :
    Resolves lease (.store lease reply alloc) (.ok reply)
  | cancelled : Resolves lease (.cancel lease) (.error .cancelled)
  | dropped : Resolves lease (.drop lease) (.error .cancelled)

/-- An event resolves one lease at most. -/
theorem Resolves.unique {lease lease' : ReplayEntryKey} {e : Event}
    {result result' : Except ReplayError EncodedReply} (h : Resolves lease e result)
    (h' : Resolves lease' e result') : lease = lease' := by
  cases h <;> cases h' <;> rfl

/-- Everything a step can do to waiters and deliveries. -/
inductive WaiterStep (w : World) (e : Event) (w' : World) : Prop
  /-- No lease is resolved: senders stay where they are, except closed ones. -/
  | quiet : (∀ lease result, ¬ Resolves lease e result) →
    (∀ lease ∈ w.leases, lease ∈ w'.leases) → w'.deliveries = w.deliveries →
    w.closed ⊆ w'.closed → w.channels ≤ w'.channels →
    (∀ key, w'.inner.waiters key = w.inner.waiters key ∨
      (∃ waiters, w.inner.waiters key = some waiters ∧ w.channels < w'.channels ∧
        w'.inner.waiters key = some (waiters.filter (· ∉ w.closed) ++ [w.channels])) ∨
      w'.inner.waiters key = some [] ∧ w.inner.waiters key = none) →
    WaiterStep w e w'
  /-- A lease is resolved: its waiters get the result, and no other sender is touched. -/
  | resolve (lease : ReplayEntryKey) (result : Except ReplayError EncodedReply)
      (waiters : List Channel) :
    Resolves lease e result → w.inner.waiters lease = some waiters →
    (∀ key ∈ w.leases, key ≠ lease → key ∈ w'.leases) →
    w'.deliveries = w.deliveries ++
      (waiters.map fun waiter => (waiter, result)).filter (fun send => send.1 ∉ w.closed) →
    w'.closed = w.closed → w'.channels = w.channels →
    (∀ key, w'.inner.waiters key = if key = lease then none else w.inner.waiters key) →
    WaiterStep w e w'

variable {cache : ReplayCache} {w w' : World} {e : Event}

theorem waiterStep_cancel (hsound : Sound cache w) {lease : ReplayEntryKey}
    (hlease : w.leases.lookup lease = some .held)
    (hresolves : Resolves lease e (.error .cancelled)) : WaiterStep w e (w.cancel lease) := by
  obtain ⟨waiters, hentry⟩ := hsound.inFlight_of_lease hlease
  unfold World.cancel
  rw [cancel_eq hentry]
  refine .resolve lease _ waiters hresolves (CacheInner.waiters_eq_some.mpr hentry) ?_ rfl rfl rfl
    fun key => waiters_of_inFlight_iff (fun other waiters => cancel_inFlight_iff) key
  intro key hkey hne
  exact AList.mem_erase.mpr ⟨hne, hkey⟩

/-- What one step does to those who wait. -/
theorem waiterStep (hsound : Sound cache w) (hstep : Step cache w e w') : WaiterStep w e w' := by
  cases hstep with
  | begin now request fingerprint =>
    refine .quiet nofun ?_ rfl (fun _ => id) (Nat.le_succ _) fun key => ?_
    · intro lease hlease
      unfold World.begin
      dsimp only
      split
      next => exact (AList.mem_insert _).mpr (.inr hlease)
      next => exact hlease
    · rcases begin_waiters hsound.consistent hsound.size_le (· ∈ w.closed) now w.channels request
        fingerprint key with hsame | ⟨waiters, hbefore, hafter⟩ | hopened
      · exact .inl hsame
      · refine .inr (.inl ⟨waiters, hbefore, Nat.lt_succ_self _, ?_⟩)
        simp only [decide_not]
        exact hafter
      · exact .inr (.inr hopened)
  | prepare =>
    refine .quiet nofun ?_ rfl (fun _ => id) (Nat.le_refl _) fun key => .inl rfl
    exact fun key hkey => (AList.mem_insert _).mpr (.inr hkey)
  | store lease reply alloc eligible hlease =>
    obtain ⟨waiters, hentry⟩ := hsound.inFlight_of_lease hlease
    obtain ⟨hcase, hsends⟩ := complete_cases cache hsound.consistent hentry w.clock reply
      (if eligible then some (reply.replayStorage alloc) else none)
    refine .resolve lease _ waiters (.completed reply alloc) (CacheInner.waiters_eq_some.mpr hentry)
      ?_ ?_ rfl rfl fun key => waiters_of_inFlight_iff (fun other waiters => hcase.inFlight_iff) key
    · intro key hkey hne
      exact AList.mem_erase.mpr ⟨hne, hkey⟩
    · unfold World.store World.deliver
      dsimp only
      rw [hsends]
  | cancel _ hlease => exact waiterStep_cancel hsound hlease .cancelled
  | drop _ hlease => exact waiterStep_cancel hsound hlease .dropped
  | close =>
    exact .quiet nofun (fun _ => id) rfl (List.subset_cons_self _ _) (Nat.le_refl _)
      fun key => .inl rfl
  | tick =>
    exact .quiet nofun (fun _ => id) rfl (fun _ => id) (Nat.le_refl _)
      fun key => .inl rfl

/-! ## Runs -/

/-- Channels are numbered in the order they are opened. -/
structure Numbered (w : World) : Prop where
  waiters_lt : ∀ key waiters, w.inner.waiters key = some waiters → ∀ waiter ∈ waiters,
    waiter < w.channels
  deliveries_lt : ∀ delivery ∈ w.deliveries, delivery.1 < w.channels

theorem Numbered.step (h : Numbered w) (hstep : WaiterStep w e w') : Numbered w' := by
  cases hstep with
  | quiet _ _ hdeliveries _ hchannels hwaiters =>
    refine ⟨fun key waiters hkey waiter hwaiter => ?_, fun delivery hdelivery => ?_⟩
    · rcases hwaiters key with hsame | ⟨before, hbefore, hlt, hafter⟩ | ⟨hempty, _⟩
      · exact Nat.lt_of_lt_of_le (h.waiters_lt key waiters (hsame ▸ hkey) waiter hwaiter) hchannels
      · obtain rfl := Option.some.inj (hafter.symm.trans hkey)
        rcases List.mem_append.mp hwaiter with hwaiter | hwaiter
        · exact Nat.lt_trans
            (h.waiters_lt key before hbefore waiter (List.mem_of_mem_filter hwaiter)) hlt
        · exact List.mem_singleton.mp hwaiter ▸ hlt
      · obtain rfl := Option.some.inj (hempty.symm.trans hkey)
        cases hwaiter
    · rw [hdeliveries] at hdelivery
      exact Nat.lt_of_lt_of_le (h.deliveries_lt delivery hdelivery) hchannels
  | resolve lease _ waiters _ hlease _ hdeliveries _ hchannels hwaiters =>
    refine ⟨fun key waiters hkey waiter hwaiter => ?_, fun delivery hdelivery => ?_⟩
    · rw [hwaiters] at hkey
      split at hkey
      next => cases hkey
      next => exact hchannels ▸ h.waiters_lt key waiters hkey waiter hwaiter
    · rw [hdeliveries] at hdelivery
      rw [hchannels]
      rcases List.mem_append.mp hdelivery with hdelivery | hdelivery
      · exact h.deliveries_lt delivery hdelivery
      · obtain ⟨waiter, hwaiter, rfl⟩ := List.mem_map.mp (List.mem_of_mem_filter hdelivery)
        exact h.waiters_lt lease waiters hlease waiter hwaiter

theorem Numbered.reachable (h : (machine cache).Reachable w) : Numbered w := by
  have hboth : Sound cache w ∧ Numbered w := by
    refine h.invariant (I := fun w => Sound cache w ∧ Numbered w) ?_ ?_
    · rintro _ ⟨clock, rfl⟩
      exact ⟨Sound.new clock, nofun, nofun⟩
    · rintro s e t ⟨hsound, hnumbered⟩ hstep
      exact ⟨hsound.step hstep, hnumbered.step (waiterStep hsound hstep)⟩
  exact hboth.2

/-- Where a receiver that was told to wait on a lease stands after the steps `trace`. -/
inductive Tracked (receiver : Channel) (lease : ReplayEntryKey) (trace : List (Edge World Event))
    (w : World) : Prop
  /-- The lease is unresolved and keeps the sender; nothing was delivered. -/
  | pending : lease ∈ w.leases → (∀ edge ∈ trace, ∀ result, ¬ Resolves lease edge.event result) →
    w.deliveriesTo receiver = [] →
    (∀ key waiters, w.inner.waiters key = some waiters → receiver ∈ waiters → key = lease) →
    (∀ waiters, w.inner.waiters lease = some waiters →
      waiters.count receiver ≤ 1 ∧ (receiver ∉ w.closed → receiver ∈ waiters)) →
    Tracked receiver lease trace w
  /-- The lease was resolved, and its result delivered unless the receiver was closed by then. -/
  | resolved (edge : Edge World Event) (result : Except ReplayError EncodedReply) :
    (∀ key waiters, w.inner.waiters key = some waiters → receiver ∉ waiters) → edge ∈ trace →
    Resolves lease edge.event result →
    w.deliveriesTo receiver =
      (if receiver ∈ edge.source.closed then [] else [(receiver, result)]) →
    Tracked receiver lease trace w

/-- What one resolution delivers to a receiver. -/
theorem sends_filter (closed waiters : List Channel) (result : Except ReplayError EncodedReply)
    (receiver : Channel) :
    ((waiters.map fun waiter => (waiter, result)).filter (fun send => send.1 ∉ closed)).filter
        (fun send => send.1 = receiver) =
      if receiver ∈ closed then [] else List.replicate (waiters.count receiver) (receiver, result) := by
  induction waiters with
  | nil => simp only [List.map_nil, List.filter_nil, List.count_nil, List.replicate_zero, ite_self]
  | cons waiter _ ih =>
    rw [List.map_cons, List.filter_cons, List.count_cons]
    by_cases heq : waiter = receiver
    · subst heq
      by_cases hclosed : waiter ∈ closed
      · simp only [hclosed, not_true_eq_false, decide_false, Bool.false_eq_true, if_false, ih, if_true]
      · simp only [hclosed, not_false_eq_true, decide_true, if_true, List.filter_cons, ih, if_false,
          BEq.rfl, List.replicate_succ]
    · have hbeq : (waiter == receiver) = false := beq_false_of_ne heq
      rw [hbeq, if_neg Bool.false_ne_true, Nat.add_zero, ← ih]
      split
      next => simp only [List.filter_cons, heq, decide_false, Bool.false_eq_true, if_false]
      next => rfl

namespace Tracked

variable {receiver : Channel} {lease : ReplayEntryKey} {trace : List (Edge World Event)}

/-- A receiver that sits in no entry gets nothing from a resolution. -/
theorem deliveriesTo_of_notMem {waiters : List Channel} {result : Except ReplayError EncodedReply}
    (hdeliveries : w'.deliveries = w.deliveries ++
      (waiters.map fun waiter => (waiter, result)).filter (fun send => send.1 ∉ w.closed))
    (hnot : receiver ∉ waiters) : w'.deliveriesTo receiver = w.deliveriesTo receiver := by
  unfold World.deliveriesTo
  rw [hdeliveries, List.filter_append, sends_filter, List.count_eq_zero_of_not_mem hnot,
    List.replicate_zero, ite_self, List.append_nil]

/-- One step keeps track of a receiver: only the resolution of its own lease changes where it
stands. -/
theorem step (h : Tracked receiver lease trace w) (hreceiver : receiver < w.channels)
    (hflight : ∀ key, key ∈ w.leases → ∃ waiters, w.inner.waiters key = some waiters)
    (hstep : WaiterStep w e w') : Tracked receiver lease (trace ++ [⟨w, e, w'⟩]) w' := by
  cases hstep with
  | quiet hquiet hleases hdeliveries hclosed _ hwaiters =>
    -- a receiver found in an entry afterwards was there before
    have hback : ∀ key waiters, w'.inner.waiters key = some waiters → receiver ∈ waiters →
        ∃ before, w.inner.waiters key = some before ∧ receiver ∈ before := by
      intro key waiters hkey hmem
      rcases hwaiters key with hsame | ⟨before, hbefore, _, hafter⟩ | ⟨hempty, _⟩
      · exact ⟨waiters, hsame ▸ hkey, hmem⟩
      · obtain rfl := Option.some.inj (hafter.symm.trans hkey)
        rcases List.mem_append.mp hmem with hmem | hmem
        · exact ⟨before, hbefore, List.mem_of_mem_filter hmem⟩
        · exact absurd (List.mem_singleton.mp hmem) (Nat.ne_of_lt hreceiver)
      · obtain rfl := Option.some.inj (hempty.symm.trans hkey)
        cases hmem
    have hdeliveriesTo : w'.deliveriesTo receiver = w.deliveriesTo receiver := by
      unfold World.deliveriesTo
      rw [hdeliveries]
    cases h with
    | pending hlease hnone hundelivered honly hsender =>
      refine .pending (hleases lease hlease) ?_ (hdeliveriesTo.trans hundelivered) ?_ ?_
      · intro edge hedge result hresolves
        rcases List.mem_append.mp hedge with hedge | hedge
        · exact hnone edge hedge result hresolves
        · rw [List.mem_singleton.mp hedge] at hresolves
          exact hquiet lease result hresolves
      · intro key waiters hkey hmem
        obtain ⟨before, hbefore, hmem⟩ := hback key waiters hkey hmem
        exact honly key before hbefore hmem
      · intro waiters hkey
        rcases hwaiters lease with hsame | ⟨before, hbefore, _, hafter⟩ | ⟨_, hnoEntry⟩
        · obtain ⟨hcount, hmem⟩ := hsender waiters (hsame ▸ hkey)
          exact ⟨hcount, fun hopen => hmem fun hin => hopen (hclosed hin)⟩
        · obtain rfl := Option.some.inj (hafter.symm.trans hkey)
          obtain ⟨hcount, hmem⟩ := hsender before hbefore
          refine ⟨?_, fun hopen => ?_⟩
          · rw [List.count_append, List.count_singleton, beq_false_of_ne (Nat.ne_of_gt hreceiver)]
            exact Nat.le_trans (List.Sublist.count_le _ List.filter_sublist) hcount
          · have hopenBefore : receiver ∉ w.closed := fun hin => hopen (hclosed hin)
            exact List.mem_append_left _
              (List.mem_filter.mpr ⟨hmem hopenBefore, decide_eq_true hopenBefore⟩)
        · obtain ⟨before, hbefore⟩ := hflight lease hlease
          rw [hnoEntry] at hbefore
          cases hbefore
    | resolved edge result hnowhere hedge hresolves hdelivered =>
      refine .resolved edge result ?_ (List.mem_append_left _ hedge) hresolves
        (hdeliveriesTo.trans hdelivered)
      intro key waiters hkey hmem
      obtain ⟨before, hbefore, hmem⟩ := hback key waiters hkey hmem
      exact hnowhere key before hbefore hmem
  | resolve other result waiters hresolves hother hleases hdeliveries hclosed _ hwaiters =>
    have hback : ∀ key waiters', w'.inner.waiters key = some waiters' →
        key ≠ other ∧ w.inner.waiters key = some waiters' := by
      intro key waiters' hkey
      rw [hwaiters] at hkey
      split at hkey
      next => cases hkey
      next hne => exact ⟨hne, hkey⟩
    cases h with
    | pending hlease hnone hundelivered honly hsender =>
      by_cases heq : other = lease
      · subst heq
        obtain ⟨hcount, hmem⟩ := hsender waiters hother
        refine .resolved ⟨w, e, w'⟩ result ?_ (List.mem_append_right _ (List.mem_singleton_self _))
          hresolves ?_
        · intro key waiters' hkey hin
          obtain ⟨hne, hkey⟩ := hback key waiters' hkey
          exact hne (honly key waiters' hkey hin)
        · unfold World.deliveriesTo at hundelivered ⊢
          rw [hdeliveries, List.filter_append, hundelivered, List.nil_append, sends_filter]
          by_cases hin : receiver ∈ w.closed
          · rw [if_pos hin, if_pos hin]
          · have hone : waiters.count receiver = 1 :=
              Nat.le_antisymm hcount (List.count_pos_iff.mpr (hmem hin))
            rw [if_neg hin, if_neg hin, hone, List.replicate_one]
      · have hnot : receiver ∉ waiters := fun hin => heq (honly other waiters hother hin)
        refine .pending (hleases lease hlease (Ne.symm heq)) ?_
          ((deliveriesTo_of_notMem hdeliveries hnot).trans hundelivered) ?_ ?_
        · intro edge hedge result' hresolves'
          rcases List.mem_append.mp hedge with hedge | hedge
          · exact hnone edge hedge result' hresolves'
          · rw [List.mem_singleton.mp hedge] at hresolves'
            exact heq (hresolves.unique hresolves')
        · intro key waiters' hkey hin
          exact honly key waiters' (hback key waiters' hkey).2 hin
        · intro waiters' hkey
          rw [hclosed]
          exact hsender waiters' (hback lease waiters' hkey).2
    | resolved edge result' hnowhere hedge hresolves' hdelivered =>
      have hnot : receiver ∉ waiters := hnowhere other waiters hother
      refine .resolved edge result' ?_ (List.mem_append_left _ hedge) hresolves'
        ((deliveriesTo_of_notMem hdeliveries hnot).trans hdelivered)
      intro key waiters' hkey
      exact hnowhere key waiters' (hback key waiters' hkey).2

/-- A receiver stays with its lease over a whole run. -/
theorem run {w w' : World} (hw : (machine cache).Reachable w) (h : Tracked receiver lease [] w)
    (hreceiver : receiver < w.channels) (hrun : (machine cache).Run w trace w') :
    Tracked receiver lease trace w' := by
  refine (Machine.Run.keeps
    (P := fun trace w => Tracked receiver lease trace w ∧ receiver < w.channels) ?_ hw hrun
    ⟨h, hreceiver⟩).1
  rintro trace s e t hs ⟨htracked, hlt⟩ hstep
  have hsound := Sound.reachable hs
  have hwaiterStep := waiterStep hsound hstep
  refine ⟨htracked.step hlt (fun key hkey => ?_) hwaiterStep, ?_⟩
  · obtain ⟨waiters, hentry⟩ := CacheInner.isInFlight_iff.mp ((hsound.lease_iff key).mp hkey)
    exact ⟨waiters, CacheInner.waiters_eq_some.mpr hentry⟩
  · cases hwaiterStep with
    | quiet _ _ _ _ hchannels => exact Nat.lt_of_lt_of_le hlt hchannels
    | resolve _ _ _ _ _ _ _ _ hchannels => exact hchannels ▸ hlt

/-- Each call of `begin` has a channel of its own. -/
theorem channel_of_wait (hsound : Sound cache w) {now : Nat} {key : ReplayKey} {fingerprint : RequestFingerprint}
    (h : (w.begin cache now key fingerprint).1 = .ok (.wait receiver)) : receiver = w.channels := by
  obtain ⟨expired, outcome, after, _, _, hcase, hbegin⟩ := hsound.begin_cases now key fingerprint
  rw [hbegin] at h
  subst h
  cases hcase with
  | wait => rfl

/-- A receiver starts out pending on the generation it was told to wait for. -/
theorem of_wait (hsound : Sound cache w) (hnumbered : Numbered w) {now : Nat} {key : ReplayKey}
    {fingerprint : RequestFingerprint}
    (h : (w.begin cache now key fingerprint).1 = .ok (.wait receiver)) :
    receiver < (w.begin cache now key fingerprint).2.channels ∧ ∃ generation,
      (w.begin cache now key fingerprint).2.WaitsOn receiver ⟨key, fingerprint, generation⟩ ∧
      Tracked receiver ⟨key, fingerprint, generation⟩ [] (w.begin cache now key fingerprint).2 := by
  obtain ⟨expired, outcome, after, hexpire, _, hcase, hbegin⟩ := hsound.begin_cases now key fingerprint
  have hmid : ∀ entry, (w.inner.expire now cache.ttl).waiters entry = w.inner.waiters entry :=
    fun entry => CacheInner.waiters_eq fun waiters => hexpire.inFlight_iff
  rw [hbegin] at h ⊢
  subst h
  dsimp only [World.begun]
  cases hcase with
  | wait generation waiters _ hentry =>
    have hwaiters := CacheInner.waiters_eq_some.mpr hentry
    rw [hmid] at hwaiters
    have hnew : CacheInner.waiters ((w.inner.expire now cache.ttl).setWaiters
        ⟨key, fingerprint, generation⟩ (waiters.filter (fun waiter => !decide (waiter ∈ w.closed)) ++
          [w.channels])) ⟨key, fingerprint, generation⟩ =
        some (waiters.filter (fun waiter => !decide (waiter ∈ w.closed)) ++ [w.channels]) := by
      rw [CacheInner.waiters_eq_some, CacheInner.setWaiters_inFlight_iff, if_pos rfl]
    have hlast : ∀ before : List Channel, w.channels ∈ before ++ [w.channels] :=
      fun before => List.mem_append_right _ (List.mem_singleton_self _)
    refine ⟨Nat.lt_succ_self _, generation, ⟨_, hnew, hlast _⟩, ?_⟩
    refine .pending ?_ nofun ?_ ?_ ?_
    · exact (hsound.lease_iff _).mpr
        (CacheInner.isInFlight_of_lookup (CacheInner.waiters_eq_some.mp hwaiters))
    · refine List.filter_eq_nil_iff.mpr fun delivery hdelivery => ?_
      have := hnumbered.deliveries_lt delivery hdelivery
      rw [decide_eq_true_eq]
      exact Nat.ne_of_lt this
    · intro entry waiters' hentry' hmem
      by_contra hne
      rw [CacheInner.waiters_eq_some, CacheInner.setWaiters_inFlight_iff, if_neg hne,
        ← CacheInner.waiters_eq_some, hmid] at hentry'
      exact Nat.lt_irrefl _ (hnumbered.waiters_lt entry waiters' hentry' _ hmem)
    · intro waiters' hwaiters'
      obtain rfl := Option.some.inj (hnew.symm.trans hwaiters')
      refine ⟨?_, fun _ => hlast _⟩
      have hzero : (waiters.filter (fun waiter => !decide (waiter ∈ w.closed))).count w.channels = 0 :=
        List.count_eq_zero_of_not_mem fun hmem =>
          Nat.lt_irrefl _ (hnumbered.waiters_lt _ waiters hwaiters _ (List.mem_of_mem_filter hmem))
      rw [List.count_append, hzero, Nat.zero_add]
      exact List.count_le_length

end Tracked

/-- A receiver that was told to wait is resolved by the lease of the generation it waits on, once:
while that lease is unresolved nothing is delivered and an open receiver keeps its sender, and its
resolution delivers the result unless the receiver was closed by then. -/
theorem waiter_resolved_by_its_lease {cache : ReplayCache} {w₀ w₁ w₂ : World}
    {trace : List (Edge World Event)} {now : Nat} {key : ReplayKey}
    {fingerprint : RequestFingerprint} {receiver : Channel}
    (hreach : (machine cache).Reachable w₀)
    (hwait : Step cache w₀ (.begin now key fingerprint (.ok (.wait receiver))) w₁)
    (hrun : (machine cache).Run w₁ trace w₂) :
    ∃ lease : ReplayEntryKey, lease.request = key ∧ lease.fingerprint = fingerprint ∧
      w₁.WaitsOn receiver lease ∧
      ((lease ∈ w₂.leases ∧ (∀ edge ∈ trace, ∀ result, ¬ Resolves lease edge.event result) ∧
          w₂.deliveriesTo receiver = [] ∧ (receiver ∉ w₂.closed → w₂.WaitsOn receiver lease)) ∨
        ∃ edge ∈ trace, ∃ result, Resolves lease edge.event result ∧
          w₂.deliveriesTo receiver =
            if receiver ∈ edge.source.closed then [] else [(receiver, result)]) := by
  have hreach₁ : (machine cache).Reachable w₁ := hreach.run (Machine.Run.nil.snoc hwait)
  have hsound₂ := Sound.reachable (hreach₁.run hrun)
  generalize hdecision : Except.ok (ReplayDecision.wait receiver) = decision at hwait
  cases hwait with
  | begin =>
    obtain ⟨hreceiver, generation, hwaitsOn, htracked⟩ := Tracked.of_wait (Sound.reachable hreach)
      (Numbered.reachable hreach) hdecision.symm
    refine ⟨⟨key, fingerprint, generation⟩, rfl, rfl, hwaitsOn, ?_⟩
    cases htracked.run hreach₁ hreceiver hrun with
    | pending hlease hnone hundelivered _ hsender =>
      refine .inl ⟨hlease, hnone, hundelivered, fun hopen => ?_⟩
      obtain ⟨waiters, hentry⟩ :=
        CacheInner.isInFlight_iff.mp ((hsound₂.lease_iff _).mp hlease)
      have hwaiters := CacheInner.waiters_eq_some.mpr hentry
      exact ⟨waiters, hwaiters, (hsender waiters hwaiters).2 hopen⟩
    | resolved edge result _ hedge hresolves hdelivered =>
      exact .inr ⟨edge, hedge, result, hresolves, hdelivered⟩

/-- The duplicate of the sample run is delivered the reply its lease completed with. -/
theorem waiter_of_sample_run :
    Sample.completed.deliveriesTo 1 = [(1, .ok Sample.reply)] ∧
    ∃ lease : ReplayEntryKey, lease.request = Sample.key ∧
      lease.fingerprint = Sample.fingerprint ∧ Sample.waiting.WaitsOn 1 lease ∧
      ((lease ∈ Sample.completed.leases ∧
          (∀ edge ∈ Sample.resolution, ∀ result, ¬ Resolves lease edge.event result) ∧
          Sample.completed.deliveriesTo 1 = [] ∧
          (1 ∉ Sample.completed.closed → Sample.completed.WaitsOn 1 lease)) ∨
        ∃ edge ∈ Sample.resolution, ∃ result, Resolves lease edge.event result ∧
          Sample.completed.deliveriesTo 1 =
            if 1 ∈ edge.source.closed then [] else [(1, result)]) :=
  ⟨rfl, waiter_resolved_by_its_lease Sample.executing_reachable Sample.waited Sample.waiting_run⟩

end NfsEmbed.Replay
