import NfsEmbed.Laws.Replay.Waiters

/-!
# Where the replies of the cache come from

A reply that is in the cache, or on its way to a waiter, was handed in by the owner of a lease, for the entry
of that lease. So what holds of all replies that are handed in, and does not depend on how their bytes are
stored, holds of every reply that leaves the cache (`Sourced`, `Awaits`). In contrast to `Honours`, the
property may speak of the fingerprint and the generation of the request, not only of its key.
-/

namespace NfsEmbed.Replay

open Lib Rpc

variable {reply : EncodedReply} {lease : ReplayEntryKey} {receiver : Channel} {now : Nat}

section Steps

variable {cache : ReplayCache} {w w' : World} {e : Event}

/-- A completed reply was there before, or is the stored form of the one its lease is completed with. -/
theorem completed_of_step (hsound : Sound cache w) (hstep : Step cache w e w') {entry : ReplayEntryKey}
    {bytes at' : Nat} (h : w'.inner.entries.lookup entry = some (.completed reply bytes at')) :
    w.inner.entries.lookup entry = some (.completed reply bytes at') ∨
      ∃ original alloc eligible, w.leases.lookup entry = some (.completing original alloc eligible) ∧
        reply = (original.replayStorage alloc).1 := by
  -- what is left when the entry of a lease is taken out was there before
  have herase : ∀ {lease : ReplayEntryKey},
      AList.lookup entry (w.inner.entries.erase lease) = some (.completed reply bytes at') →
      w.inner.entries.lookup entry = some (.completed reply bytes at') := by
    intro lease hentry
    rw [Table.lookup_erase_eq] at hentry
    split at hentry
    next => cases hentry
    next => exact hentry
  have hcancel : ∀ {lease : ReplayEntryKey}, w.leases.lookup lease = some .held →
      (w.cancel lease).inner.entries.lookup entry = some (.completed reply bytes at') →
      w.inner.entries.lookup entry = some (.completed reply bytes at') := by
    intro lease hlease hentry
    obtain ⟨waiters, hflight⟩ := hsound.inFlight_of_lease hlease
    unfold World.cancel at hentry
    simp only [cancel_eq hflight, World.deliver_inner, CacheInner.forgetLatest_entries] at hentry
    exact herase hentry
  cases hstep with
  | begin now key fingerprint =>
    obtain ⟨expired, hexpire, -, hcase⟩ :=
      begin_cases cache hsound.consistent hsound.size_le (· ∈ w.closed) now w.channels key fingerprint
    exact .inl (hexpire.completed_of_after (hcase.completed_of_after h))
  | prepare | close | tick => exact .inl h
  | cancel lease hlease | drop lease hlease => exact .inl (hcancel hlease h)
  | store lease original alloc eligible hlease =>
    obtain ⟨waiters, hflight⟩ := hsound.inFlight_of_lease hlease
    have hcase := (complete_cases cache hsound.consistent hflight w.clock original
      (if eligible then some (original.replayStorage alloc) else none)).1
    change (cache.complete w.clock lease original _ w.inner).1.entries.lookup entry = _ at h
    generalize (cache.complete w.clock lease original _ w.inner).1 = after at hcase h
    cases hcase with
    | stale | unretained => exact .inl (herase h)
    | retained _ _ _ _ _ hstored htrim =>
      rw [CacheInner.compactCompletionOrder_entries] at h
      unfold CacheInner.pushCompleted at h
      rw [Table.lookup_insert_eq] at h
      split at h
      next heq =>
        cases h
        subst heq
        refine .inr ⟨original, alloc, eligible, hlease, ?_⟩
        split at hstored
        next => rw [Option.some.inj hstored]
        next => cases hstored
      next => exact .inl (htrim.completed_of_after h)

/-- A lease that is being completed was so before, or is from now on. -/
theorem completing_of_step (hstep : Step cache w e w') {alloc : Allocator} {eligible : Bool}
    (h : w'.leases.lookup lease = some (.completing reply alloc eligible)) :
    w.leases.lookup lease = some (.completing reply alloc eligible) ∨ e = .prepare lease reply alloc := by
  have herase : ∀ {resolved : ReplayEntryKey},
      AList.lookup lease (w.leases.erase resolved) = some (.completing reply alloc eligible) →
      w.leases.lookup lease = some (.completing reply alloc eligible) := by
    intro resolved hlease
    rw [Table.lookup_erase_eq] at hlease
    split at hlease
    next => cases hlease
    next => exact hlease
  cases hstep with
  | begin =>
    left
    revert h
    unfold World.begin
    dsimp only
    split
    next granted _ =>
      rw [Table.lookup_insert_eq]
      split <;> simp
    next => exact id
  | prepare =>
    unfold World.prepare at h
    dsimp only at h
    rw [Table.lookup_insert_eq] at h
    split at h
    next heq =>
      cases h
      exact .inr (by rw [heq])
    next => exact .inl h
  | store | cancel | drop => exact .inl (herase h)
  | close | tick => exact .inl h

/-- A reply that was delivered was so before, or is the one that a lease the receiver waited on is
completed with. -/
theorem delivered_of_step (hsound : Sound cache w) (hstep : Step cache w e w')
    (h : (receiver, .ok reply) ∈ w'.deliveries) : (receiver, .ok reply) ∈ w.deliveries ∨
      ∃ lease alloc eligible, w.leases.lookup lease = some (.completing reply alloc eligible) ∧
        w.WaitsOn receiver lease := by
  cases waiterStep hsound hstep with
  | quiet _ _ hdeliveries => exact .inl (hdeliveries ▸ h)
  | resolve lease _ waiters hresolves hlease _ hdeliveries =>
    rw [hdeliveries] at h
    rcases List.mem_append.mp h with h | h
    · exact .inl h
    · obtain ⟨waiter, hwaiter, heq⟩ := List.mem_map.mp (List.mem_of_mem_filter h)
      cases heq
      cases hresolves with
      | completed _ alloc =>
        cases hstep with
        | store _ _ _ eligible hcompleting =>
          exact .inr ⟨lease, alloc, eligible, hcompleting, waiters, hlease, hwaiter⟩

/-- A known receiver waits on nothing it did not wait on before. -/
theorem waitsOn_of_step (hsound : Sound cache w) (hstep : Step cache w e w') (hknown : receiver < w.channels)
    (h : w'.WaitsOn receiver lease) : w.WaitsOn receiver lease := by
  obtain ⟨waiters, hentry, hmem⟩ := h
  cases waiterStep hsound hstep with
  | quiet _ _ _ _ _ hwaiters =>
    rcases hwaiters lease with hsame | ⟨before, hbefore, -, hafter⟩ | ⟨hempty, -⟩
    · exact ⟨waiters, hsame ▸ hentry, hmem⟩
    · cases hafter.symm.trans hentry
      rcases List.mem_append.mp hmem with hmem | hmem
      · exact ⟨before, hbefore, List.mem_of_mem_filter hmem⟩
      · -- the new sender is not this one
        exact absurd (List.mem_singleton.mp hmem) (Nat.ne_of_lt hknown)
    · cases hempty.symm.trans hentry
      cases hmem
  | resolve _ _ _ _ _ _ _ _ _ hwaiters =>
    rw [hwaiters] at hentry
    split at hentry
    next => cases hentry
    next => exact ⟨waiters, hentry, hmem⟩

end Steps

variable (made : ReplayEntryKey → EncodedReply → Prop)

/-- Of the replies in the cache, and of those on the way into it. -/
structure Sourced (w : World) : Prop where
  completed : ∀ entry reply bytes at', w.inner.entries.lookup entry = some (.completed reply bytes at') →
    made entry reply
  completing : ∀ lease reply alloc eligible, w.leases.lookup lease = some (.completing reply alloc eligible) →
    made lease reply

/-- The receiver waits for this request only, and got a reply made for it if any. -/
structure Awaits (key : ReplayKey) (fingerprint : RequestFingerprint) (receiver : Channel) (w : World) : Prop where
  known : receiver < w.channels
  waits : ∀ lease, w.WaitsOn receiver lease → lease.request = key ∧ lease.fingerprint = fingerprint
  delivered : ∀ reply, (receiver, .ok reply) ∈ w.deliveries →
    ∃ generation, made ⟨key, fingerprint, generation⟩ reply

variable {made} {cache : ReplayCache} {w w' : World} {e : Event}

namespace Sourced

theorem new (clock : Nat) : Sourced made (World.new clock) where
  completed := nofun
  completing := nofun

theorem step (h : Sourced made w) (hsound : Sound cache w)
    (hcompact : ∀ entry reply (alloc : Allocator), made entry reply → made entry (reply.replayStorage alloc).1)
    (hstep : Step cache w e w') (hmade : ∀ lease reply alloc, e = .prepare lease reply alloc → made lease reply) :
    Sourced made w' where
  completed entry reply bytes at' hentry := by
    rcases completed_of_step hsound hstep hentry with hbefore | ⟨original, alloc, eligible, hlease, rfl⟩
    · exact h.completed entry reply bytes at' hbefore
    · exact hcompact entry original alloc (h.completing entry original alloc eligible hlease)
  completing lease reply alloc eligible hlease := by
    rcases completing_of_step hstep hlease with hbefore | hprepare
    · exact h.completing lease reply alloc eligible hbefore
    · exact hmade lease reply alloc hprepare

/-- What `begin` replays was made for the request. -/
theorem of_replay (h : Sourced made w) (hsound : Sound cache w) {key : ReplayKey} {fingerprint : RequestFingerprint}
    (hbegin : (w.begin cache now key fingerprint).1 = .ok (.replay reply)) :
    ∃ generation, made ⟨key, fingerprint, generation⟩ reply := by
  obtain ⟨expired, outcome, after, hexpire, -, hcase, heq⟩ := hsound.begin_cases now key fingerprint
  rw [heq] at hbegin
  subst hbegin
  cases hcase with
  | replay generation _ bytes at' _ hentry =>
    exact ⟨generation, h.completed _ reply bytes at' (hexpire.completed_of_after hentry)⟩

end Sourced

namespace Awaits

variable {key : ReplayKey} {fingerprint : RequestFingerprint} {receiver : Channel}

theorem step (h : Awaits made key fingerprint receiver w) (hsourced : Sourced made w) (hsound : Sound cache w)
    (hstep : Step cache w e w') : Awaits made key fingerprint receiver w' where
  known := by
    cases waiterStep hsound hstep with
    | quiet _ _ _ _ hchannels => exact Nat.lt_of_lt_of_le h.known hchannels
    | resolve _ _ _ _ _ _ _ _ hchannels => exact hchannels ▸ h.known
  waits lease hwaits := h.waits lease (waitsOn_of_step hsound hstep h.known hwaits)
  delivered reply hdelivered := by
    rcases delivered_of_step hsound hstep hdelivered with hbefore | ⟨lease, alloc, eligible, hlease, hwaits⟩
    · exact h.delivered reply hbefore
    · obtain ⟨rfl, rfl⟩ := h.waits lease hwaits
      exact ⟨lease.generation, hsourced.completing lease reply alloc eligible hlease⟩

/-- A receiver handed out by `begin` waits for the request. -/
theorem of_wait (hsound : Sound cache w) (hnumbered : Numbered w)
    (hbegin : (w.begin cache now key fingerprint).1 = .ok (.wait receiver)) :
    Awaits made key fingerprint receiver (w.begin cache now key fingerprint).2 := by
  obtain ⟨hknown, generation, -, htracked⟩ := Tracked.of_wait hsound hnumbered hbegin
  cases htracked with
  | pending _ _ hnone honly =>
    refine ⟨hknown, ?_, fun reply hreply => ?_⟩
    · rintro lease ⟨waiters, hentry, hmem⟩
      rw [honly lease waiters hentry hmem]
      exact ⟨rfl, rfl⟩
    · rw [World.deliveriesTo, List.filter_eq_nil_iff] at hnone
      exact absurd (decide_eq_true rfl) (hnone _ hreply)
  | resolved _ _ _ hmem => cases hmem

end Awaits

end NfsEmbed.Replay
