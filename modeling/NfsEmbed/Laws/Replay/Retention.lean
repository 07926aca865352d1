import NfsEmbed.Laws.Replay.Expiry

/-!
# Retention over runs

A reply is retained exactly when it fits, at the price of the fewest oldest replies. A reply that was
not retained is not replayed later: its generation is gone for good.

The law is `retention_exact`.
-/

namespace NfsEmbed.Replay

open Lib Rpc

/-- The leases a run stored the replies of, in order. -/
def completions (trace : List (Edge World Event)) : List ReplayEntryKey :=
  trace.filterMap fun edge => edge.event.stored

section Runs

variable {cache : ReplayCache} {w w' : World} {e : Event} {lease : ReplayEntryKey}
  {reply : EncodedReply} {alloc : Allocator} {eligible : Bool}

/-- What the first lock section found out about a reply still holds if its generation is the latest
at the second. -/
def Primed (cache : ReplayCache) (w : World) : Prop :=
  ∀ lease reply alloc eligible, w.leases.lookup lease = some (.completing reply alloc eligible) →
    w.inner.isLatest lease = true → eligible = decide (reply.len ≤ cache.maxCompletedBytes)

namespace Primed

theorem new (clock : Nat) : Primed cache (World.new clock) := by
  intro lease reply alloc eligible hphase
  cases hphase

/-- A lease that is completing already was, or has just been prepared. -/
theorem completing_of_step (hstep : Step cache w e w')
    (hphase : w'.leases.lookup lease = some (.completing reply alloc eligible)) :
    w.leases.lookup lease = some (.completing reply alloc eligible) ∨
      w.leases.lookup lease = some .held ∧ w'.inner = w.inner ∧
        eligible = cache.eligibleBeforeCopy lease reply w.inner := by
  cases hstep with
  | begin =>
    left
    unfold World.begin at hphase
    dsimp only at hphase
    split at hphase
    next opened _ =>
      rw [Table.lookup_insert_eq] at hphase
      split at hphase
      next => cases hphase
      next => exact hphase
    next => exact hphase
  | prepare _ _ _ hheld =>
    unfold World.prepare at hphase
    rw [Table.lookup_insert_eq] at hphase
    split at hphase
    next heq =>
      cases hphase
      exact .inr ⟨heq ▸ hheld, rfl, heq ▸ rfl⟩
    next => exact .inl hphase
  | store other | cancel other | drop other =>
    left
    change AList.lookup lease (w.leases.erase other) = _ at hphase
    rw [Table.lookup_erase_eq] at hphase
    split at hphase
    next => cases hphase
    next => exact hphase
  | close | tick => exact .inl hphase

theorem step (h : Primed cache w) (hsound : Sound cache w) (hstep : Step cache w e w') : Primed cache w' := by
  intro lease reply alloc eligible hphase hlatest
  have hmem : ∀ {phase}, w.leases.lookup lease = some phase → lease ∈ w.inner.entries := by
    intro phase hphase
    obtain ⟨waiters, hentry⟩ := hsound.inFlight_of_lease hphase
    exact AList.lookup_isSome.mp (by rw [hentry]; rfl)
  rcases completing_of_step hstep hphase with hbefore | ⟨hheld, hinner, rfl⟩
  · exact h lease reply alloc eligible hbefore
      ((innerStep hsound hstep).isLatest_of_after hsound.consistent (hmem hbefore) hlatest)
  · rw [hinner] at hlatest
    obtain ⟨waiters, hentry⟩ := hsound.inFlight_of_lease hheld
    unfold ReplayCache.eligibleBeforeCopy
    rw [hlatest, CacheInner.isInFlight_of_lookup hentry, Bool.and_self, Bool.or_true, Bool.and_true]

theorem reachable (h : (machine cache).Reachable w) : Primed cache w := by
  have hboth : Sound cache w ∧ Primed cache w := by
    refine h.invariant (I := fun w => Sound cache w ∧ Primed cache w) ?_
      fun _ _ _ hw hstep => ⟨hw.1.step hstep, hw.2.step hw.1 hstep⟩
    rintro _ ⟨clock, rfl⟩
    exact ⟨Sound.new clock, Primed.new clock⟩
  exact hboth.2

end Primed

/-- The entry of a generation is gone for good. -/
structure Gone (key : ReplayEntryKey) (w : World) : Prop where
  notMem : key ∉ w.inner.entries
  issued : key.generation < w.inner.nextGeneration

/-- A generation that is gone does not come back. -/
theorem Gone.step {key : ReplayEntryKey} (h : Gone key w) (hsound : Sound cache w)
    (hstep : Step cache w e w') : Gone key w' := by
  have hinner := innerStep hsound hstep
  refine ⟨fun hmem => ?_, UInt64.lt_of_lt_of_le h.issued (hinner.nextGeneration_le hsound.consistent)⟩
  rcases hinner.mem_of_after hsound.consistent hmem with hmem | heq
  · exact h.notMem hmem
  · have hissued := h.issued
    rw [heq] at hissued
    exact UInt64.lt_irrefl _ hissued

theorem Gone.run {key : ReplayEntryKey} (h : Gone key w) (hreach : (machine cache).Reachable w)
    {trace : List (Edge World Event)} (hrun : (machine cache).Run w trace w') : Gone key w' :=
  hrun.keeps (P := fun _ w => Gone key w)
    (fun _ _ _ _ hs hgone hstep => hgone.step (Sound.reachable hs) hstep) hreach h

/-- The live members are the completed entries in the order a run completed them. -/
structure InOrder (trace : List (Edge World Event)) (w : World) : Prop where
  live_eq : w.inner.live = (completions trace).filter w.inner.isCompleted
  notInFlight : ∀ key ∈ completions trace, w.inner.isInFlight key = false
  issued : ∀ key ∈ completions trace, key.generation < w.inner.nextGeneration

namespace InOrder

variable {trace : List (Edge World Event)}

/-- The completions of a run are in the order of its events. -/
theorem completions_snoc (trace : List (Edge World Event)) (edge : Edge World Event) :
    completions (trace ++ [edge]) = completions trace ++ edge.event.stored.toList := by
  unfold completions
  rw [List.filterMap_append]
  cases h : edge.event.stored with
  | none | some => simp [h]

/-- What is left of the live members keeps its order. -/
theorem live_of_suffix {before after : CacheInner} {list : List ReplayEntryKey}
    (hlive : before.live = list.filter before.isCompleted) (hbefore : Consistent before)
    (hafter : Consistent after) (hsuffix : after.completedOrder <:+ before.completedOrder)
    (hcompleted : ∀ key, after.isCompleted key = true → before.isCompleted key = true) :
    after.live = list.filter after.isCompleted := by
  have hboth : ∀ list : List ReplayEntryKey,
      list.filter after.isCompleted = (list.filter before.isCompleted).filter after.isCompleted := by
    intro list
    rw [List.filter_filter]
    refine List.filter_congr fun key _ => ?_
    rw [Bool.eq_iff_iff, Bool.and_eq_true]
    exact ⟨fun hkey => ⟨hkey, hcompleted key hkey⟩, And.left⟩
  calc after.live
    _ = before.completedOrder.filter after.isCompleted :=
      hafter.live_of_suffix hbefore.order_nodup hsuffix
    _ = before.live.filter after.isCompleted := hboth _
    _ = list.filter after.isCompleted := by rw [hlive, ← hboth]

/-- A retained reply is the youngest live member. -/
theorem live_retained {mid : CacheInner} {stored : EncodedReply} {bytes now : Nat}
    (hnotMem : lease ∉ mid.completedOrder) :
    (mid.pushCompleted lease stored bytes now).compactCompletionOrder.live = mid.live ++ [lease] := by
  have hself : (mid.pushCompleted lease stored bytes now).isCompleted lease = true :=
    CacheInner.isCompleted_of_lookup (AList.lookup_insert _)
  have hother : mid.completedOrder.filter (mid.pushCompleted lease stored bytes now).isCompleted =
      mid.live := by
    refine List.filter_congr fun key hkey => CacheInner.isCompleted_congr (AList.lookup_insert_ne ?_)
    exact fun heq => hnotMem (heq ▸ hkey)
  have hcompact : ∀ inner : CacheInner, inner.compactCompletionOrder.live = inner.live := by
    intro inner
    unfold CacheInner.compactCompletionOrder CacheInner.live
    dsimp only
    split
    · rw [List.filter_filter]
      exact List.filter_congr fun key _ => Bool.and_self _
    · rfl
  rw [hcompact]
  change (mid.completedOrder ++ [lease]).filter _ = _
  rw [List.filter_append, hother, List.filter_cons_of_pos hself, List.filter_nil]

theorem nil (clock : Nat) : InOrder [] (World.new clock) where
  live_eq := rfl
  notInFlight := nofun
  issued := nofun

theorem step (h : InOrder trace w) (hsound : Sound cache w) (hstep : Step cache w e w') :
    InOrder (trace ++ [⟨w, e, w'⟩]) w' := by
  have hinner := innerStep hsound hstep
  have hsound' := hsound.step hstep
  refine ⟨?_, ?_, ?_⟩
  · rw [completions_snoc]
    rcases hinner.shrinks_or_retained hsound.consistent with ⟨hsuffix, hcompleted⟩ |
      ⟨lease, stored, bytes, removed, mid, hevent, hflight, htrim, hsuffix, hafter⟩
    · have hisCompleted : ∀ key, w'.inner.isCompleted key = true → w.inner.isCompleted key = true := by
        intro key hkey
        obtain ⟨reply, bytes, at', hlookup⟩ := CacheInner.isCompleted_iff.mp hkey
        exact CacheInner.isCompleted_of_lookup (hcompleted key reply bytes at' hlookup)
      have hstored : e.stored.toList.filter w'.inner.isCompleted = [] := by
        rw [List.filter_eq_nil_iff]
        intro lease hlease hkey
        have hflight := hinner.isInFlight_of_stored (Option.mem_toList.mp hlease)
        rw [CacheInner.not_isInFlight_of_isCompleted (hisCompleted lease hkey)] at hflight
        cases hflight
      rw [List.filter_append, hstored, List.append_nil]
      exact live_of_suffix h.live_eq hsound.consistent hsound'.consistent hsuffix hisCompleted
    · have hmid := live_of_suffix h.live_eq hsound.consistent htrim.consistent hsuffix
        fun key hkey => (htrim.isCompleted_iff.mp hkey).1
      have hnotMem : lease ∉ mid.completedOrder := by
        intro hmem
        rw [← htrim.isInFlight, htrim.consistent.order_not_inFlight lease hmem] at hflight
        cases hflight
      have hentries : w'.inner.entries = (mid.pushCompleted lease stored bytes w.clock).entries := by
        rw [hafter, CacheInner.compactCompletionOrder_entries]
      have hself : w'.inner.isCompleted lease = true :=
        CacheInner.isCompleted_of_lookup (by rw [hentries]; exact AList.lookup_insert _)
      have hother : (completions trace).filter w'.inner.isCompleted =
          (completions trace).filter mid.isCompleted := by
        refine List.filter_congr fun key hkey => CacheInner.isCompleted_congr ?_
        rw [hentries]
        refine AList.lookup_insert_ne fun heq => ?_
        rw [← heq, h.notInFlight key hkey] at hflight
        cases hflight
      rw [List.filter_append, hother, ← hmid, hevent, Option.toList_some, List.filter_cons_of_pos hself,
        List.filter_nil, hafter]
      exact live_retained hnotMem
  · intro key hkey
    rw [Bool.eq_false_iff]
    intro hflight
    obtain ⟨hne, hbefore⟩ := hinner.isInFlight_of_after hsound.consistent hflight
    rw [completions_snoc, List.mem_append, Option.mem_toList] at hkey
    rcases hkey with hkey | hkey
    · rcases hbefore with hbefore | hnew
      · rw [h.notInFlight key hkey] at hbefore
        cases hbefore
      · have hissued := h.issued key hkey
        rw [hnew] at hissued
        exact UInt64.lt_irrefl _ hissued
    · exact hne hkey
  · intro key hkey
    have hle := hinner.nextGeneration_le hsound.consistent
    rw [completions_snoc, List.mem_append, Option.mem_toList] at hkey
    rcases hkey with hkey | hkey
    · exact UInt64.lt_of_lt_of_le (h.issued key hkey) hle
    · obtain ⟨waiters, hentry⟩ := CacheInner.isInFlight_iff.mp (hinner.isInFlight_of_stored hkey)
      exact UInt64.lt_of_lt_of_le (hsound.consistent.entry_generation_lt key
        (AList.lookup_isSome.mp (by rw [hentry]; rfl))) hle

theorem run {s : World} (hstart : (machine cache).Start s) (hrun : (machine cache).Run s trace w) :
    InOrder trace w := by
  obtain ⟨clock, rfl⟩ := hstart
  exact hrun.keeps (P := InOrder) (fun _ _ _ _ hs h hstep => h.step (Sound.reachable hs) hstep)
    ⟨_, [], ⟨clock, rfl⟩, .nil⟩ (nil clock)

end InOrder

/-! ## The second lock section of `complete` -/

/-- A reply of the latest generation that fits by itself is retained, at the price of the shortest front
part of the live members. -/
theorem store_retained (hsound : Sound cache w) (hprimed : Primed cache w)
    (hphase : w.leases.lookup lease = some (.completing reply alloc eligible))
    (hmemory : FitsMemory cache w (reply.charge alloc)) (hlatest : w.inner.isLatest lease = true)
    (hcharge : reply.charge alloc ≤ cache.maxCompletedBytes) :
    ∃ evicted, ShortestFront (w.inner.RoomWithout cache.maxCompletedBytes (reply.charge alloc))
        w.inner.live evicted ∧
      ∀ other, (w.store cache lease reply alloc eligible).inner.entries.lookup other =
        if other = lease then
          some (.completed (reply.replayStorage alloc).1 (reply.charge alloc) w.clock)
        else if other ∈ evicted then none else w.inner.entries.lookup other := by
  have heligible : eligible = true := by
    rw [hprimed lease reply alloc eligible hphase hlatest, decide_eq_true_eq]
    exact Nat.le_trans (reply.len_le_charge alloc) hcharge
  subst heligible
  obtain ⟨waiters, hentry⟩ := hsound.inFlight_of_lease hphase
  obtain ⟨evicted, htrim, hshortest⟩ := hsound.consistent.makeRoom_shortest hcharge
    (by rw [hsound.consistent.bytes_eq]; exact hmemory) (w.inner.completedOrder.length + 1)
    (Nat.lt_succ_self _)
  refine ⟨evicted, hshortest, fun other => ?_⟩
  have hcompletion := (complete_completion cache hsound.consistent hentry w.clock reply
    (some (reply.replayStorage alloc))).1
  change (cache.complete w.clock lease reply (some (reply.replayStorage alloc)) w.inner).1.entries.lookup
    other = _
  generalize (cache.complete w.clock lease reply (some (reply.replayStorage alloc)) w.inner).1 = after
    at hcompletion
  cases hcompletion with
  | stale hstale =>
    rw [hlatest] at hstale
    cases hstale
  | unretained _ hover => exact absurd (hover _ _ rfl) (Nat.not_lt_of_le hcharge)
  | retained stored bytes _ hstored =>
    obtain ⟨rfl, rfl⟩ : (reply.replayStorage alloc).1 = stored ∧ reply.charge alloc = bytes :=
      ⟨congrArg Prod.fst (Option.some.inj hstored), congrArg Prod.snd (Option.some.inj hstored)⟩
    rw [CacheInner.compactCompletionOrder_entries]
    unfold CacheInner.pushCompleted
    rw [Table.lookup_insert_eq, htrim.entries]

/-- A reply that is stale or does not fit by itself leaves all other entries as they are. -/
theorem store_unretained (hsound : Sound cache w)
    (hphase : w.leases.lookup lease = some (.completing reply alloc eligible))
    (hnot : w.inner.isLatest lease = false ∨ cache.maxCompletedBytes < reply.charge alloc) :
    (w.store cache lease reply alloc eligible).inner.entries = w.inner.entries.erase lease ∧
      Gone lease (w.store cache lease reply alloc eligible) := by
  obtain ⟨waiters, hentry⟩ := hsound.inFlight_of_lease hphase
  have hissued := hsound.consistent.entry_generation_lt lease
    (AList.lookup_isSome.mp (by rw [hentry]; rfl))
  have hgone : lease ∉ w.inner.entries.erase lease := fun hmem => (AList.mem_erase.mp hmem).1 rfl
  have hcompletion := (complete_completion cache hsound.consistent hentry w.clock reply
    (if eligible then some (reply.replayStorage alloc) else none)).1
  generalize hafter : (cache.complete w.clock lease reply
    (if eligible then some (reply.replayStorage alloc) else none) w.inner).1 = after at hcompletion
  have hinner : (w.store cache lease reply alloc eligible).inner = after := hafter
  cases hcompletion with
  | stale | unretained => exact ⟨by rw [hinner], by rw [hinner]; exact hgone, by rw [hinner]; exact hissued⟩
  | retained _ bytes hlatest hstorage =>
    split at hstorage
    next =>
      have hcharge : reply.charge alloc = bytes := congrArg Prod.snd (Option.some.inj hstorage)
      rcases hnot with hstale | hover
      · rw [hlatest] at hstale
        cases hstale
      · omega
    next => cases hstorage

/-- Retention is guaranteed and evicts minimally. Whatever other callers do between the two lock
sections of `complete`, a reply whose generation is still the latest is retained exactly if its charge
is within the budget, and the entries evicted for it are the shortest front part, in the order of
completion, of the completed entries that makes room. Otherwise no other entry changes, and no later
replay is served from the generation. -/
theorem retention_exact {s w₀ w₁ w₂ w₃ : World} {before between : List (Edge World Event)}
    (hstart : (machine cache).Start s) (hbefore : (machine cache).Run s before w₀)
    (hprepare : Step cache w₀ (.prepare lease reply alloc) w₁)
    (hbetween : (machine cache).Run w₁ between w₂)
    (hstore : Step cache w₂ (.store lease reply alloc) w₃) :
    let history := before ++ [⟨w₀, .prepare lease reply alloc, w₁⟩] ++ between
    (w₂.inner.isLatest lease = true →
      (w₃.inner.isCompleted lease = true ↔ reply.charge alloc ≤ cache.maxCompletedBytes) ∧
      (w₃.inner.isCompleted lease = true →
        ∃ evicted, ShortestFront (w₂.inner.RoomWithout cache.maxCompletedBytes (reply.charge alloc))
            ((completions history).filter w₂.inner.isCompleted) evicted ∧
          ∀ other, w₃.inner.entries.lookup other =
            if other = lease then
              some (.completed (reply.replayStorage alloc).1 (reply.charge alloc) w₂.clock)
            else if other ∈ evicted then none else w₂.inner.entries.lookup other)) ∧
    (w₃.inner.isCompleted lease = false ∨ w₂.inner.isLatest lease = false →
      (∀ other, other ≠ lease → w₃.inner.entries.lookup other = w₂.inner.entries.lookup other) ∧
      ∀ w₄ later, (machine cache).Run w₃ later w₄ → w₄.inner.entries.lookup lease = none ∧
        ∀ now key fingerprint replayed, (w₄.begin cache now key fingerprint).1 = .ok (.replay replayed) →
          ∃ generation bytes at', (⟨key, fingerprint, generation⟩ : ReplayEntryKey) ≠ lease ∧
            w₄.inner.entries.lookup ⟨key, fingerprint, generation⟩ =
              some (.completed replayed bytes at')) := by
  intro history
  have hrun : (machine cache).Run s history w₂ := (hbefore.snoc hprepare).append hbetween
  have hreach : (machine cache).Reachable w₂ := ⟨s, history, hstart, hrun⟩
  have hsound := Sound.reachable hreach
  have hprimed := Primed.reachable hreach
  have hlive := (InOrder.run hstart hrun).live_eq
  have hreach' : (machine cache).Reachable w₃ := hreach.run (Machine.Run.nil.snoc hstore)
  cases hstore with
  | store _ _ _ eligible hphase hmemory =>
  rw [← hlive]
  have hretained := store_retained hsound hprimed hphase hmemory
  have hunretained := store_unretained hsound hphase
  generalize w₂.store cache lease reply alloc eligible = w₃ at hretained hunretained hreach' ⊢
  have hcompleted : w₂.inner.isLatest lease = true → reply.charge alloc ≤ cache.maxCompletedBytes →
      w₃.inner.isCompleted lease = true := by
    intro hlatest hcharge
    obtain ⟨evicted, _, hentries⟩ := hretained hlatest hcharge
    have hself := hentries lease
    rw [if_pos rfl] at hself
    exact CacheInner.isCompleted_of_lookup hself
  have hiff : w₂.inner.isLatest lease = true →
      (w₃.inner.isCompleted lease = true ↔ reply.charge alloc ≤ cache.maxCompletedBytes) := by
    intro hlatest
    refine ⟨fun hkey => ?_, hcompleted hlatest⟩
    by_contra hover
    obtain ⟨reply', bytes, at', hlookup⟩ := CacheInner.isCompleted_iff.mp hkey
    have hgone := (hunretained (.inr (Nat.lt_of_not_le hover))).2.notMem
    exact hgone (AList.lookup_isSome.mp (by rw [hlookup]; rfl))
  refine ⟨fun hlatest => ⟨hiff hlatest, fun hkey => hretained hlatest ((hiff hlatest).mp hkey)⟩, ?_⟩
  intro hnot
  have hnot' : w₂.inner.isLatest lease = false ∨ cache.maxCompletedBytes < reply.charge alloc := by
    cases hlatest : w₂.inner.isLatest lease with
    | false => exact .inl rfl
    | true =>
      right
      rcases hnot with hnot | hstale
      · rw [← Nat.not_le]
        intro hcharge
        rw [hcompleted hlatest hcharge] at hnot
        cases hnot
      · rw [hlatest] at hstale
        cases hstale
  obtain ⟨hentries, hgone⟩ := hunretained hnot'
  refine ⟨fun other hne => ?_, fun w₄ later hlater => ?_⟩
  · rw [hentries, AList.lookup_erase_ne hne]
  · have hgone₄ := AList.lookup_eq_none.mpr (hgone.run hreach' hlater).notMem
    have hreach₄ := hreach'.run hlater
    have hsound₄ := Sound.reachable hreach₄
    refine ⟨hgone₄, fun now key fingerprint replayed hreplay => ?_⟩
    obtain ⟨generation, bytes, at', _, hentry, _⟩ := (begin_replay_iff hsound₄.consistent
      (Timed.reachable hreach₄).sorted hsound₄.size_le (· ∈ w₄.closed) now w₄.channels key fingerprint
      replayed).mp hreplay
    refine ⟨generation, bytes, at', fun heq => ?_, hentry⟩
    rw [heq, hgone₄] at hentry
    cases hentry

end Runs

namespace Sample

/-- There is room for one reply of eight bytes. -/
def tight : ReplayCache := ⟨2, 10, 10, by decide⟩

def nextLease : ReplayEntryKey := ⟨requestWith 8, fingerprint, 1⟩

def opened : World := ((World.new 0).begin tight 0 key fingerprint).2

def prepared : World := opened.prepare tight lease reply alloc

def stored : World := prepared.store tight lease reply alloc true

def reopened : World := (stored.begin tight 0 (requestWith 8) fingerprint).2

def reprepared : World := reopened.prepare tight nextLease reply alloc

def restored : World := reprepared.store tight nextLease reply alloc true

end Sample

/-- The second reply is retained, and the first is evicted for it. -/
theorem retention_exact_tight :
    Sample.reprepared.inner.isCompleted Sample.lease = true ∧
      Sample.restored.inner.isCompleted Sample.nextLease = true ∧
      Sample.restored.inner.isCompleted Sample.lease = false :=
  have hopened : Step Sample.tight (World.new 0) _ Sample.opened :=
    Step.begin (World.new 0) 0 Sample.key Sample.fingerprint (by decide) (by decide)
  have hstored := ((Machine.Run.nil (M := machine Sample.tight).snoc hopened).snoc
    (Step.prepare Sample.opened Sample.lease Sample.reply Sample.alloc rfl)).snoc
    (Step.store Sample.prepared Sample.lease Sample.reply Sample.alloc true rfl (.inl (by decide)))
  have hreopened := hstored.snoc
    (Step.begin Sample.stored 0 (Sample.requestWith 8) Sample.fingerprint (by decide) (by decide))
  ⟨rfl, ((retention_exact ⟨0, rfl⟩ hreopened
    (Step.prepare Sample.reopened Sample.nextLease Sample.reply Sample.alloc rfl) .nil
    (Step.store Sample.reprepared Sample.nextLease Sample.reply Sample.alloc true rfl
      (.inl (by decide)))).1 rfl).1.mpr (by decide), rfl⟩

end NfsEmbed.Replay
