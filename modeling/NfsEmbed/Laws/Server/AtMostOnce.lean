import NfsEmbed.Laws.Server.Leases
import NfsEmbed.Laws.Server.Budgets
import NfsEmbed.Laws.Replay.Steps

/-!
# A call is executed at most once

The cache decides under its lock, but what it hands out are leases, and executions are spawned later, by
tasks of any connection. A lease that has passed to an execution never comes back to a task, and two leases
for one call are granted only if the cache was made to forget the older one in between. So a call that runs
twice has been interrupted in one of the ways the cache lists (`executed_at_most_once`).
-/

namespace NfsEmbed.Server

open Lib Rpc Vfs Replay
open Prog (Follows)

/-! ## Grants -/

section Cache

variable {cache : ReplayCache} {w w' : World} {e : Event} {lease : ReplayEntryKey}

/-- A lease is unresolved from the step on that grants it. -/
theorem begin_of_mem_leases (hsound : Sound cache w) (hstep : Step cache w e w') (hnew : lease ∉ w.leases)
    (hmem : lease ∈ w'.leases) :
    ∃ now, Step cache w (.begin now lease.request lease.fingerprint (.ok (.execute lease))) w' := by
  have herase : ∀ resolved : ReplayEntryKey, lease ∉ w.leases.erase resolved :=
    fun resolved herased => hnew (AList.mem_erase.mp herased).2
  cases hstep with
  | begin now key fingerprint hnow hbegins =>
    cases hanswer : (w.begin cache now key fingerprint).1 with
    | error =>
      rw [begin_leases_of_ne_execute fun other => by rw [hanswer]; rintro ⟨⟩] at hmem
      exact absurd hmem hnew
    | ok decision =>
      cases decision with
      | execute =>
        rw [begin_leases_of_execute hanswer, AList.mem_insert] at hmem
        obtain rfl := hmem.resolve_right hnew
        obtain ⟨rfl, rfl, -⟩ := Remembers.of_execute hsound hanswer
        refine ⟨now, ?_⟩
        rw [← hanswer]
        exact .begin w now lease.request lease.fingerprint hnow hbegins
      | wait | replay =>
        rw [begin_leases_of_ne_execute fun other => by rw [hanswer]; rintro ⟨⟩] at hmem
        exact absurd hmem hnew
  | prepare _ _ _ hother =>
    rcases (AList.mem_insert _).mp hmem with rfl | hmem
    · exact absurd (AList.lookup_isSome.mp (by rw [hother]; rfl)) hnew
    · exact absurd hmem hnew
  | store other | cancel other | drop other => exact absurd hmem (herase other)
  | close | tick => exact absurd hmem hnew

/-- A granted lease has the next generation. -/
theorem generation_of_mem_leases (hsound : Sound cache w) (hstep : Step cache w e w') (hnew : lease ∉ w.leases)
    (hmem : lease ∈ w'.leases) : lease.generation = w.inner.nextGeneration := by
  have hflight := ((hsound.step hstep).lease_iff lease).mp hmem
  refine ((innerStep hsound hstep).isInFlight_of_after hsound.consistent hflight).2.resolve_left fun hbefore => ?_
  exact hnew ((hsound.lease_iff lease).mpr hbefore)

/-- Generations are given out below the next one. -/
theorem generation_lt_of_mem (hsound : Sound cache w) (hmem : lease ∈ w.leases) :
    lease.generation < w.inner.nextGeneration := by
  obtain ⟨phase, hphase⟩ := Option.isSome_iff_exists.mp (AList.lookup_isSome.mpr hmem)
  obtain ⟨waiters, hentry⟩ := hsound.inFlight_of_lease hphase
  exact hsound.consistent.entry_generation_lt lease (AList.lookup_isSome.mp (by rw [hentry]; rfl))

/-- A lease that is granted is remembered. -/
theorem remembers_of_begin (hsound : Sound cache w) {now : Nat} {key : ReplayKey} {fingerprint : RequestFingerprint}
    (hstep : Step cache w (.begin now key fingerprint (.ok (.execute lease))) w') : Remembers cache lease [] w' := by
  generalize hdecision : Except.ok (ReplayDecision.execute lease) = decision at hstep
  cases hstep with
  | begin => exact (Remembers.of_execute hsound hdecision.symm).2.2

/-- Another lease for a remembered call interrupts it. -/
theorem interrupts_of_begin {trace : List (Edge World Event)} (hsound : Sound cache w)
    (hremembers : Remembers cache lease trace w) {now : Nat} {lease' : ReplayEntryKey}
    (hstep : Step cache w (.begin now lease.request lease.fingerprint (.ok (.execute lease'))) w') :
    Interrupts cache lease ⟨w, .begin now lease.request lease.fingerprint (.ok (.execute lease')), w'⟩ := by
  have hanswered := hremembers.answered hsound now
  generalize hdecision : Except.ok (ReplayDecision.execute lease') = decision at hstep ⊢
  cases hstep with
  | begin =>
    refine hanswered.resolve_left ?_
    rw [← hdecision]
    rintro (⟨-, receiver, waiters, heq, -⟩ | ⟨-, reply, alloc, stored, -, heq, -⟩)
    · cases heq
    · cases heq

end Cache

section Step

variable {state : ConnectionState} {cache : ReplayCache} {socket : Writer} {shared shared' : Shared}
  {connection connection' : Connection} {event : ConnectionEvent}

/-- A step of a connection is at most one step of the cache. -/
theorem ConnectionStep.world (h : ConnectionStep state cache socket shared connection event shared' connection') :
    shared'.world = shared.world ∨ ∃ e, Step cache shared.world e shared'.world := by
  have hserved : ∀ {op : ServerOp} {answer : op.Answer} {shared' : Shared}, Served cache shared op answer shared' →
      shared'.world = shared.world ∨ ∃ e, Step cache shared.world e shared'.world := by
    intro op answer shared' hserved
    have hadvances : Origin.Advances (Proper state) cache shared.world shared'.world := Origin.advances_of_served hserved
    exact hadvances.imp_right fun ⟨e, _, hstep⟩ => ⟨e, hstep⟩
  cases h with
  | ask _ _ _ _ _ _ _ _ _ _ hanswer | execute _ _ _ _ _ _ _ _ _ _ _ hanswer => exact hserved hanswer
  | dropLease _ _ _ _ _ lease _ _ _ hlease | aborted _ _ _ _ lease _ _ _ _ hlease =>
    exact .inr ⟨_, .drop _ lease hlease⟩
  | dropReceiver _ _ _ _ _ receiver _ _ _ hreceiver =>
    exact .inr ⟨_, .close _ receiver hreceiver⟩
  | prepare _ _ _ _ _ _ completed reply _ alloc _ hlease =>
    exact .inr ⟨_, .prepare _ completed reply alloc hlease⟩
  | _ => exact .inl rfl

/-- Leases that were passed on. -/
def Connection.executionLeases (connection : Connection) : List ReplayEntryKey :=
  connection.executions.flatMap Execution.leases

end Step

/-! ## Runs -/

/-- The step grants the lease. -/
def Granted (lease : ReplayEntryKey) (edge : Edge ServerState ServerEvent) : Prop :=
  lease ∉ edge.source.shared.world.leases ∧ lease ∈ edge.target.shared.world.leases

/-- A task passes the lease on to its execution. -/
def HandsOver (lease : ReplayEntryKey) (edge : Edge ServerState ServerEvent) : Prop :=
  ∃ index, lease ∈ (edge.source.connections index).taskLeases ∧
    lease ∈ (edge.target.connections index).executionLeases

/-- The cache takes a step that interrupts the lease. -/
def Interrupted (cache : ReplayCache) (lease : ReplayEntryKey) (edge : Edge ServerState ServerEvent) : Prop :=
  ∃ event, Step cache edge.source.shared.world event edge.target.shared.world ∧
    Interrupts cache lease ⟨edge.source.shared.world, event, edge.target.shared.world⟩

section Runs

variable {state : ConnectionState} {cache : ReplayCache} {sockets : Nat → Writer} {server server' : ServerState}
  {event : ServerEvent} {trace : List (Edge ServerState ServerEvent)} {edge : Edge ServerState ServerEvent}
  {lease lease' : ReplayEntryKey}

/-- A step of the server is a step of the cache, or leaves it alone. -/
theorem ServerStep.world (h : ServerStep state cache sockets server event server') :
    server'.shared.world = server.shared.world ∨ ∃ e, Step cache server.shared.world e server'.shared.world := by
  cases h with
  | connection _ _ _ _ hstep => exact hstep.world
  | tick now hnow => exact .inr ⟨_, .tick _ now hnow⟩
  | signal => exact .inl rfl

theorem replay_of_reachable (h : (serverMachine state cache sockets).Reachable server) :
    (machine cache).Reachable server.shared.world := by
  refine h.project (N := machine cache) (fun server => server.shared.world) ?_ fun _ _ _ hstep => ServerStep.world hstep
  rintro start ⟨⟨clock, hshared⟩, -⟩
  exact ⟨clock, by rw [hshared]⟩

theorem nextGeneration_le_of_run (hreach : (serverMachine state cache sockets).Reachable server)
    (hrun : (serverMachine state cache sockets).Run server trace server') :
    server.shared.world.inner.nextGeneration ≤ server'.shared.world.inner.nextGeneration := by
  refine hrun.keeps_of_mem
    (P := fun s => server.shared.world.inner.nextGeneration ≤ s.shared.world.inner.nextGeneration) hreach
    (fun edge _ hedge hstep hle => ?_) (UInt64.le_refl _)
  rcases ServerStep.world hstep with hsame | ⟨e, hstep⟩
  · rwa [hsame]
  · have hsound := Sound.reachable (replay_of_reachable hedge)
    exact UInt64.le_trans hle ((innerStep hsound hstep).nextGeneration_le hsound.consistent)

/-- Who has a lease was granted it in the run. -/
theorem granted_of_mem (hstart : (serverMachine state cache sockets).Start server)
    (hrun : (serverMachine state cache sockets).Run server trace server')
    (hmem : lease ∈ server'.shared.world.leases) : ∃ edge ∈ trace, Granted lease edge := by
  refine Machine.Run.keeps (P := fun trace server => lease ∈ server.shared.world.leases → ∃ edge ∈ trace, Granted lease edge)
    ?_ ⟨server, [], hstart, .nil⟩ hrun ?_ hmem
  · intro trace source event target _ hbefore _ hmem
    by_cases hold : lease ∈ source.shared.world.leases
    · obtain ⟨edge, hedge, hgranted⟩ := hbefore hold
      exact ⟨edge, List.mem_append_left _ hedge, hgranted⟩
    · exact ⟨_, List.mem_append_right _ (List.mem_singleton_self _), hold, hmem⟩
  · intro hmem
    obtain ⟨⟨clock, hshared⟩, -⟩ := hstart
    rw [hshared] at hmem
    exact absurd hmem (AList.notMem_empty lease)

/-- A lease that is granted has the next generation. -/
theorem Granted.step (h : Granted lease edge) (hreach : (serverMachine state cache sockets).Reachable edge.source)
    (hstep : ServerStep state cache sockets edge.source edge.event edge.target) :
    lease.generation = edge.source.shared.world.inner.nextGeneration ∧
    ∃ now, Step cache edge.source.shared.world (.begin now lease.request lease.fingerprint (.ok (.execute lease)))
      edge.target.shared.world := by
  have hsound := Sound.reachable (replay_of_reachable hreach)
  rcases hstep.world with hsame | ⟨e, hstep⟩
  · exact absurd (hsame ▸ h.2) h.1
  · exact ⟨generation_of_mem_leases hsound hstep h.1 h.2, begin_of_mem_leases hsound hstep h.1 h.2⟩

/-- A lease is granted for the call of an earlier one only after an interruption of it. -/
theorem interrupted_of_granted {before between after : List (Edge ServerState ServerEvent)}
    {first second : Edge ServerState ServerEvent} (hstart : (serverMachine state cache sockets).Start server)
    (hrun : (serverMachine state cache sockets).Run server ((before ++ first :: between) ++ second :: after) server')
    (hfirst : Granted lease first) (hsecond : Granted lease' second) (hrequest : lease.request = lease'.request)
    (hfingerprint : lease.fingerprint = lease'.fingerprint) :
    ∃ edge ∈ between ++ [second], Interrupted cache lease edge := by
  obtain ⟨hboth, hagain, -⟩ := hrun.split_cons
  obtain ⟨hbefore, hgrant, hbetween⟩ := hboth.split_cons
  have hreach : (serverMachine state cache sockets).Reachable first.source := ⟨server, before, hstart, hbefore⟩
  have hreach' := hreach.run (Machine.Run.nil.snoc hgrant)
  obtain ⟨-, now, hbegin⟩ := hfirst.step hreach hgrant
  obtain ⟨-, now', hbegin'⟩ := hsecond.step (hreach'.run hbetween) hagain
  rw [← hrequest, ← hfingerprint] at hbegin'
  obtain ⟨trace', hrun', hedges⟩ := hbetween.project (N := machine cache) (fun server => server.shared.world)
    fun _ _ _ hstep => ServerStep.world hstep
  have hremembers := remembers_of_begin (Sound.reachable (replay_of_reachable hreach)) hbegin
  rcases hremembers.run (replay_of_reachable hreach') hrun' with hremembers | ⟨edge', hedge', hinterrupts⟩
  · refine ⟨second, List.mem_append_right _ (List.mem_singleton_self _), _, hbegin', ?_⟩
    exact interrupts_of_begin (Sound.reachable (replay_of_reachable (hreach'.run hbetween))) hremembers hbegin'
  · obtain ⟨edge, hedge, hsource, htarget⟩ := hedges edge' hedge'
    obtain ⟨-, hstep⟩ := hrun'.edge (replay_of_reachable hreach') hedge'
    refine ⟨edge, List.mem_append_left _ hedge, edge'.event, ?_, ?_⟩
    · rw [← hsource, ← htarget]
      exact hstep
    · rw [← hsource, ← htarget]
      exact hinterrupts

/-- A lease that was passed on never comes back to a task. -/
structure Spent (lease : ReplayEntryKey) (server : ServerState) : Prop where
  generation : lease.generation < server.shared.world.inner.nextGeneration
  tasks : ∀ index, lease ∉ (server.connections index).taskLeases

theorem HandsOver.spent (h : HandsOver lease edge)
    (hreach : (serverMachine state cache sockets).Reachable edge.target) : Spent lease edge.target := by
  obtain ⟨index, -, hmem⟩ := h
  have hbook := leaseBook_of_reachable hreach
  have hmine : lease ∈ (edge.target.connections index).leases := List.mem_append_right _ hmem
  refine ⟨generation_lt_of_mem (Sound.reachable (replay_of_reachable hreach)) ((hbook.booked index).mem hmine), ?_⟩
  intro other hother
  cases hbook.exclusive.apart other index lease (List.mem_append_left _ hother) hmine
  exact List.disjoint_of_nodup_append (hbook.exclusive.once index) hother hmem

/-- A spent lease stays spent. -/
theorem Spent.step (h : Spent lease server)
    (hreach : (serverMachine state cache sockets).Reachable server)
    (hstep : ServerStep state cache sockets server event server') : Spent lease server' := by
  have hrun := Machine.Run.nil.snoc (M := serverMachine state cache sockets) hstep
  refine ⟨UInt64.lt_of_lt_of_le h.generation (nextGeneration_le_of_run hreach hrun), ?_⟩
  -- a lease that is granted in the step has a later generation
  have hold : ¬ Granted lease ⟨server, event, server'⟩ := by
    intro hgranted
    have hgeneration := (hgranted.step hreach hstep).1
    exact UInt64.lt_irrefl _ (hgeneration ▸ h.generation)
  cases hstep with
  | connection index _ _ connection hstep =>
    apply (Function.forall_update_iff server.connections fun _ connection => lease ∉ connection.taskLeases).mpr
    refine ⟨fun hmem => ?_, fun other _ => h.tasks other⟩
    have hbook := leaseBook_of_reachable hreach
    cases leaseStep (inProtocol_of_reachable hreach index) (hbook.booked index) (hbook.exclusive.once index)
        (Sound.reachable (replay_of_reachable hreach)) hstep with
    | kept _ _ _ hheld | resolved _ _ _ hheld => exact h.tasks index (hheld lease hmem)
    | granted _ hnew hleases _ hheld =>
      rcases hheld lease hmem with rfl | hbefore
      · exact hold ⟨hnew, hleases ▸ (AList.mem_insert _).mpr (.inl rfl)⟩
      · exact h.tasks index hbefore
  | tick | signal => exact h.tasks

/-- No lease is passed on twice. -/
theorem not_handsOver_of_handsOver
    (hreach : (serverMachine state cache sockets).Reachable edge.target) (h : HandsOver lease edge)
    (hrun : (serverMachine state cache sockets).Run edge.target trace server) {later : Edge ServerState ServerEvent}
    (hlater : later ∈ trace) : ¬ HandsOver lease later := by
  rintro ⟨index, hmem, -⟩
  obtain ⟨before, after, rfl⟩ := List.append_of_mem hlater
  obtain ⟨hbefore, -, -⟩ := hrun.split_cons
  have hspent : Spent lease later.source := hbefore.keeps_of_mem (P := Spent lease) hreach
    (fun _ _ hedge hstep hspent => hspent.step hedge hstep) (h.spent hreach)
  exact hspent.tasks index hmem

/-- A lease that is passed on was granted before. -/
theorem HandsOver.granted (hstart : (serverMachine state cache sockets).Start server)
    (hrun : (serverMachine state cache sockets).Run server trace edge.source) (h : HandsOver lease edge) :
    ∃ edge ∈ trace, Granted lease edge := by
  obtain ⟨index, hmem, -⟩ := h
  have hbook := leaseBook_of_reachable ⟨server, trace, hstart, hrun⟩
  exact granted_of_mem hstart hrun ((hbook.booked index).mem (List.mem_append_left _ hmem))

/-- Of two grants, that of the lower generation comes first. -/
theorem granted_before {before after : List (Edge ServerState ServerEvent)} {second : Edge ServerState ServerEvent}
    (hstart : (serverMachine state cache sockets).Start server)
    (hrun : (serverMachine state cache sockets).Run server (before ++ second :: after) server')
    (hsecond : Granted lease' second) (hedge : edge ∈ before ++ second :: after) (hgranted : Granted lease edge)
    (hlt : lease.generation < lease'.generation) : edge ∈ before := by
  refine (List.mem_append.mp hedge).resolve_right fun hafter => ?_
  obtain ⟨hbefore, hstep, hrest⟩ := hrun.split_cons
  have hreach : (serverMachine state cache sockets).Reachable second.source := ⟨server, before, hstart, hbefore⟩
  have hle : second.source.shared.world.inner.nextGeneration ≤ edge.source.shared.world.inner.nextGeneration := by
    rcases List.mem_cons.mp hafter with rfl | hafter
    · exact UInt64.le_refl _
    · obtain ⟨between, rest, rfl⟩ := List.append_of_mem hafter
      exact nextGeneration_le_of_run hreach ((Machine.Run.nil.snoc hstep).append hrest.split_cons.1)
  obtain ⟨hedgeReach, hedgeStep⟩ := hrun.edge ⟨server, [], hstart, .nil⟩ hedge
  rw [← (hsecond.step hreach hstep).1, ← (hgranted.step hedgeReach hedgeStep).1] at hle
  exact UInt64.lt_irrefl _ (UInt64.lt_of_lt_of_le hlt hle)

end Runs

/-- A run of any number of connections executes a call at most once, unless the cache is interrupted. Each lease
is passed on to an execution at most once; and if executions were spawned for two leases of one call, on the same
or on different connections and in whatever order, then the older lease was interrupted before the execution for
the newer one was spawned: cancelled, dropped, superseded, evicted, expired, or completed with a reply that was
not retained. -/
theorem executed_at_most_once (state : ConnectionState) (cache : ReplayCache) (sockets : Nat → Writer)
    (server server' : ServerState) (before after : List (Edge ServerState ServerEvent)) (edge : Edge ServerState ServerEvent)
    (hstart : (serverMachine state cache sockets).Start server)
    (hrun : (serverMachine state cache sockets).Run server (before ++ edge :: after) server')
    (lease : ReplayEntryKey) (hlease : HandsOver lease edge) :
    (∀ other ∈ before ++ after, ¬ HandsOver lease other) ∧
    ∀ other ∈ before ++ after, ∀ older, HandsOver older other → older.request = lease.request →
      older.fingerprint = lease.fingerprint → older.generation < lease.generation →
      ∃ interruption ∈ before, Interrupted cache older interruption := by
  have hreach : (serverMachine state cache sockets).Reachable server := ⟨server, [], hstart, .nil⟩
  obtain ⟨hbefore, hstep, hafter⟩ := hrun.split_cons
  refine ⟨fun other hother hagain => ?_, fun other hother older holder hrequest hfingerprint hlt => ?_⟩
  · rcases List.mem_append.mp hother with hother | hother
    · obtain ⟨earlier, between, rfl⟩ := List.append_of_mem hother
      rw [List.append_assoc, List.cons_append] at hrun
      obtain ⟨hearlier, hother, hrest⟩ := hrun.split_cons
      exact not_handsOver_of_handsOver ((hreach.run hearlier).run (Machine.Run.nil.snoc hother)) hagain hrest
        (List.mem_append_right _ List.mem_cons_self) hlease
    · exact not_handsOver_of_handsOver ((hreach.run hbefore).run (Machine.Run.nil.snoc hstep)) hlease hafter
        hother hagain
  · obtain ⟨second, hsecond, hgranted⟩ := hlease.granted hstart hbefore
    obtain ⟨first, hfirst, hgranted'⟩ : ∃ first ∈ before ++ edge :: after, Granted older first := by
      have hmem : other ∈ before ++ edge :: after := by
        rcases List.mem_append.mp hother with hother | hother
        · exact List.mem_append_left _ hother
        · exact List.mem_append_right _ (List.mem_cons_of_mem _ hother)
      obtain ⟨earlier, later, hsplit⟩ := List.append_of_mem hmem
      rw [hsplit] at hrun ⊢
      obtain ⟨first, hfirst, hgranted⟩ := holder.granted hstart hrun.split_cons.1
      exact ⟨first, List.mem_append_left _ hfirst, hgranted⟩
    obtain ⟨earlier, later, rfl⟩ := List.append_of_mem hsecond
    rw [List.append_assoc, List.cons_append] at hrun hfirst
    have hfirst := granted_before hstart hrun hgranted hfirst hgranted' hlt
    obtain ⟨start, between, rfl⟩ := List.append_of_mem hfirst
    obtain ⟨interruption, hmem, hinterrupted⟩ :=
      interrupted_of_granted hstart hrun hgranted' hgranted hrequest hfingerprint
    refine ⟨interruption, ?_, hinterrupted⟩
    simp only [List.mem_append, List.mem_cons, List.not_mem_nil, or_false] at hmem ⊢
    tauto

/-! ## A call that is executed twice

A client sends one call on two connections. The execution for the first is aborted before that for the second is
spawned. -/

-- the record is read and dispatched by evaluating the readers
set_option maxRecDepth 20000

/-- From here, steps of one connection lead to this. -/
def ComesTo (server : ServerState) (index : Nat) (shared : Shared) (connection : Connection) : Prop :=
  ∃ trace, (serverMachine tightState Sample.cache sampleSockets).Run server trace
    ⟨shared, Function.update server.connections index connection⟩

theorem ComesTo.step {server : ServerState} {index : Nat} {shared shared' : Shared} {connection connection' : Connection}
    {event : ConnectionEvent} (h : ComesTo server index shared connection)
    (hstep : ConnectionStep tightState Sample.cache (byteWriter true) shared connection event shared' connection') :
    ComesTo server index shared' connection' := by
  obtain ⟨trace, hrun⟩ := h
  exact ⟨_, run_connection hrun hstep⟩

/-- The call is read, and its task started. -/
theorem ComesTo.handling {server : ServerState} {index : Nat}
    (hfresh : server.connections index = Connection.new (.v4 0 700) nullStream) :
    ComesTo server index server.shared
      (nullConnection (.handling ⟨[], dispatchRecord tightState (.v4 0 700) nullCall⟩) []) := by
  have hstart : ComesTo server index server.shared (Connection.new (.v4 0 700) nullStream) := by
    refine ⟨[], ?_⟩
    rw [← hfresh, Function.update_eq_self]
    exact .nil
  have hread : readRecordBudgeted tightState.limits.recordLimits nullStream = .ok (nullCall, bigHeader) := rfl
  exact (((hstart.step (.read nullCall bigHeader (.of_running nofun rfl rfl) rfl hread)).step
    (.enqueue nullCall (.of_running nofun rfl rfl) rfl rfl rfl (by decide))).step
    (.receive 0 nullCall [] (.of_running nofun rfl rfl) rfl rfl (by decide))).step
    (.start [] [] 0 nullCall rfl)

/-- The execution of the call, once it is spawned for a lease. -/
def nullExecution (lease : ReplayEntryKey) : Execution :=
  ⟨0, nullCall, lease, ⟨[⟨.begin nullKey sampleFingerprint, .ok (.execute lease)⟩, ⟨.spawn lease, .ok ()⟩],
    Prog.ask (S := serverSignature) (.complete lease nullReply) fun _ => .done nullReply⟩⟩

/-- The steps of a connection up to the execution of its first call. -/
theorem nullCall_handedOver (server : ServerState) (index : Nat)
    (hfresh : server.connections index = Connection.new (.v4 0 700) nullStream) {shared : Shared}
    {lease : ReplayEntryKey}
    (hserved : Served Sample.cache server.shared (.begin nullKey sampleFingerprint) (.ok (.execute lease)) shared) :
    ∃ trace edge, HandsOver lease edge ∧ (serverMachine tightState Sample.cache sampleSockets).Run server (trace ++ [edge])
      ⟨shared, Function.update server.connections index (nullConnection .executing [nullExecution lease])⟩ := by
  obtain ⟨next, next', hprogram, hnext, hreply⟩ := nullCall_asks lease
  have hbegun : ComesTo server index shared (nullConnection (.handling
      ⟨[⟨.begin nullKey sampleFingerprint, .ok (.execute lease)⟩], next (.ok (.execute lease))⟩) []) :=
    (ComesTo.handling hfresh).step (.ask [] [] 0 nullCall [] _ next _ _ (hprogram ▸ rfl) hserved)
  rw [hnext] at hbegun
  obtain ⟨trace, hrun⟩ := hbegun
  have hspawn : ConnectionStep tightState Sample.cache (byteWriter true) shared (nullConnection (.handling
      ⟨[⟨.begin nullKey sampleFingerprint, .ok (.execute lease)⟩], Prog.ask (S := serverSignature) (.spawn lease) next'⟩) [])
      .progress shared (nullConnection .executing [⟨0, nullCall, lease, ⟨[⟨.begin nullKey sampleFingerprint,
        .ok (.execute lease)⟩, ⟨.spawn lease, .ok ()⟩], next' (.ok ())⟩⟩]) :=
    .spawn [] [] 0 nullCall [⟨.begin nullKey sampleFingerprint, .ok (.execute lease)⟩] lease next' rfl
  rw [hreply] at hspawn
  refine ⟨trace, _, ⟨index, ?_, ?_⟩, run_connection hrun hspawn⟩
  all_goals
    dsimp only
    rw [Function.update_self]
    exact List.mem_singleton_self _

theorem executed_at_most_once_aborted : ∃ (server server' : ServerState)
    (before : List (Edge ServerState ServerEvent)) (edge : Edge ServerState ServerEvent)
    (lease : ReplayEntryKey), (serverMachine tightState Sample.cache sampleSockets).Start server ∧
    (serverMachine tightState Sample.cache sampleSockets).Run server (before ++ [edge]) server' ∧
    lease.request = nullLease.request ∧ lease.fingerprint = nullLease.fingerprint ∧ lease ≠ nullLease ∧
    (∃ other ∈ before, HandsOver nullLease other) ∧ HandsOver lease edge ∧
    ∃ interruption ∈ before, Interrupted Sample.cache nullLease interruption := by
  let start : ServerState := ⟨⟨World.new 0, [], false⟩, fun _ => Connection.new (.v4 0 700) nullStream⟩
  have hstart : (serverMachine tightState Sample.cache sampleSockets).Start start := ⟨⟨0, rfl⟩, fun _ => ⟨_, _, rfl⟩⟩
  have hbegin : Served Sample.cache start.shared (.begin nullKey sampleFingerprint) (.ok (.execute nullLease)) begun :=
    .begin 0 nullKey sampleFingerprint (by decide) (by decide)
  obtain ⟨trace, first, hfirst, hrun⟩ := nullCall_handedOver start 0 rfl hbegin
  obtain ⟨connections, last, hfresh, haborted⟩ : ∃ connections last, connections 1 = Connection.new (.v4 0 700) nullStream ∧
      (serverMachine tightState Sample.cache sampleSockets).Run start (trace ++ [first] ++ [last])
        ⟨{ begun with world := begun.world.cancel nullLease }, connections⟩ :=
    ⟨_, _, Function.update_of_ne Nat.one_ne_zero _ _, run_connection hrun (.aborted [] [] 0 nullCall nullLease _ _ _ rfl rfl)⟩
  have hbegin' : Served Sample.cache { begun with world := begun.world.cancel nullLease }
      (.begin nullKey sampleFingerprint) (.ok (.execute ⟨nullKey, sampleFingerprint, 1⟩)) _ :=
    .begin 0 nullKey sampleFingerprint (by decide) (by decide)
  obtain ⟨trace', second, hsecond, hrun'⟩ := nullCall_handedOver ⟨_, connections⟩ 1 hfresh hbegin'
  have hwhole := haborted.append hrun'
  rw [← List.append_assoc] at hwhole
  have hmem : first ∈ trace ++ [first] ++ [last] ++ trace' := by simp
  refine ⟨start, _, _, second, ⟨nullKey, sampleFingerprint, 1⟩, hstart, hwhole, rfl, rfl, by decide, ⟨first, hmem, hfirst⟩, hsecond, ?_⟩
  exact (executed_at_most_once tightState Sample.cache sampleSockets start _ _ [] second hstart hwhole
    ⟨nullKey, sampleFingerprint, 1⟩ hsecond).2 first (List.mem_append_left _ hmem) nullLease hfirst rfl rfl (by decide)

end NfsEmbed.Server
