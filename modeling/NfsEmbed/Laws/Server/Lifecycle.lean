import NfsEmbed.Laws.Server.Placement
import NfsEmbed.Laws.Server.Receivers
import NfsEmbed.Server.Lifecycle

/-!
# What a server leaves behind

The permits that are out are those of connections that were accepted and not given up (`Kept`), so that there are
never more connections than the limit allows. `run` returns without an error only after a shutdown, with all
connections joined, the service gone and the executions waited for (`Closes`): a connection that did not fail has
then answered every record it had queued, and if none failed, nothing of the server is left. No call of `wait`
returns before, and one of them gets the result (`Handed`).

The laws are `served_connections_limited`, `shutdown_drains` and `run_result_delivered_once`. None says that
`run` returns: a backend need not answer.
-/

namespace NfsEmbed.Server

open Lib Rpc Replay

/-! ## Connections that end -/

section Connections

variable {state : ConnectionState} {cache : ReplayCache} {socket : Writer} {shared shared' : Shared}
  {connection connection' : Connection} {event : ConnectionEvent}

/-- Who is alive has been so. -/
theorem Connection.Alive.of_step (h : connection'.Alive)
    (hstep : ConnectionStep state cache socket shared connection event shared' connection') : connection.Alive := by
  cases hstep <;> first | assumption | exact ⟨h.reader, h.processor, h.writer⟩

/-- Nothing that has ended starts again. -/
theorem Connection.Finished.step (h : connection.Finished)
    (hstep : ConnectionStep state cache socket shared connection event shared' connection') : connection'.Finished := by
  by_cases halive : connection'.Alive
  · obtain ⟨hreader, hprocessor, hwriter⟩ := h.resolve_right (not_not_intro (halive.of_step hstep))
    left
    cases hstep <;> first
      | exact ⟨hreader, hprocessor, hwriter⟩
      | simp_all
  · exact .inr halive

/-- A connection does not touch the signal. -/
theorem ConnectionStep.shutdown
    (hstep : ConnectionStep state cache socket shared connection event shared' connection') :
    shared'.shutdown = shared.shutdown := by
  cases hstep with
  | ask _ _ _ _ _ _ _ _ _ _ hserved => cases hserved <;> rfl
  | execute _ _ _ _ _ _ _ _ _ _ _ hserved =>
    cases hserved <;> rfl
  | _ => rfl

theorem executions_of_step (htasks : connection.tasks = []) (hexecutions : connection.executions = [])
    (hstep : ConnectionStep state cache socket shared connection event shared' connection') :
    connection'.executions = [] := by
  cases hstep <;> first
    | exact hexecutions
    | simp_all

/-- What the socket does matters only where a write fails. -/
theorem ConnectionStep.of_socket (hlimits : state.limits.Usable) (hlabels : Labelled state shared.world connection)
    (halive : connection'.Alive) {socket' : Writer} (hwilling : socket'.Willing)
    (hstep : ConnectionStep state cache socket shared connection event shared' connection') :
    ConnectionStep state cache socket' shared connection event shared' connection' := by
  cases hstep with
  | write number reply rest output hbefore hwriter hqueue hwrite =>
    have houtput := (hlabels.write_emits hlimits socket hqueue connection.output).1 output hwrite
    have hwrite' := (hlabels.write_emits hlimits socket' hqueue connection.output).2 hwilling
    subst houtput
    exact .write number reply rest _ hbefore hwriter hqueue hwrite'
  | writeFails => exact absurd rfl (halive.writer _)
  | enqueue record hbefore hreader hopen hprocessor hroom => exact .enqueue record hbefore hreader hopen hprocessor hroom
  | writerReturns hbefore hwriter hprocessor htasks hqueue => exact .writerReturns hbefore hwriter hprocessor htasks hqueue
  -- the other steps do not know of the socket
  | _ => solve_by_elim [ConnectionStep.read, ConnectionStep.readEnds, ConnectionStep.readFails, ConnectionStep.readBreaks,
      ConnectionStep.sendEnds, ConnectionStep.sendExpires, ConnectionStep.close, ConnectionStep.receive,
      ConnectionStep.join, ConnectionStep.joinFailed, ConnectionStep.processorReturns, ConnectionStep.start,
      ConnectionStep.reserveExpires, ConnectionStep.ask, ConnectionStep.spawn, ConnectionStep.handled, ConnectionStep.rejected,
      ConnectionStep.reply, ConnectionStep.replyExpires, ConnectionStep.dropLease, ConnectionStep.dropReceiver,
      ConnectionStep.dropTask, ConnectionStep.execute, ConnectionStep.prepare, ConnectionStep.executionExpires,
      ConnectionStep.executed, ConnectionStep.aborted, ConnectionStep.writeExpires]

/-- No task of the connection has failed. -/
def Unfailed (connection : Connection) : Prop := ∀ task ∈ connection.tasks, ∀ error, task.phase ≠ .failed error

/-- A task that has failed is joined or dropped with the connection. -/
theorem Unfailed.of_step (h : Unfailed connection') (halive : connection'.Alive)
    (hstep : ConnectionStep state cache socket shared connection event shared' connection') : Unfailed connection := by
  have hbefore := halive.of_step hstep
  intro task htask error hfailed
  -- one task, which has not failed, gives place to others
  have hothers : ∀ {before after : List Task} {old : Task} (tasks : List Task), connection.tasks = before ++ old :: after →
      old.phase ≠ .failed error → (∀ other ∈ before ++ (tasks ++ after), ∀ error, other.phase ≠ .failed error) → False := by
    intro before after old tasks htasks hold hnew
    rw [htasks] at htask
    refine hnew task ?_ error hfailed
    rcases List.mem_append.mp htask with hmem | hmem
    · exact List.mem_append_left _ hmem
    · rcases List.mem_cons.mp hmem with rfl | hmem
      · exact absurd hfailed hold
      · exact List.mem_append_right _ (List.mem_append_right _ hmem)
  have hresume : ∀ (number : Nat) (thread : Thread),
      (∀ other ∈ connection.tasks.map (Task.resume number thread), ∀ error, other.phase ≠ .failed error) → False := by
    intro number thread hnew
    have hsame : task.resume number thread = task := by
      unfold Task.resume
      rw [hfailed]
    exact hnew task (List.mem_map.mpr ⟨task, htask, hsame⟩) error hfailed
  cases hstep with
  | receive => exact h task (List.mem_append_left _ htask) error hfailed
  | join _ _ _ _ _ _ htasks => exact hothers [] htasks nofun h
  | joinFailed => exact halive.processor _ rfl
  | start _ _ _ _ htasks | reserveExpires _ _ _ _ _ htasks | ask _ _ _ _ _ _ _ _ _ htasks
  | spawn _ _ _ _ _ _ _ htasks | handled _ _ _ _ _ _ htasks | rejected _ _ _ _ _ _ htasks | reply _ _ _ _ _ _ htasks
  | replyExpires _ _ _ _ _ _ htasks => exact hothers [_] htasks nofun h
  | dropLease _ _ _ _ _ _ _ hdead | dropReceiver _ _ _ _ _ _ _ hdead | dropTask _ _ _ hdead => exact hdead hbefore
  | executed | aborted => exact hresume _ _ h
  | _ => exact h task htask error hfailed

/-- While neither the connection nor a task of it has failed, nothing has disturbed it. -/
theorem undisturbed_step (hlimits : state.limits.Usable) (hlabels : Labelled state shared.world connection)
    (h : connection.Alive → Unfailed connection → Undisturbed state.limits hlimits connection)
    (hstep : ConnectionStep state cache socket shared connection event shared' connection') (halive : connection'.Alive)
    (hunfailed : Unfailed connection') : Undisturbed state.limits hlimits connection' := by
  have hbefore := h (halive.of_step hstep) (hunfailed.of_step halive hstep)
  have hstep' := hstep.of_socket hlimits hlabels halive (byteWriter_willing true)
  cases event with
  | progress => exact hbefore.step hlabels (byteWriter_willing true) hstep'
  | deadline =>
    cases hstep with
    | sendExpires => exact absurd rfl (halive.reader _)
    | writeExpires => exact absurd rfl (halive.writer _)
    | reserveExpires before after number record _ htasks | replyExpires before after number record reply _ htasks =>
      exact absurd rfl (hunfailed _ (List.mem_append_right _ List.mem_cons_self) _)
  | readError => cases hstep <;> exact absurd rfl (halive.reader _)

end Connections

section Server

variable {state : ConnectionState} {cache : ReplayCache} {sockets : Nat → Writer} {server : ServerState}

/-- The signal stays. -/
theorem ServerStep.shutdown {event : ServerEvent} {server' : ServerState}
    (h : ServerStep state cache sockets server event server') (hshutdown : server.shared.shutdown = true) :
    server'.shared.shutdown = true := by
  cases h with
  | connection _ _ _ _ hstep => exact hstep.shutdown.trans hshutdown
  | tick => exact hshutdown
  | signal => rfl

/-- A connection that has ended without a failure has answered all it has queued, and keeps nothing. -/
theorem answeredOnce_of_finished (hlimits : state.limits.Usable)
    (h : (serverMachine state cache sockets).Reachable server) {index : Nat}
    (halive : (server.connections index).Alive) (hfinished : (server.connections index).Finished) :
    AnsweredOnce state.limits hlimits (server.connections index) ∧ (server.connections index).tasks = [] := by
  obtain ⟨-, hprocessor, hwriter⟩ := hfinished.resolve_right (not_not_intro halive)
  have horderly := orderly_of_reachable h index
  obtain ⟨-, hqueue, htasks⟩ := horderly.processor hprocessor
  have hundisturbed : (server.connections index).Alive → Unfailed (server.connections index) →
      Undisturbed state.limits hlimits (server.connections index) :=
    connections_invariant
      (P := fun connection => connection.Alive → Unfailed connection → Undisturbed state.limits hlimits connection)
      (fun clientAddr stream _ _ => .new clientAddr stream)
      (fun hlabels hbefore hstep => undisturbed_step hlimits hlabels hbefore hstep) h index
  have hnumbers := (hundisturbed halive fun task htask => by rw [htasks] at htask; cases htask)
  refine ⟨⟨?_, fun number reply hmem => ?_, hnumbers.output⟩, htasks⟩
  · have hall := hnumbers.numbers
    rwa [Connection.numbers, hqueue, htasks, (horderly.writer hwriter).2] at hall
  · obtain ⟨record, hrecord, hsource⟩ := ((labelled_of_reachable h).2 index).written (number, reply) hmem
    exact ⟨record, hrecord, by rw [(hsource.deliverable hlimits).take_intoBytes, toBeBytes_replyXid]⟩

/-- Where no task and no execution is left, neither is a lease. -/
theorem leases_of_idle (h : (serverMachine state cache sockets).Reachable server)
    (hidle : ∀ index, (server.connections index).tasks = [] ∧ (server.connections index).executions = [])
    (lease : ReplayEntryKey) : lease ∉ server.shared.world.leases := by
  intro hlease
  obtain ⟨index, hmem⟩ := (leaseBook_of_reachable h).owned lease hlease
  obtain ⟨htasks, hexecutions⟩ := hidle index
  rw [Connection.leases, htasks, hexecutions] at hmem
  cases hmem

end Server

/-! ## The portmapper service -/

namespace Portmapper

section Service

variable {nfsPort mountPort : UInt16} {sockets : Nat → Writer} {shutdown : Bool} {service service' : Service}
  {permits permits' : Nat}

/-- The connections that were not accepted yet have not ended. -/
def Service.Ready (service : Service) : Prop :=
  ∀ index, service.accepted ≤ index → (service.connections index).phase.isServing = true

theorem Service.mem_live {index : Nat} :
    index ∈ service.live ↔ index < service.accepted ∧ (service.connections index).phase.isServing = true := by
  rw [Service.live, Finset.mem_filter, Finset.mem_range]

/-- Only a connection that is served goes on. -/
theorem TcpStep.isServing {socket : Writer} {connection connection' : TcpConnection}
    (h : TcpStep nfsPort mountPort socket connection () connection') : connection.phase.isServing = true := by
  cases h with
  | reply _ _ _ _ hphase | drop _ _ hphase | ends hphase | readFails _ hphase | writeFails _ _ _ _ _ hphase
  | writeExpires _ _ _ _ hphase => rw [hphase]; rfl

theorem Service.live_accept (hready : service.Ready) :
    ({ service with accepted := service.accepted + 1 } : Service).live = insert service.accepted service.live := by
  ext index
  rw [Finset.mem_insert, mem_live, mem_live]
  dsimp only
  constructor
  · rintro ⟨hindex, hserving⟩
    rcases Nat.lt_succ_iff_lt_or_eq.mp hindex with hindex | rfl
    · exact .inr ⟨hindex, hserving⟩
    · exact .inl rfl
  · rintro (rfl | ⟨hindex, hserving⟩)
    · exact ⟨Nat.lt_succ_self _, hready _ (Nat.le_refl _)⟩
    · exact ⟨Nat.lt_succ_of_lt hindex, hserving⟩

theorem Service.live_update {index : Nat} (connection : TcpConnection) (hmem : index ∈ service.live) :
    ({ service with connections := Function.update service.connections index connection } : Service).live =
      if connection.phase.isServing then service.live else service.live.erase index := by
  ext other
  rw [mem_live]
  dsimp only
  by_cases hother : other = index
  · subst hother
    rw [Function.update_self]
    split
    next hserving => simp [hmem, hserving, (mem_live.mp hmem).1]
    next hended => simp [hended]
  · rw [Function.update_of_ne hother]
    split
    next => rw [mem_live]
    next => rw [Finset.mem_erase, mem_live]; simp [hother]

/-- A step keeps the permits together with the connections that have one. -/
theorem ServiceStep.keeps (h : ServiceStep nfsPort mountPort sockets shutdown service permits service' permits')
    (hready : service.Ready) : service'.Ready ∧ permits' + service'.live.card = permits + service.live.card := by
  cases h with
  | accept =>
    refine ⟨fun index hindex => hready index (Nat.le_of_succ_le hindex), ?_⟩
    have hnew : service.accepted ∉ service.live := fun hmem => Nat.lt_irrefl _ (Service.mem_live.mp hmem).1
    rw [Service.live_accept hready, Finset.card_insert_of_notMem hnew]
    omega
  | connection _ index connection hindex hstep =>
    have hmem : index ∈ service.live := Service.mem_live.mpr ⟨hindex, hstep.isServing⟩
    refine ⟨fun other hother => ?_, ?_⟩
    · dsimp only at hother ⊢
      rw [Function.update_of_ne (Nat.ne_of_gt (Nat.lt_of_lt_of_le hindex hother))]
      exact hready other hother
    · rw [Service.live_update connection hmem]
      have hcard := Finset.card_erase_add_one hmem
      split
      next hserving => rfl
      next hended => omega
  | _ => exact ⟨hready, rfl⟩

/-- The service drains and returns only after the signal. -/
def Service.Signalled (service : Service) (shutdown : Bool) : Prop :=
  service.phase = .draining ∨ service.phase = .returned (.ok ()) → shutdown = true

theorem ServiceStep.signalled (h : ServiceStep nfsPort mountPort sockets shutdown service permits service' permits')
    (hsignalled : service.Signalled shutdown) : service'.Signalled shutdown := by
  cases h with
  | stop _ _ hshutdown => exact fun _ => hshutdown
  | drained _ hphase => exact fun _ => hsignalled (.inl hphase)
  | acceptFails | datagramFails | panics => exact fun hphase => by simp at hphase
  | _ => exact hsignalled

/-- A service that was joined is not started again. -/
theorem ServiceStep.gone (h : ServiceStep nfsPort mountPort sockets shutdown service permits service' permits')
    (hgone : service.phase = .gone) : service'.phase = .gone := by
  cases h <;> first | exact hgone | simp_all

end Service

end Portmapper

/-! ## Runs -/

section Runs

variable {state : ConnectionState} {cache : ReplayCache} {network : Network} {s s' : Lifecycle}

/-- A step is one of the server or none there. -/
theorem LifecycleStep.project (h : LifecycleStep state cache network s () s') :
    s'.server = s.server ∨ ∃ event, ServerStep state cache network.sockets s.server event s'.server := by
  cases h with
  | server event _ hstep => exact .inr ⟨event, hstep⟩
  | dropHandle _ _ _ hstep => exact .inr ⟨.signal, hstep⟩
  | _ => exact .inl rfl

theorem server_of_lifecycle (h : (lifecycleMachine state cache network).Reachable s) :
    (serverMachine state cache network.sockets).Reachable s.server := by
  refine h.project (N := serverMachine state cache network.sockets) Lifecycle.server ?_ ?_
  · intro s hstart
    exact hstart.1
  · intro s _ s' hstep
    exact LifecycleStep.project hstep

/-! ### Permits -/

/-- Who has which permit. -/
structure Kept (limits : ServerLimits) (s : Lifecycle) : Prop where
  fresh : ∀ index, s.accepted ≤ index → ∃ clientAddr stream, s.server.connections index = Connection.new clientAddr stream
  joined : s.joined ⊆ s.released
  released : s.released ⊆ Finset.range s.accepted
  finished : ∀ index ∈ s.released, (s.server.connections index).Finished
  permits : s.permits + (Finset.range s.accepted \ s.released).card + s.service.live.card = limits.maxConnections
  ready : s.service.Ready

namespace Kept

variable {limits : ServerLimits}

/-- A permit that comes back was out. -/
theorem release (h : Kept limits s) {index : Nat} (hindex : index < s.accepted)
    (hfinished : (s.server.connections index).Finished) : Kept limits (s.release index) := by
  refine { h with
    joined := h.joined.trans (Finset.subset_insert _ _)
    released := Finset.insert_subset (Finset.mem_range.mpr hindex) h.released
    finished := fun other hother => ?_
    permits := ?_ }
  · rcases Finset.mem_insert.mp hother with rfl | hother
    · exact hfinished
    · exact h.finished other hother
  · have hpermits := h.permits
    unfold Lifecycle.release
    dsimp only
    split
    next hmem => rwa [Finset.insert_eq_of_mem hmem]
    next hmem =>
      have hcard := Finset.card_erase_add_one (Finset.mem_sdiff.mpr ⟨Finset.mem_range.mpr hindex, hmem⟩)
      rw [← Finset.sdiff_insert] at hcard
      omega

theorem accept (h : Kept limits s) {permits : Nat} (hpermits : s.permits = permits + 1) :
    Kept limits { s with accepted := s.accepted + 1, permits } := by
  have hnew : s.accepted ∉ s.released := fun hmem => Nat.lt_irrefl _ (Finset.mem_range.mp (h.released hmem))
  refine { h with
    fresh := fun index hindex => h.fresh index (Nat.le_of_succ_le hindex)
    released := h.released.trans (Finset.range_mono (Nat.le_succ _))
    permits := ?_ }
  have hold := h.permits
  rw [Finset.range_add_one, Finset.insert_sdiff_of_notMem _ hnew,
    Finset.card_insert_of_notMem fun hmem => Finset.notMem_range_self (Finset.mem_sdiff.mp hmem).1]
  dsimp only
  omega

/-- The server goes on; the connections that were given up do not come back. -/
theorem server (h : Kept limits s) {event : ServerEvent} {server : ServerState}
    (hstep : ServerStep state cache network.sockets s.server event server)
    (haccepted : ∀ index event', event = .connection index event' → index < s.accepted) :
    Kept limits { s with server } := by
  cases hstep with
  | connection index event _ _ hstep =>
    refine { h with fresh := fun other hother => ?_, finished := fun other hother => ?_ }
    · have hindex := haccepted index event rfl
      dsimp only at hother ⊢
      rw [Function.update_of_ne (Nat.ne_of_gt (Nat.lt_of_lt_of_le hindex hother))]
      exact h.fresh other hother
    · dsimp only at hother ⊢
      by_cases hsame : other = index
      · subst hsame
        rw [Function.update_self]
        exact (h.finished other hother).step hstep
      · rw [Function.update_of_ne hsame]
        exact h.finished other hother
  | tick | signal => exact { h with }

theorem step (h : Kept limits s) (hstep : LifecycleStep state cache network s () s') : Kept limits s' := by
  cases hstep with
  | server _ _ hstep haccepted => exact h.server hstep haccepted
  | service permits _ hstep =>
    obtain ⟨hready, hpermits⟩ := hstep.keeps h.ready
    have hold := h.permits
    refine { h with ready := hready, permits := ?_ }
    dsimp only
    omega
  | accept _ _ hpermits => exact h.accept hpermits
  | join _ _ hindex _ hfinished =>
    have hreleased := h.release hindex hfinished
    exact { hreleased with joined := Finset.insert_subset (Finset.mem_insert_self _ _) hreleased.joined }
  | dropTask _ _ hindex hfinished => exact h.release hindex hfinished
  | dropHandle _ _ _ hstep =>
    have hserver := h.server hstep nofun
    exact { hserver with }
  | _ => exact { h with }

end Kept

/-- Every permit that is out is with a connection. -/
theorem kept_of_reachable (h : (lifecycleMachine state cache network).Reachable s) : Kept state.limits s := by
  refine h.invariant (I := Kept state.limits) ?_ fun _ _ _ hkept hstep => hkept.step hstep
  rintro s ⟨hserver, -, haccepted, hjoined, hreleased, hpermits, -, hservice, -, hconnections, -⟩
  refine ⟨fun index _ => hserver.2 index, by rw [hjoined]; exact Finset.empty_subset _, by rw [hreleased]; exact Finset.empty_subset _,
    fun index hindex => ?_, ?_, fun index _ => ?_⟩
  · rw [hreleased] at hindex
    cases hindex
  · have hlive : s.service.live = ∅ := by rw [Portmapper.Service.live, hservice]; rfl
    simp [hlive, haccepted, hpermits]
  · rw [(hconnections index).1]
    rfl

/-! ### Shutdown -/

/-- How far a run that stops has got. -/
def RunPhase.depth : RunPhase → Nat
  | .closing _ .connections => 1
  | .closing _ .services => 2
  | .closing _ .locking | .closing _ .waiting => 3
  | .drained | .returned (.ok ()) => 4
  | .serving | .returned (.error _) | .aborted => 0

theorem RunPhase.depth_abort (phase : RunPhase) : phase.abort.depth ≤ phase.depth := by
  cases phase with
  | returned => exact Nat.le_refl _
  | serving | closing | drained | aborted => exact Nat.zero_le _

/-- What is behind a run that has got so far. -/
structure Closes (s : Lifecycle) : Prop where
  signalled : 1 ≤ s.phase.depth → s.server.shared.shutdown = true
  joined : 2 ≤ s.phase.depth → s.joined = Finset.range s.accepted
  service : 3 ≤ s.phase.depth → s.service.phase = .gone
  executions : 4 ≤ s.phase.depth → ∀ index, (s.server.connections index).Alive → (s.server.connections index).executions = []
  portmapper : s.service.Signalled s.server.shared.shutdown

namespace Closes

/-- Nothing is spawned for a connection that has ended without a failure. -/
theorem executions_step (hlimits : state.limits.Usable) (hreach : (lifecycleMachine state cache network).Reachable s)
    (h : Closes s) (hkept : Kept state.limits s) {event : ServerEvent} {server : ServerState}
    (hstep : ServerStep state cache network.sockets s.server event server)
    (haccepted : ∀ index event', event = .connection index event' → index < s.accepted) (hdepth : 4 ≤ s.phase.depth)
    (index : Nat) (halive : (server.connections index).Alive) : (server.connections index).executions = [] := by
  cases hstep with
  | connection other event _ _ hstep =>
    dsimp only at halive ⊢
    by_cases hother : index = other
    · subst hother
      rw [Function.update_self] at halive ⊢
      have hbefore := halive.of_step hstep
      have hjoined : index ∈ s.joined := by
        rw [h.joined (Nat.le_trans (by decide) hdepth)]
        exact Finset.mem_range.mpr (haccepted index event rfl)
      have hfinished := hkept.finished index (hkept.joined hjoined)
      have htasks := (answeredOnce_of_finished hlimits (server_of_lifecycle hreach) hbefore hfinished).2
      exact executions_of_step htasks (h.executions hdepth index hbefore) hstep
    · rw [Function.update_of_ne hother] at halive ⊢
      exact h.executions hdepth index halive
  | tick | signal => exact h.executions hdepth index halive

theorem step (hlimits : state.limits.Usable) (hreach : (lifecycleMachine state cache network).Reachable s)
    (h : Closes s) (hstep : LifecycleStep state cache network s () s') : Closes s' := by
  have hkept := kept_of_reachable hreach
  -- before `run` stops, nothing is claimed
  have hzero : ∀ {n : Nat} {P : Prop} {phase : RunPhase}, phase.depth = 0 → n + 1 ≤ phase.depth → P := by
    intro n P phase hphase hdepth
    omega
  cases hstep with
  | server _ _ hstep haccepted =>
    exact { h with
      signalled := fun hdepth => hstep.shutdown (h.signalled hdepth)
      executions := h.executions_step hlimits hreach hkept hstep haccepted
      portmapper := fun hphase => hstep.shutdown (h.portmapper hphase) }
  | service _ service hstep =>
    exact { h with
      service := fun hdepth => hstep.gone (h.service hdepth)
      portmapper := hstep.signalled h.portmapper }
  | accept _ hphase => exact { h with joined := hzero (by rw [hphase]; rfl) }
  | reject => exact h
  | acceptFails => exact { h with signalled := hzero rfl, joined := hzero rfl, service := hzero rfl, executions := hzero rfl }
  | join _ hjoins =>
    have hdepth : s.phase.depth ≤ 1 := by
      rcases hjoins with hphase | ⟨graceful, hphase⟩ <;> rw [hphase]
      · exact Nat.zero_le 1
      · exact Nat.le_refl 1
    exact { h with joined := fun hle => absurd (Nat.le_trans hle hdepth) (by decide) }
  | dropTask | wait | waitReturns | waitReturnsLater | waitCancelled => exact { h with }
  | shutdown _ hshutdown =>
    exact { h with signalled := fun _ => hshutdown, joined := nofun, service := nofun, executions := nofun }
  | serviceReturns result _ hservice hend =>
    have hresult : ∃ error, result = .error error := by
      cases result with
      | error error => exact ⟨error, rfl⟩
      | ok =>
        have hshutdown := h.portmapper (.inr hservice)
        rcases hend with hend | hend
        · cases hend
        · rw [hshutdown] at hend
          cases hend
    obtain ⟨error, rfl⟩ := hresult
    exact ⟨nofun, nofun, nofun, nofun, nofun⟩
  | serviceBreaks _ _ _ _ hshutdown => exact ⟨fun _ => hshutdown, nofun, nofun, nofun, nofun⟩
  | connectionsJoined _ hphase hjoined =>
    have hdepth : s.phase.depth = 1 := by rw [hphase]; rfl
    exact { h with
      signalled := fun _ => h.signalled (by omega)
      joined := fun _ => hjoined
      service := nofun
      executions := nofun }
  | joinService | abortService => exact { h with service := fun _ => rfl, portmapper := nofun }
  | servicesJoined _ hphase hgone =>
    have hdepth : s.phase.depth = 2 := by rw [hphase]; rfl
    exact { h with
      signalled := fun _ => h.signalled (by omega)
      joined := fun _ => h.joined (by omega)
      service := fun _ => hgone
      executions := nofun }
  | lock _ hphase =>
    have hdepth : s.phase.depth = 3 := by rw [hphase]; rfl
    exact { h with
      signalled := fun _ => h.signalled (by omega)
      joined := fun _ => h.joined (by omega)
      service := fun _ => h.service (by omega)
      executions := nofun }
  | waited _ hphase hexecutions =>
    have hdepth : s.phase.depth = 3 := by rw [hphase]; rfl
    exact { h with
      signalled := fun _ => h.signalled (by omega)
      joined := fun _ => h.joined (by omega)
      service := fun _ => h.service (by omega)
      executions := fun _ index _ => hexecutions index }
  | expire stage hphase =>
    have hdepth : 1 ≤ s.phase.depth := by rw [hphase]; cases stage <;> decide
    exact { h with signalled := fun _ => h.signalled hdepth, joined := nofun, service := nofun, executions := nofun }
  | returns hphase =>
    have hdepth : s.phase.depth = 4 := by rw [hphase]; rfl
    exact { h with
      signalled := fun _ => h.signalled (by omega)
      joined := fun _ => h.joined (by omega)
      service := fun _ => h.service (by omega)
      executions := fun _ => h.executions (by omega) }
  | dropHandle server _ _ hstep =>
    have hserver := h.executions_step hlimits hreach hkept hstep nofun
    have hshutdown : server.shared.shutdown = true := by cases hstep; rfl
    have hdepth : ∀ {n : Nat}, n ≤ s.phase.abort.depth → n ≤ s.phase.depth := fun hle => hle.trans s.phase.depth_abort
    exact {
      signalled := fun _ => hshutdown
      joined := fun hle => h.joined (hdepth hle)
      service := fun hle => h.service (hdepth hle)
      executions := fun hle => hserver (hdepth hle)
      portmapper := fun _ => hshutdown }

end Closes

/-- What `run` has waited for is gone. -/
theorem closes_of_reachable (hlimits : state.limits.Usable) (h : (lifecycleMachine state cache network).Reachable s) :
    Closes s := by
  obtain ⟨start, trace, hstart, hrun⟩ := h
  refine Machine.Run.keeps (P := fun _ s => Closes s) (fun _ _ _ _ hreach h hstep => h.step hlimits hreach hstep)
    ⟨start, [], hstart, .nil⟩ hrun ?_
  obtain ⟨-, hphase, -, -, -, -, hservice, -⟩ := hstart
  have hdepth : start.phase.depth = 0 := by rw [hphase]; rfl
  refine ⟨fun hle => ?_, fun hle => ?_, fun hle => ?_, fun hle => ?_, fun hended => ?_⟩
  · omega
  · omega
  · omega
  · omega
  · rcases hservice with hgone | hserving
    · simp [hgone] at hended
    · simp [hserving] at hended

/-! ### The handle -/

/-- One call of `wait` gets what `run` returned, and the others come later. -/
structure Handed (s : Lifecycle) : Prop where
  pending : s.handle.task = true → s.handle.outcomes = []
  given : s.handle.task = false → ∃ call result rest, s.phase = .returned result ∧
    s.handle.outcomes = (call, result) :: rest ∧ ∀ outcome ∈ rest, outcome.2 = .ok ()
  once : (s.handle.outcomes.map Prod.fst ++ s.handle.waiting).Nodup
  called : ∀ call ∈ s.handle.outcomes.map Prod.fst ++ s.handle.waiting, call < s.handle.calls

/-- What `run` has returned is not taken back. -/
theorem LifecycleStep.returned (h : LifecycleStep state cache network s () s') {result : Except RunError Unit}
    (hphase : s.phase = .returned result) : s'.phase = .returned result := by
  cases h <;> first
    | exact hphase
    | simp_all [RunPhase.abort]

namespace Handed

/-- Nothing happens to the calls. -/
theorem frame (h : Handed s) (hreturned : ∀ result, s.phase = .returned result → s'.phase = .returned result)
    (htask : s'.handle.task = s.handle.task) (hcalls : s'.handle.calls = s.handle.calls)
    (hwaiting : s'.handle.waiting = s.handle.waiting) (houtcomes : s'.handle.outcomes = s.handle.outcomes) : Handed s' := by
  refine ⟨?_, ?_, ?_, ?_⟩
  · rw [htask, houtcomes]
    exact h.pending
  · rw [htask, houtcomes]
    intro hgiven
    obtain ⟨call, result, rest, hphase, hrest⟩ := h.given hgiven
    exact ⟨call, result, rest, hreturned result hphase, hrest⟩
  · rw [houtcomes, hwaiting]
    exact h.once
  · rw [houtcomes, hwaiting, hcalls]
    exact h.called

theorem step (h : Handed s) (hstep : LifecycleStep state cache network s () s') : Handed s' := by
  have hreturned : ∀ result, s.phase = .returned result → s'.phase = .returned result := fun _ => hstep.returned
  cases hstep with
  | wait =>
    have hnew : s.handle.calls ∉ s.handle.outcomes.map Prod.fst ++ s.handle.waiting := fun hmem =>
      Nat.lt_irrefl _ (h.called _ hmem)
    refine { h with once := ?_, called := ?_ }
    · dsimp only
      rw [← List.append_assoc]
      exact List.nodup_append.mpr ⟨h.once, List.nodup_singleton _, fun call hcall other hother heq => by
        rw [List.mem_singleton.mp hother] at heq
        exact hnew (heq ▸ hcall)⟩
    · dsimp only
      rw [← List.append_assoc]
      refine List.forall_mem_append.mpr ⟨fun call hcall => Nat.lt_succ_of_lt (h.called call hcall), ?_⟩
      exact List.forall_mem_singleton.mpr (Nat.lt_succ_self _)
  | waitReturns call _ result hwaiting htask hphase =>
    have honce := h.once
    have hcalled := h.called
    rw [hwaiting, List.append_cons] at honce hcalled
    refine ⟨nofun, fun _ => ⟨call, result, [], hphase, ?_, nofun⟩, ?_, ?_⟩
    · dsimp only
      rw [h.pending htask]
      rfl
    · simpa using honce
    · simpa using hcalled
  | waitReturnsLater call _ hwaiting htask =>
    have honce := h.once
    have hcalled := h.called
    rw [hwaiting, List.append_cons] at honce hcalled
    refine ⟨fun htask' => ?_, fun _ => ?_, ?_, ?_⟩
    · rw [htask] at htask'
      cases htask'
    · obtain ⟨first, result, others, hphase, houtcomes, hothers⟩ := h.given htask
      refine ⟨first, result, others ++ [(call, .ok ())], hphase, ?_, ?_⟩
      · dsimp only
        rw [houtcomes]
        rfl
      · exact List.forall_mem_append.mpr ⟨hothers, List.forall_mem_singleton.mpr rfl⟩
    · simpa using honce
    · simpa using hcalled
  | waitCancelled before after call hwaiting =>
    have hsub : (s.handle.outcomes.map Prod.fst ++ (before ++ after)).Sublist
        (s.handle.outcomes.map Prod.fst ++ s.handle.waiting) := by
      rw [hwaiting]
      exact (List.Sublist.refl _).append ((List.Sublist.refl before).append (List.sublist_cons_self call after))
    exact { h with once := h.once.sublist hsub, called := fun other hother => h.called other (hsub.subset hother) }
  | _ => exact h.frame hreturned rfl rfl rfl rfl

end Handed

/-- The result is handed out once, to the first call that returns. -/
theorem handed_of_reachable (h : (lifecycleMachine state cache network).Reachable s) : Handed s := by
  refine h.invariant (I := Handed) ?_ fun _ _ _ hhanded hstep => hhanded.step hstep
  rintro s ⟨-, -, -, -, -, -, -, -, -, -, hhandle⟩
  refine ⟨fun _ => ?_, fun htask => ?_, ?_, ?_⟩ <;> rw [hhandle] at *
  · cases htask
  · exact List.nodup_nil
  · exact nofun

end Runs

/-! ## A server that is started, used and stopped

One client sends one short record. Then the server is shut down, and two callers wait for it. -/

section Sample

variable {state : ConnectionState} {cache : ReplayCache} {network : Network} {s : Lifecycle}

theorem reachable_step {s' : Lifecycle} (h : (lifecycleMachine state cache network).Reachable s)
    (hstep : LifecycleStep state cache network s () s') : (lifecycleMachine state cache network).Reachable s' :=
  h.run (Machine.Run.nil.snoc hstep)

/-- While `run` is in its loop, the connections that were accepted go on as they do by themselves. -/
theorem reachable_serving (h : (lifecycleMachine state cache network).Reachable s) (hphase : s.phase = .serving)
    {index : Nat} (hindex : index < s.accepted) {server : ServerState} {trace : List (Edge ServerState ServerEvent)}
    (hrun : (serverMachine state cache network.sockets).Run s.server trace server)
    (hevents : ∀ edge ∈ trace, ∃ event, edge.event = .connection index event) :
    (lifecycleMachine state cache network).Reachable { s with server } := by
  induction hrun with
  | nil => exact h
  | @snoc _ server' _ _ _ hstep ih =>
    obtain ⟨hbefore, hlast⟩ := List.forall_mem_append.mp hevents
    obtain ⟨event', rfl⟩ := hlast _ (List.mem_singleton_self _)
    refine reachable_step (ih hbefore) (.server _ server' hstep ?_ fun graceful hclosing => ?_)
    · rintro _ _ ⟨⟩
      exact hindex
    · exact absurd (hphase.symm.trans hclosing) nofun

def sampleNetwork : Network := ⟨sampleSockets, sampleSockets, 2049, 2049⟩

/-- The server once it has accepted so many connections, of which these were joined. -/
def sampleLifecycle (server : ServerState) (phase : RunPhase) (accepted : Nat) (joined : Finset Nat) (permits : Nat)
    (handle : Handle) : Lifecycle :=
  ⟨server, phase, accepted, joined, joined, permits, ⟨.gone, 0, fun _ => ⟨[], .serving, [], []⟩, []⟩, handle⟩

def sampleStart : Lifecycle :=
  sampleLifecycle (sampleServer [0x80, 0, 0, 2, 0xab, 0xcd]) .serving 0 ∅ sampleState.limits.maxConnections
    ⟨true, 0, [], [], false⟩

/-- The connection was accepted, and its client has sent the record. -/
theorem sampleLifecycle_accepted : (lifecycleMachine sampleState Sample.cache sampleNetwork).Reachable
    (sampleLifecycle (sampleServer [0x80, 0, 0, 2, 0xab, 0xcd]) .serving 1 ∅ 1023 ⟨true, 0, [], [], false⟩) := by
  have hstart : (lifecycleMachine sampleState Sample.cache sampleNetwork).Start sampleStart :=
    ⟨⟨⟨0, rfl⟩, fun _ => ⟨_, _, rfl⟩⟩, rfl, rfl, rfl, rfl, rfl, .inl rfl, rfl, rfl, fun _ => ⟨rfl, rfl, rfl⟩, rfl⟩
  exact reachable_step ⟨sampleStart, [], hstart, .nil⟩ (.accept 1023 rfl rfl)

/-- The connection has served its client. -/
theorem sampleLifecycle_served : ∃ server : ServerState,
    (lifecycleMachine sampleState Sample.cache sampleNetwork).Reachable
      (sampleLifecycle server .serving 1 ∅ 1023 ⟨true, 0, [], [], false⟩) ∧
    (server.connections 0).reader = .returned ∧ (server.connections 0).processor = .returned ∧
    (server.connections 0).writer = .returned ∧ (server.connections 0).written = [(0, shortReply)] ∧
    ∀ index, (server.connections index).executions = [] := by
  obtain ⟨output, trace, hrun, htrace⟩ := Gets.finished
  refine ⟨_, reachable_serving sampleLifecycle_accepted rfl Nat.zero_lt_one hrun fun edge hedge => ?_, ?_⟩
  · have hevent := List.mem_map_of_mem (f := Edge.event) hedge
    rw [htrace] at hevent
    obtain ⟨event, -, hevent⟩ := List.mem_map.mp hevent
    exact ⟨event, hevent.symm⟩
  · dsimp only
    rw [Function.update_self]
    refine ⟨rfl, rfl, rfl, rfl, fun index => ?_⟩
    by_cases hindex : index = 0
    · rw [hindex, Function.update_self]
      rfl
    · rw [Function.update_of_ne hindex]
      rfl

theorem sampleLifecycle_stops : ∃ server : ServerState,
    (lifecycleMachine sampleState Sample.cache sampleNetwork).Reachable
      (sampleLifecycle server (.returned (.ok ())) 1 {0} 1024 ⟨false, 2, [], [(0, .ok ()), (1, .ok ())], false⟩) ∧
    (server.connections 0).Alive ∧ (server.connections 0).written = [(0, shortReply)] := by
  obtain ⟨server, hserved, hreader, hprocessor, hwriter, hwritten, hexecutions⟩ := sampleLifecycle_served
  let stopped : ServerState := { server with shared := { server.shared with shutdown := true } }
  have hsignalled : (lifecycleMachine sampleState Sample.cache sampleNetwork).Reachable
      (sampleLifecycle stopped .serving 1 ∅ 1023 ⟨true, 0, [], [], false⟩) :=
    reachable_step hserved (.server .signal _ (.signal _) nofun nofun)
  have hclosing : (lifecycleMachine sampleState Sample.cache sampleNetwork).Reachable
      (sampleLifecycle stopped (.closing true .connections) 1 ∅ 1023 ⟨true, 0, [], [], false⟩) :=
    reachable_step hsignalled (.shutdown rfl rfl)
  have hjoined : (lifecycleMachine sampleState Sample.cache sampleNetwork).Reachable
      (sampleLifecycle stopped (.closing true .connections) 1 {0} 1024 ⟨true, 0, [], [], false⟩) :=
    reachable_step hclosing (.join 0 (.inr ⟨true, rfl⟩) Nat.zero_lt_one (Finset.notMem_empty 0)
      (.inl ⟨hreader, hprocessor, hwriter⟩))
  have hreturned : (lifecycleMachine sampleState Sample.cache sampleNetwork).Reachable
      (sampleLifecycle stopped (.returned (.ok ())) 1 {0} 1024 ⟨true, 0, [], [], false⟩) :=
    reachable_step (reachable_step (reachable_step (reachable_step (reachable_step hjoined
      (.connectionsJoined true rfl rfl)) (.servicesJoined true rfl rfl)) (.lock true rfl)) (.waited true rfl hexecutions))
      (.returns rfl)
  refine ⟨stopped, ?_, ⟨?_, ?_, ?_⟩, hwritten⟩
  · exact reachable_step (reachable_step (reachable_step (reachable_step hreturned (.wait rfl)) (.wait rfl))
      (.waitReturns 0 [1] (.ok ()) rfl rfl rfl)) (.waitReturnsLater 1 [] rfl rfl)
  · show ∀ error, (server.connections 0).reader ≠ _
    rw [hreader]
    exact nofun
  · show ∀ error, (server.connections 0).processor ≠ _
    rw [hprocessor]
    exact nofun
  · show ∀ error, (server.connections 0).writer ≠ _
    rw [hwriter]
    exact nofun

end Sample

/-- However connections come, end and fail, and whatever the portmapper does: the permits of the semaphore that are
not there are with connections that were accepted, one each, and every connection that has not ended has one. So
the connections that are served are never more than `max_connections`, those of the portmapper included. -/
theorem served_connections_limited (state : ConnectionState) (cache : ReplayCache) (network : Network) (s : Lifecycle)
    (hreach : (lifecycleMachine state cache network).Reachable s) :
    s.permits + (Finset.range s.accepted \ s.released).card + s.service.live.card = state.limits.maxConnections ∧
    (∀ index < s.accepted, ¬ (s.server.connections index).Finished → index ∉ s.released) ∧
    ∀ served : Finset Nat, (∀ index ∈ served, index < s.accepted ∧ ¬ (s.server.connections index).Finished) →
      served.card + s.service.live.card ≤ state.limits.maxConnections := by
  have hkept := kept_of_reachable hreach
  have hout : ∀ index < s.accepted, ¬ (s.server.connections index).Finished → index ∉ s.released :=
    fun index _ hserved hreleased => hserved (hkept.finished index hreleased)
  refine ⟨hkept.permits, hout, fun served hserved => ?_⟩
  have hsub : served ⊆ Finset.range s.accepted \ s.released := by
    intro index hindex
    obtain ⟨haccepted, hrunning⟩ := hserved index hindex
    exact Finset.mem_sdiff.mpr ⟨Finset.mem_range.mpr haccepted, hout index haccepted hrunning⟩
  have hcard := Finset.card_le_card hsub
  have hpermits := hkept.permits
  omega

theorem served_connections_limited_one : ∃ s : Lifecycle,
    (lifecycleMachine sampleState Sample.cache sampleNetwork).Reachable s ∧
    ¬ (s.server.connections 0).Finished ∧ ({0} : Finset Nat).card + s.service.live.card ≤ 1024 := by
  have hserving : ¬ (Connection.new (.v4 0 700) [0x80, 0, 0, 2, 0xab, 0xcd]).Finished := by
    rintro (⟨hreader, -⟩ | hfailed)
    · cases hreader
    · exact hfailed ⟨nofun, nofun, nofun⟩
  refine ⟨_, sampleLifecycle_accepted, hserving, ?_⟩
  refine (served_connections_limited sampleState Sample.cache sampleNetwork _ sampleLifecycle_accepted).2.2 {0} fun index hindex => ?_
  rw [Finset.mem_singleton.mp hindex]
  exact ⟨Nat.zero_lt_one, hserving⟩

/-- If `run` returns without an error, then after a shutdown: all connections that were accepted have ended and
returned their permits, and the portmapper is gone. A connection that did not fail has answered each record that it
had queued, once and in full, and has neither a task nor an execution left. If no connection failed, no lease of the
cache is unresolved. -/
theorem shutdown_drains (state : ConnectionState) (hlimits : state.limits.validate = .ok ()) (cache : ReplayCache)
    (network : Network) (s : Lifecycle) (hreach : (lifecycleMachine state cache network).Reachable s)
    (hreturned : s.phase = .returned (.ok ())) :
    s.server.shared.shutdown = true ∧ s.service.phase = .gone ∧
    s.permits + s.service.live.card = state.limits.maxConnections ∧
    (∀ index < s.accepted, (s.server.connections index).Finished ∧
      ((s.server.connections index).Alive →
        AnsweredOnce state.limits (ServerLimits.usable_of_validate hlimits) (s.server.connections index) ∧
        (s.server.connections index).tasks = [] ∧ (s.server.connections index).executions = [])) ∧
    ((∀ index < s.accepted, (s.server.connections index).Alive) → ∀ lease, lease ∉ s.server.shared.world.leases) := by
  have husable := ServerLimits.usable_of_validate hlimits
  have hkept := kept_of_reachable hreach
  have hcloses := closes_of_reachable husable hreach
  have hdepth : s.phase.depth = 4 := by rw [hreturned]; rfl
  have hjoined := hcloses.joined (by omega)
  have hreleased : s.released = Finset.range s.accepted :=
    Finset.Subset.antisymm hkept.released (hjoined ▸ hkept.joined)
  have hconnections : ∀ index < s.accepted, (s.server.connections index).Finished ∧
      ((s.server.connections index).Alive →
        AnsweredOnce state.limits husable (s.server.connections index) ∧
        (s.server.connections index).tasks = [] ∧ (s.server.connections index).executions = []) := by
    intro index hindex
    have hfinished := hkept.finished index (hreleased ▸ Finset.mem_range.mpr hindex)
    refine ⟨hfinished, fun halive => ?_⟩
    obtain ⟨hanswered, htasks⟩ := answeredOnce_of_finished husable (server_of_lifecycle hreach) halive hfinished
    exact ⟨hanswered, htasks, hcloses.executions (by omega) index halive⟩
  refine ⟨hcloses.signalled (by omega), hcloses.service (by omega), ?_, hconnections, fun halive => ?_⟩
  · have hpermits := hkept.permits
    rwa [hreleased, Finset.sdiff_self, Finset.card_empty, Nat.add_zero] at hpermits
  · refine leases_of_idle (server_of_lifecycle hreach) fun index => ?_
    by_cases hindex : index < s.accepted
    · exact ((hconnections index hindex).2 (halive index hindex)).2
    · obtain ⟨clientAddr, stream, hfresh⟩ := hkept.fresh index (Nat.le_of_not_lt hindex)
      rw [hfresh]
      exact ⟨rfl, rfl⟩

theorem shutdown_drains_short : ∃ s : Lifecycle, s.accepted = 1 ∧ s.phase = .returned (.ok ()) ∧
    (s.server.connections 0).written = [(0, shortReply)] ∧
    AnsweredOnce sampleState.limits (ServerLimits.usable_of_validate ServerLimits.validate_productionDefaults)
      (s.server.connections 0) ∧ (∀ lease, lease ∉ s.server.shared.world.leases) := by
  obtain ⟨server, hreach, halive, hwritten⟩ := sampleLifecycle_stops
  obtain ⟨-, -, -, hconnections, hleases⟩ := shutdown_drains sampleState ServerLimits.validate_productionDefaults
    Sample.cache sampleNetwork _ hreach rfl
  refine ⟨_, rfl, rfl, hwritten, ((hconnections 0 Nat.zero_lt_one).2 halive).1, hleases fun index hindex => ?_⟩
  rw [Nat.lt_one_iff.mp hindex]
  exact halive

/-- No call of `ServerHandle::wait` returns before `run` has, each returns at most once, and what `run` returned goes
to exactly one of them: to the first that returns. The others return without an error. -/
theorem run_result_delivered_once (state : ConnectionState) (cache : ReplayCache) (network : Network) (s : Lifecycle)
    (hreach : (lifecycleMachine state cache network).Reachable s) :
    (s.handle.outcomes.map Prod.fst ++ s.handle.waiting).Nodup ∧
    (s.handle.outcomes = [] ∨ ∃ call result rest, s.phase = .returned result ∧
      s.handle.outcomes = (call, result) :: rest ∧ ∀ outcome ∈ rest, outcome.2 = .ok ()) := by
  have hhanded := handed_of_reachable hreach
  refine ⟨hhanded.once, ?_⟩
  cases htask : s.handle.task with
  | true => exact .inl (hhanded.pending htask)
  | false => exact .inr (hhanded.given htask)

theorem run_result_delivered_once_twice : ∃ s : Lifecycle, s.handle.outcomes = [(0, .ok ()), (1, .ok ())] ∧
    ∃ call result rest, s.phase = .returned result ∧ s.handle.outcomes = (call, result) :: rest ∧
      ∀ outcome ∈ rest, outcome.2 = .ok () := by
  obtain ⟨server, hreach, -, -⟩ := sampleLifecycle_stops
  have hdelivered := (run_result_delivered_once sampleState Sample.cache sampleNetwork _ hreach).2
  exact ⟨sampleLifecycle server _ _ _ _ _, rfl, hdelivered.resolve_left nofun⟩

end NfsEmbed.Server
