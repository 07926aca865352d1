import Mathlib.Data.Finset.Card
import NfsEmbed.Server.Connection
import NfsEmbed.Server.Portmapper

/-!
# The life of a server (`run` and `ExecutionTracker` of `server/mod.rs`, `run_portmapper`, `server/handle.rs`)

`run` accepts connections as long as the semaphore `connections` has permits, which it shares with the
portmapper service. The task of a connection returns its permit, so that it is released only when the task is
joined; the task of a portmapper connection drops its own. Once the server is asked to shut down, `run` joins
the connections, then the service, and then waits for the executions; if this takes longer than the deadline,
it aborts them and joins them again. The callers of `ServerHandle::wait` take turns in awaiting its result.

`abort_all` makes every connection fail that has not ended. A connection may fail at any time, so this is no step
of its own: what is left of an aborted connection are its tasks, as after any other failure. Only its permit is
dropped earlier, with the future of its task. The sender of the shutdown signal sends `true` before it is dropped,
so that a receiver which sees it gone would have seen the signal.
-/

namespace NfsEmbed.Server

open Lib Rpc Replay

/-- The errors of `run`: one of a listener or of the UDP socket, or a task that did not end by itself. -/
inductive RunError where
  | io
  | task
deriving DecidableEq, Repr

/-! ## The portmapper service -/

namespace Portmapper

def Phase.isServing : Phase → Bool
  | .serving => true
  | _ => false

/-- How the task of `run_portmapper` stands. -/
inductive ServicePhase where
  /-- There is none, or it was joined. -/
  | gone
  | serving
  /-- Joins the tasks of its connections. -/
  | draining
  | returned (result : Except RunError Unit)

structure Service where
  phase : ServicePhase
  /-- The number of connections that were accepted. -/
  accepted : Nat
  connections : Nat → TcpConnection
  /-- The datagrams that were received, with their replies. -/
  datagrams : List (Bytes × Option Bytes)

/-- The connections whose tasks have a permit. -/
def Service.live (service : Service) : Finset Nat :=
  (Finset.range service.accepted).filter fun index => (service.connections index).phase.isServing = true

/-- A datagram that is longer than a record may be is dropped. -/
def dispatchDatagram (datagram : Bytes) (nfsPort mountPort : UInt16) : Option Bytes :=
  if datagram.length > MAX_PORTMAP_RECORD_SIZE then none else dispatchRecord datagram nfsPort mountPort

/-- One step of the service or of one of its connections, with the permits before and after it. -/
inductive ServiceStep (nfsPort mountPort : UInt16) (sockets : Nat → Writer) (shutdown : Bool) (service : Service) :
    Nat → Service → Nat → Prop
  | accept (permits : Nat) :
    service.phase = .serving →
    ServiceStep nfsPort mountPort sockets shutdown service (permits + 1)
      { service with accepted := service.accepted + 1 } permits
  /-- The limit is reached. -/
  | reject :
    service.phase = .serving → ServiceStep nfsPort mountPort sockets shutdown service 0 service 0
  | acceptFails (permits : Nat) :
    service.phase = .serving →
    ServiceStep nfsPort mountPort sockets shutdown service permits { service with phase := .returned (.error .io) } permits
  | datagram (permits : Nat) (datagram : Bytes) :
    service.phase = .serving →
    ServiceStep nfsPort mountPort sockets shutdown service permits
      { service with datagrams := service.datagrams ++ [(datagram, dispatchDatagram datagram nfsPort mountPort)] } permits
  /-- An error other than that a peer cannot be reached. -/
  | datagramFails (permits : Nat) :
    service.phase = .serving →
    ServiceStep nfsPort mountPort sockets shutdown service permits { service with phase := .returned (.error .io) } permits
  | stop (permits : Nat) :
    service.phase = .serving → shutdown = true →
    ServiceStep nfsPort mountPort sockets shutdown service permits { service with phase := .draining } permits
  | drained (permits : Nat) :
    service.phase = .draining → service.live = ∅ →
    ServiceStep nfsPort mountPort sockets shutdown service permits { service with phase := .returned (.ok ()) } permits
  | panics (permits : Nat) :
    service.phase = .serving ∨ service.phase = .draining →
    ServiceStep nfsPort mountPort sockets shutdown service permits { service with phase := .returned (.error .task) } permits
  /-- A connection goes on; when it ends, its permit is dropped. -/
  | connection (permits index : Nat) (connection : TcpConnection) :
    index < service.accepted →
    TcpStep nfsPort mountPort (sockets index) (service.connections index) () connection →
    ServiceStep nfsPort mountPort sockets shutdown service permits
      { service with connections := Function.update service.connections index connection }
      (if connection.phase.isServing then permits else permits + 1)

end Portmapper

/-! ## `run` -/

/-- What `run` is waiting for while it stops. -/
inductive Drain where
  | connections
  | services
  /-- The lock of the execution tracker. -/
  | locking
  /-- The executions, with the lock. -/
  | waiting
deriving DecidableEq, Repr

inductive RunPhase where
  /-- In the accept loop. -/
  | serving
  /-- Joins what it has spawned, before the deadline or after it. -/
  | closing (graceful : Bool) (stage : Drain)
  /-- `executions.wait()` has returned. -/
  | drained
  | returned (result : Except RunError Unit)
  /-- The handle was dropped before. -/
  | aborted
deriving DecidableEq

/-- `JoinHandle::abort`, which does nothing to a task that has ended. -/
def RunPhase.abort : RunPhase → RunPhase
  | .returned result => .returned result
  | _ => .aborted

/-- `ServerHandle`, and the calls of its `wait`. -/
structure Handle where
  /-- The `JoinHandle` is still there. -/
  task : Bool
  /-- The number of calls. -/
  calls : Nat
  /-- The calls that have not returned, in the order in which they get the lock. The first has it. -/
  waiting : List Nat
  /-- The calls that have returned, with their results. -/
  outcomes : List (Nat × Except RunError Unit)
  dropped : Bool

structure Lifecycle where
  server : ServerState
  phase : RunPhase
  /-- The number of connections that were accepted. -/
  accepted : Nat
  /-- Those whose tasks were joined. -/
  joined : Finset Nat
  /-- Those whose permits are back. -/
  released : Finset Nat
  /-- What the semaphore `connections` has left. -/
  permits : Nat
  service : Portmapper.Service
  handle : Handle

/-- The sockets of the connections, and the ports that the portmapper tells. -/
structure Network where
  sockets : Nat → Writer
  portmapSockets : Nat → Writer
  nfsPort : UInt16
  mountPort : UInt16

namespace Lifecycle

/-- `tasks.join_next()` is awaited. -/
def Joins (s : Lifecycle) : Prop := s.phase = .serving ∨ ∃ graceful, s.phase = .closing graceful .connections

/-- `tasks` was aborted, or dropped with `run`. -/
def Aborts (s : Lifecycle) : Prop :=
  s.phase = .closing false .connections ∨ (∃ result, s.phase = .returned result) ∨ s.phase = .aborted

/-- Takes back a permit that has not come back yet. -/
def release (s : Lifecycle) (index : Nat) : Lifecycle :=
  { s with
    released := insert index s.released
    permits := if index ∈ s.released then s.permits else s.permits + 1 }

end Lifecycle

inductive LifecycleStep (state : ConnectionState) (cache : ReplayCache) (network : Network) (s : Lifecycle) :
    Unit → Lifecycle → Prop
  /-- A connection that was accepted goes on, time passes or the server is asked to shut down. No execution is
  spawned while `wait` has the lock of the tracker. -/
  | server (event : ServerEvent) (server : ServerState) :
    ServerStep state cache network.sockets s.server event server →
    (∀ index event', event = .connection index event' → index < s.accepted) →
    (∀ graceful, s.phase = .closing graceful .waiting →
      ∀ index, (server.connections index).executions.length ≤ (s.server.connections index).executions.length) →
    LifecycleStep state cache network s () { s with server }
  | service (permits : Nat) (service : Portmapper.Service) :
    Portmapper.ServiceStep network.nfsPort network.mountPort network.portmapSockets s.server.shared.shutdown s.service
      s.permits service permits →
    LifecycleStep state cache network s () { s with service, permits }
  -- The accept loop.
  | accept (permits : Nat) :
    s.phase = .serving → s.permits = permits + 1 →
    LifecycleStep state cache network s () { s with accepted := s.accepted + 1, permits }
  /-- The limit is reached. -/
  | reject :
    s.phase = .serving → s.permits = 0 → LifecycleStep state cache network s () s
  | acceptFails :
    s.phase = .serving →
    LifecycleStep state cache network s () { s with phase := .returned (.error .io) }
  | join (index : Nat) :
    s.Joins → index < s.accepted → index ∉ s.joined → (s.server.connections index).Finished →
    LifecycleStep state cache network s () { s.release index with joined := insert index s.joined }
  /-- The future of a task, or what a task has returned, is dropped. -/
  | dropTask (index : Nat) :
    s.Aborts → index < s.accepted → (s.server.connections index).Finished →
    LifecycleStep state cache network s () (s.release index)
  | shutdown :
    s.phase = .serving → s.server.shared.shutdown = true →
    LifecycleStep state cache network s () { s with phase := .closing true .connections }
  /-- The service has ended before the shutdown, or did not end by itself. -/
  | serviceReturns (result : Except RunError Unit) :
    s.phase = .serving → s.service.phase = .returned result →
    result = .error .task ∨ s.server.shared.shutdown = false →
    LifecycleStep state cache network s ()
      { s with phase := .returned result, service := { s.service with phase := .gone } }
  | serviceBreaks (result : Except RunError Unit) :
    s.phase = .serving → s.service.phase = .returned result → result ≠ .error .task →
    s.server.shared.shutdown = true →
    LifecycleStep state cache network s ()
      { s with phase := .closing true .connections, service := { s.service with phase := .gone } }
  -- After the loop.
  | connectionsJoined (graceful : Bool) :
    s.phase = .closing graceful .connections → s.joined = Finset.range s.accepted →
    LifecycleStep state cache network s () { s with phase := .closing graceful .services }
  | joinService (graceful : Bool) (result : Except RunError Unit) :
    s.phase = .closing graceful .services → s.service.phase = .returned result →
    LifecycleStep state cache network s () { s with service := { s.service with phase := .gone } }
  /-- The service is aborted after the deadline. -/
  | abortService :
    s.phase = .closing false .services →
    LifecycleStep state cache network s () { s with service := { s.service with phase := .gone } }
  | servicesJoined (graceful : Bool) :
    s.phase = .closing graceful .services → s.service.phase = .gone →
    LifecycleStep state cache network s () { s with phase := .closing graceful .locking }
  | lock (graceful : Bool) :
    s.phase = .closing graceful .locking →
    LifecycleStep state cache network s () { s with phase := .closing graceful .waiting }
  | waited (graceful : Bool) :
    s.phase = .closing graceful .waiting → (∀ index, (s.server.connections index).executions = []) →
    LifecycleStep state cache network s () { s with phase := .drained }
  | expire (stage : Drain) :
    s.phase = .closing true stage →
    LifecycleStep state cache network s () { s with phase := .closing false .connections }
  | returns :
    s.phase = .drained →
    LifecycleStep state cache network s () { s with phase := .returned (.ok ()) }
  -- The handle.
  | wait :
    s.handle.dropped = false →
    LifecycleStep state cache network s ()
      { s with handle := { s.handle with calls := s.handle.calls + 1, waiting := s.handle.waiting ++ [s.handle.calls] } }
  /-- The first call awaits the task, and takes the `JoinHandle`. -/
  | waitReturns (call : Nat) (rest : List Nat) (result : Except RunError Unit) :
    s.handle.waiting = call :: rest → s.handle.task = true → s.phase = .returned result →
    LifecycleStep state cache network s ()
      { s with handle := { s.handle with
          task := false, waiting := rest, outcomes := s.handle.outcomes ++ [(call, result)] } }
  | waitReturnsLater (call : Nat) (rest : List Nat) :
    s.handle.waiting = call :: rest → s.handle.task = false →
    LifecycleStep state cache network s ()
      { s with handle := { s.handle with waiting := rest, outcomes := s.handle.outcomes ++ [(call, .ok ())] } }
  /-- A call is dropped, and with it the lock if it has it. -/
  | waitCancelled (before after : List Nat) (call : Nat) :
    s.handle.waiting = before ++ call :: after →
    LifecycleStep state cache network s () { s with handle := { s.handle with waiting := before ++ after } }
  /-- There is no call that borrows the handle. The signal is sent, and the task is aborted unless it has ended. -/
  | dropHandle (server : ServerState) :
    s.handle.waiting = [] → s.handle.dropped = false →
    ServerStep state cache network.sockets s.server .signal server →
    LifecycleStep state cache network s ()
      { s with
        server
        phase := s.phase.abort
        handle := { s.handle with dropped := true } }

def lifecycleMachine (state : ConnectionState) (cache : ReplayCache) (network : Network) : Machine Lifecycle Unit where
  Start s :=
    (serverMachine state cache network.sockets).Start s.server ∧ s.phase = .serving ∧ s.accepted = 0 ∧ s.joined = ∅ ∧ s.released = ∅ ∧
      s.permits = state.limits.maxConnections ∧
      (s.service.phase = .gone ∨ s.service.phase = .serving) ∧ s.service.accepted = 0 ∧ s.service.datagrams = [] ∧
      (∀ index, (Portmapper.tcpMachine network.nfsPort network.mountPort (network.portmapSockets index)).Start
        (s.service.connections index)) ∧
      s.handle = ⟨true, 0, [], [], false⟩
  Step := LifecycleStep state cache network

end NfsEmbed.Server
