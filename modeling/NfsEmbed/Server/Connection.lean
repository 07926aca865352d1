import NfsEmbed.Lib.Transition
import NfsEmbed.Replay.Run
import NfsEmbed.Server.Dispatch

/-!
# Connections (`serve_connection` and its three futures in `server/connection.rs`)

A server has any number of connections, which share the replay cache, the mount table and the shutdown
signal. Of a connection the model has the reader, the processor loop with the tasks it spawned, the
executions these have handed to the execution tracker, and the writer. A step is one of them going from
one await point to the next; any of them may be the one to go.

What waits for a permit of a semaphore may go on at any time, and so may a reader whose idle timeout
expires, whose stream ends or whose connection is reset. The other deadlines of a connection are events
of their own, and so is a reader that ends because it cannot read a record. An execution that reaches
its deadline resolves its lease as cancelled; one that is aborted, or whose backend panics, drops it.

When one of the three futures fails, `try_join!` drops the others. Then the tasks are aborted, which
drops the leases and the receivers they hold once they are at an await, and only the executions go on.
-/

namespace NfsEmbed.Server

open Lib Rpc Vfs Replay

/-! ## Programs on their way -/

/-- What the connections of a server share. -/
structure Shared where
  world : World
  mounts : MountTable
  shutdown : Bool

/-- What is left of a program, and what it has said so far. -/
structure Thread where
  history : Dialogue
  program : ServerM EncodedReply

/-- `reply??` on what the sender of a waiter sent. -/
def waited : Except ReplayError EncodedReply → Except ServerError EncodedReply
  | .ok reply => .ok reply
  | .error error => .error (.replay error)

/-- The answers to operations, and what they do to the shared state. -/
inductive Served (cache : ReplayCache) (shared : Shared) : (op : ServerOp) → op.Answer → Shared → Prop
  | vfs (entry : ExportState) (context : RequestContext) (method : VfsMethod) (answer : method.Answer) :
    Served cache shared (.vfs entry context method) answer shared
  | mounts (update : MountTable → MountTable) :
    Served cache shared (.mounts update) shared.mounts { shared with mounts := update shared.mounts }
  | begin (now : Nat) (key : ReplayKey) (fingerprint : RequestFingerprint) :
    now ≤ shared.world.clock → shared.world.begins + 1 < 2 ^ 64 →
    Served cache shared (.begin key fingerprint) (shared.world.begin cache now key fingerprint).1
      { shared with world := (shared.world.begin cache now key fingerprint).2 }
  | received (receiver : Channel) (result : Except ReplayError EncodedReply) :
    (receiver, result) ∈ shared.world.deliveries → Served cache shared (.wait receiver) (waited result) shared
  /-- The deadline expires, or the sender is gone. -/
  | unanswered (receiver : Channel) (error : ServerError) :
    Served cache shared (.wait receiver) (.error error) shared
  /-- No permit before the deadline, or the server shuts down. -/
  | refused (lease : ReplayEntryKey) (error : ServerError) :
    Served cache shared (.spawn lease) (.error error) shared
  /-- The second lock section of `complete`; the first is a step of its own. -/
  | complete (lease : ReplayEntryKey) (reply : EncodedReply) (alloc : Allocator) (eligibleBeforeCopy : Bool) :
    shared.world.leases.lookup lease = some (.completing reply alloc eligibleBeforeCopy) →
    FitsMemory cache shared.world (reply.charge alloc) →
    Served cache shared (.complete lease reply) ()
      { shared with world := shared.world.store cache lease reply alloc eligibleBeforeCopy }
  | cancel (lease : ReplayEntryKey) :
    shared.world.leases.lookup lease = some .held →
    Served cache shared (.cancel lease) () { shared with world := shared.world.cancel lease }

/-! ## One connection -/

inductive ReaderPhase where
  | reading
  /-- Waits for room in the request queue. -/
  | sending (record : Bytes)
  | returned
  | failed (error : ServerError)

/-- How the processor or the writer stands. -/
inductive Progress where
  | running
  | returned
  | failed (error : ServerError)

inductive TaskPhase where
  /-- Waits for the reply budget. -/
  | reserving
  /-- In `dispatch_record`. -/
  | handling (thread : Thread)
  /-- Waits for the outcome of its execution. -/
  | executing
  /-- Waits for room in the reply queue. -/
  | replying (reply : EncodedReply)
  | finished
  | failed (error : ServerError)

/-- Not between an operation and its answer. -/
def TaskPhase.Settled : TaskPhase → Prop
  | .handling ⟨_, .ask _ _⟩ => False
  | _ => True

/-- A task of the processor's `JoinSet`. Records are numbered in the order they were queued. -/
structure Task where
  number : Nat
  record : Bytes
  phase : TaskPhase

/-- An execution of the tracker, for the task of this number. -/
structure Execution where
  number : Nat
  record : Bytes
  lease : ReplayEntryKey
  thread : Thread

structure Connection where
  clientAddr : SocketAddr
  /-- What the client still sends. -/
  stream : Bytes
  reader : ReaderPhase
  /-- All records that were put on the request queue. -/
  queued : List Bytes
  queue : List (Nat × Bytes)
  /-- `receiver.close()` was called. -/
  closeCalled : Bool
  shuttingDown : Bool
  processor : Progress
  tasks : List Task
  executions : List Execution
  replyQueue : List (Nat × EncodedReply)
  writer : Progress
  /-- All replies that were written, and the bytes on the socket. -/
  written : List (Nat × EncodedReply)
  output : Bytes

namespace Connection

def new (clientAddr : SocketAddr) (stream : Bytes) : Connection where
  clientAddr := clientAddr
  stream := stream
  reader := .reading
  queued := []
  queue := []
  closeCalled := false
  shuttingDown := false
  processor := .running
  tasks := []
  executions := []
  replyQueue := []
  writer := .running
  written := []
  output := []

/-- None of the three futures has failed. -/
structure Alive (connection : Connection) : Prop where
  reader : ∀ error, connection.reader ≠ .failed error
  processor : ∀ error, connection.processor ≠ .failed error
  writer : ∀ error, connection.writer ≠ .failed error

/-- `serve_connection` has an outcome. -/
def Finished (connection : Connection) : Prop :=
  (connection.reader = .returned ∧ connection.processor = .returned ∧ connection.writer = .returned) ∨
    ¬ connection.Alive

/-- `receiver.is_closed()`: it was closed, or the reader has dropped the sender. -/
def IsClosed (connection : Connection) : Prop :=
  connection.closeCalled = true ∨ connection.reader = .returned

/-- The loop of the processor ends here. -/
def Drained (connection : Connection) : Prop :=
  connection.IsClosed ∧ connection.queue = [] ∧ connection.tasks = []

/-- A branch of the processor's `select!` is enabled. -/
def SelectEnabled (limits : ServerLimits) (connection : Connection) : Prop :=
  connection.shuttingDown = false ∨
  (connection.tasks.length < limits.maxRequestsPerConnection ∧
    (¬ connection.IsClosed ∨ connection.queue ≠ [])) ∨
  connection.tasks ≠ []

end Connection

/-- The task of this number goes on with the outcome of its execution. -/
def Task.resume (number : Nat) (thread : Thread) (task : Task) : Task :=
  match task.phase with
  | .executing => if task.number = number then { task with phase := .handling thread } else task
  | _ => task

inductive ConnectionEvent where
  | progress
  /-- A deadline expires for the reader, a task or the writer. -/
  | deadline
  /-- The reader cannot go on reading records. -/
  | readError (error : RecordError)

open Connection in
inductive ConnectionStep (state : ConnectionState) (cache : ReplayCache) (socket : Writer) (shared : Shared)
    (connection : Connection) : ConnectionEvent → Shared → Connection → Prop
  -- The reader.
  | read (record rest : Bytes) :
    connection.Alive → connection.reader = .reading →
    readRecordBudgeted state.limits.recordLimits connection.stream = .ok (record, rest) →
    ConnectionStep state cache socket shared connection .progress shared
      { connection with reader := .sending record, stream := rest }
  /-- The stream ends, the connection is reset, the idle timeout expires or the server shuts down. -/
  | readEnds :
    connection.Alive → connection.reader = .reading →
    ConnectionStep state cache socket shared connection .progress shared { connection with reader := .returned }
  | readFails (error : RecordError) :
    connection.Alive → connection.reader = .reading →
    readRecordBudgeted state.limits.recordLimits connection.stream = .error error → error ≠ .io .unexpectedEof →
    ConnectionStep state cache socket shared connection (.readError error) shared
      { connection with reader := .failed (.record error) }
  /-- Another error of the socket. -/
  | readBreaks :
    connection.Alive → connection.reader = .reading →
    ConnectionStep state cache socket shared connection (.readError (.io .other)) shared
      { connection with reader := .failed (.record (.io .other)) }
  | enqueue (record : Bytes) :
    connection.Alive → connection.reader = .sending record → connection.closeCalled = false →
    connection.processor = .running → connection.queue.length < state.limits.maxRequestsPerConnection →
    ConnectionStep state cache socket shared connection .progress shared
      { connection with
        reader := .reading
        queued := connection.queued ++ [record]
        queue := connection.queue ++ [(connection.queued.length, record)] }
  | sendEnds (record : Bytes) :
    connection.Alive → connection.reader = .sending record →
    shared.shutdown = true ∨ connection.closeCalled = true →
    ConnectionStep state cache socket shared connection .progress shared { connection with reader := .returned }
  | sendExpires (record : Bytes) :
    connection.Alive → connection.reader = .sending record →
    ConnectionStep state cache socket shared connection .deadline shared
      { connection with reader := .failed .requestTimeout }
  -- The processor loop.
  | close :
    connection.Alive → connection.processor = .running → connection.shuttingDown = false → shared.shutdown = true →
    ConnectionStep state cache socket shared connection .progress shared
      { connection with shuttingDown := true, closeCalled := true }
  | receive (number : Nat) (record : Bytes) (rest : List (Nat × Bytes)) :
    connection.Alive → connection.processor = .running → connection.queue = (number, record) :: rest →
    connection.tasks.length < state.limits.maxRequestsPerConnection →
    ConnectionStep state cache socket shared connection .progress shared
      { connection with queue := rest, tasks := connection.tasks ++ [⟨number, record, .reserving⟩] }
  | join (before after : List Task) (number : Nat) (record : Bytes) :
    connection.Alive → connection.processor = .running →
    connection.tasks = before ++ ⟨number, record, .finished⟩ :: after →
    ConnectionStep state cache socket shared connection .progress shared { connection with tasks := before ++ after }
  | joinFailed (before after : List Task) (number : Nat) (record : Bytes) (error : ServerError) :
    connection.Alive → connection.processor = .running →
    connection.tasks = before ++ ⟨number, record, .failed error⟩ :: after →
    ConnectionStep state cache socket shared connection .progress shared
      { connection with tasks := before ++ after, processor := .failed error }
  | processorReturns :
    connection.Alive → connection.processor = .running → connection.Drained →
    ConnectionStep state cache socket shared connection .progress shared { connection with processor := .returned }
  -- The tasks. One that is on its way when its connection fails goes on to its next await.
  | start (before after : List Task) (number : Nat) (record : Bytes) :
    connection.tasks = before ++ ⟨number, record, .reserving⟩ :: after →
    ConnectionStep state cache socket shared connection .progress shared
      { connection with
        tasks := before ++
          ⟨number, record, .handling ⟨[], dispatchRecord state connection.clientAddr record⟩⟩ :: after }
  | reserveExpires (before after : List Task) (number : Nat) (record : Bytes) :
    connection.Alive → connection.tasks = before ++ ⟨number, record, .reserving⟩ :: after →
    ConnectionStep state cache socket shared connection .deadline shared
      { connection with tasks := before ++ ⟨number, record, .failed .requestTimeout⟩ :: after }
  | ask (before after : List Task) (number : Nat) (record : Bytes) (history : Dialogue) (op : ServerOp)
      (next : op.Answer → ServerM EncodedReply) (answer : op.Answer) (shared' : Shared) :
    connection.tasks = before ++
      ⟨number, record, .handling ⟨history, Prog.ask (S := serverSignature) op next⟩⟩ :: after →
    Served cache shared op answer shared' →
    ConnectionStep state cache socket shared connection .progress shared'
      { connection with
        tasks := before ++ ⟨number, record, .handling ⟨history ++ [⟨op, answer⟩], next answer⟩⟩ :: after }
  | spawn (before after : List Task) (number : Nat) (record : Bytes) (history : Dialogue) (lease : ReplayEntryKey)
      (next : Except ServerError Unit → ServerM EncodedReply) :
    connection.tasks = before ++
      ⟨number, record, .handling ⟨history, Prog.ask (S := serverSignature) (.spawn lease) next⟩⟩ :: after →
    ConnectionStep state cache socket shared connection .progress shared
      { connection with
        tasks := before ++ ⟨number, record, .executing⟩ :: after
        executions := connection.executions ++
          [⟨number, record, lease, ⟨history ++ [⟨.spawn lease, .ok ()⟩], next (.ok ())⟩⟩] }
  | handled (before after : List Task) (number : Nat) (record : Bytes) (history : Dialogue) (reply : EncodedReply) :
    connection.tasks = before ++ ⟨number, record, .handling ⟨history, .done reply⟩⟩ :: after →
    ConnectionStep state cache socket shared connection .progress shared
      { connection with tasks := before ++ ⟨number, record, .replying reply⟩ :: after }
  | rejected (before after : List Task) (number : Nat) (record : Bytes) (history : Dialogue) (error : ServerError) :
    connection.tasks = before ++ ⟨number, record, .handling ⟨history, .fail error⟩⟩ :: after →
    ConnectionStep state cache socket shared connection .progress shared
      { connection with
        tasks := before ++ ⟨number, record, .replying (errorReply state (recordXid record) SYSTEM_ERR)⟩ :: after }
  /-- The first reply of the queue may be with the writer, which leaves room for one more. -/
  | reply (before after : List Task) (number : Nat) (record : Bytes) (reply : EncodedReply) :
    connection.Alive → connection.tasks = before ++ ⟨number, record, .replying reply⟩ :: after →
    connection.writer = .running → connection.replyQueue.length ≤ state.limits.maxRequestsPerConnection →
    ConnectionStep state cache socket shared connection .progress shared
      { connection with
        tasks := before ++ ⟨number, record, .finished⟩ :: after
        replyQueue := connection.replyQueue ++ [(number, reply)] }
  | replyExpires (before after : List Task) (number : Nat) (record : Bytes) (reply : EncodedReply) :
    connection.Alive → connection.tasks = before ++ ⟨number, record, .replying reply⟩ :: after →
    ConnectionStep state cache socket shared connection .deadline shared
      { connection with tasks := before ++ ⟨number, record, .failed .requestTimeout⟩ :: after }
  | dropLease (before after : List Task) (number : Nat) (record : Bytes) (history : Dialogue) (lease : ReplayEntryKey)
      (next : Except ServerError Unit → ServerM EncodedReply) :
    ¬ connection.Alive →
    connection.tasks = before ++
      ⟨number, record, .handling ⟨history, Prog.ask (S := serverSignature) (.spawn lease) next⟩⟩ :: after →
    shared.world.leases.lookup lease = some .held →
    ConnectionStep state cache socket shared connection .progress
      { shared with world := shared.world.cancel lease } { connection with tasks := before ++ after }
  | dropReceiver (before after : List Task) (number : Nat) (record : Bytes) (history : Dialogue) (receiver : Channel)
      (next : Except ServerError EncodedReply → ServerM EncodedReply) :
    ¬ connection.Alive →
    connection.tasks = before ++
      ⟨number, record, .handling ⟨history, Prog.ask (S := serverSignature) (.wait receiver) next⟩⟩ :: after →
    receiver < shared.world.channels →
    ConnectionStep state cache socket shared connection .progress
      { shared with world := { shared.world with closed := receiver :: shared.world.closed } }
      { connection with tasks := before ++ after }
  /-- Elsewhere an aborted task holds neither a lease nor a receiver. -/
  | dropTask (before after : List Task) (task : Task) :
    ¬ connection.Alive → connection.tasks = before ++ task :: after → task.phase.Settled →
    ConnectionStep state cache socket shared connection .progress shared { connection with tasks := before ++ after }
  -- The executions.
  | execute (before after : List Execution) (number : Nat) (record : Bytes) (lease : ReplayEntryKey)
      (history : Dialogue) (op : ServerOp) (next : op.Answer → ServerM EncodedReply) (answer : op.Answer)
      (shared' : Shared) :
    connection.executions = before ++
      ⟨number, record, lease, ⟨history, Prog.ask (S := serverSignature) op next⟩⟩ :: after →
    Served cache shared op answer shared' →
    ConnectionStep state cache socket shared connection .progress shared'
      { connection with
        executions := before ++ ⟨number, record, lease, ⟨history ++ [⟨op, answer⟩], next answer⟩⟩ :: after }
  /-- The first lock section of `complete`. -/
  | prepare (before after : List Execution) (number : Nat) (record : Bytes) (lease : ReplayEntryKey)
      (history : Dialogue) (completed : ReplayEntryKey) (reply : EncodedReply) (next : Unit → ServerM EncodedReply)
      (alloc : Allocator) :
    connection.executions = before ++
      ⟨number, record, lease, ⟨history, Prog.ask (S := serverSignature) (.complete completed reply) next⟩⟩ :: after →
    shared.world.leases.lookup completed = some .held →
    ConnectionStep state cache socket shared connection .progress
      { shared with world := shared.world.prepare cache completed reply alloc } connection
  | executionExpires (before after : List Execution) (number : Nat) (record : Bytes) (lease : ReplayEntryKey)
      (history : Dialogue) (op : ServerOp) (next : op.Answer → ServerM EncodedReply) :
    connection.executions = before ++
      ⟨number, record, lease, ⟨history, Prog.ask (S := serverSignature) op next⟩⟩ :: after →
    shared.world.leases.lookup lease = some .held →
    ConnectionStep state cache socket shared connection .progress shared
      { connection with
        executions := before ++
          ⟨number, record, lease, ⟨history, execution lease (.fail .requestTimeout)⟩⟩ :: after }
  /-- The outcome goes to the task, if it still waits for it. -/
  | executed (before after : List Execution) (number : Nat) (record : Bytes) (lease : ReplayEntryKey)
      (history : Dialogue) (outcome : Except ServerError EncodedReply) :
    connection.executions = before ++ ⟨number, record, lease, ⟨history, Prog.ofExcept outcome⟩⟩ :: after →
    ConnectionStep state cache socket shared connection .progress shared
      { connection with
        executions := before ++ after
        tasks := connection.tasks.map (Task.resume number ⟨history, Prog.ofExcept outcome⟩) }
  | aborted (before after : List Execution) (number : Nat) (record : Bytes) (lease : ReplayEntryKey)
      (history : Dialogue) (op : ServerOp) (next : op.Answer → ServerM EncodedReply) :
    connection.executions = before ++
      ⟨number, record, lease, ⟨history, Prog.ask (S := serverSignature) op next⟩⟩ :: after →
    shared.world.leases.lookup lease = some .held →
    ConnectionStep state cache socket shared connection .progress
      { shared with world := shared.world.cancel lease }
      { connection with
        executions := before ++ after
        tasks := connection.tasks.map (Task.resume number ⟨history, .fail .replayWaiterClosed⟩) }
  -- The writer.
  | write (number : Nat) (reply : EncodedReply) (rest : List (Nat × EncodedReply)) (output : Bytes) :
    connection.Alive → connection.writer = .running → connection.replyQueue = (number, reply) :: rest →
    socket.writeRecordSegmentsLimited reply.segments.1 reply.segments.2.1 reply.segments.2.2
      state.limits.recordLimits connection.output = .ok () output →
    ConnectionStep state cache socket shared connection .progress shared
      { connection with replyQueue := rest, written := connection.written ++ [(number, reply)], output }
  | writeFails (number : Nat) (reply : EncodedReply) (rest : List (Nat × EncodedReply)) (error : RecordError)
      (output : Bytes) :
    connection.Alive → connection.writer = .running → connection.replyQueue = (number, reply) :: rest →
    socket.writeRecordSegmentsLimited reply.segments.1 reply.segments.2.1 reply.segments.2.2
      state.limits.recordLimits connection.output = .error error output →
    ConnectionStep state cache socket shared connection .progress shared
      { connection with writer := .failed (.record error), output }
  | writeExpires :
    connection.Alive → connection.writer = .running →
    ConnectionStep state cache socket shared connection .deadline shared
      { connection with writer := .failed .requestTimeout }
  /-- All senders are gone and the queue is empty. -/
  | writerReturns :
    connection.Alive → connection.writer = .running → connection.processor = .returned →
    connection.tasks = [] → connection.replyQueue = [] →
    ConnectionStep state cache socket shared connection .progress shared { connection with writer := .returned }

/-! ## All connections -/

structure ServerState where
  shared : Shared
  connections : Nat → Connection

inductive ServerEvent where
  | connection (index : Nat) (event : ConnectionEvent)
  /-- Time passes. -/
  | tick
  /-- The server is asked to shut down. -/
  | signal

/-- One server run; `sockets` are the write halves of its connections. -/
inductive ServerStep (state : ConnectionState) (cache : ReplayCache) (sockets : Nat → Writer) :
    ServerState → ServerEvent → ServerState → Prop
  | connection (server : ServerState) (index : Nat) (event : ConnectionEvent) (shared : Shared)
      (connection : Connection) :
    ConnectionStep state cache (sockets index) server.shared (server.connections index) event shared connection →
    ServerStep state cache sockets server (.connection index event)
      ⟨shared, Function.update server.connections index connection⟩
  | tick (server : ServerState) (now : Nat) :
    server.shared.world.clock ≤ now →
    ServerStep state cache sockets server .tick
      { server with shared := { server.shared with world := { server.shared.world with clock := now } } }
  | signal (server : ServerState) :
    ServerStep state cache sockets server .signal { server with shared := { server.shared with shutdown := true } }

def serverMachine (state : ConnectionState) (cache : ReplayCache) (sockets : Nat → Writer) :
    Machine ServerState ServerEvent where
  Start server :=
    (∃ clock, server.shared = ⟨World.new clock, [], false⟩) ∧
      ∀ index, ∃ clientAddr stream, server.connections index = Connection.new clientAddr stream
  Step := ServerStep state cache sockets

end NfsEmbed.Server
