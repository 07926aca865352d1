import NfsEmbed.Laws.Rpc.Record
import NfsEmbed.Laws.Server.Isolation
import NfsEmbed.Laws.Server.Origin
import NfsEmbed.Laws.Server.Replies

/-!
# One reply per record

Whatever the interleaving, what stands in the queues of a connection, in its tasks and in its executions
belongs to a record that was queued, and every reply among it is one to that record (`Labelled`). This
holds of all connections together, since they answer each other's duplicates through the cache.

As long as no deadline of a connection expires and its reader finds no broken record, no future of it
fails, and each record that was queued is in exactly one place: the request queue, a task that owes its
reply, the reply queue, or written (`Undisturbed`). When the connection is finished, only the last is
left.

The law is `queued_records_answered_once`; in `queued_record_lost` the reader finds a broken record. Nothing
here says that a connection finishes.
-/

namespace NfsEmbed.Server

open Lib Rpc Vfs Replay

variable {state : ConnectionState} {cache : ReplayCache} {socket : Writer} {w : World} {record : Bytes}
  {before after : List Task} {number : Nat} {phase : TaskPhase}

variable {clientAddr : SocketAddr} {reply : EncodedReply} {index : Nat} {trace : List (Edge ServerState ServerEvent)}
  {connection connection' : Connection} {event : ConnectionEvent}

/-! ## Labels -/

/-- The replies that may be handed in for an entry of the cache. -/
def Proper (state : ConnectionState) (lease : ReplayEntryKey) (reply : EncodedReply) : Prop :=
  Deliverable state lease.request.xid reply

/-- What the call in a record is executed to is a reply to its transaction. -/
theorem ComputedFor.proper {lease : ReplayEntryKey} {said : Dialogue}
    (h : ComputedFor state clientAddr record lease said reply) : Proper state lease reply := by
  obtain ⟨header, caller, -, hrequest, -, hends⟩ := h
  have hdelivers := (executeRequest_ensures header.program header.version header.procedure header.args []).ends hends
    (fun _ _ => trivial)
  have hxid : header.xid = lease.request.xid := congrArg ReplayKey.xid hrequest
  show Deliverable state lease.request.xid reply
  exact hxid ▸ hdelivers reply rfl

theorem Origin.Source.deliverable (hlimits : state.limits.Usable)
    (h : Origin.Source state (Proper state) clientAddr record reply) : Deliverable state (replyXid record) reply := by
  cases h with
  | immediate h => exact deliverable_of_immediate hlimits h
  | rejected h => exact h ▸ deliverable_errorReply hlimits record SYSTEM_ERR
  | computed _ _ _ hlooked hmade =>
    obtain ⟨header, caller, hcall, rfl, -⟩ := hlooked
    exact decodeCallHeader_xid hcall.decoded ▸ hmade

/-- Everything a connection holds is about the record with its number, and every reply among it is one to that
record. -/
abbrev Labelled (state : ConnectionState) (w : World) (connection : Connection) : Prop :=
  Origin.Traced state (Proper state) w connection

namespace Labelled

variable {connection : Connection}

/-- The threads of a connection guarantee that what they hand in is proper. -/
theorem handsIn (h : Labelled state w connection) : Origin.HandsIn (Proper state) connection := by
  intro thread hruns lease reply next hprogram
  obtain ⟨record, hfollows⟩ := h.follows hruns
  have htraceable := hfollows.traceable
  rw [hprogram] at htraceable
  obtain ⟨_, _, _, hcomputed⟩ := htraceable.1
  exact hcomputed.proper

/-- The reply at the front of the queue is within the limits of the writer. -/
theorem write_emits (hlimits : state.limits.Usable) (h : Labelled state w connection) (socket : Writer)
    {rest : List (Nat × EncodedReply)} (hqueue : connection.replyQueue = (number, reply) :: rest) : socket.Emits
      (socket.writeRecordSegmentsLimited reply.segments.1 reply.segments.2.1 reply.segments.2.2
        state.limits.recordLimits)
      (marked state.limits.maxRpcFragmentSize hlimits.fragment reply.intoBytes) := by
  obtain ⟨record, -, hsource⟩ := (List.forall_mem_cons.mp (hqueue ▸ h.replyQueue)).1
  have hfits := (hsource.deliverable hlimits).fits
  rw [← EncodedReply.length_intoBytes, ← EncodedReply.segments_eq_intoBytes] at hfits
  rw [← EncodedReply.segments_eq_intoBytes]
  exact (Writer.writeRecordSegmentsLimited_writes hlimits.fragment hlimits.fragment_le hfits).emits

end Labelled

/-! ## Where each record is -/

/-- The number of the record a task owes a reply to. -/
def Task.owes (task : Task) : List Nat :=
  match task.phase with
  | .finished => []
  | _ => [task.number]

theorem Task.owes_resume (number : Nat) (thread : Thread) (task : Task) :
    (task.resume number thread).owes = task.owes := by
  unfold Task.resume
  split
  next hphase =>
    split
    next => simp [Task.owes, hphase]
    next => rfl
  next => rfl

/-- The numbers of all records, from where they are. -/
def Connection.numbers (connection : Connection) : List Nat :=
  connection.queue.map Prod.fst ++ connection.tasks.flatMap Task.owes ++ connection.replyQueue.map Prod.fst ++
    connection.written.map Prod.fst

/-- The replies as they stand on the socket. -/
def wire (limits : ServerLimits) (hlimits : limits.Usable) (written : List (Nat × EncodedReply)) : Bytes :=
  written.flatMap fun entry => marked limits.maxRpcFragmentSize hlimits.fragment entry.2.intoBytes

/-- What holds of a connection that no deadline and no broken record has disturbed. -/
structure Undisturbed (limits : ServerLimits) (hlimits : limits.Usable) (connection : Connection) : Prop where
  alive : connection.Alive
  tasks : ∀ task ∈ connection.tasks, ∀ error, task.phase ≠ .failed error
  numbers : connection.numbers.Perm (List.range connection.queued.length)
  processor : connection.processor = .returned → connection.queue = [] ∧ connection.tasks = []
  writer : connection.writer = .returned → connection.processor = .returned ∧ connection.replyQueue = []
  output : connection.output = wire limits hlimits connection.written

namespace Undisturbed

variable {hlimits : state.limits.Usable} {connection connection' : Connection} {shared shared' : Shared}

theorem new (clientAddr : SocketAddr) (stream : Bytes) :
    Undisturbed state.limits hlimits (Connection.new clientAddr stream) where
  alive := ⟨nofun, nofun, nofun⟩
  tasks := nofun
  numbers := .refl _
  processor := nofun
  writer := nofun
  output := rfl

theorem tasks_ne_nil (h : Undisturbed state.limits hlimits connection) {task : Task}
    (htasks : connection.tasks = before ++ task :: after) : connection.processor ≠ .returned := by
  intro hprocessor
  have := (h.processor hprocessor).2
  simp [htasks] at this

/-- A task goes on, and owes its reply as before. -/
theorem task (h : Undisturbed state.limits hlimits connection) (phase' : TaskPhase)
    (htasks : connection.tasks = before ++ ⟨number, record, phase⟩ :: after) (hok : ∀ error, phase' ≠ .failed error)
    (howes : Task.owes ⟨number, record, phase'⟩ = Task.owes ⟨number, record, phase⟩) :
    Undisturbed state.limits hlimits
      { connection with tasks := before ++ ⟨number, record, phase'⟩ :: after } := by
  refine { h with
    alive := { h.alive with }
    tasks := forall_mem_replace h.tasks htasks fun _ => hok
    numbers := ?_
    processor := fun hprocessor => absurd hprocessor (h.tasks_ne_nil htasks) }
  have hnumbers := h.numbers
  simp only [Connection.numbers, htasks, List.flatMap_append, List.flatMap_cons] at hnumbers ⊢
  rwa [howes]

/-- The outcome of an execution reaches its task. -/
theorem resume (h : Undisturbed state.limits hlimits connection) (executions : List Execution) (number : Nat)
    (thread : Thread) : Undisturbed state.limits hlimits
      { connection with executions, tasks := connection.tasks.map (Task.resume number thread) } := by
  refine { h with alive := { h.alive with }, tasks := ?_, numbers := ?_, processor := fun hprocessor => ?_ }
  · intro task htask error
    obtain ⟨task, hmem, rfl⟩ := List.mem_map.mp htask
    have hne := h.tasks task hmem error
    unfold Task.resume
    split
    next => split <;> simp_all
    next => exact hne
  · have hnumbers := h.numbers
    simp only [Connection.numbers, List.flatMap_map, Task.owes_resume] at hnumbers ⊢
    exact hnumbers
  · obtain ⟨hqueue, htasks⟩ := h.processor hprocessor
    exact ⟨hqueue, by simp [htasks]⟩

/-- No step without a deadline or a broken record disturbs a connection whose socket takes all writes. -/
theorem step (h : Undisturbed state.limits hlimits connection) (hlabels : Labelled state shared.world connection)
    (hwilling : socket.Willing)
    (hstep : ConnectionStep state cache socket shared connection .progress shared' connection') :
    Undisturbed state.limits hlimits connection' := by
  cases hstep with
  | read | readEnds | sendEnds => exact { h with alive := { h.alive with reader := by rintro _ ⟨⟩ } }
  | close | execute | executionExpires => exact { h with alive := { h.alive with } }
  | enqueue _ _ _ _ hprocessor =>
    refine { h with
      alive := { h.alive with reader := by rintro _ ⟨⟩ }
      numbers := List.perm_iff_count.mpr fun number => ?_
      processor := fun hreturned => by rw [hprocessor] at hreturned; cases hreturned }
    have hcount := h.numbers.count_eq number
    simp only [Connection.numbers, List.map_append, List.count_append, List.length_append, List.length_singleton,
      List.range_succ] at hcount ⊢
    simp only [List.map_cons, List.map_nil]
    omega
  | receive number _ _ _ hprocessor hqueue =>
    refine { h with
      alive := { h.alive with }
      tasks := List.forall_mem_append.mpr ⟨h.tasks, List.forall_mem_singleton.mpr nofun⟩
      numbers := List.perm_iff_count.mpr fun number => ?_
      processor := fun hreturned => by rw [hprocessor] at hreturned; cases hreturned }
    have hcount := h.numbers.count_eq number
    simp only [Connection.numbers, hqueue, List.flatMap_append, List.flatMap_singleton, Task.owes, List.map_cons,
      List.count_append, List.count_cons, List.count_nil] at hcount ⊢
    omega
  | join _ _ _ _ _ hprocessor htasks =>
    refine { h with
      alive := { h.alive with }
      tasks := (forall_mem_remove h.tasks htasks).2
      numbers := ?_
      processor := fun hreturned => by rw [hprocessor] at hreturned; cases hreturned }
    have hnumbers := h.numbers
    simp only [Connection.numbers, htasks, List.flatMap_append, List.flatMap_cons, Task.owes,
      List.nil_append] at hnumbers ⊢
    exact hnumbers
  | joinFailed _ _ _ _ error _ _ htasks =>
    exact absurd rfl ((forall_mem_remove h.tasks htasks).1 error)
  | processorReturns _ _ hdrained =>
    exact { h with
      alive := { h.alive with processor := by rintro _ ⟨⟩ }
      processor := fun _ => hdrained.2
      writer := fun hwriter => ⟨rfl, (h.writer hwriter).2⟩ }
  | start _ _ _ _ htasks | handled _ _ _ _ _ _ htasks | rejected _ _ _ _ _ _ htasks => exact h.task _ htasks nofun rfl
  | ask _ _ _ _ _ _ _ _ _ htasks =>
    exact h.task _ htasks nofun rfl
  | spawn _ _ _ _ _ _ _ htasks =>
    exact { h.task .executing htasks nofun rfl with alive := { h.alive with } }
  | reply _ _ _ _ _ _ htasks hwriter =>
    refine { h with
      alive := { h.alive with }
      tasks := forall_mem_replace h.tasks htasks fun _ => nofun
      numbers := List.perm_iff_count.mpr fun number' => ?_
      processor := fun hprocessor => absurd hprocessor (h.tasks_ne_nil htasks)
      writer := fun hreturned => by rw [hwriter] at hreturned; cases hreturned }
    have hcount := h.numbers.count_eq number'
    simp only [Connection.numbers, htasks, List.flatMap_append, List.flatMap_cons, Task.owes, List.map_append,
      List.map_cons, List.map_nil, List.count_append, List.count_cons, List.count_nil] at hcount ⊢
    omega
  | dropLease _ _ _ _ _ _ _ hdead | dropReceiver _ _ _ _ _ _ _ hdead | dropTask _ _ _ hdead =>
    exact absurd h.alive hdead
  | prepare => exact h
  | executed _ _ number | aborted _ _ number => exact h.resume _ number _
  | write _ _ _ output _ hwriter hqueue hwrite =>
    have hemits := (hlabels.write_emits hlimits socket hqueue connection.output).1 output hwrite
    refine { h with
      alive := { h.alive with }
      numbers := List.perm_iff_count.mpr fun number' => ?_
      writer := fun hreturned => by rw [hwriter] at hreturned; cases hreturned
      output := ?_ }
    · have hcount := h.numbers.count_eq number'
      simp only [Connection.numbers, hqueue, List.map_append, List.map_cons, List.map_nil, List.count_append,
        List.count_cons, List.count_nil] at hcount ⊢
      omega
    · simp only [wire, List.flatMap_append, List.flatMap_singleton]
      rw [hemits, h.output]
      rfl
  | writeFails _ _ _ _ _ _ _ hqueue hwrite =>
    have hemits := (hlabels.write_emits hlimits socket hqueue connection.output).2 hwilling
    rw [hwrite] at hemits
    cases hemits
  | writerReturns _ _ hprocessor _ hqueue =>
    exact { h with
      alive := { h.alive with writer := by rintro _ ⟨⟩ }
      writer := fun _ => ⟨hprocessor, hqueue⟩ }

end Undisturbed

/-! ## Runs -/

section Runs

variable {sockets : Nat → Writer} {server : ServerState}

/-- The labels of all connections hold in every state of the server. -/
theorem labelled_of_reachable (h : (serverMachine state cache sockets).Reachable server) :
    Origin.Coherent (Proper state) cache server.shared.world ∧
      ∀ index, Labelled state server.shared.world (server.connections index) := by
  obtain ⟨start, trace, hstart, hrun⟩ := h
  exact Origin.traced_of_run (fun _ _ alloc hreply => hreply.replayStorage alloc) (fun _ _ _ _ => Labelled.handsIn)
    hstart hrun

/-- What every step of a connection keeps holds of all connections. -/
theorem connections_invariant {P : Connection → Prop}
    (hnew : ∀ clientAddr stream, P (Connection.new clientAddr stream))
    (hstep : ∀ {index shared shared' connection connection' event}, Labelled state shared.world connection →
      P connection → ConnectionStep state cache (sockets index) shared connection event shared' connection' →
      P connection')
    (h : (serverMachine state cache sockets).Reachable server) (index : Nat) : P (server.connections index) := by
  obtain ⟨start, trace, hstart, hrun⟩ := h
  refine Machine.Run.keeps (P := fun _ server => ∀ index, P (server.connections index)) ?_
    ⟨start, [], hstart, .nil⟩ hrun (fun index => ?_) index
  · intro _ server event server' hreach h hserver
    cases hserver with
    | connection index _ _ _ hconnection =>
      intro other
      by_cases hother : other = index
      · subst hother
        simpa using hstep ((labelled_of_reachable hreach).2 other) (h other) hconnection
      · simpa [hother] using h other
    | tick | signal => exact h
  · obtain ⟨clientAddr, stream, hconnection⟩ := hstart.2 index
    rw [hconnection]
    exact hnew clientAddr stream

/-- Neither a deadline of this connection nor an error of its reader. -/
def Calm (index : Nat) (event : ServerEvent) : Prop :=
  event ≠ .connection index .deadline ∧ ∀ error, event ≠ .connection index (.readError error)

/-- Over a run without expired deadlines and broken records. -/
theorem undisturbed_of_run (hlimits : state.limits.Usable) (hwilling : (sockets index).Willing)
    {server server' : ServerState} (hstart : (serverMachine state cache sockets).Start server)
    (hrun : (serverMachine state cache sockets).Run server trace server')
    (hcalm : ∀ edge ∈ trace, Calm index edge.event) :
    Undisturbed state.limits hlimits (server'.connections index) := by
  refine Machine.Run.keeps (P := fun trace server => (∀ edge ∈ trace, Calm index edge.event) →
    Undisturbed state.limits hlimits (server.connections index)) ?_ ⟨server, [], hstart, .nil⟩ hrun ?_ hcalm
  · intro trace server event server' hreach ih hstep hcalm
    obtain ⟨hbefore, hlast⟩ := List.forall_mem_append.mp hcalm
    have h := ih hbefore
    cases hstep with
    | connection other event _ _ hstep =>
      by_cases hother : index = other
      · subst hother
        have hevent := hlast _ (List.mem_singleton_self _)
        cases event with
        | deadline => exact absurd rfl hevent.1
        | readError error => exact absurd rfl (hevent.2 error)
        | progress => simpa using h.step ((labelled_of_reachable hreach).2 index) hwilling hstep
      · simpa [hother] using h
    | tick | signal => exact h
  · intro _
    obtain ⟨clientAddr, stream, hconnection⟩ := hstart.2 index
    exact hconnection ▸ .new clientAddr stream

/-- Unless the processor loop ends here, one of the branches of its `select!` is enabled. -/
theorem selectEnabled_of_not_drained {limits : ServerLimits} (hlimits : limits.Usable) (h : ¬ connection.Drained) :
    connection.SelectEnabled limits := by
  by_cases htasks : connection.tasks = []
  · refine .inr (.inl ⟨by simpa [htasks] using hlimits.requests, ?_⟩)
    by_contra hidle
    simp only [not_or, not_not] at hidle
    exact h ⟨hidle.1, hidle.2, htasks⟩
  · exact .inr (.inr htasks)

/-- Every queued record has had its one reply: the numbers of the replies are those of the records, each
reply starts with the transaction id of its record, and the replies are what stands on the socket. -/
structure AnsweredOnce (limits : ServerLimits) (hlimits : limits.Usable) (connection : Connection) : Prop where
  once : (connection.written.map Prod.fst).Perm (List.range connection.queued.length)
  xid : ∀ number reply, (number, reply) ∈ connection.written →
    ∃ record, connection.queued[number]? = some record ∧ reply.intoBytes.take 4 = xidBytes record
  output : connection.output = wire limits hlimits connection.written

/-- Any number of connections run, in any order, with any requests, backends and shutdown. A connection
whose deadlines do not expire, whose reader meets no broken record and whose socket takes all writes
never gets stuck in its `select!`, and once finished it has answered each record it queued once. -/
theorem queued_records_answered_once (state : ConnectionState) (hlimits : state.limits.validate = .ok ())
    (cache : ReplayCache) (sockets : Nat → Writer) (index : Nat) (hwilling : (sockets index).Willing)
    (server server' : ServerState) (trace : List (Edge ServerState ServerEvent))
    (hstart : (serverMachine state cache sockets).Start server)
    (hrun : (serverMachine state cache sockets).Run server trace server')
    (hcalm : ∀ edge ∈ trace, Calm index edge.event) :
    (¬ (server'.connections index).Drained → (server'.connections index).SelectEnabled state.limits) ∧
    ((server'.connections index).Finished →
      AnsweredOnce state.limits (ServerLimits.usable_of_validate hlimits) (server'.connections index)) := by
  have husable := ServerLimits.usable_of_validate hlimits
  have hundisturbed := undisturbed_of_run husable hwilling hstart hrun hcalm
  have hlabels := (labelled_of_reachable ⟨server, trace, hstart, hrun⟩).2 index
  refine ⟨selectEnabled_of_not_drained husable, fun hfinished => ?_⟩
  obtain ⟨-, hprocessor, hwriter⟩ := hfinished.resolve_right (not_not_intro hundisturbed.alive)
  obtain ⟨hqueue, htasks⟩ := hundisturbed.processor hprocessor
  refine ⟨?_, fun number reply hmem => ?_, hundisturbed.output⟩
  · have hnumbers := hundisturbed.numbers
    rwa [Connection.numbers, hqueue, htasks, (hundisturbed.writer hwriter).2] at hnumbers
  · obtain ⟨record, hrecord, hsource⟩ := hlabels.written (number, reply) hmem
    exact ⟨record, hrecord, by rw [(hsource.deliverable husable).take_intoBytes, toBeBytes_replyXid]⟩

end Runs

/-! ## Two connections with one short record

A record of two bytes has no header, and is answered with an error for transaction zero. After it, the
client of the first connection ends the stream; that of the second sends a fragment that is empty and
not the last. -/

def shortRecord : Bytes := [0xab, 0xcd]

def sampleSockets (_ : Nat) : Writer := byteWriter true

def sampleServer (stream : Bytes) : ServerState :=
  ⟨⟨World.new 0, [], false⟩, fun _ => Connection.new (.v4 0 700) stream⟩

/-- A run goes on with a step of one connection. -/
theorem run_connection {state : ConnectionState} {cache : ReplayCache} {sockets : Nat → Writer} {server : ServerState}
    {connections : Nat → Connection} {shared shared' : Shared} (hrun : (serverMachine state cache sockets).Run server
      trace ⟨shared, Function.update connections index connection⟩)
    (hstep : ConnectionStep state cache (sockets index) shared connection event shared' connection') :
    (serverMachine state cache sockets).Run server
      (trace ++ [⟨⟨shared, Function.update connections index connection⟩, .connection index event,
        ⟨shared', Function.update connections index connection'⟩⟩])
      ⟨shared', Function.update connections index connection'⟩ := by
  have hserver : ServerStep state cache sockets ⟨shared, Function.update connections index connection⟩
      (.connection index event) _ :=
    .connection _ index event shared' connection' (by simpa using hstep)
  rw [Function.update_idem] at hserver
  exact hrun.snoc hserver

/-- The first connection gets from its start here, by steps with these events. -/
def Gets (stream : Bytes) (events : List ConnectionEvent) (connection : Connection) : Prop :=
  ∃ trace, (serverMachine sampleState Sample.cache sampleSockets).Run (sampleServer stream) trace
      ⟨(sampleServer stream).shared, Function.update (sampleServer stream).connections 0 connection⟩ ∧
    trace.map Edge.event = events.map (ServerEvent.connection 0)

theorem Gets.start (stream : Bytes) : Gets stream [] (Connection.new (.v4 0 700) stream) := by
  refine ⟨[], ?_, rfl⟩
  have hsame : Function.update (sampleServer stream).connections 0 (Connection.new (.v4 0 700) stream) =
      (sampleServer stream).connections := Function.update_eq_self 0 _
  rw [hsame]
  exact .nil

theorem Gets.step {stream : Bytes} {events : List ConnectionEvent} (h : Gets stream events connection)
    (hstep : ConnectionStep sampleState Sample.cache (byteWriter true) (sampleServer stream).shared connection event
      (sampleServer stream).shared connection') : Gets stream (events ++ [event]) connection' := by
  obtain ⟨trace, hrun, htrace⟩ := h
  exact ⟨_, run_connection hrun hstep, by simp [htrace]⟩

/-- The record is read and queued. -/
theorem Gets.queued {stream rest : Bytes}
    (hread : readRecordBudgeted sampleState.limits.recordLimits stream = .ok (shortRecord, rest)) :
    Gets stream [.progress, .progress] { Connection.new (.v4 0 700) rest with
      queued := [shortRecord], queue := [(0, shortRecord)] } := by
  have hcapacity : 0 < sampleState.limits.maxRequestsPerConnection := by decide
  exact ((Gets.start stream).step (.read shortRecord rest ⟨nofun, nofun, nofun⟩ rfl hread)).step
    (.enqueue shortRecord ⟨nofun, nofun, nofun⟩ rfl rfl rfl hcapacity)

-- the records are read and dispatched by evaluating the readers
set_option maxRecDepth 20000

def shortReply : EncodedReply := errorReply sampleState (recordXid shortRecord) SYSTEM_ERR

/-- The record is answered and everything returns. -/
theorem Gets.finished : ∃ output, Gets [0x80, 0, 0, 2, 0xab, 0xcd] (List.replicate 11 .progress)
    { Connection.new (.v4 0 700) [] with
      reader := .returned, queued := [shortRecord], processor := .returned, writer := .returned,
      written := [(0, shortReply)], output } := by
  have hcapacity : 0 < sampleState.limits.maxRequestsPerConnection := by decide
  have hemits : (byteWriter true).Emits
      ((byteWriter true).writeRecordSegmentsLimited shortReply.segments.1 shortReply.segments.2.1
        shortReply.segments.2.2 sampleState.limits.recordLimits) _ :=
    (Writer.writeRecordSegmentsLimited_writes (by decide) (by decide) (by decide)).emits
  refine ⟨_, ((((((((((Gets.queued rfl).step (.readEnds ?_ rfl)).step
    (.receive 0 shortRecord [] ?_ rfl rfl hcapacity)).step
    (.start [] [] 0 shortRecord rfl)).step
    (.rejected [] [] 0 shortRecord [] (.decode .truncated) rfl)).step
    (.reply [] [] 0 shortRecord shortReply ?_ rfl rfl (Nat.zero_le _))).step
    (.join [] [] 0 shortRecord ?_ rfl rfl)).step
    (.processorReturns ?_ rfl ⟨.inr rfl, rfl, rfl⟩)).step
    (.write 0 shortReply [] _ ?_ rfl rfl ((hemits []).2 (byteWriter_willing true)))).step
    (.writerReturns ?_ rfl rfl rfl rfl))⟩
  all_goals exact ⟨nofun, nofun, nofun⟩

theorem queued_records_answered_once_short : ∃ connection : Connection,
    connection.Finished ∧ connection.queued = [shortRecord] ∧
      AnsweredOnce sampleState.limits (ServerLimits.usable_of_validate ServerLimits.validate_productionDefaults)
        connection := by
  obtain ⟨output, trace, hrun, htrace⟩ := Gets.finished
  have hcalm : ∀ edge ∈ trace, Calm 0 edge.event := by
    intro edge hedge
    have hevent := List.mem_map_of_mem (f := Edge.event) hedge
    rw [htrace] at hevent
    simp only [List.map_replicate, List.mem_replicate] at hevent
    rw [hevent.2]
    exact ⟨nofun, nofun⟩
  have hfinished := (queued_records_answered_once sampleState ServerLimits.validate_productionDefaults Sample.cache
    sampleSockets 0 (byteWriter_willing true) _ _ trace ⟨⟨0, rfl⟩, fun _ => ⟨_, _, rfl⟩⟩ hrun hcalm).2
  dsimp only at hfinished
  rw [Function.update_self] at hfinished
  exact ⟨_, .inl ⟨rfl, rfl, rfl⟩, rfl, hfinished (.inl ⟨rfl, rfl, rfl⟩)⟩

/-- A record that was queued before a broken one has no reply: the error of the reader ends the
connection, and with it the request queue. No deadline expires and the socket takes all writes. -/
theorem queued_record_lost : ∃ server server' trace,
    sampleState.limits.validate = .ok () ∧ (sampleSockets 0).Willing ∧
    (serverMachine sampleState Sample.cache sampleSockets).Start server ∧
    (serverMachine sampleState Sample.cache sampleSockets).Run server trace server' ∧
    (∀ edge ∈ trace, edge.event ≠ .connection 0 .deadline) ∧
    (server'.connections 0).Finished ∧ (server'.connections 0).queued = [shortRecord] ∧
    (server'.connections 0).written = [] := by
  obtain ⟨trace, hrun, htrace⟩ := (@Gets.queued [0x80, 0, 0, 2, 0xab, 0xcd, 0, 0, 0, 0] [0, 0, 0, 0] rfl).step
    (.readFails .emptyFragment ⟨nofun, nofun, nofun⟩ rfl rfl (by decide))
  refine ⟨_, _, trace, ServerLimits.validate_productionDefaults, byteWriter_willing true,
    ⟨⟨0, rfl⟩, fun _ => ⟨_, _, rfl⟩⟩, hrun, ?_, .inr fun halive => ?_, ?_, ?_⟩
  · intro edge hedge
    have hevent := List.mem_map_of_mem (f := Edge.event) hedge
    rw [htrace] at hevent
    simp only [List.map_cons, List.map_nil, List.cons_append, List.nil_append, List.mem_cons,
      List.not_mem_nil, or_false] at hevent
    rcases hevent with hevent | hevent | hevent <;> rw [hevent] <;> rintro ⟨⟩
  · dsimp only at halive
    rw [Function.update_self] at halive
    exact halive.reader _ rfl
  · dsimp only
    rw [Function.update_self]
  · dsimp only
    rw [Function.update_self]
    rfl

end NfsEmbed.Server
