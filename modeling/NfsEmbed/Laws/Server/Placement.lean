import NfsEmbed.Laws.Server.Connection

/-!
# Where the requests of a connection are

A request is in the queue or with a task, never twice, and a task waits for an execution exactly if
there is one under its number (`Placed`). An execution may outlive its task, but its number does not
come back. What the processor and the writer leave behind, and how long records and the queue get, is
said by `Orderly`.

Both hold in every state of the server, of connections that failed too.
-/

namespace NfsEmbed.Server

open Lib Rpc Vfs Replay

variable {state : ConnectionState} {cache : ReplayCache} {socket : Writer} {shared shared' : Shared}
  {connection connection' : Connection} {event : ConnectionEvent}

variable {number : Nat} {thread : Thread} {before after : List Task} {record : Bytes}

/-! ## Numbers -/

structure Placed (connection : Connection) : Prop where
  waiting : (connection.queue.map Prod.fst ++ connection.tasks.map Task.number).Nodup
  executions : (connection.executions.map Execution.number).Nodup
  apart : ∀ execution ∈ connection.executions, execution.number ∉ connection.queue.map Prod.fst
  alone : ∀ execution ∈ connection.executions, ∀ task ∈ connection.tasks, task.number = execution.number →
    task.phase = .executing
  executing : ∀ task ∈ connection.tasks, task.phase = .executing →
    ∃ execution ∈ connection.executions, execution.number = task.number

theorem Task.number_resume (number : Nat) (thread : Thread) (task : Task) :
    (task.resume number thread).number = task.number := by
  unfold Task.resume
  split
  next =>
    split
    next => rfl
    next => rfl
  next => rfl

theorem Task.resume_of_ne {task : Task} (h : task.number ≠ number) : task.resume number thread = task := by
  unfold Task.resume
  split
  next => rw [if_neg h]
  next => rfl

/-- A task that still waits for an execution was not the one that got the outcome. -/
theorem Task.executing_of_resume {task : Task} (h : (task.resume number thread).phase = .executing) :
    task.phase = .executing ∧ task.number ≠ number := by
  unfold Task.resume at h
  split at h
  next hphase =>
    split at h
    next => cases h
    next hne => exact ⟨hphase, hne⟩
  next hphase => exact absurd h hphase

namespace Placed

theorem new (clientAddr : SocketAddr) (stream : Bytes) : Placed (Connection.new clientAddr stream) := by
  constructor
  · exact List.nodup_nil
  · exact List.nodup_nil
  all_goals rintro _ ⟨⟩

/-- A task of a number is the only one. -/
theorem eq_of_number (h : Placed connection) {task task' : Task} (htask : task ∈ connection.tasks)
    (htask' : task' ∈ connection.tasks) (hnumber : task.number = task'.number) : task = task' :=
  List.inj_on_of_nodup_map (List.nodup_append.mp h.waiting).2.1 htask htask' hnumber

theorem notMem_queue (h : Placed connection) {task : Task} (htask : task ∈ connection.tasks) :
    task.number ∉ connection.queue.map Prod.fst := by
  intro hmem
  exact (List.nodup_append.mp h.waiting).2.2 _ hmem _ (List.mem_map_of_mem htask) rfl

theorem number_ne (h : Placed connection) {task : Task} (htasks : connection.tasks = before ++ task :: after) :
    ∀ other ∈ before ++ after, other.number ≠ task.number := by
  have hnodup := (List.nodup_append.mp h.waiting).2.1
  rw [htasks, List.map_append, List.map_cons, List.nodup_middle, ← List.map_append, List.nodup_cons] at hnodup
  intro other hother hnumber
  exact hnodup.1 (hnumber ▸ List.mem_map_of_mem hother)

/-- A task that waits for no execution goes on, but not to wait for one. -/
theorem task (h : Placed connection) {phase phase' : TaskPhase}
    (htasks : connection.tasks = before ++ ⟨number, record, phase⟩ :: after) (hphase : phase ≠ .executing)
    (hphase' : phase' ≠ .executing) :
    Placed { connection with tasks := before ++ ⟨number, record, phase'⟩ :: after } := by
  have hwaiting := h.waiting
  have halone := h.alone
  have hexecuting := h.executing
  rw [htasks] at hwaiting halone hexecuting
  refine { h with waiting := ?_, alone := fun execution hexecution => ?_, executing := ?_ }
  · simpa only [List.map_append, List.map_cons] using hwaiting
  · refine forall_mem_replace (halone execution hexecution) rfl fun hold hnumber => ?_
    exact absurd (hold hnumber) hphase
  · exact forall_mem_replace hexecuting rfl fun _ hnew => absurd hnew hphase'

theorem remove (h : Placed connection) {task : Task} (htasks : connection.tasks = before ++ task :: after) :
    Placed { connection with tasks := before ++ after } := by
  have hsub : (before ++ after).Sublist connection.tasks := by
    rw [htasks]
    exact (List.Sublist.refl before).append (List.sublist_cons_self task after)
  exact { h with
    waiting := h.waiting.sublist ((List.Sublist.refl _).append (hsub.map Task.number))
    alone := fun execution hexecution task htask => h.alone execution hexecution task (hsub.subset htask)
    executing := fun task htask => h.executing task (hsub.subset htask) }

/-- The executions go on under their numbers. -/
theorem execution (h : Placed connection) {before after : List Execution} {lease : ReplayEntryKey} {thread' : Thread}
    (hexecutions : connection.executions = before ++ ⟨number, record, lease, thread⟩ :: after) :
    Placed { connection with executions := before ++ ⟨number, record, lease, thread'⟩ :: after } := by
  have hnodup := h.executions
  rw [hexecutions] at hnodup
  refine { h with
    executions := by simpa only [List.map_append, List.map_cons] using hnodup
    apart := forall_mem_replace h.apart hexecutions id
    alone := forall_mem_replace h.alone hexecutions id
    executing := fun task htask hphase => ?_ }
  obtain ⟨execution, hexecution, hnumber⟩ := h.executing task htask hphase
  rw [hexecutions] at hexecution
  rcases List.mem_append.mp hexecution with hmem | hmem
  · exact ⟨execution, List.mem_append_left _ hmem, hnumber⟩
  · rcases List.mem_cons.mp hmem with rfl | hmem
    · exact ⟨_, List.mem_append_right _ List.mem_cons_self, hnumber⟩
    · exact ⟨execution, List.mem_append_right _ (List.mem_cons_of_mem _ hmem), hnumber⟩

theorem spawn (h : Placed connection) {thread' : Thread} {lease : ReplayEntryKey}
    (htasks : connection.tasks = before ++ ⟨number, record, .handling thread⟩ :: after) : Placed { connection with
      tasks := before ++ ⟨number, record, .executing⟩ :: after
      executions := connection.executions ++ [⟨number, record, lease, thread'⟩] } := by
  have hmem : (⟨number, record, .handling thread⟩ : Task) ∈ connection.tasks := by
    rw [htasks]
    exact List.mem_append_right _ List.mem_cons_self
  have hwaiting := h.waiting
  have halone := h.alone
  have hexecuting := h.executing
  rw [htasks] at hwaiting halone hexecuting
  constructor
  · simpa only [List.map_append, List.map_cons] using hwaiting
  · -- the task did not wait for an execution yet, so there was none
    rw [List.map_append, List.nodup_append]
    refine ⟨h.executions, List.nodup_singleton _, ?_⟩
    intro a ha b hb heq
    obtain ⟨execution, hexecution, rfl⟩ := List.mem_map.mp ha
    rw [List.map_singleton, List.mem_singleton] at hb
    cases h.alone execution hexecution _ hmem (hb.symm.trans heq.symm)
  · exact List.forall_mem_append.mpr ⟨h.apart, List.forall_mem_singleton.mpr (h.notMem_queue hmem)⟩
  · intro execution hexecution
    rcases List.mem_append.mp hexecution with hexecution | hexecution
    · exact forall_mem_replace (halone execution hexecution) rfl fun _ _ => rfl
    · cases List.mem_singleton.mp hexecution
      have hother : ∀ other ∈ before ++ after, other.number = number → other.phase = .executing :=
        fun other hother hnumber => absurd hnumber (h.number_ne htasks other hother)
      rw [List.forall_mem_append] at hother
      exact List.forall_mem_append.mpr ⟨hother.1, List.forall_mem_cons.mpr ⟨fun _ => rfl, hother.2⟩⟩
  · have hkeep : ∀ task : Task, (∃ execution ∈ connection.executions, execution.number = task.number) →
        ∃ execution ∈ connection.executions ++ [⟨number, record, lease, thread'⟩], execution.number = task.number := by
      rintro task ⟨execution, hexecution, hnumber⟩
      exact ⟨execution, List.mem_append_left _ hexecution, hnumber⟩
    have hold := (forall_mem_remove hexecuting rfl).2
    rw [List.forall_mem_append] at hold
    refine List.forall_mem_append.mpr ⟨fun task htask hphase => hkeep task (hold.1 task htask hphase),
      List.forall_mem_cons.mpr ⟨fun _ => ?_, fun task htask hphase => hkeep task (hold.2 task htask hphase)⟩⟩
    exact ⟨_, List.mem_append_right _ (List.mem_singleton_self _), rfl⟩

/-- The outcome of an execution reaches its task. -/
theorem resume (h : Placed connection) {before after : List Execution} {execution : Execution} (thread : Thread)
    (hexecutions : connection.executions = before ++ execution :: after) :
    Placed { connection with
      executions := before ++ after
      tasks := connection.tasks.map (Task.resume execution.number thread) } := by
  have hsub := mem_of_mem_remove hexecutions
  have hnumbers : (connection.tasks.map (Task.resume execution.number thread)).map Task.number =
      connection.tasks.map Task.number := by
    rw [List.map_map]
    exact List.map_congr_left fun task _ => Task.number_resume _ _ task
  have hnodup := h.executions
  rw [hexecutions, List.map_append, List.map_cons, List.nodup_middle, ← List.map_append, List.nodup_cons] at hnodup
  constructor
  · rw [hnumbers]
    exact h.waiting
  · exact hnodup.2
  · exact fun other hother => h.apart other (hsub other hother)
  · intro other hother task hmem hnumber
    obtain ⟨task, htask, rfl⟩ := List.mem_map.mp hmem
    rw [Task.number_resume] at hnumber
    have hne : task.number ≠ execution.number := by
      intro heq
      exact hnodup.1 (heq ▸ hnumber ▸ List.mem_map_of_mem hother)
    rw [Task.resume_of_ne hne]
    exact h.alone other (hsub other hother) task htask hnumber
  · intro task hmem hphase
    obtain ⟨task, htask, rfl⟩ := List.mem_map.mp hmem
    obtain ⟨hphase, hne⟩ := Task.executing_of_resume hphase
    obtain ⟨other, hother, hnumber⟩ := h.executing task htask hphase
    rw [Task.number_resume]
    refine ⟨other, ?_, hnumber⟩
    rw [hexecutions] at hother
    rcases List.mem_append.mp hother with hmem | hmem
    · exact List.mem_append_left _ hmem
    · rcases List.mem_cons.mp hmem with rfl | hmem
      · exact absurd hnumber.symm hne
      · exact List.mem_append_right _ hmem

theorem enqueue (h : Placed connection) (hlabels : Labelled state shared.world connection) (reader : ReaderPhase)
    (record : Bytes) : Placed { connection with
      reader
      queued := connection.queued ++ [record]
      queue := connection.queue ++ [(connection.queued.length, record)] } := by
  have hnew : ∀ {number : Nat} {record' : Bytes}, connection.queued[number]? = some record' →
      number ≠ connection.queued.length := fun hlookup =>
    Nat.ne_of_lt (List.getElem?_eq_some_iff.mp hlookup).1
  refine { h with waiting := ?_, apart := fun execution hexecution => ?_ }
  · rw [List.map_append, List.map_singleton, List.append_assoc, List.singleton_append, List.nodup_middle,
      List.nodup_cons]
    refine ⟨fun hmem => ?_, h.waiting⟩
    rcases List.mem_append.mp hmem with hmem | hmem
    · obtain ⟨entry, hentry, hnumber⟩ := List.mem_map.mp hmem
      exact hnew (hlabels.queue entry hentry) hnumber
    · obtain ⟨task, htask, hnumber⟩ := List.mem_map.mp hmem
      exact hnew (hlabels.tasks task htask).1 hnumber
  · rw [List.map_append, List.mem_append, not_or, List.map_singleton, List.mem_singleton]
    exact ⟨h.apart execution hexecution, hnew (hlabels.executions execution hexecution).1⟩

theorem step (h : Placed connection) (hlabels : Labelled state shared.world connection)
    (hstep : ConnectionStep state cache socket shared connection event shared' connection') : Placed connection' := by
  cases hstep with
  | read | readEnds | readFails | readBreaks | sendEnds | sendExpires | close | processorReturns | prepare | write
  | writeFails | writeExpires | writerReturns => exact { h with }
  | enqueue record => exact h.enqueue hlabels _ record
  | receive _ _ _ _ _ hqueue =>
    have hwaiting := h.waiting
    have hapart := h.apart
    simp only [hqueue, List.map_cons, List.cons_append, List.nodup_cons, List.mem_cons, not_or] at hwaiting hapart
    refine { h with
      waiting := ?_
      apart := fun execution hexecution => (hapart execution hexecution).2
      alone := fun execution hexecution => List.forall_mem_append.mpr
        ⟨h.alone execution hexecution, List.forall_mem_singleton.mpr fun hnumber => ?_⟩
      executing := List.forall_mem_append.mpr ⟨h.executing, List.forall_mem_singleton.mpr nofun⟩ }
    · rw [List.map_append, ← List.append_assoc, List.map_singleton, List.nodup_append]
      refine ⟨hwaiting.2, List.nodup_singleton _, fun a ha b hb heq => ?_⟩
      subst heq
      rw [List.mem_singleton] at hb
      subst hb
      exact hwaiting.1 ha
    · exact absurd hnumber.symm (hapart execution hexecution).1
  | join _ _ _ _ _ _ htasks | dropLease _ _ _ _ _ _ _ _ htasks | dropReceiver _ _ _ _ _ _ _ _ htasks
  | dropTask _ _ _ _ htasks => exact h.remove htasks
  | joinFailed _ _ _ _ _ _ _ htasks => exact { h.remove htasks with }
  | start _ _ _ _ htasks | reserveExpires _ _ _ _ _ htasks | handled _ _ _ _ _ _ htasks
  | rejected _ _ _ _ _ _ htasks | replyExpires _ _ _ _ _ _ htasks => exact h.task htasks nofun nofun
  | ask _ _ _ _ _ _ _ _ _ htasks =>
    exact h.task htasks nofun nofun
  | spawn _ _ _ _ _ _ _ htasks => exact h.spawn htasks
  | reply _ _ _ _ _ _ htasks => exact { h.task htasks (by nofun) (by nofun) with }
  | execute _ _ _ _ _ _ _ _ _ _ hexecutions =>
    exact h.execution hexecutions
  | executionExpires _ _ _ _ _ _ _ _ hexecutions => exact h.execution hexecutions
  | executed _ _ _ _ _ _ _ hexecutions | aborted _ _ _ _ _ _ _ _ hexecutions => exact h.resume _ hexecutions

end Placed

/-! ## Order -/

structure Orderly (limits : ServerLimits) (connection : Connection) : Prop where
  room : connection.queue.length ≤ limits.maxRequestsPerConnection
  processor : connection.processor = .returned →
    connection.IsClosed ∧ connection.queue = [] ∧ connection.tasks = []
  writer : connection.writer = .returned → connection.processor = .returned ∧ connection.replyQueue = []
  sending : ∀ record, connection.reader = .sending record → record.length ≤ limits.maxRpcRecordSize
  queued : ∀ record ∈ connection.queued, record.length ≤ limits.maxRpcRecordSize

namespace Orderly

variable {limits : ServerLimits}

theorem new (limits : ServerLimits) (clientAddr : SocketAddr) (stream : Bytes) :
    Orderly limits (Connection.new clientAddr stream) where
  room := Nat.zero_le _
  processor := nofun
  writer := nofun
  sending := nofun
  queued := nofun

/-- A processor that has a task has not returned. -/
theorem tasks (h : Orderly limits connection) {task : Task} (tasks' : List Task)
    (htasks : connection.tasks = before ++ task :: after) : Orderly limits { connection with tasks := tasks' } := by
  refine { h with processor := fun hreturned => ?_ }
  have hnone := (h.processor hreturned).2.2
  simp [htasks] at hnone

/-- Nor does a task appear where there was none. -/
theorem resume (h : Orderly limits connection) (executions : List Execution) (number : Nat) (thread : Thread) :
    Orderly limits { connection with executions, tasks := connection.tasks.map (Task.resume number thread) } := by
  refine { h with processor := fun hreturned => ?_ }
  obtain ⟨hclosed, hqueue, htasks⟩ := h.processor hreturned
  exact ⟨hclosed, hqueue, by rw [htasks]; rfl⟩

/-- The reader goes on from a record it wants to queue, or is about to have one. -/
theorem reader (h : Orderly limits connection) {phase : ReaderPhase} (stream : Bytes)
    (hreader : connection.reader ≠ .returned)
    (hsending : ∀ record, phase = .sending record → record.length ≤ limits.maxRpcRecordSize) :
    Orderly limits { connection with reader := phase, stream } := by
  refine { h with sending := hsending, processor := fun hreturned => ?_ }
  obtain ⟨hclosed, hrest⟩ := h.processor hreturned
  exact ⟨.inl (hclosed.resolve_right hreader), hrest⟩

theorem step (h : Orderly state.limits connection)
    (hstep : ConnectionStep state cache socket shared connection event shared' connection') :
    Orderly state.limits connection' := by
  cases hstep with
  | read _ rest _ hreader hread =>
    refine h.reader rest (by rw [hreader]; rintro ⟨⟩) ?_
    rintro record' ⟨⟩
    exact length_le_of_readRecordBudgeted hread
  | readEnds _ hreader | readFails error _ hreader | readBreaks _ hreader | sendEnds record _ hreader
  | sendExpires record _ hreader =>
    exact h.reader _ (by rw [hreader]; rintro ⟨⟩) nofun
  | enqueue record _ hreader _ hprocessor hroom =>
    refine { h with
      room := by rw [List.length_append]; exact hroom
      processor := fun hreturned => by rw [hprocessor] at hreturned; cases hreturned
      sending := nofun
      queued := List.forall_mem_append.mpr ⟨h.queued, List.forall_mem_singleton.mpr (h.sending record hreader)⟩ }
  | close =>
    refine { h with processor := fun hreturned => ?_ }
    exact ⟨.inl rfl, (h.processor hreturned).2⟩
  | receive _ _ _ _ hprocessor hqueue =>
    have hroom := h.room
    rw [hqueue, List.length_cons] at hroom
    exact { h with
      room := Nat.le_of_succ_le hroom
      processor := fun hreturned => by rw [hprocessor] at hreturned; cases hreturned }
  | join _ _ _ _ _ _ htasks | start _ _ _ _ htasks | reserveExpires _ _ _ _ _ htasks | ask _ _ _ _ _ _ _ _ _ htasks
  | handled _ _ _ _ _ _ htasks | rejected _ _ _ _ _ _ htasks | replyExpires _ _ _ _ _ _ htasks
  | dropLease _ _ _ _ _ _ _ _ htasks | dropReceiver _ _ _ _ _ _ _ _ htasks | dropTask _ _ _ _ htasks =>
    exact h.tasks _ htasks
  | joinFailed before after _ _ _ _ hprocessor htasks =>
    refine { h.tasks (before ++ after) htasks with processor := nofun, writer := fun hreturned => ?_ }
    have hboth := (h.writer hreturned).1
    rw [hprocessor] at hboth
    cases hboth
  | processorReturns _ _ hdrained =>
    exact { h with processor := fun _ => hdrained, writer := fun hreturned => ⟨rfl, (h.writer hreturned).2⟩ }
  | spawn _ _ _ _ _ _ _ htasks => exact { h.tasks _ htasks with }
  | reply _ _ _ _ _ _ htasks hwriter =>
    exact { h.tasks _ htasks with writer := fun hreturned => by rw [hwriter] at hreturned; cases hreturned }
  | execute | prepare | executionExpires => exact { h with }
  | executed _ _ number | aborted _ _ number => exact h.resume _ number _
  | write _ _ _ _ _ hwriter =>
    exact { h with writer := fun hreturned => by rw [hwriter] at hreturned; cases hreturned }
  | writeFails | writeExpires => exact { h with writer := by rintro ⟨⟩ }
  | writerReturns _ _ hprocessor _ hqueue => exact { h with writer := fun _ => ⟨hprocessor, hqueue⟩ }

end Orderly

/-! ## All connections -/

section Runs

variable {sockets : Nat → Writer} {server : ServerState}

/-- Every record is in one place at a time. -/
theorem placed_of_reachable
    (h : (serverMachine state cache sockets).Reachable server) (index : Nat) : Placed (server.connections index) :=
  connections_invariant Placed.new (fun hlabels hplaced hstep => hplaced.step hlabels hstep) h index

theorem orderly_of_reachable
    (h : (serverMachine state cache sockets).Reachable server) (index : Nat) :
    Orderly state.limits (server.connections index) :=
  connections_invariant (Orderly.new state.limits) (fun _ horderly hstep => horderly.step hstep) h index

end Runs

end NfsEmbed.Server
