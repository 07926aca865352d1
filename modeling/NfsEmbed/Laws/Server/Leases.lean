import NfsEmbed.Laws.Server.Connection
import NfsEmbed.Server.Budgets

/-!
# Who resolves a lease

A request gets its lease from the cache, hands it to its execution or drops it, and the execution
resolves it: on every path once, and before the program ends (`leaseProtocol`). So at any time each
unresolved lease of the cache is with exactly one task or execution of one connection, which may resolve
it (`LeaseBook`). No lease is lost, whatever connections fail and whatever deadlines expire.
-/

namespace NfsEmbed.Server

open Lib Rpc Vfs Replay
open Prog (Typestate Follows Ensures)

variable {history : Dialogue} {lease : ReplayEntryKey} {op : ServerOp} {number : Nat} {record : Bytes}
  {before after : List Task} {w w' : World} {next : op.Answer → ServerM EncodedReply}

/-! ## The protocol -/

/-- Where a request is with its lease. -/
inductive LeaseStage where
  | free
  /-- It duplicates another request. -/
  | waiting (receiver : Channel)
  | granted (lease : ReplayEntryKey)
  | running (lease : ReplayEntryKey)
  /-- It has none, and does not ask for one any more. -/
  | closed
deriving DecidableEq

def leaseProtocol : Typestate serverSignature LeaseStage where
  Allows
    | .free, .begin _ _ => True
    | .waiting receiver, .wait receiver' => receiver' = receiver
    | .granted lease, .spawn lease' => lease' = lease
    | .granted lease, .cancel lease' => lease' = lease
    | .running _, .vfs _ _ _ => True
    | .running _, .mounts _ => True
    | .running lease, .complete lease' _ => lease' = lease
    | .running lease, .cancel lease' => lease' = lease
    | _, _ => False
  after
    | .free, .begin _ _, .ok (.wait receiver) => .waiting receiver
    | .free, .begin _ _, .ok (.execute lease) => .granted lease
    | .granted lease, .spawn _, .ok _ => .running lease
    | .granted lease, .spawn _, .error _ => .granted lease
    | .running lease, .vfs _ _ _, _ => .running lease
    | .running lease, .mounts _, _ => .running lease
    | _, _, _ => .closed
  Final stage := stage = .free ∨ stage = .closed

section Programs

variable {state : ConnectionState} {lease : ReplayEntryKey}

theorem execution_follows {request : ServerM EncodedReply} {rule : CallRule}
    {Q : Dialogue → Except ServerError EncodedReply → Prop} (h : Ensures anything rule.Permits Q history request) :
    Follows leaseProtocol (execution lease request) (.running lease) := by
  refine Prog.follows_outcome_bind (fun _ _ => trivial) (fun history op hop => ?_) h fun result => ?_
  · cases op with
    | vfs | mounts => exact ⟨trivial, fun _ => rfl⟩
    | _ => exact False.elim hop
  · cases result with
    | ok | error => exact ⟨rfl, fun _ => .inr rfl⟩

theorem dispatchAuthorized_follows (clientAddr : SocketAddr) (header : CallHeader) (principal : Principal) :
    Follows leaseProtocol (dispatchAuthorized state clientAddr header principal) .free := by
  refine ⟨trivial, fun answer => ?_⟩
  cases answer with
  | error => exact .inr rfl
  | ok decision =>
    cases decision with
    | replay => exact .inr rfl
    | wait =>
      refine ⟨rfl, fun answer => ?_⟩
      cases answer with
      | error | ok => exact .inr rfl
    | execute =>
      refine ⟨rfl, fun answer => ?_⟩
      cases answer with
      | error => exact ⟨rfl, fun _ => .inr rfl⟩
      | ok => exact execution_follows (executeRequest_ensures _ _ _ _ [])

/-- Handling a record follows the protocol of leases. -/
theorem dispatchRecord_follows (clientAddr : SocketAddr) (record : Bytes) :
    Follows leaseProtocol (dispatchRecord state clientAddr record) .free := by
  unfold dispatchRecord
  cases Decoder.run decodeCallHeader record with
  | error => exact .inl rfl
  | ok header =>
    cases header with
    | none => exact .inl rfl
    | some header =>
      change Follows leaseProtocol (dispatchHeader state clientAddr header) .free
      unfold dispatchHeader
      split
      next => exact .inl rfl
      next =>
      split
      next => exact .inl rfl
      next =>
      split
      next => exact .inl rfl
      next =>
      split
      next => exact .inl rfl
      next => exact dispatchAuthorized_follows clientAddr header _

end Programs

/-! ## Stages and leases -/

/-- The lease that is to be resolved. -/
def LeaseStage.leases : LeaseStage → List ReplayEntryKey
  | .granted lease | .running lease => [lease]
  | _ => []

/-- A task passes its lease on when its execution is spawned. -/
def LeaseStage.OfTask : LeaseStage → Prop
  | .running _ => False
  | _ => True

/-- The operation a program is at. -/
def Thread.asking (thread : Thread) : Option ServerOp :=
  match thread.program with
  | .ask op _ => some op
  | _ => none

def Task.asking (task : Task) : Option ServerOp :=
  match task.phase with
  | .handling thread => thread.asking
  | _ => none

/-- The lease a task is about to pass on or to drop. -/
def ServerOp.leases : ServerOp → List ReplayEntryKey
  | .spawn lease | .cancel lease => [lease]
  | _ => []

def Task.leases (task : Task) : List ReplayEntryKey := task.asking.elim [] ServerOp.leases

/-- An execution has its lease until the program ends. -/
def Execution.leases (execution : Execution) : List ReplayEntryKey :=
  execution.thread.asking.elim [] fun _ => [execution.lease]

/-- A program that ends is at no operation, as the task that waited for it was. -/
theorem Task.asking_resume (number : Nat) (history : Dialogue) (outcome : Except ServerError EncodedReply) (task : Task) :
    (task.resume number ⟨history, Prog.ofExcept outcome⟩).asking = task.asking := by
  unfold Task.resume
  split
  next hphase =>
    split
    next => cases outcome <;> simp [Task.asking, Thread.asking, Prog.ofExcept, hphase]
    next => rfl
  next => rfl

theorem asking_map_resume (number : Nat) (history : Dialogue) (outcome : Except ServerError EncodedReply)
    (tasks : List Task) :
    (tasks.map (Task.resume number ⟨history, Prog.ofExcept outcome⟩)).map Task.asking = tasks.map Task.asking := by
  rw [List.map_map]
  exact List.map_congr_left fun task _ => Task.asking_resume number history outcome task

theorem Task.asking_of_settled {task : Task} (h : task.phase.Settled) : task.asking = none := by
  obtain ⟨number, record, phase⟩ := task
  cases phase with
  | handling thread =>
    obtain ⟨history, program⟩ := thread
    cases program with
    | done | fail => rfl
    | ask => exact h.elim
  | _ => rfl

theorem Thread.leases_of_follows {thread : Thread} {stage : LeaseStage} (hstage : stage.OfTask)
    (h : Follows leaseProtocol thread.program stage) : thread.asking.elim [] ServerOp.leases = stage.leases := by
  obtain ⟨history, program⟩ := thread
  cases program with
  | done =>
    rcases h with rfl | rfl <;> rfl
  | fail => rcases h with rfl | rfl <;> rfl
  | ask op =>
    have hallows := h.1
    cases stage with
    | running => exact hstage.elim
    | free | waiting => cases op <;> first | rfl | exact hallows.elim
    | granted lease =>
      cases op with
      | spawn lease' | cancel lease' =>
        cases (show lease' = lease from hallows)
        rfl
      | _ => exact hallows.elim
    | closed => cases op <;> exact hallows.elim

theorem Execution.leases_of_follows {execution : Execution} {stage : LeaseStage}
    (hstage : stage = .running execution.lease ∨ stage = .closed)
    (h : Follows leaseProtocol execution.thread.program stage) : execution.leases = stage.leases := by
  obtain ⟨number, record, lease, history, program⟩ := execution
  rcases hstage with rfl | rfl
  · cases program with
    | done | fail => rcases h with h | h <;> cases h
    | ask => rfl
  · cases program with
    | done | fail => rfl
    | ask op => cases op <;> exact h.1.elim

section Served

variable {cache : ReplayCache} {shared shared' : Shared} {op : ServerOp} {answer : op.Answer} {stage : LeaseStage}

/-- An answer leads a task to a stage of a task. -/
theorem Served.ofTask_after (h : Served cache shared op answer shared') (hstage : stage.OfTask) :
    (leaseProtocol.after stage op answer).OfTask := by
  cases stage with
  | running => exact hstage.elim
  | waiting | closed => cases op <;> exact trivial
  | free =>
    cases h with
    | begin now key fingerprint =>
      cases (shared.world.begin cache now key fingerprint).1 with
      | error => exact trivial
      | ok decision => cases decision <;> exact trivial
    | _ => exact trivial
  | granted => cases h <;> exact trivial

/-- What an answer does to the leases of the cache is what it does to the one of the request. -/
inductive LeaseChange (w w' : World) (before after : List ReplayEntryKey) : Prop
  | kept : w'.leases = w.leases → after = before → LeaseChange w w' before after
  | granted (lease : ReplayEntryKey) : lease ∉ w.leases → w'.leases = w.leases.insert lease .held →
    before = [] → after = [lease] → LeaseChange w w' before after
  | resolved (lease : ReplayEntryKey) : w'.leases = w.leases.erase lease →
    before = [lease] → after = [] → LeaseChange w w' before after

theorem Served.leaseChange (h : Served cache shared op answer shared') (hsound : Sound cache shared.world)
    (hallows : leaseProtocol.Allows stage op) :
    LeaseChange shared.world shared'.world stage.leases (leaseProtocol.after stage op answer).leases := by
  cases h with
  | vfs | mounts =>
    cases stage with
    | running => exact .kept rfl rfl
    | _ => exact hallows.elim
  | received | unanswered =>
    cases stage with
    | waiting => exact .kept rfl rfl
    | _ => exact hallows.elim
  | refused =>
    cases stage with
    | granted => exact .kept rfl rfl
    | _ => exact hallows.elim
  | begin now key fingerprint =>
    cases stage with
    | free =>
      cases hanswer : (shared.world.begin cache now key fingerprint).1 with
      | error =>
        exact .kept (begin_leases_of_ne_execute fun lease => by rw [hanswer]; rintro ⟨⟩) rfl
      | ok decision =>
        cases decision with
        | execute lease =>
          exact .granted lease (notMem_of_execute hsound hanswer) (begin_leases_of_execute hanswer) rfl rfl
        | wait | replay => exact .kept (begin_leases_of_ne_execute fun lease => by rw [hanswer]; rintro ⟨⟩) rfl
    | _ => exact hallows.elim
  | complete lease' =>
    cases stage with
    | running lease =>
      cases (show lease' = lease from hallows)
      exact .resolved _ rfl rfl rfl
    | _ => exact hallows.elim
  | cancel lease' =>
    cases stage with
    | running lease | granted lease =>
      cases (show lease' = lease from hallows)
      exact .resolved _ rfl rfl rfl
    | _ => exact hallows.elim

end Served

/-! ## Connections -/

/-- A task whose execution was spawned has nothing left to ask. -/
def TaskPhase.InProtocol : TaskPhase → Prop
  | .handling thread => ∃ stage : LeaseStage, stage.OfTask ∧ Follows leaseProtocol thread.program stage ∧
      (thread.Spawned → stage = .closed)
  | _ => True

def Execution.InProtocol (execution : Execution) : Prop :=
  ∃ stage : LeaseStage, (stage = .running execution.lease ∨ stage = .closed) ∧
    Follows leaseProtocol execution.thread.program stage

/-- All programs on their way follow the protocol. -/
structure InProtocol (connection : Connection) : Prop where
  tasks : ∀ task ∈ connection.tasks, task.phase.InProtocol
  executions : ∀ execution ∈ connection.executions, execution.InProtocol

variable {state : ConnectionState} {cache : ReplayCache} {socket : Writer} {shared shared' : Shared}
  {connection connection' : Connection} {event : ConnectionEvent}

/-- A program that has ended has no lease. -/
theorem follows_ofExcept (outcome : Except ServerError EncodedReply) :
    Follows leaseProtocol (Prog.ofExcept outcome : ServerM EncodedReply) .closed := by
  cases outcome <;> exact .inr rfl

/-- Only a task that was granted the lease passes it on. -/
theorem follows_running_of_spawn {next : Except ServerError Unit → ServerM EncodedReply} {stage : LeaseStage}
    (h : Follows leaseProtocol (Prog.ask (S := serverSignature) (.spawn lease) next) stage) :
    Follows leaseProtocol (next (.ok ())) (.running lease) := by
  cases stage with
  | granted lease' =>
    cases (show lease = lease' from h.1)
    exact h.2 (.ok ())
  | _ => exact h.1.elim

/-- An execution goes on running, or has resolved its lease. -/
theorem LeaseStage.after_execution {stage : LeaseStage} (h : stage = .running lease ∨ stage = .closed) (op : ServerOp)
    (answer : op.Answer) :
    leaseProtocol.after stage op answer = .running lease ∨ leaseProtocol.after stage op answer = .closed := by
  rcases h with rfl | rfl
  · cases op with
    | vfs | mounts => exact .inl rfl
    | _ => exact .inr rfl
  · exact .inr (by cases op <;> rfl)

/-- The environment does not answer that the execution was spawned: this is a step of its own. -/
theorem Served.not_spawned {answer : op.Answer} {program program' : ServerM EncodedReply}
    (h : Served cache shared op answer shared') (hbefore : ¬ Thread.Spawned ⟨history, program⟩) :
    ¬ Thread.Spawned ⟨history ++ [⟨op, answer⟩], program'⟩ := by
  rintro ⟨lease, hmem⟩
  rcases List.mem_append.mp hmem with hmem | hmem
  · exact hbefore ⟨lease, hmem⟩
  · cases List.mem_singleton.mp hmem
    cases h

theorem Execution.InProtocol.execute
    (h : Execution.InProtocol ⟨number, record, lease, ⟨history, Prog.ask (S := serverSignature) op next⟩⟩)
    (history' : Dialogue) (answer : op.Answer) :
    Execution.InProtocol ⟨number, record, lease, ⟨history', next answer⟩⟩ := by
  obtain ⟨stage, hstage, -, hnext⟩ := h
  exact ⟨_, LeaseStage.after_execution hstage op answer, hnext answer⟩

namespace InProtocol

theorem new (clientAddr : SocketAddr) (stream : Bytes) : InProtocol (Connection.new clientAddr stream) :=
  ⟨nofun, nofun⟩

theorem task (h : InProtocol connection) {phase : TaskPhase} (phase' : TaskPhase)
    (htasks : connection.tasks = before ++ ⟨number, record, phase⟩ :: after)
    (hphase : phase.InProtocol → phase'.InProtocol) :
    InProtocol { connection with tasks := before ++ ⟨number, record, phase'⟩ :: after } :=
  { h with tasks := forall_mem_replace h.tasks htasks hphase }

theorem remove (h : InProtocol connection) {task : Task} (htasks : connection.tasks = before ++ task :: after) :
    InProtocol { connection with tasks := before ++ after } :=
  { h with tasks := (forall_mem_remove h.tasks htasks).2 }

theorem resume (h : InProtocol connection) {executions : List Execution} (hsub : ∀ execution ∈ executions, execution ∈ connection.executions)
    (number : Nat) (history : Dialogue) (outcome : Except ServerError EncodedReply) :
    InProtocol { connection with
      executions
      tasks := connection.tasks.map (Task.resume number ⟨history, Prog.ofExcept outcome⟩) } := by
  refine ⟨fun task hmem => ?_, fun execution hexecution => h.executions execution (hsub execution hexecution)⟩
  obtain ⟨task, htask, rfl⟩ := List.mem_map.mp hmem
  have hold := h.tasks task htask
  unfold Task.resume
  split
  next =>
    split
    next => exact ⟨.closed, trivial, follows_ofExcept outcome, fun _ => rfl⟩
    next => exact hold
  next => exact hold

theorem step (h : InProtocol connection)
    (hstep : ConnectionStep state cache socket shared connection event shared' connection') : InProtocol connection' := by
  cases hstep with
  | read | readEnds | readFails | readBreaks | enqueue | sendEnds | sendExpires | close | processorReturns | prepare
  | write | writeFails | writeExpires | writerReturns => exact { h with }
  | receive =>
    exact { h with tasks := List.forall_mem_append.mpr ⟨h.tasks, List.forall_mem_singleton.mpr trivial⟩ }
  | join _ _ _ _ _ _ htasks | dropLease _ _ _ _ _ _ _ _ htasks | dropReceiver _ _ _ _ _ _ _ _ htasks
  | dropTask _ _ _ _ htasks => exact h.remove htasks
  | joinFailed _ _ _ _ _ _ _ htasks => exact { h.remove htasks with }
  | start _ _ _ record htasks =>
    exact h.task _ htasks fun _ => ⟨.free, trivial, dispatchRecord_follows _ record, nofun⟩
  | reserveExpires _ _ _ _ _ htasks | handled _ _ _ _ _ _ htasks | rejected _ _ _ _ _ _ htasks
  | replyExpires _ _ _ _ _ _ htasks => exact h.task _ htasks fun _ => trivial
  | ask _ _ _ _ history op next answer _ htasks hserved =>
    refine h.task _ htasks ?_
    rintro ⟨stage, hstage, hfollows, hspawned⟩
    have hbefore : ¬ Thread.Spawned ⟨history, Prog.ask op next⟩ := by
      intro hold
      have hclosed := hfollows.1
      rw [hspawned hold] at hclosed
      cases op <;> exact hclosed.elim
    exact ⟨_, hserved.ofTask_after hstage, hfollows.2 answer, fun hnew => absurd hnew (hserved.not_spawned hbefore)⟩
  | spawn _ _ _ _ _ lease _ htasks =>
    obtain ⟨stage, -, hfollows, -⟩ := (forall_mem_remove h.tasks htasks).1
    refine { h.task .executing htasks fun _ => trivial with executions := ?_ }
    exact List.forall_mem_append.mpr ⟨h.executions,
      List.forall_mem_singleton.mpr ⟨.running lease, .inl rfl, follows_running_of_spawn hfollows⟩⟩
  | reply _ _ _ _ _ _ htasks =>
    exact { h.task .finished htasks fun _ => trivial with }
  | execute _ _ _ _ _ _ _ _ answer _ hexecutions =>
    exact { h with executions := forall_mem_replace h.executions hexecutions fun hold => hold.execute _ answer }
  | executionExpires _ _ _ _ lease _ _ _ hexecutions =>
    refine { h with executions := forall_mem_replace h.executions hexecutions fun _ => ?_ }
    exact ⟨.running lease, .inl rfl, rfl, fun _ => .inr rfl⟩
  | executed _ _ number _ _ history outcome hexecutions =>
    exact h.resume (mem_of_mem_remove hexecutions) number history outcome
  | aborted _ _ number _ _ history _ _ hexecutions =>
    exact h.resume (mem_of_mem_remove hexecutions) number history (.error _)

end InProtocol

/-! ## The book -/

/-- The leases with the tasks of a connection, which have not passed them on. -/
def Connection.taskLeases (connection : Connection) : List ReplayEntryKey := connection.tasks.flatMap Task.leases

/-- The unresolved leases of a connection. -/
def Connection.leases (connection : Connection) : List ReplayEntryKey :=
  connection.tasks.flatMap Task.leases ++ connection.executions.flatMap Execution.leases

def Task.Booked (w : World) (task : Task) : Prop := ∀ lease ∈ task.leases, w.leases.lookup lease = some .held

/-- An execution holds its lease, or is between the two lock sections of `complete`. -/
def Execution.Booked (w : World) (execution : Execution) : Prop :=
  ∀ op next, execution.thread.program = .ask op next →
    w.leases.lookup execution.lease = some .held ∨
    ∃ reply alloc eligibleBeforeCopy, op = .complete execution.lease reply ∧
      w.leases.lookup execution.lease = some (.completing reply alloc eligibleBeforeCopy)

/-- The cache has the leases of the connection as unresolved. -/
structure Booked (w : World) (connection : Connection) : Prop where
  tasks : ∀ task ∈ connection.tasks, task.Booked w
  executions : ∀ execution ∈ connection.executions, execution.Booked w

theorem Execution.mem_leases {execution : Execution} (h : execution.thread.program = .ask op next) :
    execution.lease ∈ execution.leases := by
  unfold Execution.leases Thread.asking
  rw [h]
  exact List.mem_singleton_self _

theorem Execution.of_mem_leases {execution : Execution} (h : lease ∈ execution.leases) :
    lease = execution.lease ∧ ∃ op next, execution.thread.program = .ask op next := by
  unfold Execution.leases Thread.asking at h
  split at h
  next op next hprogram => exact ⟨List.mem_singleton.mp h, op, next, hprogram⟩
  next => cases h

theorem Task.Booked.frame {task : Task} (h : task.Booked w)
    (hsame : ∀ lease ∈ task.leases, w'.leases.lookup lease = w.leases.lookup lease) : task.Booked w' := by
  intro lease hlease
  rw [hsame lease hlease]
  exact h lease hlease

theorem Execution.Booked.frame {execution : Execution} (h : execution.Booked w)
    (hsame : ∀ lease ∈ execution.leases, w'.leases.lookup lease = w.leases.lookup lease) : execution.Booked w' := by
  intro op next hprogram
  rw [hsame execution.lease (execution.mem_leases hprogram)]
  exact h op next hprogram

namespace Booked

variable {w w' : World}

theorem new (clientAddr : SocketAddr) (stream : Bytes) : Booked w (Connection.new clientAddr stream) := ⟨nofun, nofun⟩

theorem frame (h : Booked w connection)
    (hsame : ∀ lease ∈ connection.leases, w'.leases.lookup lease = w.leases.lookup lease) : Booked w' connection := by
  refine ⟨fun task htask => (h.tasks task htask).frame fun lease hlease => hsame lease ?_,
    fun execution hexecution => (h.executions execution hexecution).frame fun lease hlease => hsame lease ?_⟩
  · exact List.mem_append_left _ (List.mem_flatMap.mpr ⟨task, htask, hlease⟩)
  · exact List.mem_append_right _ (List.mem_flatMap.mpr ⟨execution, hexecution, hlease⟩)

theorem mem (h : Booked w connection) (hlease : lease ∈ connection.leases) : lease ∈ w.leases := by
  rw [← AList.lookup_isSome]
  rcases List.mem_append.mp hlease with hlease | hlease
  · obtain ⟨task, htask, hlease⟩ := List.mem_flatMap.mp hlease
    rw [h.tasks task htask lease hlease]
    rfl
  · obtain ⟨execution, hexecution, hlease⟩ := List.mem_flatMap.mp hlease
    obtain ⟨rfl, op, next, hprogram⟩ := Execution.of_mem_leases hlease
    rcases h.executions execution hexecution op next hprogram with hheld | ⟨_, _, _, _, hcompleting⟩
    · rw [hheld]
      rfl
    · rw [hcompleting]
      rfl

end Booked

/-- What a step of a connection does to the leases of the cache and to its own. Its tasks have no leases but those
they had and the one that is granted. -/
inductive LeaseStep (w w' : World) (connection connection' : Connection) : Prop
  | kept : (∀ lease ∉ connection.leases, w'.leases.lookup lease = w.leases.lookup lease) →
    (∀ lease, lease ∈ w'.leases ↔ lease ∈ w.leases) → connection'.leases.Perm connection.leases →
    (∀ held ∈ connection'.taskLeases, held ∈ connection.taskLeases) → Booked w' connection' →
    LeaseStep w w' connection connection'
  | granted (lease : ReplayEntryKey) : lease ∉ w.leases → w'.leases = w.leases.insert lease .held →
    connection'.leases.Perm (lease :: connection.leases) →
    (∀ held ∈ connection'.taskLeases, held = lease ∨ held ∈ connection.taskLeases) → Booked w' connection' → LeaseStep w w' connection connection'
  | resolved (lease : ReplayEntryKey) : w'.leases = w.leases.erase lease →
    connection.leases.Perm (lease :: connection'.leases) →
    (∀ held ∈ connection'.taskLeases, held ∈ connection.taskLeases) → Booked w' connection' → LeaseStep w w' connection connection'

section Around

variable {α β : Type} {before new after : List α}

/-- What stands between the others can be taken to the front. -/
theorem flatMap_perm_front (f : α → List β) (before new after : List α) :
    ((before ++ (new ++ after)).flatMap f).Perm (new.flatMap f ++ (before ++ after).flatMap f) := by
  simp only [List.flatMap_append]
  exact List.perm_append_comm_assoc _ _ _

theorem flatMap_perm_cons (f : α → List β) (before after : List α) (a : α) :
    ((before ++ a :: after).flatMap f).Perm (f a ++ (before ++ after).flatMap f) := by
  have hfront := flatMap_perm_front f before [a] after
  rwa [List.flatMap_singleton] at hfront

theorem forall_mem_around {P : α → Prop} (hothers : ∀ x ∈ before ++ after, P x) (hnew : ∀ x ∈ new, P x) :
    ∀ x ∈ before ++ (new ++ after), P x := by
  rw [List.forall_mem_append] at hothers
  exact List.forall_mem_append.mpr ⟨hothers.1, List.forall_mem_append.mpr ⟨hnew, hothers.2⟩⟩

end Around

namespace LeaseStep

variable {w w' : World}

/-- One part of the leases of a connection changes as the cache does; the others are as before. -/
theorem of_change (hbooked : Booked w connection) (hnodup : connection.leases.Nodup)
    {mine mine' : List ReplayEntryKey} (rest : List ReplayEntryKey) (hbefore : connection.leases.Perm (mine ++ rest))
    (hafter : connection'.leases.Perm (mine' ++ rest)) (hchange : LeaseChange w w' mine mine')
    (hheld : ∀ held ∈ connection'.taskLeases, held ∈ connection.taskLeases ∨
      held ∈ mine' ∧ (held ∈ mine → held ∈ connection.taskLeases))
    (hbooked' : (∀ lease ∈ rest, w'.leases.lookup lease = w.leases.lookup lease) → Booked w' connection') :
    LeaseStep w w' connection connection' := by
  cases hchange with
  | kept hleases hsame =>
    subst hsame
    refine .kept (fun _ _ => by rw [hleases]) (fun _ => by rw [hleases]) (hafter.trans hbefore.symm)
      (fun held hmem => (hheld held hmem).elim id fun h => h.2 h.1) (hbooked' ?_)
    intro lease _
    rw [hleases]
  | granted lease hnew hleases hmine hmine' =>
    subst hmine hmine'
    refine .granted lease hnew hleases (hafter.trans (hbefore.symm.cons lease))
      (fun held hmem => (hheld held hmem).symm.imp_left fun h => List.mem_singleton.mp h.1) (hbooked' fun other hother => ?_)
    have hne : other ≠ lease := by
      rintro rfl
      exact hnew (hbooked.mem (hbefore.mem_iff.mpr hother))
    rw [hleases, AList.lookup_insert_ne hne]
  | resolved lease hleases hmine hmine' =>
    subst hmine hmine'
    refine .resolved lease hleases (hbefore.trans (hafter.symm.cons lease)) 
      (fun held hmem => (hheld held hmem).resolve_right fun h => List.not_mem_nil h.1) (hbooked' fun other hother => ?_)
    have hne : other ≠ lease := by
      rintro rfl
      exact (List.nodup_cons.mp (hbefore.nodup_iff.mp hnodup)).1 hother
    rw [hleases, AList.lookup_erase_ne hne]

/-- One task is replaced by others, or by none. -/
theorem of_task (hbooked : Booked w connection) (hnodup : connection.leases.Nodup) {task : Task} (tasks : List Task)
    (htasks : connection.tasks = before ++ task :: after) (htasks' : connection'.tasks = before ++ (tasks ++ after))
    (hexecutions : connection'.executions = connection.executions)
    (hchange : LeaseChange w w' task.leases (tasks.flatMap Task.leases)) (hnew : ∀ task' ∈ tasks, task'.Booked w') :
    LeaseStep w w' connection connection' := by
  have hbefore : connection.taskLeases.Perm (task.leases ++ (before ++ after).flatMap Task.leases) := by
    rw [Connection.taskLeases, htasks]
    exact flatMap_perm_cons Task.leases before after task
  have hafter : connection'.taskLeases.Perm (tasks.flatMap Task.leases ++ (before ++ after).flatMap Task.leases) := by
    rw [Connection.taskLeases, htasks']
    exact flatMap_perm_front Task.leases before tasks after
  refine of_change hbooked hnodup
    ((before ++ after).flatMap Task.leases ++ connection.executions.flatMap Execution.leases) ?_ ?_ hchange ?_ ?_
  · rw [← List.append_assoc]
    exact hbefore.append_right _
  · rw [← List.append_assoc, ← hexecutions]
    exact hafter.append_right _
  · intro held hmem
    rw [hbefore.mem_iff, List.mem_append]
    exact (List.mem_append.mp (hafter.mem_iff.mp hmem)).elim (fun hmine => .inr ⟨hmine, .inl⟩) fun hrest => .inl (.inr hrest)
  · intro hsame
    have hothers : ∀ other ∈ before ++ after, other.Booked w' := fun other hother =>
      (hbooked.tasks other (mem_of_mem_remove htasks other hother)).frame fun lease hlease =>
        hsame lease (List.mem_append_left _ (List.mem_flatMap.mpr ⟨other, hother, hlease⟩))
    refine ⟨htasks' ▸ forall_mem_around hothers hnew, hexecutions ▸ ?_⟩
    exact fun execution hexecution => (hbooked.executions execution hexecution).frame fun lease hlease =>
      hsame lease (List.mem_append_right _ (List.mem_flatMap.mpr ⟨execution, hexecution, hlease⟩))

/-- A task without a lease goes on without one, or is gone. -/
theorem of_no_lease (hbooked : Booked w connection) (hnodup : connection.leases.Nodup) {task : Task} (tasks : List Task)
    (htasks : connection.tasks = before ++ task :: after) (htasks' : connection'.tasks = before ++ (tasks ++ after))
    (hexecutions : connection'.executions = connection.executions) (hold : task.leases = [])
    (hnew : tasks.flatMap Task.leases = []) : LeaseStep w w connection connection' := by
  refine .of_task hbooked hnodup tasks htasks htasks' hexecutions (.kept rfl (hnew.trans hold.symm)) ?_
  intro task' htask' lease hlease
  have hmem := List.mem_flatMap.mpr ⟨task', htask', hlease⟩
  rw [hnew] at hmem
  cases hmem

/-- The lease of a task goes to its execution. -/
theorem of_spawn (hbooked : Booked w connection) {task task' : Task} {execution : Execution}
    (htasks : connection.tasks = before ++ task :: after) (htasks' : connection'.tasks = before ++ task' :: after)
    (hexecutions : connection'.executions = connection.executions ++ [execution]) (hold : task.leases = [lease])
    (hnew : task'.leases = []) (hrunning : execution.leases = [lease]) (hheld : execution.Booked w) :
    LeaseStep w w connection connection' := by
  refine .kept (fun _ _ => rfl) (fun _ => Iff.rfl) ?_ ?_ ⟨?_, ?_⟩
  · unfold Connection.leases
    rw [htasks, htasks', hexecutions]
    refine List.perm_iff_count.mpr fun other => ?_
    simp only [List.flatMap_append, List.flatMap_cons, List.flatMap_nil, List.count_append, hold, hnew, hrunning,
      List.count_nil]
    omega
  · intro held hmem
    rw [Connection.taskLeases, htasks', (flatMap_perm_cons Task.leases _ _ _).mem_iff, hnew] at hmem
    rw [Connection.taskLeases, htasks, (flatMap_perm_cons Task.leases _ _ _).mem_iff]
    exact List.mem_append_right _ hmem
  · rw [htasks']
    exact forall_mem_replace hbooked.tasks htasks fun _ _ hlease => by rw [hnew] at hlease; cases hlease
  · rw [hexecutions]
    exact List.forall_mem_append.mpr ⟨hbooked.executions, List.forall_mem_singleton.mpr hheld⟩

/-- One execution is replaced by others, or by none, and the tasks keep their leases. -/
theorem of_execution (hbooked : Booked w connection) (hnodup : connection.leases.Nodup)
    {before after : List Execution} {execution : Execution} (executions : List Execution)
    (hexecutions : connection.executions = before ++ execution :: after)
    (hexecutions' : connection'.executions = before ++ (executions ++ after))
    (hasking : connection'.tasks.map Task.asking = connection.tasks.map Task.asking)
    (hchange : LeaseChange w w' execution.leases (executions.flatMap Execution.leases))
    (hnew : ∀ execution' ∈ executions, execution'.Booked w') :
    LeaseStep w w' connection connection' := by
  have htasks : connection'.tasks.map Task.leases = connection.tasks.map Task.leases := by
    have hboth := congrArg (List.map fun asking => Option.elim asking [] ServerOp.leases) hasking
    rwa [List.map_map, List.map_map] at hboth
  have hflat : connection'.tasks.flatMap Task.leases = connection.tasks.flatMap Task.leases := by
    rw [List.flatMap_def, htasks, ← List.flatMap_def]
  refine of_change hbooked hnodup
    (connection.tasks.flatMap Task.leases ++ (before ++ after).flatMap Execution.leases) ?_ ?_ hchange
    (fun _ hmem => .inl (by rwa [Connection.taskLeases, ← hflat])) ?_
  · unfold Connection.leases
    rw [hexecutions]
    exact ((flatMap_perm_cons Execution.leases before after execution).append_left _).trans
      (List.perm_append_comm_assoc _ _ _)
  · unfold Connection.leases
    rw [hflat, hexecutions']
    exact ((flatMap_perm_front Execution.leases before executions after).append_left _).trans
      (List.perm_append_comm_assoc _ _ _)
  · intro hsame
    have hothers : ∀ other ∈ before ++ after, other.Booked w' := fun other hother =>
      (hbooked.executions other (mem_of_mem_remove hexecutions other hother)).frame fun lease hlease =>
        hsame lease (List.mem_append_right _ (List.mem_flatMap.mpr ⟨other, hother, hlease⟩))
    refine ⟨fun task htask lease hlease => ?_, hexecutions' ▸ forall_mem_around hothers hnew⟩
    -- a task with this lease was there before
    have hmem : task.leases ∈ connection.tasks.map Task.leases := htasks ▸ List.mem_map_of_mem htask
    obtain ⟨task', htask', heq⟩ := List.mem_map.mp hmem
    rw [← heq] at hlease
    rw [hsame lease (List.mem_append_left _ (List.mem_flatMap.mpr ⟨task', htask', hlease⟩))]
    exact hbooked.tasks task' htask' lease hlease

/-- Nothing happens to the leases. -/
theorem of_same (hbooked : Booked w connection) (htasks : connection'.tasks = connection.tasks)
    (hexecutions : connection'.executions = connection.executions) : LeaseStep w w connection connection' := by
  refine .kept (fun _ _ => rfl) (fun _ => Iff.rfl) ?_ (by simp [Connection.taskLeases, htasks]) ?_
  · unfold Connection.leases
    rw [htasks, hexecutions]
  · exact ⟨htasks ▸ hbooked.tasks, hexecutions ▸ hbooked.executions⟩

end LeaseStep

/-- A task has the lease it was granted. -/
theorem LeaseChange.booked {task task' : Task} (h : LeaseChange w w' task.leases task'.leases)
    (hbooked : task.Booked w) : task'.Booked w' := by
  intro lease hlease
  cases h with
  | kept hleases hsame =>
    rw [hleases]
    exact hbooked lease (hsame ▸ hlease)
  | granted _ _ hleases _ hnew =>
    rw [hnew, List.mem_singleton] at hlease
    rw [hleases, hlease, AList.lookup_insert]
  | resolved _ _ _ hnew =>
    rw [hnew] at hlease
    cases hlease

/-- An execution that goes on holds its lease. -/
theorem Execution.Booked.execute {answer : op.Answer} (hbooked : Execution.Booked shared.world
      ⟨number, record, lease, ⟨history, Prog.ask (S := serverSignature) op next⟩⟩)
    (hprotocol : Execution.InProtocol ⟨number, record, lease, ⟨history, Prog.ask (S := serverSignature) op next⟩⟩)
    (hserved : Served cache shared op answer shared') (history' : Dialogue) :
    Execution.Booked shared'.world ⟨number, record, lease, ⟨history', next answer⟩⟩ := by
  obtain ⟨stage, hstage, hallows, hnext⟩ := hprotocol
  have hended : Follows leaseProtocol (next answer) .closed →
      Execution.Booked shared'.world ⟨number, record, lease, ⟨history', next answer⟩⟩ := by
    intro hclosed op' next' hprogram
    dsimp only at hprogram
    rw [hprogram] at hclosed
    cases op' <;> exact hclosed.1.elim
  rcases hstage with rfl | rfl
  · have hheld := hbooked op next rfl
    cases hserved with
    | vfs | mounts =>
      intro op' next' _
      rcases hheld with hheld | ⟨_, _, _, heq, _⟩
      · exact .inl hheld
      · cases heq
    | begin | received | unanswered | refused => exact hallows.elim
    | complete | cancel => exact hended (hnext _)
  · cases op <;> exact hallows.elim

theorem leaseStep_prepare (hbooked : Booked shared.world connection) (hnodup : connection.leases.Nodup)
    {before after : List Execution} {reply : EncodedReply} {next : Unit → ServerM EncodedReply} (alloc : Allocator)
    (hexecutions : connection.executions = before ++
      ⟨number, record, lease, ⟨history, Prog.ask (S := serverSignature) (.complete lease reply) next⟩⟩ :: after)
    (hlease : shared.world.leases.lookup lease = some .held) :
    LeaseStep shared.world (shared.world.prepare cache lease reply alloc) connection connection := by
  have hleases : (shared.world.prepare cache lease reply alloc).leases = shared.world.leases.insert lease
      (.completing reply alloc (cache.eligibleBeforeCopy lease reply shared.world.inner)) := rfl
  -- nobody else in the connection has the lease
  have hperm : connection.leases.Perm (lease :: (connection.tasks.flatMap Task.leases ++
      (before ++ after).flatMap Execution.leases)) := by
    unfold Connection.leases
    rw [hexecutions]
    exact ((flatMap_perm_cons Execution.leases before after _).append_left _).trans List.perm_middle
  have hothers := (List.nodup_cons.mp (hperm.nodup_iff.mp hnodup)).1
  rw [List.mem_append, not_or] at hothers
  have hframe : ∀ other, other ≠ lease → (shared.world.prepare cache lease reply alloc).leases.lookup other =
      shared.world.leases.lookup other := fun other hne => by rw [hleases, AList.lookup_insert_ne hne]
  refine .kept (fun other hother => hframe other ?_) (fun other => ?_) (.refl _) (fun _ => id)
    ⟨fun task htask => ?_, ?_⟩
  · rintro rfl
    exact hother (hperm.mem_iff.mpr List.mem_cons_self)
  · rw [hleases, AList.mem_insert]
    refine ⟨fun hmem => hmem.elim (fun heq => ?_) id, .inr⟩
    rw [heq, ← AList.lookup_isSome, hlease]
    rfl
  · refine (hbooked.tasks task htask).frame fun other hother => hframe other ?_
    rintro rfl
    exact hothers.1 (List.mem_flatMap.mpr ⟨task, htask, hother⟩)
  · have hrest : ∀ execution ∈ before ++ after,
        execution.Booked (shared.world.prepare cache lease reply alloc) := by
      intro execution hexecution
      refine (hbooked.executions execution (mem_of_mem_remove hexecutions execution hexecution)).frame
        fun other hother => hframe other ?_
      rintro rfl
      exact hothers.2 (List.mem_flatMap.mpr ⟨execution, hexecution, hother⟩)
    rw [hexecutions]
    refine forall_mem_around hrest (List.forall_mem_singleton.mpr fun op next' hprogram => ?_)
    cases hprogram
    exact .inr ⟨reply, alloc, _, rfl, by rw [hleases, AList.lookup_insert]⟩

/-- What a step of a connection does to its leases. -/
theorem leaseStep (hprotocol : InProtocol connection) (hbooked : Booked shared.world connection)
    (hnodup : connection.leases.Nodup) (hsound : Sound cache shared.world)
    (hstep : ConnectionStep state cache socket shared connection event shared' connection') :
    LeaseStep shared.world shared'.world connection connection' := by
  cases hstep with
  | read | readEnds | readFails | readBreaks | enqueue | sendEnds | sendExpires | close | processorReturns
  | write | writeFails | writeExpires | writerReturns => exact .of_same hbooked rfl rfl
  | receive =>
    refine .kept (fun _ _ => rfl) (fun _ => Iff.rfl) ?_ ?_ { hbooked with tasks := ?_ }
    · simp [Connection.leases, Task.leases, Task.asking]
    · simp [Connection.taskLeases, Task.leases, Task.asking]
    · exact List.forall_mem_append.mpr ⟨hbooked.tasks, List.forall_mem_singleton.mpr nofun⟩
  | join _ _ _ _ _ _ htasks | joinFailed _ _ _ _ _ _ _ htasks =>
    exact .of_no_lease hbooked hnodup [] htasks rfl rfl rfl rfl
  | start _ _ _ record htasks =>
    refine .of_no_lease hbooked hnodup [_] htasks rfl rfl rfl ?_
    rw [List.flatMap_singleton]
    exact Thread.leases_of_follows (show LeaseStage.free.OfTask from trivial) (dispatchRecord_follows _ record)
  | reserveExpires _ _ _ _ _ htasks | handled _ _ _ _ _ _ htasks | rejected _ _ _ _ _ _ htasks
  | reply _ _ _ _ _ _ htasks | replyExpires _ _ _ _ _ _ htasks =>
    exact .of_no_lease hbooked hnodup [_] htasks rfl rfl rfl rfl
  | ask _ _ number record history op next answer _ htasks hserved =>
    obtain ⟨stage, hstage, hfollows, -⟩ := (forall_mem_remove hprotocol.tasks htasks).1
    have hchange := hserved.leaseChange hsound hfollows.1
    have hold : Task.leases ⟨number, record, .handling ⟨history, Prog.ask (S := serverSignature) op next⟩⟩ =
        stage.leases := Thread.leases_of_follows hstage hfollows
    have hnew : Task.leases ⟨number, record, .handling ⟨history ++ [⟨op, answer⟩], next answer⟩⟩ =
        (leaseProtocol.after stage op answer).leases :=
      Thread.leases_of_follows (hserved.ofTask_after hstage) (hfollows.2 answer)
    rw [← hold, ← hnew] at hchange
    refine .of_task hbooked hnodup [_] htasks rfl rfl ?_ ?_
    · rw [List.flatMap_singleton]
      exact hchange
    · exact List.forall_mem_singleton.mpr (hchange.booked (forall_mem_remove hbooked.tasks htasks).1)
  | spawn _ _ number record history lease next htasks =>
    obtain ⟨stage, -, hfollows, -⟩ := (forall_mem_remove hprotocol.tasks htasks).1
    have hheld := (forall_mem_remove hbooked.tasks htasks).1 lease (List.mem_singleton_self _)
    have hrunning : Execution.leases ⟨number, record, lease,
        ⟨history ++ [⟨.spawn lease, .ok ()⟩], next (.ok ())⟩⟩ = [lease] :=
      Execution.leases_of_follows (.inl rfl) (follows_running_of_spawn hfollows)
    exact .of_spawn hbooked htasks rfl rfl rfl rfl hrunning fun _ _ _ => .inl hheld
  | dropLease _ _ _ _ _ lease _ _ htasks =>
    exact .of_task hbooked hnodup [] htasks rfl rfl (.resolved lease rfl rfl rfl) nofun
  | dropReceiver _ _ _ _ _ _ _ _ htasks =>
    exact .of_task hbooked hnodup [] htasks rfl rfl (.kept rfl rfl) nofun
  | dropTask _ _ _ _ htasks hsettled =>
    exact .of_no_lease hbooked hnodup [] htasks rfl rfl (by rw [Task.leases, Task.asking_of_settled hsettled]; rfl) rfl
  | execute _ _ number record lease history op next answer _ hexecutions hserved =>
    have hexecution := (forall_mem_remove hprotocol.executions hexecutions).1
    have hnew := (forall_mem_remove hbooked.executions hexecutions).1.execute hexecution hserved
      (history ++ [⟨op, answer⟩])
    obtain ⟨stage, hstage, hfollows⟩ := hexecution
    have hold : Execution.leases ⟨number, record, lease, ⟨history, Prog.ask (S := serverSignature) op next⟩⟩ =
        stage.leases := Execution.leases_of_follows hstage hfollows
    have hafter : Execution.leases ⟨number, record, lease, ⟨history ++ [⟨op, answer⟩], next answer⟩⟩ =
        (leaseProtocol.after stage op answer).leases :=
      Execution.leases_of_follows (LeaseStage.after_execution hstage op answer) (hfollows.2 answer)
    have hchange := hserved.leaseChange hsound hfollows.1
    rw [← hold, ← hafter] at hchange
    refine .of_execution hbooked hnodup [_] hexecutions rfl rfl ?_ (List.forall_mem_singleton.mpr hnew)
    rw [List.flatMap_singleton]
    exact hchange
  | prepare _ _ _ _ lease _ completed _ _ alloc hexecutions hlease =>
    obtain ⟨stage, hstage, hallows, -⟩ := (forall_mem_remove hprotocol.executions hexecutions).1
    have hsame : completed = lease := by
      rcases hstage with rfl | rfl
      · exact hallows
      · exact hallows.elim
    subst hsame
    exact leaseStep_prepare hbooked hnodup alloc hexecutions hlease
  | executionExpires _ _ _ _ _ _ _ _ hexecutions hlease =>
    refine .of_execution hbooked hnodup [_] hexecutions rfl rfl (.kept rfl rfl) ?_
    exact List.forall_mem_singleton.mpr fun _ _ _ => .inl hlease
  | executed _ _ number _ _ history outcome hexecutions =>
    refine .of_execution hbooked hnodup [] hexecutions rfl (asking_map_resume number history outcome _) ?_ nofun
    cases outcome <;> exact .kept rfl rfl
  | aborted _ _ number _ lease history _ _ hexecutions =>
    exact .of_execution hbooked hnodup [] hexecutions rfl (asking_map_resume number history (.error _) _)
      (.resolved lease rfl rfl rfl) nofun

/-! ## All connections -/

/-- Each unresolved lease of the cache is with one task or execution of one connection. -/
structure LeaseBook (w : World) (connections : Nat → Connection) : Prop where
  exclusive : Exclusive fun index => (connections index).leases
  booked : ∀ index, Booked w (connections index)
  owned : ∀ lease ∈ w.leases, ∃ index, lease ∈ (connections index).leases

theorem leases_update (connections : Nat → Connection) (index : Nat) (connection : Connection) :
    (fun other => (Function.update connections index connection other).leases) =
      Function.update (fun other => (connections other).leases) index connection.leases :=
  Function.comp_update Connection.leases connections index connection

namespace LeaseBook

variable {w w' : World} {connections : Nat → Connection} {index : Nat}

theorem frame (h : LeaseBook w connections) (hleases : w'.leases = w.leases) : LeaseBook w' connections where
  exclusive := h.exclusive
  booked other := (h.booked other).frame fun _ _ => by rw [hleases]
  owned lease hlease := h.owned lease (hleases ▸ hlease)

/-- The connections that do not go on keep their book, as none of their leases is touched. -/
theorem booked_update (h : LeaseBook w connections) (hbooked : Booked w' connection')
    (hsame : ∀ other ≠ index, ∀ lease ∈ (connections other).leases, w'.leases.lookup lease = w.leases.lookup lease) :
    ∀ other, Booked w' (Function.update connections index connection' other) := by
  apply (Function.forall_update_iff connections fun _ connection => Booked w' connection).mpr
  exact ⟨hbooked, fun other hother => (h.booked other).frame (hsame other hother)⟩

/-- An owner of a lease still is one, unless it is the connection that goes on. -/
theorem owned_update (howned : ∃ other, lease ∈ (connections other).leases)
    (hkeeps : lease ∈ (connections index).leases → lease ∈ connection'.leases) :
    ∃ other, lease ∈ (Function.update connections index connection' other).leases := by
  obtain ⟨other, hlease⟩ := howned
  refine ⟨other, ?_⟩
  by_cases hother : other = index
  · subst hother
    rw [Function.update_self]
    exact hkeeps hlease
  · rw [Function.update_of_ne hother]
    exact hlease

theorem step (h : LeaseBook w connections) (hstep : LeaseStep w w' (connections index) connection') :
    LeaseBook w' (Function.update connections index connection') := by
  cases hstep with
  | kept hframe hmem hperm _ hbooked =>
    refine ⟨?_, h.booked_update hbooked fun other hother lease hlease => hframe lease fun hmine => ?_,
      fun lease hlease => owned_update (h.owned lease ((hmem lease).mp hlease)) hperm.mem_iff.mpr⟩
    · rw [leases_update]
      exact h.exclusive.update_subperm hperm.subperm
    · exact hother (h.exclusive.apart _ _ lease hlease hmine)
  | granted lease hnew hleases hperm _ hbooked =>
    have hnobody : ∀ other, lease ∉ (connections other).leases := fun other hlease =>
      hnew ((h.booked other).mem hlease)
    refine ⟨?_, h.booked_update hbooked fun other hother lease' hlease' => ?_, fun lease' hlease' => ?_⟩
    · rw [leases_update]
      exact h.exclusive.update_cons hnobody hperm
    · have hne : lease' ≠ lease := by
        intro heq
        exact hnobody other (heq ▸ hlease')
      rw [hleases, AList.lookup_insert_ne hne]
    · rw [hleases, AList.mem_insert] at hlease'
      rcases hlease' with rfl | hlease'
      · refine ⟨index, ?_⟩
        rw [Function.update_self]
        exact hperm.mem_iff.mpr List.mem_cons_self
      · exact owned_update (h.owned lease' hlease') fun hmine => hperm.mem_iff.mpr (List.mem_cons_of_mem _ hmine)
  | resolved lease hleases hperm _ hbooked =>
    refine ⟨?_, h.booked_update hbooked fun other hother lease' hlease' => ?_, fun lease' hlease' => ?_⟩
    · rw [leases_update]
      exact h.exclusive.update_subperm ((List.sublist_cons_self lease _).subperm.trans hperm.symm.subperm)
    · have hne : lease' ≠ lease := by
        intro heq
        exact hother (h.exclusive.apart _ _ lease (heq ▸ hlease') (hperm.mem_iff.mpr List.mem_cons_self))
      rw [hleases, AList.lookup_erase_ne hne]
    · rw [hleases, AList.mem_erase] at hlease'
      refine owned_update (h.owned lease' hlease'.2) fun hmine => ?_
      exact (List.mem_cons.mp (hperm.mem_iff.mp hmine)).resolve_left hlease'.1

end LeaseBook

section Runs

variable {sockets : Nat → Writer} {server : ServerState}

/-- Every task and execution is at a stage of the protocol. -/
theorem inProtocol_of_reachable
    (h : (serverMachine state cache sockets).Reachable server) (index : Nat) : InProtocol (server.connections index) :=
  connections_invariant InProtocol.new (fun _ hprotocol hstep => hprotocol.step hstep) h index

/-- The book is kept whatever the connections do. -/
theorem leaseBook_of_reachable
    (h : (serverMachine state cache sockets).Reachable server) :
    LeaseBook server.shared.world server.connections := by
  obtain ⟨start, trace, hstart, hrun⟩ := h
  refine Machine.Run.keeps (P := fun _ server => LeaseBook server.shared.world server.connections) ?_
    ⟨start, [], hstart, .nil⟩ hrun ?_
  · intro _ server event server' hreach hbook hstep
    cases hstep with
    | connection index _ _ _ hstep =>
      exact hbook.step (leaseStep (inProtocol_of_reachable hreach index) (hbook.booked index)
        (hbook.exclusive.once index) (labelled_of_reachable hreach).1.sound hstep)
    | tick => exact hbook.frame rfl
    | signal => exact hbook
  · obtain ⟨⟨clock, hshared⟩, hconnections⟩ := hstart
    have hnone : ∀ index, (start.connections index).leases = [] := by
      intro index
      obtain ⟨clientAddr, stream, hconnection⟩ := hconnections index
      rw [hconnection]
      rfl
    refine ⟨⟨fun index => ?_, fun index _ lease hlease => ?_⟩, fun index => ?_, fun lease hlease => ?_⟩
    · rw [hnone]
      exact List.nodup_nil
    · rw [hnone] at hlease
      cases hlease
    · obtain ⟨clientAddr, stream, hconnection⟩ := hconnections index
      rw [hconnection]
      exact .new clientAddr stream
    · rw [hshared] at hlease
      exact absurd hlease (AList.notMem_empty lease)

end Runs

end NfsEmbed.Server
