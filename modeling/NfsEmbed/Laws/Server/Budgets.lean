import NfsEmbed.Laws.Server.Placement
import NfsEmbed.Server.Budgets

/-!
# What the request budget covers

The permits for a record are moved with it, and into the execution once it is spawned, while the task
that waits for the execution keeps `record`. So the permits are out as long as a reader, the queue, a
task or an execution has the bytes, except in one place: when an execution has ended and its task has
not gone on yet, nobody owns the permits and the task still has the record. Then another record may be
read, and both together may exceed the budget.

The law is `request_bytes_charged_iff`, and `request_bytes_exceed_budget` such a run.
-/

namespace NfsEmbed.Server

open Lib Rpc Vfs Replay

variable {state : ConnectionState} {cache : ReplayCache} {sockets : Nat → Writer} {s s' : BudgetState}
  {event : ConnectionEvent} {length index number : Nat} {account : Account} {shared shared' : Shared}

/-! ## Permits -/

section Permits

variable {account' : Account} {limits : ServerLimits}

/-- Permits after a step of one connection are among these. -/
theorem covers_update {semaphore : Semaphore} {Owns : Account → Role → Nat → Prop} {accounts : Nat → Account}
    {permits : Set (Nat × Nat)} (hcovers : semaphore.Covers permits)
    (hothers : {request | ∃ role, Owns (accounts request.1) role request.2} ⊆ permits)
    (hmine : ∀ role number, Owns account' role number → (index, number) ∈ permits) :
    semaphore.Covers {request : Nat × Nat |
      ∃ role, Owns (Function.update accounts index account' request.1) role request.2} := by
  refine hcovers.mono ?_
  rintro ⟨other, number⟩ ⟨role, howns⟩
  dsimp only at howns
  by_cases hother : other = index
  · subst hother
    rw [Function.update_self] at howns
    exact hmine role number howns
  · rw [Function.update_of_ne hother] at howns
    exact hothers ⟨role, howns⟩

/-- Who has permits is among these: the parties that own some while the connection is alive, and its tasks and
executions. -/
structure Account.Within (account : Account) (lively : Prop) (request reply executing : Nat → Prop) : Prop where
  alive : account.connection.Alive → lively
  filling : lively → ∀ length, account.connection.reader = .reading → account.stage = .filling length →
    request account.connection.queued.length
  sending : lively → ∀ record, account.connection.reader = .sending record → request account.connection.queued.length
  queue : lively → ∀ waiting ∈ account.connection.queue, request waiting.1
  tasks : ∀ task ∈ account.connection.tasks, (task.phase.OwnsRequestPermits → request task.number) ∧
    (task.phase.OwnsReplyPermits → reply task.number)
  executions : ∀ execution ∈ account.connection.executions,
    request execution.number ∧ reply execution.number ∧ executing execution.number
  replies : lively → ∀ queued ∈ account.connection.replyQueue, reply queued.1

namespace Account.Within

variable {lively : Prop} {request reply executing : Nat → Prop} {role : Role}

theorem of_request (h : account.Within lively request reply executing) (howns : account.OwnsRequestPermits role number) :
    request number := by
  cases howns with
  | filling length halive hreader hstage => exact h.filling (h.alive halive) length hreader hstage
  | sending record halive hreader => exact h.sending (h.alive halive) record hreader
  | queued _ record halive hmem => exact h.queue (h.alive halive) (number, record) hmem
  | task task hmem hphase => exact (h.tasks task hmem).1 hphase
  | execution execution hmem => exact (h.executions execution hmem).1

theorem of_reply (h : account.Within lively request reply executing) (howns : account.OwnsReplyPermits role number) :
    reply number := by
  cases howns with
  | task task hmem hphase => exact (h.tasks task hmem).2 hphase
  | execution execution hmem => exact (h.executions execution hmem).2.1
  | writer _ reply halive hmem => exact h.replies (h.alive halive) (number, reply) hmem

theorem of_execution (h : account.Within lively request reply executing) (howns : account.OwnsExecutionPermit role number) :
    executing number := by
  cases howns with
  | execution execution hmem => exact (h.executions execution hmem).2.2

end Account.Within

/-- A connection goes on, with no permits but these. -/
theorem budgeted_update {requests replies executions : Set (Nat × Nat)} (hrequests : s.requestPermits ⊆ requests)
    (hreplies : s.replyPermits ⊆ replies) (hexecutions : s.executionPermits ⊆ executions)
    (hrequest : limits.requestBuffers.Covers requests) (hreply : limits.replyBuffers.Covers replies)
    (hexecution : limits.requestSlots.Covers executions) {lively : Prop}
    (hmine : account'.Within lively (fun number => (index, number) ∈ requests) (fun number => (index, number) ∈ replies)
      fun number => (index, number) ∈ executions) (shared' : Shared) :
    BudgetState.Budgeted ⟨shared', Function.update s.accounts index account'⟩ limits where
  request := covers_update hrequest hrequests fun _ _ => hmine.of_request
  reply := covers_update hreply hreplies fun _ _ => hmine.of_reply
  execution := covers_update hexecution hexecutions fun _ _ => hmine.of_execution

end Permits

/-! ## Runs -/

theorem BudgetState.server_update (shared : Shared) (accounts : Nat → Account) (index : Nat) (account : Account) :
    BudgetState.server ⟨shared, Function.update accounts index account⟩ =
      ⟨shared, Function.update (fun index => (accounts index).connection) index account.connection⟩ := by
  unfold BudgetState.server
  congr 1
  exact Function.comp_update Account.connection accounts index account

/-- Where the readers are apart, a step is one of the server. -/
theorem BudgetStep.project {event : ServerEvent} (h : BudgetStep state cache sockets s event s') :
    s'.server = s.server ∨ ∃ event', ServerStep state cache sockets s.server event' s'.server := by
  cases h with
  | account index event shared _ hstep =>
    rw [BudgetState.server_update]
    cases hstep with
    | header | reserve | grow =>
      left
      unfold BudgetState.server
      congr 1
      exact Function.update_eq_self index _
    | connection _ _ connection hstep => exact .inr ⟨_, .connection s.server index event shared connection hstep⟩
  | tick now hnow => exact .inr ⟨_, .tick s.server now hnow⟩
  | signal => exact .inr ⟨_, .signal s.server⟩

theorem server_of_reachable (h : (budgetMachine state cache sockets).Reachable s) :
    (serverMachine state cache sockets).Reachable s.server := by
  refine h.project BudgetState.server ?_ ?_
  · intro s hstart
    exact hstart.1
  · intro s event s' hstep
    exact BudgetStep.project hstep

/-- A connection that was just accepted. -/
structure Account.Fresh (account : Account) : Prop where
  connection : ∃ clientAddr stream, account.connection = Connection.new clientAddr stream
  stage : account.stage = .idle

theorem fresh_of_start (h : (budgetMachine state cache sockets).Start s) (index : Nat) : (s.accounts index).Fresh :=
  ⟨h.1.2 index, h.2 index⟩

/-- Nobody has permits then. -/
theorem Account.Fresh.within (h : account.Fresh) :
    account.Within True (fun _ => False) (fun _ => False) fun _ => False := by
  obtain ⟨connection, stage⟩ := account
  obtain ⟨⟨clientAddr, stream, hconnection⟩, hstage⟩ := h
  dsimp only at hconnection hstage
  subst hconnection hstage
  exact ⟨fun _ => trivial, nofun, nofun, nofun, nofun, nofun, nofun⟩

/-- All that is owned together is within the budgets. -/
theorem budgeted_of_reachable (h : (budgetMachine state cache sockets).Reachable s) : s.Budgeted state.limits := by
  refine h.invariant (I := fun s => s.Budgeted state.limits) ?_ ?_
  · intro s hstart
    have hfresh := fresh_of_start hstart
    exact ⟨Semaphore.covers_empty.mono fun request ⟨_, howns⟩ => (hfresh request.1).within.of_request howns,
      Semaphore.covers_empty.mono fun request ⟨_, howns⟩ => (hfresh request.1).within.of_reply howns,
      Semaphore.covers_empty.mono fun request ⟨_, howns⟩ => (hfresh request.1).within.of_execution howns⟩
  · intro s event s' h hstep
    cases hstep with
    | account _ _ _ _ _ hbudgeted => exact hbudgeted
    | tick | signal => exact { h with }

/-! ## Lengths -/

theorem recordLengths_le {limits : RecordLimits} {remaining : Nat} {stream : Bytes} :
    ∀ length' ∈ recordLengths limits remaining length stream, length' ≤ limits.maxRecordSize := by
  induction remaining generalizing length stream with
  | zero => rintro _ ⟨⟩
  | succ _ ih =>
    unfold recordLengths
    split
    next => rintro _ ⟨⟩
    next header rest _ =>
      dsimp only
      iterate 2
        split
        next => rintro _ ⟨⟩
      split
      next => rintro _ ⟨⟩
      next hrecord =>
        rw [Nat.not_lt] at hrecord
        split
        next => exact List.forall_mem_singleton.mpr hrecord
        next => exact List.forall_mem_cons.mpr ⟨hrecord, ih⟩

/-- A record that is being read is within the limit. -/
theorem filling_le_of_reachable (h : (budgetMachine state cache sockets).Reachable s) (index length : Nat)
    (hstage : (s.accounts index).stage = .filling length) : length ≤ state.limits.maxRpcRecordSize := by
  refine h.invariant (I := fun s => ∀ index length, (s.accounts index).stage = .filling length →
    length ≤ state.limits.maxRpcRecordSize) ?_ ?_ index length hstage
  · intro s hstart index length hstage
    rw [(fresh_of_start hstart index).stage] at hstage
    cases hstage
  · intro s event s' h hstep index length hstage
    cases hstep with
    | account other event shared _ hstep =>
      by_cases hother : index = other
      · subst hother
        dsimp only at hstage
        rw [Function.update_self] at hstage
        cases hstep with
        | header => cases hstage
        | reserve =>
          cases hstage
          exact Nat.zero_le _
        | grow _ _ _ _ _ _ hlength =>
          cases hstage
          exact recordLengths_le _ hlength
        | connection =>
          dsimp only at hstage
          unfold ReadStage.next at hstage
          split at hstage
          next => exact h index length hstage
          next => cases hstage
      · dsimp only at hstage
        rw [Function.update_of_ne hother] at hstage
        exact h index length hstage
    | tick | signal => exact h index length hstage

/-- So is every record that is held. -/
theorem holdsRecord_le (h : (budgetMachine state cache sockets).Reachable s) {role : Role}
    (hholds : (s.accounts index).HoldsRecord role number length) : length ≤ state.limits.maxRpcRecordSize := by
  have horderly := orderly_of_reachable (server_of_reachable h) index
  have hlabels := (labelled_of_reachable (server_of_reachable h)).2 index
  cases hholds with
  | filling length _ _ hstage => exact filling_le_of_reachable h index length hstage
  | sending record _ hreader => exact horderly.sending record hreader
  | queued _ _ _ hmem => exact horderly.queued _ (List.mem_of_getElem? (hlabels.queue _ hmem))
  | task task hmem => exact horderly.queued _ (List.mem_of_getElem? (hlabels.tasks task hmem).1)
  | execution execution hmem => exact horderly.queued _ (List.mem_of_getElem? (hlabels.executions execution hmem).1)

/-! ## The budget -/

/-- Whatever record is held, its permits are out. -/
def BudgetState.Charged (s : BudgetState) : Prop :=
  ∀ index role number length, (s.accounts index).HoldsRecord role number length → (index, number) ∈ s.requestPermits

/-- The records that are held are together not longer than the budget. -/
def BudgetState.WithinBudget (limits : ServerLimits) (s : BudgetState) : Prop :=
  ∀ (held : Finset (Nat × Nat)) (length : Nat × Nat → Nat),
    (∀ request ∈ held, ∃ role, (s.accounts request.1).HoldsRecord role request.2 (length request)) →
    ∑ request ∈ held, length request ≤ limits.maxBufferedRequestBytes

/-- The execution has ended, and the task is still in `dispatch_record`. -/
def TaskPhase.Lingers : TaskPhase → Prop
  | .handling thread => thread.Spawned
  | _ => False

/-- If every record is charged, all of them together are within the budget. -/
theorem withinBudget_of_charged (h : (budgetMachine state cache sockets).Reachable s)
    (hcharged : s.Charged) : s.WithinBudget state.limits := by
  intro held length hheld
  refine (budgeted_of_reachable h).request.sum_le (fun request hrequest => ?_) fun request hrequest => ?_
  · obtain ⟨role, hholds⟩ := hheld request hrequest
    exact hcharged _ _ _ _ hholds
  · obtain ⟨role, hholds⟩ := hheld request hrequest
    exact holdsRecord_le h hholds

/-- Where no task lingers, all records that are held are charged. -/
theorem charged_of_not_lingers (h : (budgetMachine state cache sockets).Reachable s)
    (hnone : ∀ index, ∀ task ∈ (s.accounts index).connection.tasks, ¬ task.phase.Lingers) : s.Charged := by
  intro index role number length hholds
  cases hholds with
  | filling _ halive hreader hstage => exact ⟨_, .filling length halive hreader hstage⟩
  | sending record halive hreader => exact ⟨_, .sending record halive hreader⟩
  | queued number record halive hmem => exact ⟨_, .queued number record halive hmem⟩
  | execution execution hmem => exact ⟨_, .execution execution hmem⟩
  | task task hmem hphase =>
    have hplaced := placed_of_reachable (server_of_reachable h) index
    cases hcase : task.phase with
    | reserving => exact ⟨_, .task task hmem (by rw [hcase]; exact trivial)⟩
    | handling =>
      have hspawned := hnone index task hmem
      rw [hcase] at hspawned
      exact ⟨_, .task task hmem (by rw [hcase]; exact hspawned)⟩
    | executing =>
      obtain ⟨execution, hexecution, hnumber⟩ := hplaced.executing task hmem hcase
      refine ⟨.execution execution.number, ?_⟩
      rw [← hnumber]
      exact .execution execution hexecution
    | replying | finished | failed =>
      rw [hcase] at hphase
      exact hphase.elim

/-- A task that lingers holds a record whose permits nobody owns. -/
theorem not_charged_of_lingers (h : (budgetMachine state cache sockets).Reachable s) {task : Task}
    (hmem : task ∈ (s.accounts index).connection.tasks) (hlingers : task.phase.Lingers) : ¬ s.Charged := by
  intro hcharged
  have hplaced := placed_of_reachable (server_of_reachable h) index
  have hlabels := (labelled_of_reachable (server_of_reachable h)).2 index
  obtain ⟨thread, hphase⟩ : ∃ thread, task.phase = .handling thread := by
    cases hcase : task.phase with
    | handling thread => exact ⟨thread, rfl⟩
    | _ => rw [hcase] at hlingers; exact hlingers.elim
  rw [hphase] at hlingers
  have howns : ∃ role, (s.accounts index).OwnsRequestPermits role task.number :=
    hcharged index _ _ _ (.task task hmem (by rw [hphase]; exact trivial))
  obtain ⟨role, howns⟩ := howns
  have hlt : task.number < (s.accounts index).connection.queued.length :=
    (List.getElem?_eq_some_iff.mp (hlabels.tasks task hmem).1).1
  generalize hnumber : task.number = number at howns
  cases howns with
  | filling | sending => exact absurd hnumber (Nat.ne_of_lt hlt)
  | queued _ _ _ hqueued => exact hplaced.notMem_queue hmem (hnumber ▸ List.mem_map_of_mem hqueued)
  | task _ hother howned =>
    have hsame := hplaced.eq_of_number hmem hother hnumber
    subst hsame
    rw [hphase] at howned
    exact howned hlingers
  | execution execution hexecution =>
    have hexecuting := hplaced.alone execution hexecution task hmem hnumber
    rw [hphase] at hexecuting
    cases hexecuting

/-- In every state of a server, the permits of each record that is held are out and the records
together are within the budget exactly if no execution has ended whose task is still to go on. -/
theorem request_bytes_charged_iff (state : ConnectionState) (cache : ReplayCache) (sockets : Nat → Writer)
    (s : BudgetState) (hreach : (budgetMachine state cache sockets).Reachable s) :
    (s.Charged ∧ s.WithinBudget state.limits) ↔
      ∀ index, ∀ task ∈ (s.accounts index).connection.tasks, ¬ task.phase.Lingers := by
  constructor
  · rintro ⟨hcharged, -⟩ index task hmem hlingers
    exact not_charged_of_lingers hreach hmem hlingers hcharged
  · intro hnone
    have hcharged := charged_of_not_lingers hreach hnone
    exact ⟨hcharged, withinBudget_of_charged hreach hcharged⟩

/-! ## A task that lingers

The budget is for one record of 600 bytes. The client calls `NULL`, and then begins a record that takes
all of the budget. -/

def tightLimits : ServerLimits where
  __ := ServerLimits.productionDefaults
  maxRpcRecordSize := 600
  maxRpcFragmentSize := 600
  maxBufferedRequestBytes := 600
  maxBufferedReplyBytes := 600
  maxReadSize := 1
  maxWriteSize := 1
  maxReaddirResponseSize := 1
  maxRpcRecordSize_le := by decide

theorem validate_tightLimits : tightLimits.validate = .ok () := by decide

def tightState : ConnectionState := { sampleState with limits := tightLimits }

def nullCall : Bytes := words [1, RPC_CALL, 2, Nfs3.PROGRAM, Nfs3.VERSION, 0, AUTH_NONE, 0, AUTH_NONE, 0]

/-- The header of the record after the call. -/
def bigHeader : Bytes := [0x80, 0, 0x02, 0x58]

def nullStream : Bytes := [0x80, 0, 0, 40] ++ (nullCall ++ bigHeader)

def tightStart : BudgetState :=
  ⟨⟨World.new 0, [], false⟩, fun _ => ⟨Connection.new (.v4 0 700) nullStream, .idle⟩⟩

/-- The first connection gets here, with the others as they were accepted. -/
def Reaches (shared : Shared) (account : Account) : Prop :=
  (budgetMachine tightState Sample.cache sampleSockets).Reachable
    ⟨shared, Function.update tightStart.accounts 0 account⟩

theorem Reaches.start : Reaches ⟨World.new 0, [], false⟩ ⟨Connection.new (.v4 0 700) nullStream, .idle⟩ := by
  refine ⟨tightStart, [], ⟨⟨⟨0, rfl⟩, fun _ => ⟨_, _, rfl⟩⟩, fun _ => rfl⟩, ?_⟩
  have hsame : Function.update tightStart.accounts 0 ⟨Connection.new (.v4 0 700) nullStream, .idle⟩ =
      tightStart.accounts := Function.update_eq_self 0 _
  rw [hsame]
  exact .nil

/-- Permits for one request only are out. -/
abbrev Account.Single (number : Nat) (account : Account) : Prop :=
  account.Within True (fun other => (0, other) ∈ ({(0, number)} : Set (Nat × Nat)))
    (fun other => (0, other) ∈ ({(0, 0)} : Set (Nat × Nat))) fun other => (0, other) ∈ ({(0, 0)} : Set (Nat × Nat))

theorem Account.Single.budgeted (h : account.Single number) (shared : Shared) :
    BudgetState.Budgeted ⟨shared, Function.update tightStart.accounts 0 account⟩ tightState.limits := by
  have hfresh : ∀ index, (tightStart.accounts index).Fresh := fun index => ⟨⟨_, _, rfl⟩, rfl⟩
  refine budgeted_update (s := tightStart) ?_ ?_ ?_ ?_ ?_ ?_ h shared
  · exact fun request ⟨_, howns⟩ => ((hfresh request.1).within.of_request howns).elim
  · exact fun request ⟨_, howns⟩ => ((hfresh request.1).within.of_reply howns).elim
  · exact fun request ⟨_, howns⟩ => ((hfresh request.1).within.of_execution howns).elim
  all_goals exact Semaphore.covers_of_subset_singleton (by decide) subset_rfl

theorem Reaches.step {account' : Account} (h : Reaches shared account)
    (hstep : AccountStep tightState Sample.cache (byteWriter true) shared account event shared' account')
    (hsingle : account'.Single number) : Reaches shared' account' := by
  have hbudget : BudgetStep tightState Sample.cache sampleSockets
      ⟨shared, Function.update tightStart.accounts 0 account⟩ (.connection 0 event)
      ⟨shared', Function.update (Function.update tightStart.accounts 0 account) 0 account'⟩ := by
    refine .account _ 0 event shared' account' ?_ ?_
    · dsimp only
      rw [Function.update_self]
      exact hstep
    · rw [Function.update_idem]
      exact hsingle.budgeted shared'
  rw [Function.update_idem] at hbudget
  exact h.run (Machine.Run.nil.snoc hbudget)

theorem Account.Single.first (hreader : account.connection.queued = [] ∨
      (∀ length, account.stage ≠ .filling length) ∧ ∀ record, account.connection.reader ≠ .sending record)
    (hqueue : ∀ entry ∈ account.connection.queue, entry.1 = 0)
    (htasks : ∀ task ∈ account.connection.tasks, task.number = 0)
    (hexecutions : ∀ execution ∈ account.connection.executions, execution.number = 0)
    (hreplies : account.connection.replyQueue = []) : account.Single 0 := by
  refine ⟨fun _ => trivial, fun _ length _ hstage => ?_, fun _ record hsending => ?_, fun _ entry hmem => ?_,
    fun task hmem => ?_, fun execution hmem => ?_, fun _ => ?_⟩
  · rcases hreader with hnone | ⟨hidle, -⟩
    · rw [hnone]
      rfl
    · exact absurd hstage (hidle length)
  · rcases hreader with hnone | ⟨-, hidle⟩
    · rw [hnone]
      rfl
    · exact absurd hsending (hidle record)
  · rw [hqueue entry hmem]
    rfl
  · rw [htasks task hmem]
    exact ⟨fun _ => rfl, fun _ => rfl⟩
  · rw [hexecutions execution hmem]
    exact ⟨rfl, rfl, rfl⟩
  · rw [hreplies]
    exact nofun

def nullKey : ReplayKey := ⟨.v4 0 0, ⟨0⟩, 1⟩

def nullLease : ReplayEntryKey := ⟨nullKey, sampleFingerprint, 0⟩

def nullReply : EncodedReply := tightState.reply (acceptedReply 1 SUCCESS [])

/-- What the task has said until its execution is spawned. -/
def nullHistory : Dialogue :=
  [⟨.begin nullKey sampleFingerprint, .ok (.execute nullLease)⟩, ⟨.spawn nullLease, .ok ()⟩]

/-- The cache has opened the lease. -/
def begun : Shared := ⟨((World.new 0).begin Sample.cache 0 nullKey sampleFingerprint).2, [], false⟩

/-- The call was read, and its task stands here. -/
def nullConnection (phase : TaskPhase) (executions : List Execution) : Connection where
  __ := Connection.new (.v4 0 700) bigHeader
  queued := [nullCall]
  tasks := [⟨0, nullCall, phase⟩]
  executions := executions

-- the record is read and dispatched by evaluating the readers
set_option maxRecDepth 20000

theorem Connection.Alive.of_running {connection : Connection} (hreader : ∀ error, connection.reader ≠ .failed error)
    (hprocessor : connection.processor = .running) (hwriter : connection.writer = .running) : connection.Alive :=
  ⟨hreader, by rw [hprocessor]; rintro _ ⟨⟩, by rw [hwriter]; rintro _ ⟨⟩⟩

/-- A step of the connection, with the reader idle before and after. -/
theorem Reaches.connection {before after : Connection} (h : Reaches shared ⟨before, .idle⟩)
    (hstep : ConnectionStep tightState Sample.cache (byteWriter true) shared before event shared' after)
    (hreader : ∀ record, after.reader ≠ .sending record) (hsingle : Account.Single 0 ⟨after, .idle⟩) :
    Reaches shared' ⟨after, .idle⟩ := by
  have hidle : ReadStage.idle.next before.reader after.reader = .idle := by
    unfold ReadStage.next
    split <;> rfl
  have hmoved : AccountStep tightState Sample.cache (byteWriter true) shared ⟨before, .idle⟩ event shared'
      ⟨after, ReadStage.idle.next before.reader after.reader⟩ :=
    .connection event shared' after hstep fun record _ hsending => absurd hsending (hreader record)
  rw [hidle] at hmoved
  exact h.step hmoved hsingle

/-- The call is read and queued. -/
theorem Reaches.queued : Reaches ⟨World.new 0, [], false⟩
    ⟨{ Connection.new (.v4 0 700) bigHeader with queued := [nullCall], queue := [(0, nullCall)] }, .idle⟩ := by
  have hreserving := Reaches.start.step
    (.header (.of_running nofun rfl rfl) rfl rfl (by decide)) (.first (.inl rfl) nofun nofun nofun rfl)
  have hfilling := hreserving.step
    (.reserve (.of_running nofun rfl rfl) rfl rfl) (.first (.inl rfl) nofun nofun nofun rfl)
  have hread : readRecordBudgeted tightState.limits.recordLimits nullStream = .ok (nullCall, bigHeader) := rfl
  have hsending : Reaches _ ⟨{ Connection.new (.v4 0 700) bigHeader with reader := .sending nullCall }, .idle⟩ :=
    hfilling.step (.connection _ _ _ (.read nullCall bigHeader (.of_running nofun rfl rfl) rfl hread)
      fun _ _ _ => ⟨0, rfl⟩) (.first (.inl rfl) nofun nofun nofun rfl)
  exact hsending.connection (.enqueue nullCall (.of_running nofun rfl rfl) rfl rfl rfl (by decide)) nofun
    (.first (.inr ⟨nofun, nofun⟩) (List.forall_mem_singleton.mpr rfl) nofun nofun rfl)

theorem Account.Single.null (phase : TaskPhase) : Account.Single 0 ⟨nullConnection phase [], .idle⟩ :=
  .first (.inr ⟨nofun, nofun⟩) nofun (List.forall_mem_singleton.mpr rfl) nofun rfl

theorem Account.Single.nullExecution (thread : Thread) :
    Account.Single 0 ⟨nullConnection .executing [⟨0, nullCall, nullLease, thread⟩], .idle⟩ :=
  .first (.inr ⟨nofun, nofun⟩) nofun (List.forall_mem_singleton.mpr rfl)
    (List.forall_mem_singleton.mpr rfl) rfl

/-- The call asks the cache, is executed if it is told so, and is answered at once. -/
theorem nullCall_asks (lease : ReplayEntryKey) : ∃ next next', dispatchRecord tightState (.v4 0 700) nullCall =
      Prog.ask (S := serverSignature) (.begin nullKey sampleFingerprint) next ∧
    next (.ok (.execute lease)) = Prog.ask (S := serverSignature) (.spawn lease) next' ∧
    next' (.ok ()) = Prog.ask (S := serverSignature) (.complete lease nullReply) fun _ => .done nullReply :=
  ⟨_, _, rfl, rfl, rfl⟩

/-- Its execution has been spawned, and has a reply. -/
theorem Reaches.executing : Reaches begun
    ⟨nullConnection .executing [⟨0, nullCall, nullLease, ⟨nullHistory,
      Prog.ask (S := serverSignature) (.complete nullLease nullReply) fun _ => .done nullReply⟩⟩], .idle⟩ := by
  have hreserving : Reaches _ ⟨nullConnection .reserving [], .idle⟩ :=
    Reaches.queued.connection (.receive 0 nullCall [] (.of_running nofun rfl rfl) rfl rfl (by decide))
      nofun (.null _)
  obtain ⟨next, next', hprogram, hnext, hspawned⟩ := nullCall_asks nullLease
  have hhandling := hreserving.connection (.start [] [] 0 nullCall rfl) nofun (.null _)
  have hbegin : Served Sample.cache ⟨World.new 0, [], false⟩ (.begin nullKey sampleFingerprint)
      (.ok (.execute nullLease)) begun := .begin 0 nullKey sampleFingerprint (by decide) (by decide)
  have hbegun : Reaches begun ⟨nullConnection (.handling
      ⟨[⟨.begin nullKey sampleFingerprint, .ok (.execute nullLease)⟩], next (.ok (.execute nullLease))⟩) [], .idle⟩ :=
    hhandling.connection (.ask [] [] 0 nullCall [] _ next _ _ (hprogram ▸ rfl) hbegin) nofun (.null _)
  rw [hnext] at hbegun
  have hexecuting : Reaches begun
      ⟨nullConnection .executing [⟨0, nullCall, nullLease, ⟨nullHistory, next' (.ok ())⟩⟩], .idle⟩ :=
    hbegun.connection (.spawn [] [] 0 nullCall [⟨.begin nullKey sampleFingerprint, .ok (.execute nullLease)⟩] nullLease next' rfl) nofun (.nullExecution _)
  rwa [hspawned] at hexecuting

/-- The thread of the task once its execution has ended. -/
def endedThread : Thread := ⟨nullHistory ++ [⟨.complete nullLease nullReply, ()⟩], .done nullReply⟩

/-- The execution has ended, and its task has not gone on. -/
theorem Reaches.ended : ∃ shared, Reaches shared ⟨nullConnection (.handling endedThread) [], .idle⟩ := by
  have hprepared := Reaches.executing.connection
    (.prepare [] [] 0 nullCall nullLease nullHistory nullLease nullReply _ Sample.alloc rfl rfl) nofun
    (.nullExecution _)
  have hstored := hprepared.connection
    (.execute [] [] 0 nullCall nullLease nullHistory _ _ _ _ rfl
      (.complete nullLease nullReply Sample.alloc _ rfl (.inl (by decide)))) nofun (.nullExecution _)
  exact ⟨_, hstored.connection (.executed [] [] 0 nullCall nullLease _ (.ok nullReply) rfl) nofun (.null _)⟩

theorem Account.Single.ended (stage : ReadStage) : Account.Single 1 ⟨nullConnection (.handling endedThread) [], stage⟩ := by
  have hspawned : endedThread.Spawned := ⟨nullLease, by simp [endedThread, nullHistory]⟩
  refine ⟨fun _ => trivial, fun _ _ _ _ => rfl, nofun, nofun, ?_, nofun, nofun⟩
  exact List.forall_mem_singleton.mpr ⟨fun howned => absurd hspawned howned, fun _ => rfl⟩

/-- Then the next record is begun. -/
theorem Reaches.begun : ∃ shared, Reaches shared ⟨nullConnection (.handling endedThread) [], .filling 600⟩ := by
  obtain ⟨shared, hended⟩ := Reaches.ended
  have halive : (nullConnection (.handling endedThread) []).Alive := .of_running nofun rfl rfl
  have hreserving := hended.step (.header halive rfl rfl (by decide)) (.ended .reserving)
  have hfilling := hreserving.step (.reserve halive rfl rfl) (.ended (.filling 0))
  exact ⟨shared, hfilling.step (.grow 0 600 halive rfl rfl (by decide) (by decide)) (.ended (.filling 600))⟩

/-- A task holds its record of 40 bytes and a reader one of 600, where the budget is 600: the permits of
the former were returned when its execution ended. -/
theorem request_bytes_exceed_budget : ∃ s : BudgetState,
    tightState.limits.validate = .ok () ∧ (budgetMachine tightState Sample.cache sampleSockets).Reachable s ∧
    ¬ s.Charged ∧ ¬ s.WithinBudget tightState.limits := by
  obtain ⟨shared, hbegun⟩ := Reaches.begun
  refine ⟨_, validate_tightLimits, hbegun, ?_, ?_⟩
  · have hmem : (⟨0, nullCall, .handling endedThread⟩ : Task) ∈ (Function.update tightStart.accounts 0
        ⟨nullConnection (.handling endedThread) [], .filling 600⟩ 0).connection.tasks := by
      rw [Function.update_self]
      exact List.mem_singleton_self _
    exact not_charged_of_lingers hbegun hmem ⟨nullLease, by simp [endedThread, nullHistory]⟩
  · intro hwithin
    have hsum := hwithin {(0, 0), (0, 1)} (fun request => if request.2 = 0 then 40 else 600) ?_
    · revert hsum
      decide
    · intro request hrequest
      rw [Finset.mem_insert, Finset.mem_singleton] at hrequest
      rcases hrequest with rfl | rfl
      · dsimp only
        rw [Function.update_self]
        exact ⟨_, .task ⟨0, nullCall, .handling endedThread⟩ (List.mem_singleton_self _) trivial⟩
      · dsimp only
        rw [Function.update_self]
        exact ⟨_, .filling 600 (.of_running nofun rfl rfl) rfl rfl⟩

/-- While the execution runs, its record is charged. -/
theorem request_bytes_charged_executing : ∃ s : BudgetState,
    (budgetMachine tightState Sample.cache sampleSockets).Reachable s ∧
    (∃ role, (s.accounts 0).HoldsRecord role 0 40) ∧ s.Charged ∧ s.WithinBudget tightState.limits := by
  refine ⟨_, Reaches.executing, ?_, (request_bytes_charged_iff tightState Sample.cache sampleSockets _
    Reaches.executing).mpr fun index task hmem => ?_⟩
  · dsimp only
    rw [Function.update_self]
    exact ⟨_, .task ⟨0, nullCall, .executing⟩ (List.mem_singleton_self _) trivial⟩
  · dsimp only at hmem
    by_cases hindex : index = 0
    · subst hindex
      rw [Function.update_self] at hmem
      cases List.mem_singleton.mp hmem
      exact id
    · rw [Function.update_of_ne hindex] at hmem
      cases hmem

end NfsEmbed.Server
