import NfsEmbed.Lib.Resources
import NfsEmbed.Server.Connection

/-!
# Budgets (`request_buffers`, `reply_buffers` and `requests` of `ConnectionState`)

The permits of a request are owned by what holds its buffers: they are moved along with the queued
request, the task, the execution and the queued reply, and returned when the last owner drops them. So
the state of the connections says which permits are out. A request is named by the index of its
connection and its number there; the record the reader is at has the next number.

A step of the server is taken only if afterwards the permits that are out are there: this is what the
three semaphores are for. All else is as in `serverMachine`, except that the reader goes through the
points at which `read_record_budgeted` awaits.
-/

namespace NfsEmbed.Server

open Lib Rpc Replay

/-! ## The reader -/

/-- The lengths `record` has in `read_record_budgeted`: it grows by a fragment as soon as the header of
the fragment is accepted. -/
def recordLengths (limits : RecordLimits) : Nat → Nat → Bytes → List Nat
  | 0, _, _ => []
  | remaining + 1, length, stream =>
    match readHeader stream with
    | .error _ => []
    | .ok (header, rest) =>
      let last := header &&& 0x80000000 ≠ 0
      let newLength := length + (header &&& 0x7fffffff).toNat
      if (header &&& 0x7fffffff).toNat = 0 ∧ ¬ last then []
      else if (header &&& 0x7fffffff).toNat > limits.maxFragmentSize then []
      else if newLength > limits.maxRecordSize then []
      else if last ∨ rest.length < (header &&& 0x7fffffff).toNat then [newLength]
      else newLength :: recordLengths limits remaining newLength (rest.drop (header &&& 0x7fffffff).toNat)

/-- Where a reader is that reads. -/
inductive ReadStage where
  /-- Waits for the header of a record. -/
  | idle
  /-- Waits for the reservation. -/
  | reserving
  /-- Has the reservation, and a record of this length so far. -/
  | filling (length : Nat)

/-- A reader that has its record, or has ended, starts over. -/
def ReadStage.next (stage : ReadStage) : ReaderPhase → ReaderPhase → ReadStage
  | .reading, .reading => stage
  | _, _ => .idle

/-- A connection, and where its reader is. -/
structure Account where
  connection : Connection
  stage : ReadStage

/-! ## Who owns what -/

/-- The parties of a connection. -/
inductive Role where
  | reader
  | queued (number : Nat)
  | task (number : Nat)
  | execution (number : Nat)
  | writer
deriving DecidableEq, Repr

/-- `request_budget` was moved into the execution. -/
def Thread.Spawned (thread : Thread) : Prop :=
  ∃ lease, (⟨.spawn lease, .ok ()⟩ : Exchange serverSignature) ∈ thread.history

namespace TaskPhase

/-- The task has `record`: as a part of the queued request, or as a local of `dispatch_record`. -/
def HoldsRecord : TaskPhase → Prop
  | .reserving | .handling _ | .executing => True
  | _ => False

def OwnsRequestPermits : TaskPhase → Prop
  | .reserving => True
  | .handling thread => ¬ thread.Spawned
  | _ => False

def OwnsReplyPermits : TaskPhase → Prop
  | .handling _ | .executing | .replying _ => True
  | _ => False

end TaskPhase

namespace Account

variable (account : Account)

/-- The parties that have the bytes of a record, with their number. -/
inductive HoldsRecord : Role → Nat → Nat → Prop
  | filling (length : Nat) : account.connection.Alive → account.connection.reader = .reading →
    account.stage = .filling length → HoldsRecord .reader account.connection.queued.length length
  | sending (record : Bytes) : account.connection.Alive → account.connection.reader = .sending record →
    HoldsRecord .reader account.connection.queued.length record.length
  | queued (number : Nat) (record : Bytes) : account.connection.Alive → (number, record) ∈ account.connection.queue →
    HoldsRecord (.queued number) number record.length
  | task (task : Task) : task ∈ account.connection.tasks → task.phase.HoldsRecord →
    HoldsRecord (.task task.number) task.number task.record.length
  /-- A slice of it. -/
  | execution (execution : Execution) : execution ∈ account.connection.executions →
    HoldsRecord (.execution execution.number) execution.number execution.record.length

/-- The owners of permits of `request_buffers`. -/
inductive OwnsRequestPermits : Role → Nat → Prop
  | filling (length : Nat) : account.connection.Alive → account.connection.reader = .reading →
    account.stage = .filling length → OwnsRequestPermits .reader account.connection.queued.length
  | sending (record : Bytes) : account.connection.Alive → account.connection.reader = .sending record →
    OwnsRequestPermits .reader account.connection.queued.length
  | queued (number : Nat) (record : Bytes) : account.connection.Alive → (number, record) ∈ account.connection.queue →
    OwnsRequestPermits (.queued number) number
  | task (task : Task) : task ∈ account.connection.tasks → task.phase.OwnsRequestPermits →
    OwnsRequestPermits (.task task.number) task.number
  | execution (execution : Execution) : execution ∈ account.connection.executions →
    OwnsRequestPermits (.execution execution.number) execution.number

/-- The owners of permits of `reply_buffers`. -/
inductive OwnsReplyPermits : Role → Nat → Prop
  | task (task : Task) : task ∈ account.connection.tasks → task.phase.OwnsReplyPermits →
    OwnsReplyPermits (.task task.number) task.number
  | execution (execution : Execution) : execution ∈ account.connection.executions →
    OwnsReplyPermits (.execution execution.number) execution.number
  | writer (number : Nat) (reply : EncodedReply) : account.connection.Alive →
    (number, reply) ∈ account.connection.replyQueue → OwnsReplyPermits .writer number

/-- The owners of a permit of `requests`. -/
inductive OwnsExecutionPermit : Role → Nat → Prop
  | execution (execution : Execution) : execution ∈ account.connection.executions →
    OwnsExecutionPermit (.execution execution.number) execution.number

end Account

/-! ## The server -/

structure BudgetState where
  shared : Shared
  accounts : Nat → Account

def ServerLimits.requestBuffers (limits : ServerLimits) : Semaphore :=
  ⟨limits.maxBufferedRequestBytes, limits.maxRpcRecordSize⟩

def ServerLimits.replyBuffers (limits : ServerLimits) : Semaphore :=
  ⟨limits.maxBufferedReplyBytes, limits.maxRpcRecordSize⟩

def ServerLimits.requestSlots (limits : ServerLimits) : Semaphore := ⟨limits.maxInflightRequests, 1⟩

namespace BudgetState

variable (s : BudgetState)

/-- Without where the readers are. -/
def server : ServerState := ⟨s.shared, fun index => (s.accounts index).connection⟩

/-- The requests whose permits of `request_buffers` are out. -/
def requestPermits : Set (Nat × Nat) :=
  {request | ∃ role, (s.accounts request.1).OwnsRequestPermits role request.2}

def replyPermits : Set (Nat × Nat) :=
  {request | ∃ role, (s.accounts request.1).OwnsReplyPermits role request.2}

def executionPermits : Set (Nat × Nat) :=
  {request | ∃ role, (s.accounts request.1).OwnsExecutionPermit role request.2}

/-- All permits that are out are there. -/
structure Budgeted (limits : ServerLimits) : Prop where
  request : limits.requestBuffers.Covers s.requestPermits
  reply : limits.replyBuffers.Covers s.replyPermits
  execution : limits.requestSlots.Covers s.executionPermits

end BudgetState

inductive AccountStep (state : ConnectionState) (cache : ReplayCache) (socket : Writer) (shared : Shared)
    (account : Account) : ConnectionEvent → Shared → Account → Prop
  /-- The header of the first fragment is read and accepted. -/
  | header :
    account.connection.Alive → account.connection.reader = .reading → account.stage = .idle →
    recordLengths state.limits.recordLimits state.limits.maxFragmentsPerRecord 0 account.connection.stream ≠ [] →
    AccountStep state cache socket shared account .progress shared { account with stage := .reserving }
  | reserve :
    account.connection.Alive → account.connection.reader = .reading → account.stage = .reserving →
    AccountStep state cache socket shared account .progress shared { account with stage := .filling 0 }
  /-- The next header is read and accepted. -/
  | grow (length length' : Nat) :
    account.connection.Alive → account.connection.reader = .reading → account.stage = .filling length →
    length ≤ length' →
    length' ∈ recordLengths state.limits.recordLimits state.limits.maxFragmentsPerRecord 0
      account.connection.stream →
    AccountStep state cache socket shared account .progress shared { account with stage := .filling length' }
  /-- Any other step; a record is complete only with its reservation. -/
  | connection (event : ConnectionEvent) (shared' : Shared) (connection : Connection) :
    ConnectionStep state cache socket shared account.connection event shared' connection →
    (∀ record, account.connection.reader = .reading → connection.reader = .sending record →
      ∃ length, account.stage = .filling length) →
    AccountStep state cache socket shared account event shared'
      ⟨connection, account.stage.next account.connection.reader connection.reader⟩

inductive BudgetStep (state : ConnectionState) (cache : ReplayCache) (sockets : Nat → Writer) :
    BudgetState → ServerEvent → BudgetState → Prop
  | account (s : BudgetState) (index : Nat) (event : ConnectionEvent) (shared : Shared) (account : Account) :
    AccountStep state cache (sockets index) s.shared (s.accounts index) event shared account →
    BudgetState.Budgeted ⟨shared, Function.update s.accounts index account⟩ state.limits →
    BudgetStep state cache sockets s (.connection index event) ⟨shared, Function.update s.accounts index account⟩
  | tick (s : BudgetState) (now : Nat) :
    s.shared.world.clock ≤ now →
    BudgetStep state cache sockets s .tick
      { s with shared := { s.shared with world := { s.shared.world with clock := now } } }
  | signal (s : BudgetState) :
    BudgetStep state cache sockets s .signal { s with shared := { s.shared with shutdown := true } }

def budgetMachine (state : ConnectionState) (cache : ReplayCache) (sockets : Nat → Writer) :
    Machine BudgetState ServerEvent where
  Start s := (serverMachine state cache sockets).Start s.server ∧ ∀ index, (s.accounts index).stage = .idle
  Step := BudgetStep state cache sockets

end NfsEmbed.Server
