import NfsEmbed.Laws.Server.Budgets
import NfsEmbed.Laws.Server.Receivers

/-!
# Who waits for whom

A reader waits for request permits and for room in the request queue, a queued request for the ones
before it and for a task slot, a task for reply permits, for the request it duplicates, for an execution
permit, for its execution and for room in the reply queue. An execution waits for the VFS only and a
writer for its socket. Whoever holds what a party waits for is a party further along, so the relation has
no cycle (`rank_lt_of_waitsFor`), and a party without an edge goes on, or is at its socket or at the VFS
(`goes_on_of_not_waits`).

Deadlines play no part in either. Tasks of a connection that has failed are aborted: they wait for
nobody, and may still hold what others wait for.
-/

namespace NfsEmbed.Server

open Lib Rpc Vfs Replay
open Prog (Follows)

variable {task : Task} {role : Role} {number index : Nat} {lease : ReplayEntryKey} {op : ServerOp}
  {connection : Connection}

/-! ## Parties -/

/-- A party of the connection of this index. -/
structure Party where
  index : Nat
  role : Role
deriving DecidableEq, Repr

/-- What a program asks for can be had at once, from the cache, the mount table or a sender. -/
def Shared.Ready (shared : Shared) : ServerOp → Prop
  | .begin _ _ | .mounts _ => True
  | .wait receiver => ∃ result, (receiver, result) ∈ shared.world.deliveries
  | .cancel lease => shared.world.leases.lookup lease = some .held
  | .complete lease reply => shared.world.leases.lookup lease = some .held ∨
      ∃ alloc eligibleBeforeCopy,
        shared.world.leases.lookup lease = some (.completing reply alloc eligibleBeforeCopy)
  | .vfs _ _ _ | .spawn _ => False

namespace BudgetState

variable (limits : ServerLimits) (s : BudgetState)

/-- Parties that have something to do. -/
inductive Present : Party → Prop
  | reading (index : Nat) : (s.accounts index).connection.Alive → (s.accounts index).connection.reader = .reading →
    Present ⟨index, .reader⟩
  | sending (index : Nat) (record : Bytes) : (s.accounts index).connection.Alive →
    (s.accounts index).connection.reader = .sending record → Present ⟨index, .reader⟩
  | queued (index : Nat) (request : Nat × Bytes) : (s.accounts index).connection.Alive →
    request ∈ (s.accounts index).connection.queue → Present ⟨index, .queued request.1⟩
  | task (index : Nat) (task : Task) : task ∈ (s.accounts index).connection.tasks → Present ⟨index, .task task.number⟩
  | execution (index : Nat) (execution : Execution) : execution ∈ (s.accounts index).connection.executions →
    Present ⟨index, .execution execution.number⟩
  | writer (index : Nat) (reply : Nat × EncodedReply) : (s.accounts index).connection.Alive →
    reply ∈ (s.accounts index).connection.replyQueue → Present ⟨index, .writer⟩

/-- The parties that are to resolve a lease. -/
inductive OwnsLease : Party → ReplayEntryKey → Prop
  | task (index : Nat) (task : Task) (lease : ReplayEntryKey) : task ∈ (s.accounts index).connection.tasks →
    lease ∈ task.leases → OwnsLease ⟨index, .task task.number⟩ lease
  | execution (index : Nat) (execution : Execution) (lease : ReplayEntryKey) :
    execution ∈ (s.accounts index).connection.executions → lease ∈ execution.leases →
    OwnsLease ⟨index, .execution execution.number⟩ lease

/-- A party is blocked on something another one holds. -/
inductive WaitsFor : Party → Party → Prop
  /-- `request_buffers` has too few permits. -/
  | requestBuffers (index : Nat) (request : Nat × Nat) (role : Role) :
    (s.accounts index).connection.Alive → (s.accounts index).connection.reader = .reading →
    (s.accounts index).stage = .reserving →
    ¬ limits.requestBuffers.Covers (insert (index, (s.accounts index).connection.queued.length) s.requestPermits) →
    (s.accounts request.1).OwnsRequestPermits role request.2 →
    WaitsFor ⟨index, .reader⟩ ⟨request.1, role⟩
  /-- The request queue is full. -/
  | requestQueue (index : Nat) (record : Bytes) (request : Nat × Bytes) :
    (s.accounts index).connection.Alive → (s.accounts index).connection.reader = .sending record →
    (s.accounts index).connection.closeCalled = false →
    limits.maxRequestsPerConnection ≤ (s.accounts index).connection.queue.length →
    request ∈ (s.accounts index).connection.queue →
    WaitsFor ⟨index, .reader⟩ ⟨index, .queued request.1⟩
  /-- Requests are received in order. -/
  | turn (index : Nat) (before after : List (Nat × Bytes)) (request ahead : Nat × Bytes) :
    (s.accounts index).connection.Alive → (s.accounts index).connection.queue = before ++ request :: after →
    ahead ∈ before →
    WaitsFor ⟨index, .queued request.1⟩ ⟨index, .queued ahead.1⟩
  /-- The connection has all the tasks it may have. -/
  | slot (index : Nat) (request : Nat × Bytes) (task : Task) :
    (s.accounts index).connection.Alive → request ∈ (s.accounts index).connection.queue →
    limits.maxRequestsPerConnection ≤ (s.accounts index).connection.tasks.length →
    task ∈ (s.accounts index).connection.tasks →
    WaitsFor ⟨index, .queued request.1⟩ ⟨index, .task task.number⟩
  /-- `reply_buffers` has too few permits. -/
  | replyBuffers (index : Nat) (task : Task) (request : Nat × Nat) (role : Role) :
    (s.accounts index).connection.Alive → task ∈ (s.accounts index).connection.tasks → task.phase = .reserving →
    ¬ limits.replyBuffers.Covers (insert (index, task.number) s.replyPermits) →
    (s.accounts request.1).OwnsReplyPermits role request.2 →
    WaitsFor ⟨index, .task task.number⟩ ⟨request.1, role⟩
  /-- The request it duplicates has no reply yet. -/
  | lease (index : Nat) (task : Task) (receiver : Channel) (lease : ReplayEntryKey) (owner : Party) :
    (s.accounts index).connection.Alive → task ∈ (s.accounts index).connection.tasks →
    task.asking = some (.wait receiver) → (∀ result, (receiver, result) ∉ s.shared.world.deliveries) →
    s.shared.world.WaitsOn receiver lease → s.OwnsLease owner lease →
    WaitsFor ⟨index, .task task.number⟩ owner
  /-- `requests` has no permit. -/
  | executionPermit (index : Nat) (task : Task) (lease : ReplayEntryKey) (request : Nat × Nat) (role : Role) :
    (s.accounts index).connection.Alive → task ∈ (s.accounts index).connection.tasks →
    task.asking = some (.spawn lease) →
    ¬ limits.requestSlots.Covers (insert (index, task.number) s.executionPermits) →
    (s.accounts request.1).OwnsExecutionPermit role request.2 →
    WaitsFor ⟨index, .task task.number⟩ ⟨request.1, role⟩
  /-- Its execution has no outcome yet. -/
  | outcome (index : Nat) (task : Task) (execution : Execution) :
    (s.accounts index).connection.Alive → task ∈ (s.accounts index).connection.tasks → task.phase = .executing →
    execution ∈ (s.accounts index).connection.executions → execution.number = task.number →
    WaitsFor ⟨index, .task task.number⟩ ⟨index, .execution execution.number⟩
  /-- The reply queue is full. -/
  | replyQueue (index : Nat) (task : Task) (reply : EncodedReply) :
    (s.accounts index).connection.Alive → task ∈ (s.accounts index).connection.tasks →
    task.phase = .replying reply →
    limits.maxRequestsPerConnection ≤ (s.accounts index).connection.replyQueue.length →
    WaitsFor ⟨index, .task task.number⟩ ⟨index, .writer⟩

/-- A party that reads from its client or writes to it. -/
inductive AwaitsSocket : Party → Prop
  | header (index : Nat) : (s.accounts index).connection.Alive → (s.accounts index).connection.reader = .reading →
    (s.accounts index).stage = .idle → AwaitsSocket ⟨index, .reader⟩
  | body (index length : Nat) : (s.accounts index).connection.Alive →
    (s.accounts index).connection.reader = .reading → (s.accounts index).stage = .filling length →
    AwaitsSocket ⟨index, .reader⟩
  | writer (index : Nat) (reply : Nat × EncodedReply) : (s.accounts index).connection.Alive →
    (s.accounts index).connection.writer = .running → reply ∈ (s.accounts index).connection.replyQueue →
    AwaitsSocket ⟨index, .writer⟩

/-- An execution whose backend has been called. -/
inductive AwaitsVfs : Party → Prop
  | execution (index : Nat) (execution : Execution) (entry : ExportState) (context : RequestContext) (method : VfsMethod) :
    execution ∈ (s.accounts index).connection.executions →
    execution.thread.asking = some (.vfs entry context method) → AwaitsVfs ⟨index, .execution execution.number⟩

/-- A party that needs nothing another one holds, and neither its client nor the VFS nor a deadline. -/
inductive CanStep : Party → Prop
  | reserve (index : Nat) :
    (s.accounts index).connection.Alive → (s.accounts index).connection.reader = .reading →
    (s.accounts index).stage = .reserving →
    limits.requestBuffers.Covers (insert (index, (s.accounts index).connection.queued.length) s.requestPermits) →
    CanStep ⟨index, .reader⟩
  | enqueue (index : Nat) (record : Bytes) :
    (s.accounts index).connection.Alive → (s.accounts index).connection.reader = .sending record →
    (s.accounts index).connection.closeCalled = false → (s.accounts index).connection.processor = .running →
    (s.accounts index).connection.queue.length < limits.maxRequestsPerConnection →
    CanStep ⟨index, .reader⟩
  /-- The processor does not receive any more. -/
  | sendEnds (index : Nat) (record : Bytes) :
    (s.accounts index).connection.Alive → (s.accounts index).connection.reader = .sending record →
    (s.accounts index).connection.closeCalled = true →
    CanStep ⟨index, .reader⟩
  | receive (index number : Nat) (record : Bytes) (rest : List (Nat × Bytes)) :
    (s.accounts index).connection.Alive → (s.accounts index).connection.processor = .running →
    (s.accounts index).connection.queue = (number, record) :: rest →
    (s.accounts index).connection.tasks.length < limits.maxRequestsPerConnection →
    CanStep ⟨index, .queued number⟩
  | start (index : Nat) (task : Task) :
    task ∈ (s.accounts index).connection.tasks → task.phase = .reserving →
    limits.replyBuffers.Covers (insert (index, task.number) s.replyPermits) →
    CanStep ⟨index, .task task.number⟩
  | ask (index : Nat) (task : Task) (op : ServerOp) :
    task ∈ (s.accounts index).connection.tasks → task.asking = some op → s.shared.Ready op →
    CanStep ⟨index, .task task.number⟩
  | spawn (index : Nat) (task : Task) (lease : ReplayEntryKey) :
    task ∈ (s.accounts index).connection.tasks → task.asking = some (.spawn lease) →
    limits.requestSlots.Covers (insert (index, task.number) s.executionPermits) →
    CanStep ⟨index, .task task.number⟩
  /-- `dispatch_record` has returned. -/
  | answered (index : Nat) (task : Task) (history : Dialogue) (outcome : Except ServerError EncodedReply) :
    task ∈ (s.accounts index).connection.tasks → task.phase = .handling ⟨history, Prog.ofExcept outcome⟩ →
    CanStep ⟨index, .task task.number⟩
  | reply (index : Nat) (task : Task) (reply : EncodedReply) :
    (s.accounts index).connection.Alive → task ∈ (s.accounts index).connection.tasks →
    task.phase = .replying reply → (s.accounts index).connection.writer = .running →
    (s.accounts index).connection.replyQueue.length < limits.maxRequestsPerConnection →
    CanStep ⟨index, .task task.number⟩
  | join (index : Nat) (task : Task) :
    (s.accounts index).connection.Alive → (s.accounts index).connection.processor = .running →
    task ∈ (s.accounts index).connection.tasks → (task.phase = .finished ∨ ∃ error, task.phase = .failed error) →
    CanStep ⟨index, .task task.number⟩
  /-- It is aborted, with what it holds. -/
  | drop (index : Nat) (task : Task) :
    ¬ (s.accounts index).connection.Alive → task ∈ (s.accounts index).connection.tasks →
    (task.phase.Settled ∨
      (∃ lease, task.asking = some (.spawn lease) ∧ s.shared.world.leases.lookup lease = some .held) ∨
      ∃ receiver, task.asking = some (.wait receiver) ∧ receiver < s.shared.world.channels) →
    CanStep ⟨index, .task task.number⟩
  | execute (index : Nat) (execution : Execution) (op : ServerOp) :
    execution ∈ (s.accounts index).connection.executions → execution.thread.asking = some op → s.shared.Ready op →
    CanStep ⟨index, .execution execution.number⟩
  | executed (index : Nat) (execution : Execution) :
    execution ∈ (s.accounts index).connection.executions → execution.thread.asking = none →
    CanStep ⟨index, .execution execution.number⟩

end BudgetState

/-! ## What holds in every state -/

/-- The invariants of the connections, of the leases and receivers, and of the permits. -/
structure Regular (limits : ServerLimits) (s : BudgetState) : Prop where
  budgeted : s.Budgeted limits
  placed : ∀ index, Placed (s.accounts index).connection
  orderly : ∀ index, Orderly limits (s.accounts index).connection
  protocol : ∀ index, InProtocol (s.accounts index).connection
  leases : LeaseBook s.shared.world fun index => (s.accounts index).connection
  receivers : ReceiverBook s.shared.world fun index => (s.accounts index).connection
  /-- An entry that has waiters has a lease. -/
  inFlight : ∀ receiver lease, s.shared.world.WaitsOn receiver lease → lease ∈ s.shared.world.leases

/-- Each semaphore has the permits for one request at least. -/
structure ServerLimits.Shares (limits : ServerLimits) : Prop where
  request : limits.requestBuffers.share ≤ limits.requestBuffers.permits
  reply : limits.replyBuffers.share ≤ limits.replyBuffers.permits
  execution : limits.requestSlots.share ≤ limits.requestSlots.permits

theorem ServerLimits.shares_of_validate {limits : ServerLimits} (h : limits.validate = .ok ()) : limits.Shares := by
  obtain ⟨-, h⟩ := of_check_ok (ServerLimits.parts_of_validate h).1
  obtain ⟨hrequests, h⟩ := of_check_ok h
  obtain ⟨-, h⟩ := of_check_ok h
  obtain ⟨-, h⟩ := of_check_ok h
  obtain ⟨-, h⟩ := of_check_ok h
  obtain ⟨-, h⟩ := of_check_ok h
  obtain ⟨hbuffers, -⟩ := of_check_ok h
  simp only [not_or, Nat.not_lt] at hrequests hbuffers
  exact ⟨hbuffers.1, hbuffers.2.1, Nat.pos_of_ne_zero hrequests.2⟩

variable {state : ConnectionState} {cache : ReplayCache} {sockets : Nat → Writer} {limits : ServerLimits}
  {s : BudgetState} {p q : Party}

theorem regular_of_reachable (h : (budgetMachine state cache sockets).Reachable s) :
    Regular state.limits s := by
  have hserver := server_of_reachable h
  have hsound := (labelled_of_reachable hserver).1.sound
  refine ⟨budgeted_of_reachable h, placed_of_reachable hserver, orderly_of_reachable hserver,
    inProtocol_of_reachable hserver, leaseBook_of_reachable hserver,
    receiverBook_of_reachable hserver, ?_⟩
  rintro receiver lease ⟨waiters, hwaiters, -⟩
  exact (hsound.lease_iff lease).mpr (CacheInner.isInFlight_of_lookup (CacheInner.waiters_eq_some.mp hwaiters))

/-! ## Ranks -/

/-- How many kinds of waiting are still ahead of a task. -/
def TaskPhase.rank : TaskPhase → Nat
  | .reserving => 4
  | .handling thread =>
    match thread.asking with
    | some (.wait _) => 3
    | some (.spawn _) => 2
    | _ => 0
  | .executing | .replying _ => 1
  | _ => 0

/-- A request in the queue is behind all tasks and the requests before it, a reader behind all that it has
read. -/
def Account.rank (limits : ServerLimits) (account : Account) : Role → Nat
  | .reader =>
    match account.connection.reader, account.stage with
    | .reading, .reserving => limits.maxRequestsPerConnection + 6
    | .sending _, _ => account.connection.queue.length + 5
    | _, _ => 0
  | .queued number => (account.connection.queue.map Prod.fst).idxOf number + 5
  | .task number => (account.connection.tasks.find? fun task => task.number = number).elim 0 (·.phase.rank)
  | .execution _ => 0
  | .writer => 0

def BudgetState.rank (limits : ServerLimits) (s : BudgetState) (p : Party) : Nat :=
  (s.accounts p.index).rank limits p.role

theorem TaskPhase.rank_le (phase : TaskPhase) : phase.rank ≤ 4 := by
  unfold TaskPhase.rank
  split
  next => exact Nat.le_refl _
  next =>
    split
    next => decide
    next => decide
    next => decide
  next => decide
  next => decide
  next => decide

namespace Account

variable {account : Account}

theorem rank_task (h : Placed account.connection) (htask : task ∈ account.connection.tasks) :
    account.rank limits (.task task.number) = task.phase.rank := by
  have hsome : (account.connection.tasks.find? fun other => other.number = task.number).isSome := by
    rw [List.find?_isSome]
    exact ⟨task, htask, decide_eq_true rfl⟩
  obtain ⟨other, hother⟩ := Option.isSome_iff_exists.mp hsome
  have hnumber : other.number = task.number := of_decide_eq_true (List.find?_some (p := fun other : Task => decide (other.number = task.number)) hother)
  cases h.eq_of_number (List.mem_of_find?_eq_some hother) htask hnumber
  show (account.connection.tasks.find? _).elim 0 _ = _
  rw [hother]
  rfl

theorem rank_queued_lt {request : Nat × Bytes} (h : request ∈ account.connection.queue) :
    account.rank limits (.queued request.1) < account.connection.queue.length + 5 := by
  have hlt := List.idxOf_lt_length_of_mem (List.mem_map_of_mem (f := Prod.fst) h)
  rw [List.length_map] at hlt
  exact Nat.add_lt_add_right hlt 5

/-- Who has request permits is not behind a reader that waits for some. -/
theorem rank_ownsRequestPermits (hplaced : Placed account.connection) (horderly : Orderly limits account.connection)
    (h : account.OwnsRequestPermits role number) :
    account.rank limits role < limits.maxRequestsPerConnection + 6 := by
  have hroom := horderly.room
  cases h with
  | filling _ _ hreader hstage =>
    simp only [rank, hreader, hstage]
    omega
  | sending _ _ hreader =>
    simp only [rank, hreader]
    omega
  | queued _ _ _ hmem =>
    have hlt : account.rank limits (.queued number) < _ := rank_queued_lt hmem
    omega
  | task task hmem =>
    rw [rank_task hplaced hmem]
    have hle := task.phase.rank_le
    omega
  | execution => exact Nat.succ_pos _

/-- Who has reply permits is past waiting for them. -/
theorem rank_ownsReplyPermits (hplaced : Placed account.connection) (h : account.OwnsReplyPermits role number) :
    account.rank limits role < 4 := by
  cases h with
  | task task hmem hphase =>
    rw [rank_task hplaced hmem]
    revert hphase
    cases task.phase with
    | handling =>
      intro _
      unfold TaskPhase.rank
      dsimp only
      split
      next => decide
      next => decide
      next => decide
    | executing | replying => exact fun _ => Nat.succ_lt_succ (Nat.succ_pos 2)
    | _ => exact False.elim
  | execution | writer => exact Nat.succ_pos _

end Account

theorem Regular.rank_task (h : Regular limits s) (htask : task ∈ (s.accounts index).connection.tasks) :
    s.rank limits ⟨index, .task task.number⟩ = task.phase.rank := Account.rank_task (h.placed index) htask

/-- Who has a lease does not wait for one. -/
theorem rank_ownsLease (h : Regular limits s) (howns : s.OwnsLease q lease) : s.rank limits q < 3 := by
  cases howns with
  | task _ _ _ hmem hlease =>
    rw [h.rank_task hmem]
    unfold Task.leases Task.asking at hlease
    unfold TaskPhase.rank
    split
    next hphase =>
      rw [hphase] at hlease
      cases hlease
    next thread hphase =>
      rw [hphase] at hlease
      dsimp only at hlease
      split
      next hasking =>
        rw [hasking] at hlease
        cases hlease
      next => decide
      next => decide
    next => decide
    next => decide
    next => decide
  | execution => exact Nat.succ_pos _

theorem Task.rank_of_asking (h : task.asking = some op) : task.phase.rank = match op with
      | .wait _ => 3
      | .spawn _ => 2
      | _ => 0 := by
  unfold Task.asking at h
  split at h
  next thread hphase =>
    rw [hphase]
    unfold TaskPhase.rank
    dsimp only
    rw [h]
    cases op <;> rfl
  next => cases h

/-- Whoever is waited for is further along. -/
theorem rank_lt_of_waitsFor (h : Regular limits s) (p q : Party) (hwaits : s.WaitsFor limits p q) :
    s.rank limits q < s.rank limits p := by
  cases hwaits with
  | requestBuffers index request _ _ hreader hstage _ howns =>
    have hlt := Account.rank_ownsRequestPermits (h.placed request.1) (h.orderly request.1) howns
    have hrank : s.rank limits ⟨index, .reader⟩ = limits.maxRequestsPerConnection + 6 := by
      simp only [BudgetState.rank, Account.rank, hreader, hstage]
    rw [hrank]
    exact hlt
  | requestQueue index _ _ _ hreader _ _ hmem =>
    have hrank : s.rank limits ⟨index, .reader⟩ = (s.accounts index).connection.queue.length + 5 := by
      simp only [BudgetState.rank, Account.rank, hreader]
    rw [hrank]
    exact Account.rank_queued_lt hmem
  | turn index before _ request ahead _ hqueue hahead =>
    have hnodup := (List.nodup_append.mp (h.placed index).waiting).1
    refine Nat.add_lt_add_right (m := List.idxOf request.1 ((s.accounts index).connection.queue.map Prod.fst)) ?_ 5
    rw [hqueue, List.map_append] at hnodup ⊢
    have hmem : ahead.1 ∈ before.map Prod.fst := List.mem_map_of_mem hahead
    have hnotMem : request.1 ∉ before.map Prod.fst := fun hrequest =>
      (List.nodup_append.mp hnodup).2.2 _ hrequest _ List.mem_cons_self rfl
    rw [List.idxOf_append_of_mem hmem, List.idxOf_append_of_notMem hnotMem]
    exact Nat.lt_add_right _ (List.idxOf_lt_length_of_mem hmem)
  | slot _ _ task _ _ _ hmem =>
    have hle := task.phase.rank_le
    rw [h.rank_task hmem]
    show _ < _ + 5
    omega
  | replyBuffers _ _ request _ _ hmem hphase _ howns =>
    rw [h.rank_task hmem, hphase]
    exact Account.rank_ownsReplyPermits (h.placed request.1) howns
  | lease _ _ _ _ _ _ hmem hasking _ _ howns =>
    rw [h.rank_task hmem, Task.rank_of_asking hasking]
    exact rank_ownsLease h howns
  | executionPermit _ _ _ request _ _ hmem hasking _ howns =>
    rw [h.rank_task hmem, Task.rank_of_asking hasking]
    obtain ⟨account, number⟩ := request
    dsimp only at howns
    cases howns with
    | execution => exact Nat.succ_pos _
  | outcome _ _ _ _ hmem hphase | replyQueue _ _ _ _ hmem hphase =>
    rw [h.rank_task hmem, hphase]
    exact Nat.succ_pos _

/-! ## The ends -/

theorem present_of_ownsRequestPermits (h : (s.accounts index).OwnsRequestPermits role number) :
    s.Present ⟨index, role⟩ := by
  cases h with
  | filling _ halive hreader => exact .reading index halive hreader
  | sending record halive hreader => exact .sending index record halive hreader
  | queued _ record halive hmem => exact .queued index (number, record) halive hmem
  | task task hmem => exact .task index task hmem
  | execution execution hmem => exact .execution index execution hmem

theorem present_of_ownsReplyPermits (h : (s.accounts index).OwnsReplyPermits role number) :
    s.Present ⟨index, role⟩ := by
  cases h with
  | task task hmem => exact .task index task hmem
  | execution execution hmem => exact .execution index execution hmem
  | writer _ reply halive hmem => exact .writer index (number, reply) halive hmem

theorem present_of_ownsExecutionPermit (h : (s.accounts index).OwnsExecutionPermit role number) :
    s.Present ⟨index, role⟩ := by
  cases h with
  | execution execution hmem => exact .execution index execution hmem

/-- Whoever is waited for is there. -/
theorem present_of_waitsFor (hlimits : 0 < limits.maxRequestsPerConnection) (h : s.WaitsFor limits p q) : s.Present q := by
  cases h with
  | requestBuffers _ _ _ _ _ _ _ howns => exact present_of_ownsRequestPermits howns
  | requestQueue index _ request halive _ _ _ hmem => exact .queued index request halive hmem
  | turn index _ _ _ ahead halive hqueue hahead =>
    exact .queued index ahead halive (hqueue ▸ List.mem_append_left _ hahead)
  | slot index _ task _ _ _ hmem => exact .task index task hmem
  | replyBuffers _ _ _ _ _ _ _ _ howns => exact present_of_ownsReplyPermits howns
  | lease index task _ _ _ _ _ _ _ _ howns =>
    cases howns with
    | task index task _ hmem => exact .task index task hmem
    | execution index execution _ hmem => exact .execution index execution hmem
  | executionPermit _ _ _ _ _ _ _ _ _ howns => exact present_of_ownsExecutionPermit howns
  | outcome index _ execution _ _ _ hmem => exact .execution index execution hmem
  | replyQueue index _ _ halive _ _ hfull =>
    obtain ⟨queued, hqueued⟩ := List.exists_mem_of_length_pos (Nat.lt_of_lt_of_le hlimits hfull)
    exact .writer index queued halive hqueued

section Unblocked

variable (hregular : Regular limits s)

/-- As long as there is something for it to do, the processor runs. -/
theorem Orderly.processor_running (h : Orderly limits connection) (halive : connection.Alive)
    (hbusy : ¬ connection.Drained) : connection.processor = .running := by
  cases hprocessor : connection.processor with
  | running => rfl
  | returned => exact absurd (h.processor hprocessor) hbusy
  | failed error => exact absurd hprocessor (halive.processor error)

theorem Orderly.writer_running (h : Orderly limits connection) (halive : connection.Alive)
    (hbusy : connection.tasks ≠ [] ∨ connection.replyQueue ≠ []) : connection.writer = .running := by
  cases hwriter : connection.writer with
  | running => rfl
  | returned =>
    obtain ⟨hprocessor, hqueue⟩ := h.writer hwriter
    rcases hbusy with htasks | hreplies
    · exact absurd (h.processor hprocessor).2.2 htasks
    · exact absurd hqueue hreplies
  | failed error => exact absurd hwriter (halive.writer error)

/-- A program of a task is at the cache, or has ended. -/
theorem InProtocol.asking (h : InProtocol connection) (hmem : task ∈ connection.tasks)
    (hasking : task.asking = some op) :
    (∃ key fingerprint, op = .begin key fingerprint) ∨ (∃ receiver, op = .wait receiver) ∨
      (∃ lease, op = .spawn lease) ∨ ∃ lease, op = .cancel lease := by
  obtain ⟨number, record, phase⟩ := task
  cases phase with
  | handling thread =>
    obtain ⟨history, program⟩ := thread
    cases program with
    | done | fail => cases hasking
    | ask =>
      cases hasking
      obtain ⟨stage, hstage, hfollows, -⟩ := h.tasks _ hmem
      have hallows := hfollows.1
      cases op with
      | begin key fingerprint => exact .inl ⟨key, fingerprint, rfl⟩
      | wait receiver => exact .inr (.inl ⟨receiver, rfl⟩)
      | spawn lease => exact .inr (.inr (.inl ⟨lease, rfl⟩))
      | cancel lease => exact .inr (.inr (.inr ⟨lease, rfl⟩))
      | vfs | mounts | complete =>
        cases stage with
        | running => exact hstage.elim
        | _ => exact hallows.elim
  | _ => cases hasking

/-- One of an execution is at the VFS, the mount table or the cache. -/
theorem InProtocol.executing (h : InProtocol connection) {execution : Execution}
    (hmem : execution ∈ connection.executions) (hasking : execution.thread.asking = some op) :
    (∃ entry context method, op = .vfs entry context method) ∨ (∃ update, op = .mounts update) ∨
      (∃ reply, op = .complete execution.lease reply) ∨ op = .cancel execution.lease := by
  obtain ⟨number, record, lease, history, program⟩ := execution
  cases program with
  | done | fail => cases hasking
  | ask other =>
    cases hasking
    obtain ⟨stage, rfl | rfl, hfollows⟩ := h.executions _ hmem
    · cases op with
      | vfs entry context method => exact .inl ⟨entry, context, method, rfl⟩
      | mounts update => exact .inr (.inl ⟨update, rfl⟩)
      | complete other reply =>
        cases (show other = lease from hfollows.1)
        exact .inr (.inr (.inl ⟨reply, rfl⟩))
      | cancel other =>
        cases (show other = lease from hfollows.1)
        exact .inr (.inr (.inr rfl))
      | _ => exact hfollows.1.elim
    · cases op <;> exact hfollows.1.elim

theorem Thread.program_of_asking {thread : Thread} (h : thread.asking = some op) :
    ∃ next, thread.program = Prog.ask (S := serverSignature) op next := by
  unfold Thread.asking at h
  split at h
  next op next hprogram =>
    cases h
    exact ⟨next, hprogram⟩
  next => cases h

theorem Task.settled_of_asking (h : task.asking = none) : task.phase.Settled := by
  obtain ⟨number, record, phase⟩ := task
  cases phase with
  | handling thread =>
    obtain ⟨history, program⟩ := thread
    cases program with
    | done | fail => exact trivial
    | ask => cases h
  | _ => exact trivial

theorem Task.held_of_asking {w : World} (h : task.Booked w) (hasking : task.asking = some op)
    (hlease : lease ∈ op.leases) : w.leases.lookup lease = some .held := by
  refine h lease ?_
  unfold Task.leases
  rw [hasking]
  exact hlease

include hregular

theorem Regular.booked (index : Nat) : Booked s.shared.world (s.accounts index).connection :=
  hregular.leases.booked index

theorem Regular.expected (htask : task ∈ (s.accounts index).connection.tasks) {receiver : Channel}
    (hasking : task.asking = some (.wait receiver)) : Expected s.shared.world receiver := by
  refine hregular.receivers.expected index receiver (List.mem_flatMap.mpr ⟨task, htask, ?_⟩)
  unfold Task.receivers
  rw [hasking]
  exact List.mem_singleton_self _

/-- A lease that is waited for has an owner. -/
theorem Regular.exists_ownsLease {receiver : Channel} (h : s.shared.world.WaitsOn receiver lease) :
    ∃ owner, s.OwnsLease owner lease := by
  obtain ⟨index, hlease⟩ := hregular.leases.owned lease (hregular.inFlight receiver lease h)
  rcases List.mem_append.mp hlease with hlease | hlease
  · obtain ⟨task, htask, hlease⟩ := List.mem_flatMap.mp hlease
    exact ⟨_, .task index task lease htask hlease⟩
  · obtain ⟨execution, hexecution, hlease⟩ := List.mem_flatMap.mp hlease
    exact ⟨_, .execution index execution lease hexecution hlease⟩

omit hregular

/-- What a party does that waits for nobody. -/
def BudgetState.GoesOn (limits : ServerLimits) (s : BudgetState) (p : Party) : Prop :=
  s.CanStep limits p ∨ s.AwaitsSocket p ∨ s.AwaitsVfs p

variable {index : Nat}

theorem goes_on_reading (hshares : limits.Shares) (halive : (s.accounts index).connection.Alive)
    (hreader : (s.accounts index).connection.reader = .reading) (hfree : ∀ q, ¬ s.WaitsFor limits ⟨index, .reader⟩ q) :
    s.GoesOn limits ⟨index, .reader⟩ := by
  cases hstage : (s.accounts index).stage with
  | idle => exact .inr (.inl (.header index halive hreader hstage))
  | filling length => exact .inr (.inl (.body index length halive hreader hstage))
  | reserving =>
    by_cases hcovers : limits.requestBuffers.Covers
        (insert (index, (s.accounts index).connection.queued.length) s.requestPermits)
    · exact .inl (.reserve index halive hreader hstage hcovers)
    · obtain ⟨request, role, howns⟩ := Semaphore.exists_holder hshares.request hcovers
      exact absurd (.requestBuffers index request role halive hreader hstage hcovers howns) (hfree _)

include hregular

theorem goes_on_sending (hlimits : 0 < limits.maxRequestsPerConnection) {record : Bytes}
    (halive : (s.accounts index).connection.Alive)
    (hreader : (s.accounts index).connection.reader = .sending record)
    (hfree : ∀ q, ¬ s.WaitsFor limits ⟨index, .reader⟩ q) : s.GoesOn limits ⟨index, .reader⟩ := by
  cases hclose : (s.accounts index).connection.closeCalled with
  | true => exact .inl (.sendEnds index record halive hreader hclose)
  | false =>
    have hbusy : ¬ (s.accounts index).connection.Drained := by
      rintro ⟨hcalled | hreturned, -⟩
      · rw [hclose] at hcalled
        cases hcalled
      · rw [hreader] at hreturned
        cases hreturned
    have hprocessor := (hregular.orderly index).processor_running halive hbusy
    by_cases hroom : (s.accounts index).connection.queue.length < limits.maxRequestsPerConnection
    · exact .inl (.enqueue index record halive hreader hclose hprocessor hroom)
    · rw [Nat.not_lt] at hroom
      obtain ⟨request, hrequest⟩ := List.exists_mem_of_length_pos (Nat.lt_of_lt_of_le hlimits hroom)
      exact absurd (.requestQueue index record request halive hreader hclose hroom hrequest) (hfree _)

theorem goes_on_queued (hlimits : 0 < limits.maxRequestsPerConnection) {request : Nat × Bytes}
    (halive : (s.accounts index).connection.Alive) (hmem : request ∈ (s.accounts index).connection.queue)
    (hfree : ∀ q, ¬ s.WaitsFor limits ⟨index, .queued request.1⟩ q) : s.GoesOn limits ⟨index, .queued request.1⟩ := by
  obtain ⟨before, after, hqueue⟩ := List.append_of_mem hmem
  have hfirst : before = [] := by
    refine List.eq_nil_iff_forall_not_mem.mpr fun ahead hahead => ?_
    exact hfree _ (.turn index before after request ahead halive hqueue hahead)
  subst hfirst
  have hbusy : ¬ (s.accounts index).connection.Drained := by
    rintro ⟨-, hempty, -⟩
    rw [hempty] at hmem
    cases hmem
  have hprocessor := (hregular.orderly index).processor_running halive hbusy
  by_cases hroom : (s.accounts index).connection.tasks.length < limits.maxRequestsPerConnection
  · exact .inl (.receive index request.1 request.2 after halive hprocessor hqueue hroom)
  · rw [Nat.not_lt] at hroom
    obtain ⟨task, htask⟩ := List.exists_mem_of_length_pos (Nat.lt_of_lt_of_le hlimits hroom)
    exact absurd (.slot index request task halive hmem hroom htask) (hfree _)

/-- A task at an operation: each but waiting for a duplicate or for a permit is a lock section. -/
theorem goes_on_asking (hshares : limits.Shares) (hmem : task ∈ (s.accounts index).connection.tasks)
    (hasking : task.asking = some op) (hfree : ∀ q, ¬ s.WaitsFor limits ⟨index, .task task.number⟩ q) :
    s.GoesOn limits ⟨index, .task task.number⟩ := by
  have hbooked := (hregular.booked index).tasks task hmem
  rcases (hregular.protocol index).asking hmem hasking with
    ⟨key, fingerprint, rfl⟩ | ⟨receiver, rfl⟩ | ⟨lease, rfl⟩ | ⟨lease, rfl⟩
  · exact .inl (.ask index task _ hmem hasking trivial)
  · have hexpected := hregular.expected hmem hasking
    by_cases halive : (s.accounts index).connection.Alive
    · by_cases hdelivered : ∃ result, (receiver, result) ∈ s.shared.world.deliveries
      · exact .inl (.ask index task _ hmem hasking hdelivered)
      · obtain ⟨lease, hwaits⟩ := hexpected.served.resolve_right hdelivered
        obtain ⟨owner, howner⟩ := hregular.exists_ownsLease hwaits
        exact absurd (.lease index task receiver lease owner halive hmem hasking (not_exists.mp hdelivered) hwaits
          howner) (hfree _)
    · exact .inl (.drop index task halive hmem (.inr (.inr ⟨receiver, hasking, hexpected.known⟩)))
  · by_cases halive : (s.accounts index).connection.Alive
    · by_cases hcovers : limits.requestSlots.Covers (insert (index, task.number) s.executionPermits)
      · exact .inl (.spawn index task lease hmem hasking hcovers)
      · obtain ⟨request, role, howns⟩ := Semaphore.exists_holder hshares.execution hcovers
        exact absurd (.executionPermit index task lease request role halive hmem hasking hcovers howns) (hfree _)
    · have hheld := Task.held_of_asking hbooked hasking (List.mem_singleton_self lease)
      exact .inl (.drop index task halive hmem (.inr (.inl ⟨lease, hasking, hheld⟩)))
  · exact .inl (.ask index task _ hmem hasking (Task.held_of_asking hbooked hasking (List.mem_singleton_self lease)))

theorem goes_on_task (hshares : limits.Shares) (hmem : task ∈ (s.accounts index).connection.tasks)
    (hfree : ∀ q, ¬ s.WaitsFor limits ⟨index, .task task.number⟩ q) : s.GoesOn limits ⟨index, .task task.number⟩ := by
  cases hasking : task.asking with
  | some => exact goes_on_asking hregular hshares hmem hasking hfree
  | none =>
    by_cases halive : (s.accounts index).connection.Alive
    · have htasks : (s.accounts index).connection.tasks ≠ [] := List.ne_nil_of_mem hmem
      have hprocessor := (hregular.orderly index).processor_running halive fun hdrained => htasks hdrained.2.2
      cases hphase : task.phase with
      | reserving =>
        by_cases hcovers : limits.replyBuffers.Covers (insert (index, task.number) s.replyPermits)
        · exact .inl (.start index task hmem hphase hcovers)
        · obtain ⟨request, role, howns⟩ := Semaphore.exists_holder hshares.reply hcovers
          exact absurd (.replyBuffers index task request role halive hmem hphase hcovers howns) (hfree _)
      | handling thread =>
        obtain ⟨history, program⟩ := thread
        cases program with
        | done reply => exact .inl (.answered index task history (.ok reply) hmem hphase)
        | fail error => exact .inl (.answered index task history (.error error) hmem hphase)
        | ask =>
          simp [Task.asking, Thread.asking, hphase] at hasking
      | executing =>
        obtain ⟨execution, hexecution, hnumber⟩ := (hregular.placed index).executing task hmem hphase
        exact absurd (.outcome index task execution halive hmem hphase hexecution hnumber) (hfree _)
      | replying reply =>
        have hwriter := (hregular.orderly index).writer_running halive (.inl htasks)
        by_cases hroom : (s.accounts index).connection.replyQueue.length < limits.maxRequestsPerConnection
        · exact .inl (.reply index task reply halive hmem hphase hwriter hroom)
        · rw [Nat.not_lt] at hroom
          exact absurd (.replyQueue index task reply halive hmem hphase hroom) (hfree _)
      | finished => exact .inl (.join index task halive hprocessor hmem (.inl hphase))
      | failed error => exact .inl (.join index task halive hprocessor hmem (.inr ⟨error, hphase⟩))
    · exact .inl (.drop index task halive hmem (.inl (Task.settled_of_asking hasking)))

theorem goes_on_execution {execution : Execution} (hmem : execution ∈ (s.accounts index).connection.executions) :
    s.GoesOn limits ⟨index, .execution execution.number⟩ := by
  cases hasking : execution.thread.asking with
  | none => exact .inl (.executed index execution hmem hasking)
  | some =>
    have hbooked := (hregular.booked index).executions execution hmem
    obtain ⟨next, hprogram⟩ := Thread.program_of_asking hasking
    rcases (hregular.protocol index).executing hmem hasking with
      ⟨entry, context, method, rfl⟩ | ⟨update, rfl⟩ | ⟨reply, rfl⟩ | rfl
    · exact .inr (.inr (.execution index execution entry context method hmem hasking))
    · exact .inl (.execute index execution _ hmem hasking trivial)
    · refine .inl (.execute index execution _ hmem hasking ?_)
      rcases hbooked _ next hprogram with hheld | ⟨reply', alloc, eligible, hop, hcompleting⟩
      · exact .inl hheld
      · cases hop
        exact .inr ⟨alloc, eligible, hcompleting⟩
    · refine .inl (.execute index execution _ hmem hasking ?_)
      rcases hbooked _ next hprogram with hheld | ⟨reply', alloc, eligible, hop, -⟩
      · exact hheld
      · cases hop

/-- A party that waits for nobody goes on, or is at its socket or at the VFS. -/
theorem goes_on_of_not_waits (hlimits : 0 < limits.maxRequestsPerConnection) (hshares : limits.Shares)
    (hpresent : s.Present p) (hfree : ∀ q, ¬ s.WaitsFor limits p q) : s.GoesOn limits p := by
  cases hpresent with
  | reading _ halive hreader => exact goes_on_reading hshares halive hreader hfree
  | sending _ _ halive hreader => exact goes_on_sending hregular hlimits halive hreader hfree
  | queued _ _ halive hmem => exact goes_on_queued hregular hlimits halive hmem hfree
  | task _ _ hmem => exact goes_on_task hregular hshares hmem hfree
  | execution _ _ hmem => exact goes_on_execution hregular hmem
  | writer index reply halive hmem =>
    have hwriter := (hregular.orderly index).writer_running halive (.inr (List.ne_nil_of_mem hmem))
    exact .inr (.inl (.writer index reply halive hwriter hmem))

end Unblocked

end NfsEmbed.Server
