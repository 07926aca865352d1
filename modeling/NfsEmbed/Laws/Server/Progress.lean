import NfsEmbed.Laws.Server.Waiting

/-!
# Parties that can step

Who needs nothing another party holds has a step of the server, and this step moves it: no permits are
taken but the ones there are (`enabled_of_canStep`). With the ranks of who waits for whom this is the
absence of circular waiting, `waiting_ends`.

The one thing a step may run into is the bounds of the replay cache's counters: that `begin` is called
fewer than 2^64 times, and that the byte limit is not the whole address space.
-/

namespace NfsEmbed.Server

open Lib Rpc Vfs Replay

variable {stage : ReadStage} {before after : List Task} {number : Nat} {record : Bytes} {op : ServerOp}

/-! ## Steps of a party -/

/-- What the party was at, it is at no more. -/
def Role.Moves (shared shared' : Shared) (account account' : Account) : Role → Prop
  | .reader => account'.connection.reader ≠ account.connection.reader ∨ account'.stage ≠ account.stage
  | .queued number => number ∉ account'.connection.queue.map Prod.fst
  | .task number => ∀ task ∈ account.connection.tasks, task.number = number → task ∉ account'.connection.tasks
  | .execution number => (∀ execution ∈ account.connection.executions, execution.number = number →
      execution ∉ account'.connection.executions) ∨ shared'.world.leases ≠ shared.world.leases
  | .writer => account'.connection.replyQueue ≠ account.connection.replyQueue

/-- There is a step of the server, of no deadline, that moves the party. -/
def Enabled (state : ConnectionState) (cache : ReplayCache) (sockets : Nat → Writer) (s : BudgetState) (p : Party) :
    Prop :=
  ∃ s', BudgetStep state cache sockets s (.connection p.index .progress) s' ∧
    p.role.Moves s.shared s'.shared (s.accounts p.index) (s'.accounts p.index)

/-- The counters of the replay cache are at their bounds. -/
def AtBound (cache : ReplayCache) (w : World) : Prop := 2 ^ 64 ≤ w.begins + 1 ∨ usizeMax ≤ cache.maxCompletedBytes

variable {state : ConnectionState} {cache : ReplayCache} {sockets : Nat → Writer} {limits : ServerLimits}
  {s : BudgetState} {index : Nat} {shared' : Shared} {account account' : Account} {connection' : Connection}

/-! ## Permits along a step -/

namespace Account.Within

variable {lively : Prop} {request reply executing : Nat → Prop}

/-- A connection is within any sets of requests that have its own. -/
theorem of_owns (hrequest : ∀ role number, account.OwnsRequestPermits role number → request number)
    (hreply : ∀ role number, account.OwnsReplyPermits role number → reply number)
    (hexecution : ∀ role number, account.OwnsExecutionPermit role number → executing number) :
    account.Within account.connection.Alive request reply executing where
  alive := id
  filling halive length hreader hstage := hrequest _ _ (.filling length halive hreader hstage)
  sending halive record hreader := hrequest _ _ (.sending record halive hreader)
  queue halive _ hmem := hrequest _ _ (.queued _ _ halive hmem)
  tasks task hmem := ⟨fun hphase => hrequest _ _ (.task task hmem hphase), fun hphase => hreply _ _ (.task task hmem hphase)⟩
  executions execution hmem := ⟨hrequest _ _ (.execution execution hmem), hreply _ _ (.execution execution hmem),
    hexecution _ _ (.execution execution hmem)⟩
  replies halive _ hmem := hreply _ _ (.writer _ _ halive hmem)

/-- The reader stays where it is. -/
theorem next (h : account.Within lively request reply executing) : Account.Within
    ⟨account.connection, account.stage.next account.connection.reader account.connection.reader⟩
    lively request reply executing :=
  { h with
    filling := fun halive length hreader hstage => by
      dsimp only at hreader hstage
      rw [hreader] at hstage
      exact h.filling halive length hreader hstage }

end Account.Within

/-- A step of a connection takes no permits but these. -/
theorem budgeted_of_within {requests replies executions : Set (Nat × Nat)} (hrequests : s.requestPermits ⊆ requests)
    (hreplies : s.replyPermits ⊆ replies) (hexecutions : s.executionPermits ⊆ executions)
    (hrequest : limits.requestBuffers.Covers requests) (hreply : limits.replyBuffers.Covers replies)
    (hexecution : limits.requestSlots.Covers executions)
    (hwithin : (s.accounts index).Within (s.accounts index).connection.Alive (fun number => (index, number) ∈ requests)
        (fun number => (index, number) ∈ replies) (fun number => (index, number) ∈ executions) →
      account'.Within (s.accounts index).connection.Alive (fun number => (index, number) ∈ requests)
        (fun number => (index, number) ∈ replies) fun number => (index, number) ∈ executions) (shared' : Shared) :
    BudgetState.Budgeted ⟨shared', Function.update s.accounts index account'⟩ limits :=
  budgeted_update hrequests hreplies hexecutions hrequest hreply hexecution
    (hwithin (.of_owns (fun role _ howns => hrequests ⟨role, howns⟩) (fun role _ howns => hreplies ⟨role, howns⟩)
      fun role _ howns => hexecutions ⟨role, howns⟩)) shared'

/-- A connection owns no permits for requests it had none for. -/
def Account.Keeps (account account' : Account) : Prop :=
  ∀ ⦃lively request reply executing⦄, account.Within lively request reply executing →
    account'.Within lively request reply executing

theorem BudgetState.Budgeted.update (h : s.Budgeted limits) (hkeeps : (s.accounts index).Keeps account')
    (shared' : Shared) : BudgetState.Budgeted ⟨shared', Function.update s.accounts index account'⟩ limits :=
  budgeted_of_within subset_rfl subset_rfl subset_rfl h.request h.reply h.execution (fun hwithin => hkeeps hwithin) shared'

/-- A task goes on, with no more permits. -/
theorem Account.Keeps.task {phase phase' : TaskPhase}
    (htasks : account.connection.tasks = before ++ ⟨number, record, phase⟩ :: after)
    (hrequest : phase'.OwnsRequestPermits → phase.OwnsRequestPermits)
    (hreply : phase'.OwnsReplyPermits → phase.OwnsReplyPermits) :
    account.Keeps ⟨{ account.connection with tasks := before ++ ⟨number, record, phase'⟩ :: after },
      account.stage.next account.connection.reader account.connection.reader⟩ := fun _ _ _ _ h =>
  { h.next with
    alive := fun halive => h.alive ⟨halive.reader, halive.processor, halive.writer⟩
    tasks := forall_mem_replace h.tasks htasks fun hold => ⟨hold.1 ∘ hrequest, hold.2 ∘ hreply⟩ }

/-- A task ends. -/
theorem Account.Keeps.remove {task : Task} (htasks : account.connection.tasks = before ++ task :: after)
    {processor : Progress}
    (hprocessor : ∀ error, account.connection.processor = .failed error → ∃ error', processor = .failed error') :
    account.Keeps ⟨{ account.connection with tasks := before ++ after, processor },
      account.stage.next account.connection.reader account.connection.reader⟩ := fun _ _ _ _ h =>
  { h.next with
    alive := fun halive => h.alive ⟨halive.reader, fun error hfailed =>
      have ⟨error', hfailed⟩ := hprocessor error hfailed
      halive.processor error' hfailed, halive.writer⟩
    tasks := (forall_mem_remove h.tasks htasks).2 }

/-- The reply of a task is queued, with the permits of the task. -/
theorem Account.Keeps.queueReply {reply : EncodedReply}
    (htasks : account.connection.tasks = before ++ ⟨number, record, .replying reply⟩ :: after) :
    account.Keeps ⟨{ account.connection with
        tasks := before ++ ⟨number, record, .finished⟩ :: after
        replyQueue := account.connection.replyQueue ++ [(number, reply)] },
      account.stage.next account.connection.reader account.connection.reader⟩ := fun _ _ _ _ h =>
  { h.next with
    alive := fun halive => h.alive ⟨halive.reader, halive.processor, halive.writer⟩
    tasks := forall_mem_replace h.tasks htasks fun _ => ⟨False.elim, False.elim⟩
    replies := fun halive => List.forall_mem_append.mpr
      ⟨h.replies halive, List.forall_mem_singleton.mpr ((forall_mem_remove h.tasks htasks).1.2 trivial)⟩ }

/-- The reader hands its record over. -/
theorem Account.Keeps.enqueue (halive : account.connection.Alive)
    (hreader : account.connection.reader = .sending record) : account.Keeps ⟨{ account.connection with
        reader := .reading
        queued := account.connection.queued ++ [record]
        queue := account.connection.queue ++ [(account.connection.queued.length, record)] },
      account.stage.next account.connection.reader .reading⟩ := fun _ _ _ _ h =>
  { h with
    alive := fun _ => h.alive halive
    filling := by
      rw [hreader]
      exact nofun
    sending := nofun
    queue := fun halive => List.forall_mem_append.mpr
      ⟨h.queue halive, List.forall_mem_singleton.mpr (h.sending halive record hreader)⟩ }

theorem Account.Keeps.returned (halive : account.connection.Alive) (stage : ReadStage) :
    account.Keeps ⟨{ account.connection with reader := .returned }, stage⟩ := fun _ _ _ _ h =>
  { h with
    alive := fun _ => h.alive halive
    filling := nofun
    sending := nofun }

/-- A queued request becomes a task. -/
theorem Account.Keeps.receive {rest : List (Nat × Bytes)} (halive : account.connection.Alive)
    (hqueue : account.connection.queue = (number, record) :: rest) : account.Keeps ⟨{ account.connection with
        queue := rest
        tasks := account.connection.tasks ++ [⟨number, record, .reserving⟩] },
      account.stage.next account.connection.reader account.connection.reader⟩ := fun _ _ _ _ h => by
  have hwaiting := h.queue (h.alive halive)
  rw [hqueue, List.forall_mem_cons] at hwaiting
  exact { h.next with
    alive := fun _ => h.alive halive
    queue := fun _ => hwaiting.2
    tasks := List.forall_mem_append.mpr
      ⟨h.tasks, List.forall_mem_singleton.mpr ⟨fun _ => hwaiting.1, False.elim⟩⟩ }

/-- One execution goes on. -/
theorem Account.Keeps.execute {before after : List Execution} {lease : ReplayEntryKey} {thread thread' : Thread}
    (hexecutions : account.connection.executions = before ++ ⟨number, record, lease, thread⟩ :: after) :
    account.Keeps ⟨{ account.connection with executions := before ++ ⟨number, record, lease, thread'⟩ :: after },
      account.stage.next account.connection.reader account.connection.reader⟩ := fun _ _ _ _ h =>
  { h.next with
    alive := fun halive => h.alive ⟨halive.reader, halive.processor, halive.writer⟩
    executions := forall_mem_replace h.executions hexecutions id }

/-- One execution ends, and its task takes over the permits. -/
theorem Account.Keeps.resume {before after : List Execution} {execution : Execution}
    (hexecutions : account.connection.executions = before ++ execution :: after) (thread : Thread) :
    account.Keeps ⟨{ account.connection with
        executions := before ++ after
        tasks := account.connection.tasks.map (Task.resume execution.number thread) },
      account.stage.next account.connection.reader account.connection.reader⟩ := fun _ _ _ _ h => by
  obtain ⟨⟨hrequest, hreply, -⟩, hothers⟩ := forall_mem_remove h.executions hexecutions
  refine { h.next with
    alive := fun halive => h.alive ⟨halive.reader, halive.processor, halive.writer⟩
    executions := hothers
    tasks := List.forall_mem_map.mpr fun task hmem => ?_ }
  by_cases hnumber : task.number = execution.number
  · rw [Task.number_resume, hnumber]
    exact ⟨fun _ => hrequest, fun _ => hreply⟩
  · rw [Task.resume_of_ne hnumber]
    exact h.tasks task hmem

/-! ## Moving -/

/-- What was removed and is not among the new ones is gone. -/
theorem notMem_of_replaced {α : Type} {a : α} {before after new : List α} (hgone : a ∉ before ++ after) (hnew : a ∉ new) :
    a ∉ before ++ (new ++ after) := by
  rw [List.mem_append, not_or] at hgone
  rw [List.mem_append, List.mem_append, not_or, not_or]
  exact ⟨hgone.1, hnew, hgone.2⟩

/-- The task of a number is replaced, or gone. -/
theorem moves_task (hplaced : Placed account.connection) {task : Task} (tasks : List Task)
    (htasks : account.connection.tasks = before ++ task :: after) (hnew : task ∉ tasks)
    (hconnection : account'.connection.tasks = before ++ (tasks ++ after)) :
    (Role.task task.number).Moves s.shared shared' account account' := by
  intro other hother hnumber hmem
  have hsame := hplaced.eq_of_number hother (htasks ▸ List.mem_append_right _ List.mem_cons_self) hnumber
  subst hsame
  rw [hconnection] at hmem
  have hgone : other ∉ before ++ after := fun hrest => hplaced.number_ne htasks other hrest rfl
  exact notMem_of_replaced hgone hnew hmem

theorem moves_execution (hplaced : Placed account.connection) {before after : List Execution}
    {execution : Execution} (executions : List Execution)
    (hexecutions : account.connection.executions = before ++ execution :: after)
    (hnew : execution ∉ executions)
    (hconnection : account'.connection.executions = before ++ (executions ++ after)) :
    (Role.execution execution.number).Moves s.shared shared' account account' := by
  refine .inl fun other hother hnumber hmem => ?_
  have hsame := List.inj_on_of_nodup_map hplaced.executions hother
    (hexecutions ▸ List.mem_append_right _ List.mem_cons_self) hnumber
  subst hsame
  rw [hconnection] at hmem
  have hgone : other ∉ before ++ after := by
    have hnodup := hplaced.executions.of_map
    rw [hexecutions, List.nodup_middle, List.nodup_cons] at hnodup
    exact hnodup.1
  exact notMem_of_replaced hgone hnew hmem

/-- A step of a connection that leaves its reader alone, or ends it. -/
theorem enabled_of_step {role : Role}
    (hstep : ConnectionStep state cache (sockets index) s.shared (s.accounts index).connection .progress shared' connection')
    (hread : connection'.reader = (s.accounts index).connection.reader ∨ ∀ record, connection'.reader ≠ .sending record)
    (hbudgeted : BudgetState.Budgeted ⟨shared', Function.update s.accounts index
      ⟨connection', (s.accounts index).stage.next (s.accounts index).connection.reader connection'.reader⟩⟩ state.limits)
    (hmoves : role.Moves s.shared shared' (s.accounts index)
      ⟨connection', (s.accounts index).stage.next (s.accounts index).connection.reader connection'.reader⟩) :
    Enabled state cache sockets s ⟨index, role⟩ := by
  refine ⟨_, .account s index .progress shared' _ (.connection _ _ connection' hstep ?_) hbudgeted, ?_⟩
  · intro record hreading hsending
    rcases hread with hsame | hnot
    · cases hreading.symm.trans (hsame.symm.trans hsending)
    · exact absurd hsending (hnot record)
  · dsimp only
    rw [Function.update_self]
    exact hmoves

/-! ## Readers and the queue -/

section Enabled

variable (hregular : Regular state.limits s)

include hregular

theorem enabled_reserve (halive : (s.accounts index).connection.Alive)
    (hreader : (s.accounts index).connection.reader = .reading) (hstage : (s.accounts index).stage = .reserving)
    (hcovers : state.limits.requestBuffers.Covers
      (insert (index, (s.accounts index).connection.queued.length) s.requestPermits)) :
    Enabled state cache sockets s ⟨index, .reader⟩ := by
  obtain ⟨-, hreply, hexecution⟩ := hregular.budgeted
  -- the reader takes the permits it waits for
  refine ⟨_, .account s index .progress s.shared _ (.reserve halive hreader hstage) (budgeted_of_within
    (Set.subset_insert _ _) subset_rfl subset_rfl hcovers hreply hexecution (fun h => ?_) _), .inr ?_⟩
  · exact { h with filling := fun _ _ _ _ => Set.mem_insert _ _ }
  · dsimp only
    rw [Function.update_self, hstage]
    exact nofun

theorem enabled_enqueue (halive : (s.accounts index).connection.Alive)
    (hreader : (s.accounts index).connection.reader = .sending record)
    (hclose : (s.accounts index).connection.closeCalled = false)
    (hprocessor : (s.accounts index).connection.processor = .running)
    (hroom : (s.accounts index).connection.queue.length < state.limits.maxRequestsPerConnection) :
    Enabled state cache sockets s ⟨index, .reader⟩ := by
  refine enabled_of_step (.enqueue record halive hreader hclose hprocessor hroom) (.inr nofun)
    (hregular.budgeted.update (.enqueue halive hreader) _) (.inl ?_)
  rw [hreader]
  exact nofun

theorem enabled_sendEnds (halive : (s.accounts index).connection.Alive)
    (hreader : (s.accounts index).connection.reader = .sending record)
    (hclose : (s.accounts index).connection.closeCalled = true) : Enabled state cache sockets s ⟨index, .reader⟩ := by
  refine enabled_of_step (.sendEnds record halive hreader (.inr hclose)) (.inr nofun)
    (hregular.budgeted.update (.returned halive _) _) (.inl ?_)
  rw [hreader]
  exact nofun

theorem enabled_receive {rest : List (Nat × Bytes)} (halive : (s.accounts index).connection.Alive)
    (hprocessor : (s.accounts index).connection.processor = .running)
    (hqueue : (s.accounts index).connection.queue = (number, record) :: rest)
    (hroom : (s.accounts index).connection.tasks.length < state.limits.maxRequestsPerConnection) :
    Enabled state cache sockets s ⟨index, .queued number⟩ := by
  refine enabled_of_step (.receive number record rest halive hprocessor hqueue hroom) (.inl rfl)
    (hregular.budgeted.update (.receive halive hqueue) _) ?_
  have hnodup := (List.nodup_append.mp (hregular.placed index).waiting).1
  rw [hqueue, List.map_cons, List.nodup_cons] at hnodup
  exact hnodup.1

end Enabled

/-! ## Tasks -/

theorem Task.phase_of_asking {task : Task} (h : task.asking = some op) :
    ∃ history next, task.phase = .handling ⟨history, Prog.ask (S := serverSignature) op next⟩ := by
  unfold Task.asking at h
  split at h
  next thread hphase =>
    obtain ⟨next, hprogram⟩ := Thread.program_of_asking h
    refine ⟨thread.history, next, ?_⟩
    rw [hphase, ← hprogram]
  next => cases h

/-- What a program asks for is answered, but for the first lock section of `complete`. -/
theorem Shared.Ready.served {shared : Shared} (h : shared.Ready op) (cache : ReplayCache) :
    (∃ answer shared', Served cache shared op answer shared') ∨
      (∃ lease reply, op = .complete lease reply ∧ shared.world.leases.lookup lease = some .held) ∨
      AtBound cache shared.world := by
  cases op with
  | vfs | spawn => exact h.elim
  | mounts update => exact .inl ⟨_, _, .mounts update⟩
  | begin key fingerprint =>
    by_cases hbegins : shared.world.begins + 1 < 2 ^ 64
    · exact .inl ⟨_, _, .begin 0 key fingerprint (Nat.zero_le _) hbegins⟩
    · exact .inr (.inr (.inl (Nat.not_lt.mp hbegins)))
  | wait receiver =>
    obtain ⟨result, hresult⟩ := h
    exact .inl ⟨_, _, .received receiver result hresult⟩
  | cancel lease => exact .inl ⟨_, _, .cancel lease h⟩
  | complete lease reply =>
    rcases h with hheld | ⟨alloc, eligible, hcompleting⟩
    · exact .inr (.inl ⟨lease, reply, rfl, hheld⟩)
    · by_cases hbytes : cache.maxCompletedBytes < usizeMax
      · exact .inl ⟨_, _, .complete lease reply alloc eligible hcompleting (.inl hbytes)⟩
      · exact .inr (.inr (.inr (Nat.not_lt.mp hbytes)))

section Enabled

variable (hregular : Regular state.limits s)

include hregular

theorem enabled_start {task : Task} (hmem : task ∈ (s.accounts index).connection.tasks) (hphase : task.phase = .reserving)
    (hcovers : state.limits.replyBuffers.Covers (insert (index, task.number) s.replyPermits)) :
    Enabled state cache sockets s ⟨index, .task task.number⟩ := by
  obtain ⟨number, record, phase⟩ := task
  subst hphase
  obtain ⟨before, after, htasks⟩ := List.append_of_mem hmem
  obtain ⟨hrequest, -, hexecution⟩ := hregular.budgeted
  refine enabled_of_step (.start before after number record htasks) (.inl rfl)
    (budgeted_of_within subset_rfl (Set.subset_insert _ _) subset_rfl hrequest hcovers hexecution (fun h => ?_) _) ?_
  · exact { h.next with
      alive := fun halive => h.alive ⟨halive.reader, halive.processor, halive.writer⟩
      tasks := forall_mem_replace h.tasks htasks fun hold => ⟨fun _ => hold.1 trivial, fun _ => Set.mem_insert _ _⟩ }
  exact moves_task (hregular.placed index) [_] htasks (by simp) rfl

theorem enabled_spawn {task : Task} {lease : ReplayEntryKey} (hmem : task ∈ (s.accounts index).connection.tasks)
    (hasking : task.asking = some (.spawn lease))
    (hcovers : state.limits.requestSlots.Covers (insert (index, task.number) s.executionPermits)) :
    Enabled state cache sockets s ⟨index, .task task.number⟩ := by
  obtain ⟨history, next, hphase⟩ := Task.phase_of_asking hasking
  obtain ⟨number, record, phase⟩ := task
  subst hphase
  obtain ⟨before, after, htasks⟩ := List.append_of_mem hmem
  obtain ⟨stage, -, hfollows, hspawned⟩ := (hregular.protocol index).tasks _ hmem
  have hnot : ¬ Thread.Spawned ⟨history, Prog.ask (S := serverSignature) (.spawn lease) next⟩ := by
    intro hold
    have hallows := hfollows.1
    rw [hspawned hold] at hallows
    exact hallows
  obtain ⟨hrequest, hreply, -⟩ := hregular.budgeted
  refine enabled_of_step (.spawn before after number record history lease next htasks) (.inl rfl)
    (budgeted_of_within subset_rfl subset_rfl (Set.subset_insert _ _) hrequest hreply hcovers (fun h => ?_) _) ?_
  · -- the task hands its permits to its execution
    have ⟨hmine, hreplying⟩ := h.tasks _ hmem
    exact { h.next with
      alive := fun halive => h.alive ⟨halive.reader, halive.processor, halive.writer⟩
      tasks := forall_mem_replace h.tasks htasks fun hold => ⟨False.elim, fun _ => hold.2 trivial⟩
      executions := List.forall_mem_append.mpr ⟨h.executions,
        List.forall_mem_singleton.mpr ⟨hmine hnot, hreplying trivial, Set.mem_insert _ _⟩⟩ }
  exact moves_task (hregular.placed index) [_] htasks (by simp) rfl

theorem enabled_ask {task : Task} (hmem : task ∈ (s.accounts index).connection.tasks)
    (hasking : task.asking = some op) (hready : s.shared.Ready op) :
    Enabled state cache sockets s ⟨index, .task task.number⟩ ∨ AtBound cache s.shared.world := by
  obtain ⟨history, next, hphase⟩ := Task.phase_of_asking hasking
  rcases hready.served cache with ⟨answer, shared', hserved⟩ | ⟨lease, reply, rfl, -⟩ | hbound
  · left
    obtain ⟨number, record, phase⟩ := task
    subst hphase
    obtain ⟨before, after, htasks⟩ := List.append_of_mem hmem
    refine enabled_of_step (.ask before after number record history op next answer shared' htasks hserved) (.inl rfl)
      (hregular.budgeted.update (.task htasks ?_ fun _ => trivial) _) ?_
    · rintro hnot ⟨lease, hspawned⟩
      exact hnot ⟨lease, List.mem_append_left _ hspawned⟩
    · exact moves_task (hregular.placed index) [_] htasks (by simp) rfl
  · -- a task does not complete a lease
    rcases (hregular.protocol index).asking hmem hasking with ⟨_, _, h⟩ | ⟨_, h⟩ | ⟨_, h⟩ | ⟨_, h⟩ <;> cases h
  · exact .inr hbound

theorem enabled_answered {task : Task} {history : Dialogue} {outcome : Except ServerError EncodedReply}
    (hmem : task ∈ (s.accounts index).connection.tasks)
    (hphase : task.phase = .handling ⟨history, Prog.ofExcept outcome⟩) :
    Enabled state cache sockets s ⟨index, .task task.number⟩ := by
  obtain ⟨number, record, phase⟩ := task
  subst hphase
  obtain ⟨before, after, htasks⟩ := List.append_of_mem hmem
  cases outcome with
  | ok reply =>
    refine enabled_of_step (.handled before after number record history reply htasks) (.inl rfl)
      (hregular.budgeted.update (.task htasks False.elim fun _ => trivial) _) ?_
    exact moves_task (hregular.placed index) [_] htasks (by simp) rfl
  | error error =>
    refine enabled_of_step (.rejected before after number record history error htasks) (.inl rfl)
      (hregular.budgeted.update (.task htasks False.elim fun _ => trivial) _) ?_
    exact moves_task (hregular.placed index) [_] htasks (by simp) rfl

theorem enabled_reply {task : Task} {reply : EncodedReply} (halive : (s.accounts index).connection.Alive)
    (hmem : task ∈ (s.accounts index).connection.tasks) (hphase : task.phase = .replying reply)
    (hwriter : (s.accounts index).connection.writer = .running)
    (hroom : (s.accounts index).connection.replyQueue.length < state.limits.maxRequestsPerConnection) :
    Enabled state cache sockets s ⟨index, .task task.number⟩ := by
  obtain ⟨number, record, phase⟩ := task
  subst hphase
  obtain ⟨before, after, htasks⟩ := List.append_of_mem hmem
  refine enabled_of_step (.reply before after number record reply halive htasks hwriter (Nat.le_of_lt hroom)) (.inl rfl)
    (hregular.budgeted.update (.queueReply htasks) _) ?_
  exact moves_task (hregular.placed index) [_] htasks (by simp) rfl

theorem enabled_join {task : Task} (halive : (s.accounts index).connection.Alive)
    (hprocessor : (s.accounts index).connection.processor = .running)
    (hmem : task ∈ (s.accounts index).connection.tasks)
    (hphase : task.phase = .finished ∨ ∃ error, task.phase = .failed error) :
    Enabled state cache sockets s ⟨index, .task task.number⟩ := by
  obtain ⟨number, record, phase⟩ := task
  obtain ⟨before, after, htasks⟩ := List.append_of_mem hmem
  have hmoves : ∀ shared' account', account'.connection.tasks = before ++ ([] ++ after) →
      (Role.task number).Moves s.shared shared' (s.accounts index) account' := fun _ _ hconnection =>
    moves_task (hregular.placed index) [] htasks List.not_mem_nil hconnection
  rcases hphase with hphase | ⟨error, hphase⟩
  · cases hphase
    exact enabled_of_step (.join before after number record halive hprocessor htasks) (.inl rfl)
      (hregular.budgeted.update (.remove htasks fun error hfailed => ⟨error, hfailed⟩) _) (hmoves _ _ rfl)
  · cases hphase
    exact enabled_of_step (.joinFailed before after number record error halive hprocessor htasks) (.inl rfl)
      (hregular.budgeted.update (.remove htasks fun _ _ => ⟨error, rfl⟩) _) (hmoves _ _ rfl)

theorem enabled_drop {task : Task} (halive : ¬ (s.accounts index).connection.Alive)
    (hmem : task ∈ (s.accounts index).connection.tasks)
    (hrest : task.phase.Settled ∨
      (∃ lease, task.asking = some (.spawn lease) ∧ s.shared.world.leases.lookup lease = some .held) ∨
      ∃ receiver, task.asking = some (.wait receiver) ∧ receiver < s.shared.world.channels) :
    Enabled state cache sockets s ⟨index, .task task.number⟩ := by
  obtain ⟨before, after, htasks⟩ := List.append_of_mem hmem
  have hkeeps : (s.accounts index).Keeps ⟨{ (s.accounts index).connection with tasks := before ++ after },
      (s.accounts index).stage.next (s.accounts index).connection.reader (s.accounts index).connection.reader⟩ :=
    .remove htasks fun error hfailed => ⟨error, hfailed⟩
  have hmoves : ∀ shared' account', account'.connection.tasks = before ++ ([] ++ after) →
      (Role.task task.number).Moves s.shared shared' (s.accounts index) account' := fun _ _ hconnection =>
    moves_task (hregular.placed index) [] htasks List.not_mem_nil hconnection
  rcases hrest with hsettled | ⟨lease, hasking, hheld⟩ | ⟨receiver, hasking, hknown⟩
  · exact enabled_of_step (.dropTask before after task halive htasks hsettled) (.inl rfl)
      (hregular.budgeted.update hkeeps _) (hmoves _ _ rfl)
  · obtain ⟨history, next, hphase⟩ := Task.phase_of_asking hasking
    obtain ⟨number, record, phase⟩ := task
    subst hphase
    exact enabled_of_step (.dropLease before after number record history lease next halive htasks hheld) (.inl rfl)
      (hregular.budgeted.update hkeeps _) (hmoves _ _ rfl)
  · obtain ⟨history, next, hphase⟩ := Task.phase_of_asking hasking
    obtain ⟨number, record, phase⟩ := task
    subst hphase
    exact enabled_of_step (.dropReceiver before after number record history receiver next halive htasks hknown) (.inl rfl)
      (hregular.budgeted.update hkeeps _) (hmoves _ _ rfl)

/-! ## Executions -/

theorem enabled_execute {execution : Execution} (hmem : execution ∈ (s.accounts index).connection.executions)
    (hasking : execution.thread.asking = some op) (hready : s.shared.Ready op) :
    Enabled state cache sockets s ⟨index, .execution execution.number⟩ ∨ AtBound cache s.shared.world := by
  obtain ⟨next, hprogram⟩ := Thread.program_of_asking hasking
  obtain ⟨number, record, lease, history, program⟩ := execution
  subst hprogram
  obtain ⟨before, after, hexecutions⟩ := List.append_of_mem hmem
  rcases hready.served cache with ⟨answer, shared', hserved⟩ | ⟨completed, reply, rfl, hheld⟩ | hbound
  · left
    refine enabled_of_step (.execute before after number record lease history op next answer shared' hexecutions hserved)
      (.inl rfl) (hregular.budgeted.update (.execute hexecutions) _) ?_
    exact moves_execution (hregular.placed index) [_] hexecutions (by simp) rfl
  · left
    refine enabled_of_step (.prepare before after number record lease history completed reply next
      ⟨id, Nat.le_refl⟩ hexecutions hheld) (.inl rfl) (hregular.budgeted.update (fun _ _ _ _ h => h.next) _) (.inr fun hsame => ?_)
    have hlookup := congrArg (AList.lookup completed) hsame
    rw [hheld] at hlookup
    change AList.lookup completed (AList.insert _ _ _) = _ at hlookup
    rw [AList.lookup_insert] at hlookup
    cases hlookup
  · exact .inr hbound

theorem enabled_executed {execution : Execution} (hmem : execution ∈ (s.accounts index).connection.executions)
    (hasking : execution.thread.asking = none) :
    Enabled state cache sockets s ⟨index, .execution execution.number⟩ := by
  obtain ⟨number, record, lease, history, program⟩ := execution
  obtain ⟨outcome, rfl⟩ : ∃ outcome, program = Prog.ofExcept outcome := by
    cases program with
    | done reply => exact ⟨.ok reply, rfl⟩
    | fail error => exact ⟨.error error, rfl⟩
    | ask => cases hasking
  obtain ⟨before, after, hexecutions⟩ := List.append_of_mem hmem
  refine enabled_of_step (.executed before after number record lease history outcome hexecutions) (.inl rfl)
    (hregular.budgeted.update (.resume hexecutions _) _) ?_
  exact moves_execution (hregular.placed index) [] hexecutions List.not_mem_nil rfl

/-- Who can step has a step of the server. -/
theorem enabled_of_canStep {p : Party} (h : s.CanStep state.limits p) :
    Enabled state cache sockets s p ∨ AtBound cache s.shared.world := by
  cases h with
  | reserve _ halive hreader hstage hcovers => exact .inl (enabled_reserve hregular halive hreader hstage hcovers)
  | enqueue _ _ halive hreader hclose hprocessor hroom =>
    exact .inl (enabled_enqueue hregular halive hreader hclose hprocessor hroom)
  | sendEnds _ _ halive hreader hclose => exact .inl (enabled_sendEnds hregular halive hreader hclose)
  | receive _ _ _ _ halive hprocessor hqueue hroom =>
    exact .inl (enabled_receive hregular halive hprocessor hqueue hroom)
  | start _ _ hmem hphase hcovers => exact .inl (enabled_start hregular hmem hphase hcovers)
  | ask _ _ _ hmem hasking hready => exact enabled_ask hregular hmem hasking hready
  | spawn _ _ _ hmem hasking hcovers => exact .inl (enabled_spawn hregular hmem hasking hcovers)
  | answered _ _ _ _ hmem hphase => exact .inl (enabled_answered hregular hmem hphase)
  | reply _ _ _ halive hmem hphase hwriter hroom =>
    exact .inl (enabled_reply hregular halive hmem hphase hwriter hroom)
  | join _ _ halive hprocessor hmem hphase => exact .inl (enabled_join hregular halive hprocessor hmem hphase)
  | drop _ _ halive hmem hrest => exact .inl (enabled_drop hregular halive hmem hrest)
  | execute _ _ _ hmem hasking hready => exact enabled_execute hregular hmem hasking hready
  | executed _ _ hmem hasking => exact .inl (enabled_executed hregular hmem hasking)

end Enabled

/-! ## No circular waiting -/

/-- In every state of the server nobody waits for itself, and whoever follows the parties that hold what
they wait for comes to one that can step, or that is at its socket or at the VFS. -/
theorem waiting_ends (state : ConnectionState) (hlimits : state.limits.validate = .ok ()) (cache : ReplayCache)
    (sockets : Nat → Writer) (s : BudgetState) (h : (budgetMachine state cache sockets).Reachable s) :
    (∀ p, ¬ Relation.TransGen (s.WaitsFor state.limits) p p) ∧
    (WellFounded fun q p => s.WaitsFor state.limits p q) ∧
    (∀ p q, s.WaitsFor state.limits p q → s.Present q) ∧
    (∀ p, s.Present p → (∀ q, ¬ s.WaitsFor state.limits p q) → s.GoesOn state.limits p) ∧
    (∀ p, s.Present p → ∃ q, Relation.ReflTransGen (s.WaitsFor state.limits) p q ∧ s.GoesOn state.limits q) ∧
    ∀ p, s.CanStep state.limits p → Enabled state cache sockets s p ∨ AtBound cache s.shared.world := by
  have husable := ServerLimits.usable_of_validate hlimits
  have hregular := regular_of_reachable h
  have hrank := rank_lt_of_waitsFor hregular
  have hends : ∀ p, s.Present p → (∀ q, ¬ s.WaitsFor state.limits p q) → s.GoesOn state.limits p := fun p =>
    goes_on_of_not_waits hregular husable.requests (ServerLimits.shares_of_validate hlimits)
  refine ⟨not_transGen_self_of_rank hrank, wellFounded_of_rank hrank, fun p q => present_of_waitsFor husable.requests,
    hends, fun p hpresent => ?_, fun p => enabled_of_canStep hregular⟩
  obtain ⟨q, hpath, hq, hfree⟩ := exists_reflTransGen_end (wellFounded_of_rank hrank)
    (fun p q _ => present_of_waitsFor husable.requests) p hpresent
  exact ⟨q, hpath, hends q hq hfree⟩

/-- A reader waits for the permits of an execution of its own connection, which can step. -/
theorem waiting_ends_executing : ∃ s : BudgetState, (budgetMachine tightState Sample.cache sampleSockets).Reachable s ∧
    s.WaitsFor tightState.limits ⟨0, .reader⟩ ⟨0, .execution 0⟩ ∧
    (∀ p, ¬ Relation.TransGen (s.WaitsFor tightState.limits) p p) ∧
    ∃ q, Relation.ReflTransGen (s.WaitsFor tightState.limits) ⟨0, .reader⟩ q ∧ s.GoesOn tightState.limits q := by
  let execution : Execution := ⟨0, nullCall, nullLease, ⟨nullHistory,
    Prog.ask (S := serverSignature) (.complete nullLease nullReply) fun _ => .done nullReply⟩⟩
  let executing : Connection := nullConnection .executing [execution]
  have halive : executing.Alive := .of_running nofun rfl rfl
  have hsingle : Account.Single 0 ⟨executing, .reserving⟩ :=
    .first (.inr ⟨nofun, nofun⟩) nofun (List.forall_mem_singleton.mpr rfl) (List.forall_mem_singleton.mpr rfl) rfl
  have hreserving : Reaches begun ⟨executing, .reserving⟩ :=
    Reaches.executing.step (.header halive rfl rfl (by decide)) hsingle
  have haccount : Function.update tightStart.accounts 0 ⟨executing, .reserving⟩ 0 = ⟨executing, .reserving⟩ :=
    Function.update_self 0 _ _
  have hwaits : BudgetState.WaitsFor tightState.limits
      ⟨begun, Function.update tightStart.accounts 0 ⟨executing, .reserving⟩⟩ ⟨0, .reader⟩ ⟨0, .execution 0⟩ := by
    have howns : Account.OwnsRequestPermits ⟨executing, .reserving⟩ (.execution 0) 0 :=
      .execution execution (List.mem_singleton_self _)
    rw [← haccount] at howns
    refine .requestBuffers 0 (0, 0) (.execution 0) (haccount ▸ halive) (haccount ▸ rfl) (haccount ▸ rfl) ?_ howns
    -- there are 600 permits, and either of the two needs them all
    intro hcovers
    have hcard := hcovers {(0, 1), (0, 0)} ?_
    · revert hcard
      decide
    · intro request hrequest
      rw [Finset.mem_coe, Finset.mem_insert, Finset.mem_singleton] at hrequest
      rcases hrequest with rfl | rfl
      · dsimp only
        rw [haccount]
        exact Set.mem_insert _ _
      · exact .inr ⟨.execution 0, howns⟩
  obtain ⟨hacyclic, -, -, -, hends, -⟩ :=
    waiting_ends tightState validate_tightLimits Sample.cache sampleSockets _ hreserving
  exact ⟨_, hreserving, hwaits, hacyclic, hends _ (.reading 0 (haccount ▸ halive) (haccount ▸ rfl))⟩

end NfsEmbed.Server
