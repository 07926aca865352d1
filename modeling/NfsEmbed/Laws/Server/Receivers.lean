import NfsEmbed.Laws.Server.Leases

/-!
# What a duplicate waits for

A task that was told to wait has a receiver of its own, which it does not drop before its program goes
on. So as long as it waits, its sender is in the entry of an unresolved lease, or it has got a result
(`Expected`): the lease of the request it duplicates does not go away without it.
-/

namespace NfsEmbed.Server

open Lib Rpc Vfs Replay
open Prog (Follows)

/-! ## The cache -/

/-- Somebody listens, and has got a result or is to get one. -/
structure Expected (w : World) (receiver : Channel) : Prop where
  known : receiver < w.channels
  listens : receiver ∉ w.closed
  served : (∃ lease, w.WaitsOn receiver lease) ∨ ∃ result, (receiver, result) ∈ w.deliveries

section Cache

variable {cache : ReplayCache} {w w' : World} {e : Event} {receiver : Channel}

theorem Expected.step (h : Expected w receiver) (hstep : WaiterStep w e w') (hlistens : receiver ∉ w'.closed) :
    Expected w' receiver := by
  cases hstep with
  | quiet _ _ hdeliveries _ hchannels hwaiters =>
    refine ⟨Nat.lt_of_lt_of_le h.known hchannels, hlistens, ?_⟩
    rcases h.served with ⟨lease, waiters, hentry, hmem⟩ | ⟨result, hresult⟩
    · refine .inl ⟨lease, ?_⟩
      rcases hwaiters lease with hsame | ⟨before, hbefore, -, hafter⟩ | ⟨-, hnone⟩
      · exact ⟨waiters, hsame.trans hentry, hmem⟩
      · cases hbefore.symm.trans hentry
        refine ⟨_, hafter, List.mem_append_left _ (List.mem_filter.mpr ⟨hmem, ?_⟩)⟩
        simpa using h.listens
      · rw [hentry] at hnone
        cases hnone
    · exact .inr ⟨result, hdeliveries ▸ hresult⟩
  | resolve lease result _ _ hresolved _ hdeliveries _ hchannels hwaiters =>
    refine ⟨hchannels ▸ h.known, hlistens, ?_⟩
    rcases h.served with ⟨lease', waiters', hentry, hmem⟩ | ⟨result', hresult⟩
    · by_cases hlease : lease' = lease
      · -- its own lease is resolved
        subst hlease
        cases hresolved.symm.trans hentry
        refine .inr ⟨result, ?_⟩
        rw [hdeliveries]
        refine List.mem_append_right _ (List.mem_filter.mpr ⟨List.mem_map_of_mem hmem, ?_⟩)
        simpa using h.listens
      · refine .inl ⟨lease', waiters', ?_, hmem⟩
        rw [hwaiters, if_neg hlease]
        exact hentry
    · exact .inr ⟨result', hdeliveries ▸ List.mem_append_left _ hresult⟩

/-- Receivers are closed by nothing else. -/
theorem closed_of_step (hstep : Step cache w e w') (hclose : ∀ other, e ≠ .close other) : w'.closed = w.closed := by
  cases hstep with
  | begin | prepare | store | cancel | drop | tick => rfl
  | close other => exact absurd rfl (hclose other)

theorem channels_le_of_step (hsound : Sound cache w) (hstep : Step cache w e w') : w.channels ≤ w'.channels := by
  cases waiterStep hsound hstep with
  | quiet _ _ _ _ hchannels => exact hchannels
  | resolve _ _ _ _ _ _ _ _ hchannels => exact Nat.le_of_eq hchannels.symm

end Cache

/-- What is expected stays so, and no receiver is closed. -/
structure Attends (w w' : World) : Prop where
  expected : ∀ receiver, Expected w receiver → Expected w' receiver
  closed : w'.closed = w.closed
  channels : w.channels ≤ w'.channels

theorem Attends.refl (w : World) : Attends w w := ⟨fun _ => id, rfl, Nat.le_refl _⟩

theorem Attends.of_step {cache : ReplayCache} {w w' : World} {e : Event} (hsound : Sound cache w)
    (hstep : Step cache w e w') (hclose : ∀ other, e ≠ .close other) : Attends w w' := by
  have hclosed := closed_of_step hstep hclose
  refine ⟨fun receiver h => h.step (waiterStep hsound hstep) ?_, hclosed, channels_le_of_step hsound hstep⟩
  rw [hclosed]
  exact h.listens

theorem Served.attends {cache : ReplayCache} {shared shared' : Shared} {op : ServerOp} {answer : op.Answer}
    (h : Served cache shared op answer shared') (hsound : Sound cache shared.world) :
    Attends shared.world shared'.world := by
  cases h with
  | vfs | mounts | received | unanswered | refused => exact .refl _
  | begin now key fingerprint hnow hbegins => exact .of_step hsound (.begin _ now key fingerprint hnow hbegins) nofun
  | complete lease reply alloc eligible hlease hmemory =>
    exact .of_step hsound (.store _ lease reply alloc eligible hlease hmemory) nofun
  | cancel lease hlease => exact .of_step hsound (.cancel _ lease hlease) nofun

/-! ## Tasks -/

def LeaseStage.receivers : LeaseStage → List Channel
  | .waiting receiver => [receiver]
  | _ => []

/-- The receiver a task waits for. -/
def ServerOp.receivers : ServerOp → List Channel
  | .wait receiver => [receiver]
  | _ => []

def Task.receivers (task : Task) : List Channel := task.asking.elim [] ServerOp.receivers

def Connection.receivers (connection : Connection) : List Channel := connection.tasks.flatMap Task.receivers

theorem Thread.receivers_of_follows {thread : Thread} {stage : LeaseStage}
    (h : Follows leaseProtocol thread.program stage) : thread.asking.elim [] ServerOp.receivers = stage.receivers := by
  obtain ⟨history, program⟩ := thread
  cases program with
  | done | fail => rcases h with rfl | rfl <;> rfl
  | ask op =>
    have hallows := h.1
    cases stage with
    | waiting receiver =>
      cases op with
      | wait receiver' =>
        cases (show receiver' = receiver from hallows)
        rfl
      | _ => exact hallows.elim
    | free | granted | running | closed => cases op <;> first | rfl | exact hallows.elim

/-! ## Connections -/

/-- What a step of a connection does to the receivers of its tasks. -/
inductive ReceiverStep (w w' : World) (before after : List Channel) : Prop
  | kept : Attends w w' → after.Subperm before → ReceiverStep w w' before after
  /-- The channel of this call of `begin`. -/
  | given : Attends w w' → (w.channels ∉ w.closed → Expected w' w.channels) → after.Perm (w.channels :: before) →
    ReceiverStep w w' before after
  | dropped (receiver : Channel) : receiver < w.channels → w' = { w with closed := receiver :: w.closed } →
    before.Perm (receiver :: after) → ReceiverStep w w' before after

variable {state : ConnectionState} {cache : ReplayCache} {socket : Writer} {shared shared' : Shared}
  {connection connection' : Connection} {event : ConnectionEvent}

/-- A receiver that is handed out is expected. -/
theorem expected_of_wait (hsound : Sound cache shared.world) (hnumbered : Numbered shared.world) {now : Nat}
    {key : ReplayKey} {fingerprint : RequestFingerprint} {receiver : Channel}
    (h : (shared.world.begin cache now key fingerprint).1 = .ok (.wait receiver)) (hlistens : receiver ∉ shared.world.closed) :
    Expected (shared.world.begin cache now key fingerprint).2 receiver := by
  obtain ⟨hknown, generation, hwaits, -⟩ := Tracked.of_wait hsound hnumbered h
  exact ⟨hknown, hlistens, .inl ⟨_, hwaits⟩⟩

namespace ReceiverStep

variable {w w' : World}

/-- The receivers are with the tasks as before, or fewer. -/
theorem of_count (hattends : Attends w w')
    (hcount : ∀ receiver, (connection'.receivers).count receiver ≤ (connection.receivers).count receiver) :
    ReceiverStep w w' connection.receivers connection'.receivers :=
  .kept hattends (List.subperm_iff_count.mpr hcount)

theorem of_tasks (hattends : Attends w w') (htasks : connection'.tasks = connection.tasks) :
    ReceiverStep w w' connection.receivers connection'.receivers := by
  unfold Connection.receivers
  rw [htasks]
  exact .kept hattends (.refl _)

/-- A task goes on with a receiver it had, or is gone. -/
theorem of_task (hattends : Attends w w') {before after : List Task} {task : Task} (tasks : List Task)
    (htasks : connection.tasks = before ++ task :: after) (htasks' : connection'.tasks = before ++ (tasks ++ after))
    (hnone : tasks.flatMap Task.receivers = []) : ReceiverStep w w' connection.receivers connection'.receivers := by
  refine of_count hattends fun receiver => ?_
  unfold Connection.receivers
  rw [htasks, htasks']
  simp only [List.flatMap_append, List.flatMap_cons, hnone, List.count_append, List.count_nil]
  omega

theorem of_asking (hattends : Attends w w')
    (hasking : connection'.tasks.map Task.asking = connection.tasks.map Task.asking) :
    ReceiverStep w w' connection.receivers connection'.receivers := by
  have hsame : connection'.receivers = connection.receivers := by
    have hboth := congrArg (List.map fun asking => Option.elim asking [] ServerOp.receivers) hasking
    rw [List.map_map, List.map_map] at hboth
    exact congrArg List.flatten hboth
  rw [hsame]
  exact .kept hattends (.refl _)

end ReceiverStep

theorem receiverStep (hprotocol : InProtocol connection) (hsound : Sound cache shared.world)
    (hnumbered : Numbered shared.world)
    (hstep : ConnectionStep state cache socket shared connection event shared' connection') :
    ReceiverStep shared.world shared'.world connection.receivers connection'.receivers := by
  cases hstep with
  | read | readEnds | readFails | readBreaks | enqueue | sendEnds | sendExpires | close | processorReturns | write
  | writeFails | writeExpires | writerReturns | executionExpires => exact .of_tasks (.refl _) rfl
  | receive =>
    refine .of_count (.refl _) fun receiver => ?_
    simp [Connection.receivers, Task.receivers, Task.asking]
  | join _ _ _ _ _ _ htasks | joinFailed _ _ _ _ _ _ _ htasks | dropTask _ _ _ _ htasks =>
    exact .of_task (.refl _) [] htasks rfl rfl
  | start _ _ _ record htasks =>
    refine .of_task (.refl _) [_] htasks rfl ?_
    rw [List.flatMap_singleton]
    have hfree : Follows leaseProtocol (Thread.program ⟨[], dispatchRecord state connection.clientAddr record⟩) .free :=
      dispatchRecord_follows _ record
    exact Thread.receivers_of_follows hfree
  | reserveExpires _ _ _ _ _ htasks | spawn _ _ _ _ _ _ _ htasks | handled _ _ _ _ _ _ htasks
  | rejected _ _ _ _ _ _ htasks | reply _ _ _ _ _ _ htasks | replyExpires _ _ _ _ _ _ htasks =>
    exact .of_task (.refl _) [_] htasks rfl rfl
  | ask before after number record history op next answer shared' htasks hserved =>
    obtain ⟨stage, hstage, hfollows, -⟩ := (forall_mem_remove hprotocol.tasks htasks).1
    have hattends := hserved.attends hsound
    have hold : Task.receivers ⟨number, record, .handling ⟨history, Prog.ask (S := serverSignature) op next⟩⟩ =
        stage.receivers := Thread.receivers_of_follows hfollows
    have hnew : Task.receivers ⟨number, record, .handling ⟨history ++ [⟨op, answer⟩], next answer⟩⟩ =
        (leaseProtocol.after stage op answer).receivers := Thread.receivers_of_follows (hfollows.2 answer)
    have hgone : (leaseProtocol.after stage op answer).receivers = [] →
        ReceiverStep shared.world shared'.world connection.receivers
          (Connection.receivers { connection with
            tasks := before ++ ⟨number, record, .handling ⟨history ++ [⟨op, answer⟩], next answer⟩⟩ :: after }) := by
      intro hnone
      refine .of_task hattends [_] htasks rfl ?_
      rw [List.flatMap_singleton, hnew, hnone]
    cases hserved with
    | begin now key fingerprint =>
      cases stage with
      | free =>
        by_cases hwait : ∃ receiver, (shared.world.begin cache now key fingerprint).1 = .ok (.wait receiver)
        · obtain ⟨receiver, hwait⟩ := hwait
          have hchannel := Tracked.channel_of_wait hsound hwait
          subst hchannel
          refine .given hattends (expected_of_wait hsound hnumbered hwait) (List.perm_iff_count.mpr fun other => ?_)
          rw [hwait] at hnew
          change _ = [shared.world.channels] at hnew
          unfold Connection.receivers
          rw [htasks]
          simp only [List.flatMap_append, List.flatMap_cons, hold, hnew, hwait, List.count_append, List.count_cons,
            LeaseStage.receivers, List.count_nil]
          omega
        · refine hgone ?_
          generalize (shared.world.begin cache now key fingerprint).1 = answer at hwait
          cases answer with
          | error => rfl
          | ok decision =>
            cases decision with
            | wait receiver => exact absurd ⟨receiver, rfl⟩ hwait
            | _ => rfl
      | _ => exact hfollows.1.elim
    | _ => exact hgone (by cases stage <;> rfl)
  | dropLease _ _ _ _ _ lease _ _ htasks hlease =>
    exact .of_task (.of_step hsound (.drop _ lease hlease) (fun _ hclose => by cases hclose)) [] htasks rfl rfl
  | dropReceiver _ _ _ _ _ receiver _ _ htasks hknown =>
    refine .dropped receiver hknown rfl (List.perm_iff_count.mpr fun other => ?_)
    unfold Connection.receivers
    rw [htasks]
    simp only [List.flatMap_append, List.flatMap_cons, List.count_append, List.count_cons, Task.receivers, Task.asking,
      Thread.asking, Option.elim_some, ServerOp.receivers, List.count_nil]
    omega
  | execute _ _ _ _ _ _ _ _ _ _ _ hserved =>
    exact .of_tasks (hserved.attends hsound) rfl
  | prepare _ _ _ _ _ _ completed reply _ alloc _ hlease =>
    exact .of_tasks (.of_step hsound (.prepare _ completed reply alloc hlease) (fun _ hclose => by cases hclose)) rfl
  | executed _ _ number _ _ history outcome =>
    exact .of_asking (.refl _) (asking_map_resume number history outcome _)
  | aborted _ _ number _ lease history _ _ _ hlease =>
    exact .of_asking (.of_step hsound (.drop _ lease hlease) (fun _ hclose => by cases hclose)) (asking_map_resume number history (.error _) _)

/-! ## All connections -/

/-- Each receiver that is waited for is with one task of one connection, and expected. -/
structure ReceiverBook (w : World) (connections : Nat → Connection) : Prop where
  exclusive : Exclusive fun index => (connections index).receivers
  expected : ∀ index, ∀ receiver ∈ (connections index).receivers, Expected w receiver
  closed_lt : ∀ receiver ∈ w.closed, receiver < w.channels

theorem receivers_update (connections : Nat → Connection) (index : Nat) (connection : Connection) :
    (fun other => (Function.update connections index connection other).receivers) =
      Function.update (fun other => (connections other).receivers) index connection.receivers :=
  Function.comp_update Connection.receivers connections index connection

theorem forall_mem_receivers_update {connections : Nat → Connection} {index : Nat} {P : Channel → Prop}
    (hmine : ∀ receiver ∈ connection'.receivers, P receiver)
    (hothers : ∀ other ≠ index, ∀ receiver ∈ (connections other).receivers, P receiver) :
    ∀ other, ∀ receiver ∈ (Function.update connections index connection' other).receivers, P receiver :=
  (Function.forall_update_iff connections fun _ connection => ∀ receiver ∈ connection.receivers, P receiver).mpr
    ⟨hmine, hothers⟩

namespace ReceiverBook

variable {w w' : World} {connections : Nat → Connection} {index : Nat}

theorem attends (h : ReceiverBook w connections) (hattends : Attends w w') : ReceiverBook w' connections where
  exclusive := h.exclusive
  expected other receiver hreceiver := hattends.expected receiver (h.expected other receiver hreceiver)
  closed_lt receiver hclosed :=
    Nat.lt_of_lt_of_le (h.closed_lt receiver (hattends.closed ▸ hclosed)) hattends.channels

theorem step (h : ReceiverBook w connections)
    (hstep : ReceiverStep w w' (connections index).receivers connection'.receivers) :
    ReceiverBook w' (Function.update connections index connection') := by
  cases hstep with
  | kept hattends hsubperm =>
    have h' := h.attends hattends
    refine ⟨?_, ?_, h'.closed_lt⟩
    · rw [receivers_update]
      exact h.exclusive.update_subperm hsubperm
    · exact forall_mem_receivers_update (fun receiver hreceiver => h'.expected index receiver (hsubperm.subset hreceiver))
        fun other _ => h'.expected other
  | given hattends hexpected hperm =>
    have h' := h.attends hattends
    refine ⟨?_, ?_, h'.closed_lt⟩
    · rw [receivers_update]
      -- it is the next channel, so nobody has it
      exact h.exclusive.update_cons (fun other hreceiver => Nat.lt_irrefl _ (h.expected other _ hreceiver).known) hperm
    · refine forall_mem_receivers_update (fun receiver hreceiver => ?_) fun other _ => h'.expected other
      rcases List.mem_cons.mp (hperm.subset hreceiver) with rfl | hreceiver
      · exact hexpected fun hclosed => Nat.lt_irrefl _ (h.closed_lt _ hclosed)
      · exact h'.expected index receiver hreceiver
  | dropped receiver hknown hw hperm =>
    subst hw
    have hothers : ∀ other, Expected w other → other ≠ receiver →
        Expected { w with closed := receiver :: w.closed } other := by
      intro other hexpected hne
      refine ⟨hexpected.known, ?_, hexpected.served⟩
      exact List.not_mem_cons_of_ne_of_not_mem hne hexpected.listens
    refine ⟨?_, ?_, List.forall_mem_cons.mpr ⟨hknown, h.closed_lt⟩⟩
    · rw [receivers_update]
      exact h.exclusive.update_subperm ((List.sublist_cons_self receiver _).subperm.trans hperm.symm.subperm)
    · have hnodup := List.nodup_cons.mp (hperm.nodup_iff.mp (h.exclusive.once index))
      refine forall_mem_receivers_update (fun other hother => ?_) fun index' hindex' other hother => ?_
      · refine hothers other (h.expected index other (hperm.mem_iff.mpr (List.mem_cons_of_mem _ hother))) ?_
        rintro rfl
        exact hnodup.1 hother
      · refine hothers other (h.expected index' other hother) ?_
        rintro rfl
        exact hindex' (h.exclusive.apart _ _ other hother (hperm.mem_iff.mpr List.mem_cons_self))

end ReceiverBook

/-- Every receiver belongs to one task, and is expected. -/
theorem receiverBook_of_reachable {sockets : Nat → Writer} {server : ServerState}
    (h : (serverMachine state cache sockets).Reachable server) :
    ReceiverBook server.shared.world server.connections := by
  obtain ⟨start, trace, hstart, hrun⟩ := h
  refine Machine.Run.keeps (P := fun _ server => ReceiverBook server.shared.world server.connections) ?_
    ⟨start, [], hstart, .nil⟩ hrun ?_
  · intro _ server event server' hreach hbook hstep
    have hcoherent := (labelled_of_reachable hreach).1
    cases hstep with
    | connection index _ _ _ hstep =>
      exact hbook.step (receiverStep (inProtocol_of_reachable hreach index) hcoherent.sound hcoherent.numbered hstep)
    | tick now hnow => exact hbook.attends (.of_step hcoherent.sound (.tick _ now hnow) nofun)
    | signal => exact hbook
  · obtain ⟨⟨clock, hshared⟩, hconnections⟩ := hstart
    have hnone : ∀ index, (start.connections index).receivers = [] := by
      intro index
      obtain ⟨clientAddr, stream, hconnection⟩ := hconnections index
      rw [hconnection]
      rfl
    refine ⟨⟨fun index => ?_, fun index _ receiver hreceiver => ?_⟩, fun index receiver hreceiver => ?_, ?_⟩
    · rw [hnone]
      exact List.nodup_nil
    · rw [hnone] at hreceiver
      cases hreceiver
    · rw [hnone] at hreceiver
      cases hreceiver
    · rw [hshared]
      exact nofun

end NfsEmbed.Server
