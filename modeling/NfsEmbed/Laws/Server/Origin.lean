import NfsEmbed.Laws.Replay.AtMostOnce
import NfsEmbed.Laws.Replay.Sources
import NfsEmbed.Laws.Server.Execution
import NfsEmbed.Server.Connection

/-!
# Where a reply comes from

Connections answer each other's retransmissions through the cache, and executions outlive the connections
they were spawned on. Still a reply to a record is one of three things: it was made from the record alone,
it is the error that stands for a failed request, or it was handed in for an entry of the cache that the
record is looked up under (`Origin.Source`).

The argument is one of rely and guarantee, and has the property `made` of the replies that are handed in as
a parameter. A program relies on it when it gets a reply from the cache, and guarantees that a reply it
hands in was computed from its record (`Traceable`). The cache keeps `made` (`Coherent`), and whatever the
interleaving, what stands in the queues of a connection, in its tasks and in its executions belongs to a
record that was queued and has its source in that record (`Traced`). What `made` is, and that the replies
handed in during a run have it, is left to the modules that use this one.
-/

namespace NfsEmbed.Server

open Lib Rpc Vfs Replay
open Prog (Ensures)

/-! ## The request in a record -/

/-- The record has a whole call header, of RPC version 2 and with an empty verifier, and its caller may
make the call. -/
structure Admitted (state : ConnectionState) (record : Bytes) (header : CallHeader) (caller : Principal) : Prop where
  decoded : Decoder.run decodeCallHeader record = .ok (some header)
  rpcVersion : header.rpcVersion = 2
  verifierFlavor : header.verifierFlavor = AUTH_NONE
  verifier : header.verifier = []
  principal : decodePrincipal header.credentialFlavor header.credentialBody = .ok caller
  allowed : header.program ≠ Portmap.PROGRAM → principalAllowed state.authPolicy caller = true

/-- The export of the call, as `dispatch_record` finds it. -/
def CallHeader.exportId (state : ConnectionState) (header : CallHeader) : ExportId :=
  requestExportId state header.program header.procedure header.args

/-- What the cache knows the call by. -/
def CallHeader.replayKey (state : ConnectionState) (clientAddr : SocketAddr) (header : CallHeader) : ReplayKey :=
  { clientAddr := SocketAddr.new clientAddr.ip 0, exportId := header.exportId state, xid := header.xid }

def CallHeader.fingerprint (state : ConnectionState) (header : CallHeader) (caller : Principal) :
    RequestFingerprint :=
  ⟨state.externals.sha256 (header.call caller).hashed⟩

/-- The record is looked up in the cache under this key and fingerprint. -/
def LookedUpAs (state : ConnectionState) (clientAddr : SocketAddr) (record : Bytes) (key : ReplayKey)
    (fingerprint : RequestFingerprint) : Prop :=
  ∃ header caller, Admitted state record header caller ∧ header.replayKey state clientAddr = key ∧
    header.fingerprint state caller = fingerprint

/-- The call in the record, executed for this entry of the cache and in this dialogue, comes to the reply. -/
def ComputedFor (state : ConnectionState) (clientAddr : SocketAddr) (record : Bytes) (lease : ReplayEntryKey)
    (said : Dialogue) (reply : EncodedReply) : Prop :=
  ∃ header caller, Admitted state record header caller ∧ header.replayKey state clientAddr = lease.request ∧
    header.fingerprint state caller = lease.fingerprint ∧
    (executeRequest state header.xid header.program header.version header.procedure header.args
      { principal := caller, clientAddr, exportId := header.exportId state }).Ends said (.ok reply)

/-! ## Lists -/

section Lists

variable {α : Type} {P : α → Prop} {list before after : List α} {a b : α}

/-- One element of a list is replaced. -/
theorem forall_mem_replace (h : ∀ x ∈ list, P x) (hlist : list = before ++ a :: after) (hab : P a → P b) :
    ∀ x ∈ before ++ b :: after, P x := by
  subst hlist
  simp only [List.forall_mem_append, List.forall_mem_cons] at h ⊢
  exact ⟨h.1, hab h.2.1, h.2.2⟩

/-- One element of a list is removed. -/
theorem forall_mem_remove (h : ∀ x ∈ list, P x) (hlist : list = before ++ a :: after) :
    P a ∧ ∀ x ∈ before ++ after, P x := by
  subst hlist
  simp only [List.forall_mem_append, List.forall_mem_cons] at h ⊢
  exact ⟨h.2.1, h.1, h.2.2⟩

theorem mem_of_mem_remove (hlist : list = before ++ a :: after) : ∀ x ∈ before ++ after, x ∈ list := by
  subst hlist
  intro x hx
  rcases List.mem_append.mp hx with hx | hx
  · exact List.mem_append_left _ hx
  · exact List.mem_append_right _ (List.mem_cons_of_mem _ hx)

end Lists

/-! ## Handling a record -/

namespace Origin

section Record

variable (state : ConnectionState) (made : ReplayEntryKey → EncodedReply → Prop) (clientAddr : SocketAddr)
  (record : Bytes)

/-- Where a reply to the record comes from. -/
inductive Source (reply : EncodedReply) : Prop
  /-- The record alone decides. -/
  | immediate : dispatchRecord state clientAddr record = .done reply → Source reply
  /-- The request failed. -/
  | rejected : reply = errorReply state (recordXid record) SYSTEM_ERR → Source reply
  | computed (key : ReplayKey) (fingerprint : RequestFingerprint) (generation : UInt64) :
    LookedUpAs state clientAddr record key fingerprint → made ⟨key, fingerprint, generation⟩ reply → Source reply

/-- What is relied on: replies from the cache were made for what was looked up, and a reply that was
handed in was made for its lease. -/
def Relies : (op : ServerOp) → op.Answer → Prop
  | .begin key fingerprint, .ok (.replay reply) => ∃ generation, made ⟨key, fingerprint, generation⟩ reply
  | .begin key fingerprint, .ok (.execute lease) => lease.request = key ∧ lease.fingerprint = fingerprint
  | .wait _, .ok reply => ∃ key fingerprint generation, LookedUpAs state clientAddr record key fingerprint ∧
      made ⟨key, fingerprint, generation⟩ reply
  | .complete lease reply, _ => made lease reply
  | _, _ => True

/-- What is guaranteed: only receivers that the cache handed out for the record are waited on, and a reply
that is handed in was computed in the dialogue up to here. -/
def Guarantees (history : Dialogue) : ServerOp → Prop
  | .wait receiver => ∃ key fingerprint, LookedUpAs state clientAddr record key fingerprint ∧
      (⟨.begin key fingerprint, .ok (.wait receiver)⟩ : Exchange serverSignature) ∈ history
  | .complete lease reply => ∃ earlier said, history = earlier ++ said ∧
      ComputedFor state clientAddr record lease said reply
  | _ => True

/-- An outcome that is no reply, or one of known source. -/
def Yields (result : Except ServerError EncodedReply) : Prop :=
  ∀ reply, result = .ok reply → Source state made clientAddr record reply

/-- What handling the record comes to, for the rest of the program after this dialogue. -/
def Traceable (history : Dialogue) (program : ServerM EncodedReply) : Prop :=
  Ensures (Relies state made clientAddr record) (Guarantees state clientAddr record)
    (fun _ => Yields state made clientAddr record) history program

variable {state made clientAddr record} {history : Dialogue}

theorem Traceable.fail (error : ServerError) : Traceable state made clientAddr record history (.fail error) := by
  intro reply heq
  cases heq

theorem Traceable.done {reply : EncodedReply} (h : Source state made clientAddr record reply) :
    Traceable state made clientAddr record history (.done reply) := by
  intro reply' heq
  cases heq
  exact h

theorem Traceable.ask {op : ServerOp} {next : op.Answer → ServerM EncodedReply}
    (h : Guarantees state clientAddr record history op)
    (hnext : ∀ answer, Relies state made clientAddr record op answer →
      Traceable state made clientAddr record (history ++ [⟨op, answer⟩]) (next answer)) :
    Traceable state made clientAddr record history (Prog.ask (S := serverSignature) op next) :=
  ⟨h, hnext⟩

/-- A cancelled execution hands in no reply. -/
theorem execution_fail_traceable (lease : ReplayEntryKey) (error : ServerError) :
    Traceable state made clientAddr record history (execution lease (.fail error)) :=
  .ask trivial fun _ _ => .fail error

/-- A request asks the backends only, and ends as its dialogue with them did. -/
theorem ends_of_calls {request : ServerM EncodedReply} {rule : CallRule}
    {Q : Dialogue → Except ServerError EncodedReply → Prop} (h : Ensures anything rule.Permits Q history request) :
    Ensures (Relies state made clientAddr record) (Guarantees state clientAddr record)
      (fun history' result => ∃ said, history' = history ++ said ∧ request.Ends said result) history request := by
  refine h.ending.mono (fun _ _ _ => trivial) (fun history op hop => ?_) fun _ _ h => h.2
  cases op with
  | vfs | mounts => exact trivial
  | _ => exact False.elim hop

/-- The task of an execution, for the lease that the call in the record was granted. -/
theorem execution_traceable {header : CallHeader} {caller : Principal} (hcall : Admitted state record header caller)
    {lease : ReplayEntryKey} (hrequest : header.replayKey state clientAddr = lease.request)
    (hfingerprint : header.fingerprint state caller = lease.fingerprint) :
    Traceable state made clientAddr record history (execution lease
      (executeRequest state header.xid header.program header.version header.procedure header.args
        { principal := caller, clientAddr, exportId := header.exportId state })) := by
  refine (ends_of_calls (executeRequest_ensures _ _ _ _ history)).outcome.bind (fun history' result hresult => ?_) fun history' error hresult => ?_
  · obtain ⟨outcome, heq, said, rfl, hends⟩ := hresult
    cases heq
    cases result with
    | error error => exact Traceable.ask trivial fun _ _ => .fail error
    | ok =>
      refine Traceable.ask ⟨history, said, rfl, header, caller, hcall, hrequest, hfingerprint, hends⟩ fun _ hmade => ?_
      refine Traceable.done (.computed lease.request lease.fingerprint lease.generation ⟨header, caller, hcall, hrequest, ?_⟩ hmade)
      exact hfingerprint
  · obtain ⟨outcome, heq, -⟩ := hresult
    cases heq

theorem dispatchAuthorized_traceable {header : CallHeader} {caller : Principal}
    (hcall : Admitted state record header caller) :
    Traceable state made clientAddr record history (dispatchAuthorized state clientAddr header caller) := by
  have hlooked : LookedUpAs state clientAddr record (header.replayKey state clientAddr)
      (header.fingerprint state caller) := ⟨header, caller, hcall, rfl, rfl⟩
  refine .ask trivial fun answer hanswer => ?_
  cases answer with
  | error => exact .fail _
  | ok decision =>
    cases decision with
    | replay =>
      obtain ⟨generation, hmade⟩ := hanswer
      exact .done (.computed _ _ generation hlooked hmade)
    | wait =>
      refine .ask ⟨_, _, hlooked, List.mem_append_right _ (List.mem_singleton_self _)⟩ fun answer hanswer => ?_
      cases answer with
      | error => exact .fail _
      | ok =>
        obtain ⟨key, fingerprint, generation, hlooked, hmade⟩ := hanswer
        exact .done (.computed key fingerprint generation hlooked hmade)
    | execute =>
      refine .ask trivial fun answer _ => ?_
      cases answer with
      | error error => exact .ask trivial fun _ _ => .fail error
      | ok => exact execution_traceable hcall hanswer.1.symm hanswer.2.symm

/-- Handling a record keeps its part. -/
theorem dispatchRecord_traceable (clientAddr : SocketAddr) (record : Bytes) :
    Traceable state made clientAddr record history (dispatchRecord state clientAddr record) := by
  have himmediate : ∀ reply, dispatchRecord state clientAddr record = .done reply →
      Traceable state made clientAddr record history (.done reply) := fun reply h => .done (.immediate h)
  revert himmediate
  unfold dispatchRecord
  cases hdecoded : Decoder.run decodeCallHeader record with
  | error => exact fun _ => .fail _
  | ok header =>
    cases header with
    | none => exact fun _ => .fail _
    | some header =>
      change (∀ reply, dispatchHeader state clientAddr header = .done reply → _) →
        Traceable state made clientAddr record history (dispatchHeader state clientAddr header)
      intro himmediate
      unfold dispatchHeader at himmediate ⊢
      split
      next hverifier =>
        rw [if_pos hverifier] at himmediate
        exact himmediate _ rfl
      next hverifier =>
      rw [if_neg hverifier] at himmediate
      obtain ⟨hflavor, hempty⟩ := not_or.mp hverifier
      split
      next error hprincipal =>
        simp only [hprincipal] at himmediate
        exact himmediate _ rfl
      next caller hprincipal =>
      simp only [hprincipal] at himmediate
      split
      next hversion =>
        rw [if_pos hversion] at himmediate
        exact himmediate _ rfl
      next hversion =>
      rw [if_neg hversion] at himmediate
      split
      next hdenied =>
        rw [if_pos hdenied] at himmediate
        exact himmediate _ rfl
      next hallowed =>
        refine dispatchAuthorized_traceable ⟨hdecoded, not_not.mp hversion, not_not.mp hflavor, not_not.mp hempty,
          hprincipal, fun hprogram => ?_⟩
        by_contra hnot
        exact hallowed ⟨hprogram, hnot⟩

end Record

/-! ## The shared cache -/

section Cache

variable (made : ReplayEntryKey → EncodedReply → Prop) (cache : ReplayCache)

/-- What holds of the cache at any time of the run. -/
structure Coherent (w : World) : Prop where
  sound : Sound cache w
  numbered : Numbered w
  sourced : Sourced made w

/-- The cache is left alone or goes one step, in which only replies of the run are handed in. -/
def Advances (w w' : World) : Prop :=
  w' = w ∨ ∃ e : Event, (∀ lease reply alloc, e = .prepare lease reply alloc → made lease reply) ∧ Step cache w e w'

/-- How a reply is stored makes no difference. -/
def StorageFree : Prop :=
  ∀ entry reply (alloc : Allocator), made entry reply → made entry (reply.replayStorage alloc).1

variable {made cache} {w w' : World}

theorem Coherent.new (clock : Nat) : Coherent made cache (World.new clock) where
  sound := .new clock
  numbered := ⟨nofun, nofun⟩
  sourced := .new clock

/-- The cache keeps the property. -/
theorem Coherent.advances (h : Coherent made cache w) (hstorage : StorageFree made) (hstep : Advances made cache w w') :
    Coherent made cache w' := by
  rcases hstep with rfl | ⟨e, hmade, hstep⟩
  · exact h
  · exact ⟨h.sound.step hstep, h.numbered.step (waiterStep h.sound hstep), h.sourced.step h.sound hstorage hstep hmade⟩

theorem Advances.awaits (hstep : Advances made cache w w') (hw : Coherent made cache w) {key : ReplayKey}
    {fingerprint : RequestFingerprint} {receiver : Channel} (h : Awaits made key fingerprint receiver w) :
    Awaits made key fingerprint receiver w' := by
  rcases hstep with rfl | ⟨e, -, hstep⟩
  · exact h
  · exact h.step hw.sourced hw.sound hstep

/-- An answer of the runtime advances the cache. -/
theorem advances_of_served {shared shared' : Shared} {op : ServerOp} {answer : op.Answer}
    (h : Served cache shared op answer shared') : Advances made cache shared.world shared'.world := by
  cases h with
  | vfs | mounts | received | unanswered | refused => exact .inl rfl
  | begin now key fingerprint hnow hbegins =>
    exact .inr ⟨_, by nofun, .begin _ now key fingerprint hnow hbegins⟩
  | complete lease reply alloc eligible hlease hmemory =>
    exact .inr ⟨_, by nofun, .store _ lease reply alloc eligible hlease hmemory⟩
  | cancel lease hlease => exact .inr ⟨_, by nofun, .cancel _ lease hlease⟩

end Cache

/-! ## Programs on their way -/

variable {state : ConnectionState} {made : ReplayEntryKey → EncodedReply → Prop} {cache : ReplayCache}
  {clientAddr : SocketAddr} {record : Bytes}

/-- What is left of handling the record, and the receivers it was told to wait for. -/
structure Follows (state : ConnectionState) (made : ReplayEntryKey → EncodedReply → Prop) (w : World)
    (clientAddr : SocketAddr) (record : Bytes) (thread : Thread) : Prop where
  traceable : Traceable state made clientAddr record thread.history thread.program
  awaits : ∀ key fingerprint receiver,
    (⟨.begin key fingerprint, .ok (.wait receiver)⟩ : Exchange serverSignature) ∈ thread.history →
    Awaits made key fingerprint receiver w

namespace Follows

variable {w w' : World} {thread : Thread} {shared shared' : Shared} {history : Dialogue} {op : ServerOp}
  {next : op.Answer → ServerM EncodedReply} {answer : op.Answer}

theorem advances (h : Follows state made w clientAddr record thread) (hw : Coherent made cache w)
    (hstep : Advances made cache w w') : Follows state made w' clientAddr record thread :=
  ⟨h.traceable, fun key fingerprint receiver hmem => hstep.awaits hw (h.awaits key fingerprint receiver hmem)⟩

/-- What the record relies on is what it is answered. -/
theorem relies
    (h : Follows state made shared.world clientAddr record ⟨history, Prog.ask (S := serverSignature) op next⟩)
    (hw : Coherent made cache shared.world) (hserved : Served cache shared op answer shared')
    (hmade : ∀ lease reply, op = .complete lease reply → made lease reply) :
    Relies state made clientAddr record op answer := by
  cases hserved with
  | vfs | mounts | unanswered | refused | cancel => exact trivial
  | complete lease reply => exact hmade lease reply rfl
  | begin now key fingerprint =>
    cases hbegin : (shared.world.begin cache now key fingerprint).1 with
    | error => exact trivial
    | ok decision =>
      cases decision with
      | replay => exact hw.sourced.of_replay hw.sound hbegin
      | wait => exact trivial
      | execute =>
        obtain ⟨hrequest, hfingerprint, -⟩ := Remembers.of_execute hw.sound hbegin
        exact ⟨hrequest, hfingerprint⟩
  | received receiver result hdelivered =>
    cases result with
    | error => exact trivial
    | ok reply =>
      obtain ⟨key, fingerprint, hlooked, hmem⟩ := h.traceable.1
      obtain ⟨generation, hreply⟩ := (h.awaits key fingerprint receiver hmem).delivered reply hdelivered
      exact ⟨key, fingerprint, generation, hlooked, hreply⟩

theorem ask (h : Follows state made shared.world clientAddr record ⟨history, Prog.ask (S := serverSignature) op next⟩)
    (hw : Coherent made cache shared.world) (hserved : Served cache shared op answer shared')
    (hmade : ∀ lease reply, op = .complete lease reply → made lease reply) :
    Follows state made shared'.world clientAddr record ⟨history ++ [⟨op, answer⟩], next answer⟩ := by
  refine ⟨h.traceable.2 answer (h.relies hw hserved hmade), fun key fingerprint receiver hmem => ?_⟩
  rcases List.mem_append.mp hmem with hmem | hmem
  · exact (advances_of_served hserved).awaits hw (h.awaits key fingerprint receiver hmem)
  · -- the receiver was handed out just now
    cases List.mem_singleton.mp hmem
    generalize hanswer : (Except.ok (ReplayDecision.wait receiver) : Except ReplayError ReplayDecision) = answer
      at hserved
    cases hserved with
    | begin => exact .of_wait hw.sound hw.numbered hanswer.symm

end Follows

/-! ## Connections -/

/-- What a task holds is about its record. -/
def OfTask (state : ConnectionState) (made : ReplayEntryKey → EncodedReply → Prop) (w : World) (clientAddr : SocketAddr)
    (record : Bytes) : TaskPhase → Prop
  | .handling thread => Follows state made w clientAddr record thread
  | .replying reply => Source state made clientAddr record reply
  | _ => True

/-- The reply has a source in the record of this number. -/
def Answers (state : ConnectionState) (made : ReplayEntryKey → EncodedReply → Prop) (clientAddr : SocketAddr)
    (queued : List Bytes) (entry : Nat × EncodedReply) : Prop :=
  ∃ record, queued[entry.1]? = some record ∧ Source state made clientAddr record entry.2

/-- Everything a connection holds is about the record with its number, and has its source in it. -/
structure Traced (state : ConnectionState) (made : ReplayEntryKey → EncodedReply → Prop) (w : World)
    (connection : Connection) : Prop where
  queue : ∀ entry ∈ connection.queue, connection.queued[entry.1]? = some entry.2
  tasks : ∀ task ∈ connection.tasks, connection.queued[task.number]? = some task.record ∧
    OfTask state made w connection.clientAddr task.record task.phase
  executions : ∀ execution ∈ connection.executions, connection.queued[execution.number]? = some execution.record ∧
    Follows state made w connection.clientAddr execution.record execution.thread
  replyQueue : ∀ entry ∈ connection.replyQueue, Answers state made connection.clientAddr connection.queued entry
  written : ∀ entry ∈ connection.written, Answers state made connection.clientAddr connection.queued entry

/-- The thread is that of a task or of an execution. -/
def Runs (connection : Connection) (thread : Thread) : Prop :=
  (∃ task ∈ connection.tasks, task.phase = .handling thread) ∨
    ∃ execution ∈ connection.executions, execution.thread = thread

/-- The replies that the threads of the connection are about to hand in are made. -/
def HandsIn (made : ReplayEntryKey → EncodedReply → Prop) (connection : Connection) : Prop :=
  ∀ thread, Runs connection thread → ∀ lease reply next,
    thread.program = Prog.ask (S := serverSignature) (.complete lease reply) next → made lease reply

namespace Traced

variable {w w' : World} {connection connection' : Connection} {shared shared' : Shared} {socket : Writer}
  {event : ConnectionEvent} {before after : List Task} {number : Nat} {phase : TaskPhase}

theorem new (clientAddr : SocketAddr) (stream : Bytes) : Traced state made w (Connection.new clientAddr stream) := by
  constructor <;> rintro _ ⟨⟩

theorem follows (h : Traced state made w connection) {thread : Thread} (hruns : Runs connection thread) :
    ∃ record, Follows state made w connection.clientAddr record thread := by
  obtain ⟨task, hmem, hphase⟩ | ⟨execution, hmem, rfl⟩ := hruns
  · have htask := (h.tasks task hmem).2
    rw [hphase] at htask
    exact ⟨task.record, htask⟩
  · exact ⟨execution.record, (h.executions execution hmem).2⟩

theorem advances (h : Traced state made w connection) (hw : Coherent made cache w) (hstep : Advances made cache w w') :
    Traced state made w' connection := by
  refine { h with tasks := fun task htask => ?_, executions := fun execution hexecution => ?_ }
  · obtain ⟨hrecord, hphase⟩ := h.tasks task htask
    refine ⟨hrecord, ?_⟩
    cases hcase : task.phase with
    | handling =>
      rw [hcase] at hphase
      exact Follows.advances hphase hw hstep
    | replying =>
      rw [hcase] at hphase
      exact hphase
    | _ => exact trivial
  · obtain ⟨hrecord, hthread⟩ := h.executions execution hexecution
    exact ⟨hrecord, hthread.advances hw hstep⟩

theorem mem_task (h : Traced state made w connection)
    (htasks : connection.tasks = before ++ ⟨number, record, phase⟩ :: after) :
    connection.queued[number]? = some record ∧ OfTask state made w connection.clientAddr record phase :=
  (forall_mem_remove h.tasks htasks).1

/-- A task goes on. -/
theorem task (h : Traced state made w connection) (phase' : TaskPhase)
    (htasks : connection.tasks = before ++ ⟨number, record, phase⟩ :: after)
    (hphase : OfTask state made w connection.clientAddr record phase →
      OfTask state made w connection.clientAddr record phase') :
    Traced state made w { connection with tasks := before ++ ⟨number, record, phase'⟩ :: after } :=
  { h with tasks := forall_mem_replace h.tasks htasks fun hlabel => ⟨hlabel.1, hphase hlabel.2⟩ }

theorem remove (h : Traced state made w connection) {task : Task} (htasks : connection.tasks = before ++ task :: after) :
    Traced state made w { connection with tasks := before ++ after } :=
  { h with tasks := (forall_mem_remove h.tasks htasks).2 }

/-- The outcome of an execution reaches its task. -/
theorem resume (h : Traced state made w connection) {before after : List Execution} {lease : ReplayEntryKey}
    {thread thread' : Thread}
    (hexecutions : connection.executions = before ++ ⟨number, record, lease, thread⟩ :: after)
    (hthread : Follows state made w connection.clientAddr record thread →
      Follows state made w connection.clientAddr record thread') :
    Traced state made w { connection with
      executions := before ++ after
      tasks := connection.tasks.map (Task.resume number thread') } := by
  obtain ⟨⟨hrecord, hfollows⟩, hrest⟩ := forall_mem_remove h.executions hexecutions
  refine { h with executions := hrest, tasks := fun task htask => ?_ }
  obtain ⟨task, hmem, rfl⟩ := List.mem_map.mp htask
  have hlabel := h.tasks task hmem
  unfold Task.resume
  split
  next =>
    split
    next hnumber =>
      -- the numbers agree, so the records do
      have hsame : record = task.record := by
        rw [← hnumber, hlabel.1] at hrecord
        exact (Option.some.inj hrecord).symm
      subst hsame
      exact ⟨hlabel.1, hthread hfollows⟩
    next => exact hlabel
  next => exact hlabel

theorem enqueue (h : Traced state made w connection) (reader : ReaderPhase) (record : Bytes) :
    Traced state made w { connection with
      reader
      queued := connection.queued ++ [record]
      queue := connection.queue ++ [(connection.queued.length, record)] } := by
  have hkeep : ∀ {number : Nat} {record' : Bytes}, connection.queued[number]? = some record' →
      (connection.queued ++ [record])[number]? = some record' := by
    intro number record' hlookup
    obtain ⟨hlt, -⟩ := List.getElem?_eq_some_iff.mp hlookup
    rwa [List.getElem?_append_left hlt]
  have hanswers : ∀ entry, Answers state made connection.clientAddr connection.queued entry →
      Answers state made connection.clientAddr (connection.queued ++ [record]) entry := by
    rintro entry ⟨record', hlookup, hsource⟩
    exact ⟨record', hkeep hlookup, hsource⟩
  constructor
  · intro entry hentry
    rcases List.mem_append.mp hentry with hentry | hentry
    · exact hkeep (h.queue entry hentry)
    · rw [List.mem_singleton.mp hentry]
      exact List.getElem?_concat_length
  · exact fun task htask => ⟨hkeep (h.tasks task htask).1, (h.tasks task htask).2⟩
  · exact fun execution hmem => ⟨hkeep (h.executions execution hmem).1, (h.executions execution hmem).2⟩
  · exact fun entry hentry => hanswers entry (h.replyQueue entry hentry)
  · exact fun entry hentry => hanswers entry (h.written entry hentry)

/-- Every step of a connection keeps the labels and the sources, if the replies it hands in are made. -/
theorem step (h : Traced state made shared.world connection) (hw : Coherent made cache shared.world)
    (hmade : HandsIn made connection)
    (hstep : ConnectionStep state cache socket shared connection event shared' connection') :
    Advances made cache shared.world shared'.world ∧ Traced state made shared'.world connection' := by
  cases hstep with
  | read | readEnds | readFails | readBreaks | sendEnds | sendExpires | close | processorReturns | writeFails
  | writeExpires | writerReturns => exact ⟨.inl rfl, { h with }⟩
  | enqueue record => exact ⟨.inl rfl, h.enqueue _ record⟩
  | receive _ _ _ _ _ hqueue =>
    obtain ⟨hlabel, hrest⟩ := List.forall_mem_cons.mp (hqueue ▸ h.queue)
    refine ⟨.inl rfl, { h with queue := hrest, tasks := ?_ }⟩
    exact List.forall_mem_append.mpr ⟨h.tasks, List.forall_mem_singleton.mpr ⟨hlabel, trivial⟩⟩
  | join _ _ _ _ _ _ htasks | dropTask _ _ _ _ htasks => exact ⟨.inl rfl, h.remove htasks⟩
  | joinFailed _ _ _ _ _ _ _ htasks => exact ⟨.inl rfl, { h.remove htasks with }⟩
  | start _ _ _ record htasks =>
    refine ⟨.inl rfl, h.task _ htasks fun _ => ⟨dispatchRecord_traceable _ record, ?_⟩⟩
    rintro _ _ _ ⟨⟩
  | reserveExpires _ _ _ _ _ htasks | replyExpires _ _ _ _ _ _ htasks =>
    exact ⟨.inl rfl, h.task _ htasks fun _ => trivial⟩
  | ask _ _ _ _ history op next _ shared' htasks hserved =>
    have hruns : Runs connection ⟨history, Prog.ask (S := serverSignature) op next⟩ :=
      .inl ⟨_, htasks ▸ List.mem_append_right _ List.mem_cons_self, rfl⟩
    have hthread := Follows.ask (h.mem_task htasks).2 hw hserved (by rintro lease reply rfl; exact hmade _ hruns _ _ _ rfl)
    have hadvances : Advances made cache shared.world shared'.world := advances_of_served hserved
    exact ⟨hadvances, (h.advances hw hadvances).task _ htasks fun _ => hthread⟩
  | spawn _ _ _ record history lease next htasks =>
    obtain ⟨hrecord, hthread⟩ := h.mem_task htasks
    have hspawned : Follows state made shared.world connection.clientAddr record
        ⟨history ++ [⟨.spawn lease, .ok ()⟩], next (.ok ())⟩ := by
      refine ⟨hthread.traceable.2 (.ok ()) trivial, fun key fingerprint receiver hmem => ?_⟩
      rcases List.mem_append.mp hmem with hmem | hmem
      · exact hthread.awaits key fingerprint receiver hmem
      · cases List.mem_singleton.mp hmem
    refine ⟨.inl rfl, { h.task .executing htasks fun _ => trivial with executions := ?_ }⟩
    exact List.forall_mem_append.mpr ⟨h.executions, List.forall_mem_singleton.mpr ⟨hrecord, hspawned⟩⟩
  | handled _ _ _ _ _ reply htasks =>
    exact ⟨.inl rfl, h.task _ htasks fun hthread => hthread.traceable reply rfl⟩
  | rejected _ _ _ _ _ _ htasks =>
    exact ⟨.inl rfl, h.task _ htasks fun _ => .rejected rfl⟩
  | reply _ _ _ record _ _ htasks =>
    refine ⟨.inl rfl, { h.task .finished htasks fun _ => trivial with replyQueue := ?_ }⟩
    exact List.forall_mem_append.mpr ⟨h.replyQueue, List.forall_mem_singleton.mpr ⟨record, h.mem_task htasks⟩⟩
  | dropLease _ _ _ _ _ lease _ _ htasks hlease =>
    have hadvances : Advances made cache shared.world (shared.world.cancel lease) :=
      .inr ⟨_, by nofun, .drop _ lease hlease⟩
    exact ⟨hadvances, (h.advances hw hadvances).remove htasks⟩
  | dropReceiver _ _ _ _ _ receiver _ _ htasks hreceiver =>
    have hadvances : Advances made cache shared.world
        { shared.world with closed := receiver :: shared.world.closed } :=
      .inr ⟨_, by nofun, .close _ receiver hreceiver⟩
    exact ⟨hadvances, (h.advances hw hadvances).remove htasks⟩
  | execute _ _ _ _ lease history op next _ shared' hexecutions hserved =>
    have hruns : Runs connection ⟨history, Prog.ask (S := serverSignature) op next⟩ :=
      .inr ⟨_, hexecutions ▸ List.mem_append_right _ List.mem_cons_self, rfl⟩
    have hthread := (forall_mem_remove h.executions hexecutions).1.2.ask hw hserved
      (by rintro lease reply rfl; exact hmade _ hruns _ _ _ rfl)
    have hadvances : Advances made cache shared.world shared'.world := advances_of_served hserved
    have h' := h.advances hw hadvances
    exact ⟨hadvances,
      { h' with executions := forall_mem_replace h'.executions hexecutions fun hlabel => ⟨hlabel.1, hthread⟩ }⟩
  | prepare _ _ _ _ _ _ completed reply next alloc hexecutions hlease =>
    have hreply : made completed reply :=
      hmade _ (.inr ⟨_, hexecutions ▸ List.mem_append_right _ List.mem_cons_self, rfl⟩) completed reply next rfl
    have hadvances : Advances made cache shared.world (shared.world.prepare cache completed reply alloc) := by
      refine .inr ⟨.prepare completed reply alloc, ?_, .prepare _ completed reply alloc hlease⟩
      rintro _ _ _ ⟨⟩
      exact hreply
    exact ⟨hadvances, h.advances hw hadvances⟩
  | executionExpires _ _ _ _ lease _ _ _ hexecutions =>
    refine ⟨.inl rfl, { h with executions := forall_mem_replace h.executions hexecutions fun hlabel => ?_ }⟩
    exact ⟨hlabel.1, execution_fail_traceable lease _, hlabel.2.awaits⟩
  | executed _ _ _ _ _ _ _ hexecutions =>
    exact ⟨.inl rfl, h.resume hexecutions id⟩
  | aborted _ _ _ _ lease _ _ _ hexecutions hlease =>
    have hadvances : Advances made cache shared.world (shared.world.cancel lease) :=
      .inr ⟨_, by nofun, .drop _ lease hlease⟩
    exact ⟨hadvances, (h.advances hw hadvances).resume hexecutions fun hthread => ⟨.fail _, hthread.awaits⟩⟩
  | write _ _ _ _ _ _ hqueue =>
    obtain ⟨hfirst, hrest⟩ := List.forall_mem_cons.mp (hqueue ▸ h.replyQueue)
    refine ⟨.inl rfl, { h with replyQueue := hrest, written := ?_ }⟩
    exact List.forall_mem_append.mpr ⟨h.written, List.forall_mem_singleton.mpr hfirst⟩

end Traced

/-! ## Runs -/

/-- At the end of a run in which only replies that are made are handed in, the cache holds such replies, and
what the connections hold has its source. -/
theorem traced_of_run {sockets : Nat → Writer} {server server' : ServerState}
    {trace : List (Edge ServerState ServerEvent)} (hstorage : StorageFree made)
    (hmade : ∀ edge ∈ trace, (serverMachine state cache sockets).Reachable edge.source → ∀ index,
      Traced state made edge.source.shared.world (edge.source.connections index) →
      HandsIn made (edge.source.connections index))
    (hstart : (serverMachine state cache sockets).Start server)
    (hrun : (serverMachine state cache sockets).Run server trace server') :
    Coherent made cache server'.shared.world ∧
      ∀ index, Traced state made server'.shared.world (server'.connections index) := by
  refine hrun.keeps_of_mem (P := fun server => Coherent made cache server.shared.world ∧
    ∀ index, Traced state made server.shared.world (server.connections index)) ⟨server, [], hstart, .nil⟩ ?_ ?_
  · rintro ⟨source, event, target⟩ hedge hreach hstep ⟨hw, htraced⟩
    dsimp only at hreach hstep hw htraced ⊢
    have hall : Advances made cache source.shared.world target.shared.world →
        ∀ index, Traced state made target.shared.world (source.connections index) :=
      fun hadvances index => (htraced index).advances hw hadvances
    cases hstep with
    | connection index _ _ _ hstep =>
      obtain ⟨hadvances, hconnection⟩ :=
        (htraced index).step hw (hmade _ hedge hreach index (htraced index)) hstep
      refine ⟨hw.advances hstorage hadvances, fun other => ?_⟩
      by_cases hother : other = index
      · subst hother
        simpa using hconnection
      · simpa [hother] using hall hadvances other
    | tick now hnow =>
      have hadvances : Advances made cache source.shared.world { source.shared.world with clock := now } :=
        .inr ⟨.tick now, nofun, .tick _ now hnow⟩
      exact ⟨hw.advances hstorage hadvances, hall hadvances⟩
    | signal => exact ⟨hw, htraced⟩
  · obtain ⟨⟨clock, hshared⟩, hconnections⟩ := hstart
    refine ⟨hshared ▸ .new clock, fun index => ?_⟩
    obtain ⟨clientAddr, stream, hconnection⟩ := hconnections index
    exact hconnection ▸ .new clientAddr stream

end Origin

end NfsEmbed.Server
