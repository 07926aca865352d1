import NfsEmbed.Laws.Server.Connection
import NfsEmbed.Laws.Server.Header
import NfsEmbed.Server.Portmapper

/-!
# What is no call, and calls of another RPC version

A front end should leave a message alone that is no call, and deny a call of another RPC version for that
reason, whatever follows the version: the rest of the header need not look as it does in version 2. The
portmapper does. The listener decodes the whole header before it looks at the version, and its processor
answers every record.

The laws are `rpc_message_discipline` and, over runs, `written_of_decided`.
-/

namespace NfsEmbed.Server

open Lib Rpc Vfs Replay

/-! ## The discipline -/

/-- What a front end may do about a record: send nothing, or the bytes of a reply. -/
abbrev FrontEnd := Bytes → Option Bytes → Prop

/-- The first two words are there, and the message is no call. -/
def NotCall (record : Bytes) : Prop :=
  ∃ (xid messageType : UInt32) (rest : Bytes), messageType ≠ RPC_CALL ∧
    record = xid.toBeBytes ++ (messageType.toBeBytes ++ rest)

/-- The record starts as a call of this transaction, in another version of RPC. -/
def OtherVersion (xid : UInt32) (record : Bytes) : Prop :=
  ∃ (rpcVersion : UInt32) (rest : Bytes), rpcVersion ≠ 2 ∧
    record = xid.toBeBytes ++ (RPC_CALL.toBeBytes ++ (rpcVersion.toBeBytes ++ rest))

/-- How a front end should treat the record. -/
structure FrontEnd.Disciplined (front : FrontEnd) (record : Bytes) : Prop where
  silent : NotCall record → ∀ sent, front record sent → sent = none
  mismatch : ∀ xid, OtherVersion xid record → ∀ sent, front record sent ↔ sent = some (rpcMismatch xid 2 2)

/-- `reply` in `connection_processor`: what is sent for the outcome of `dispatch_record`. -/
def processed (state : ConnectionState) (record : Bytes) : Except ServerError EncodedReply → EncodedReply
  | .ok reply => reply
  | .error _ => errorReply state (recordXid record) SYSTEM_ERR

def listener (state : ConnectionState) (clientAddr : SocketAddr) : FrontEnd := fun record sent =>
  ∃ history result, (dispatchRecord state clientAddr record).Ends history result ∧
    sent = some (processed state record result).intoBytes

def portmapper (nfsPort mountPort : UInt16) : FrontEnd := fun record sent =>
  sent = Portmapper.dispatchRecord record nfsPort mountPort

/-! ## The portmapper -/

namespace Portmapper

variable {nfsPort mountPort : UInt16}

/-- The decoder has come this far, and this is left. -/
def At (position : Nat) (rest : Bytes) (decoder : Decoder) : Prop :=
  decoder.position = position ∧ decoder.rest = rest

theorem orReturn_readU32 {position : Nat} {value : UInt32} {rest : Bytes} {decoder : Decoder}
    (h : At position (value.toBeBytes ++ rest) decoder) (hposition : position + 4 < usizeBound)
    (answer : Option Bytes) :
    ∃ decoder', At (position + 4) rest decoder' ∧ ∀ next : UInt32 → AnswerM (Option Bytes),
      (orReturn Decoder.readU32 answer >>= next) decoder = next value decoder' := by
  obtain ⟨rfl, hrest⟩ := h
  refine ⟨decoder.advance 4, ⟨rfl, ?_⟩, fun next => ?_⟩
  · rw [← value.length_toBeBytes]
    exact Cursor.rest_advance_of_append hrest
  · rw [ReadM.bind_apply, orReturn, Decoder.readU32_apply hposition hrest]

theorem dispatchRecord_notCall {record : Bytes} (h : NotCall record) :
    dispatchRecord record nfsPort mountPort = none := by
  obtain ⟨xid, messageType, rest, htype, rfl⟩ := h
  have hstart : At 0 (xid.toBeBytes ++ (messageType.toBeBytes ++ rest)) (Decoder.new _) := ⟨rfl, rfl⟩
  obtain ⟨c₁, hc₁, hxid⟩ := orReturn_readU32 hstart (by decide) none
  obtain ⟨c₂, -, hmessageType⟩ := orReturn_readU32 hc₁ (by decide) (some (acceptedReply xid GARBAGE_ARGS []))
  unfold dispatchRecord answer
  rw [hxid, hmessageType, if_pos htype]
  rfl

theorem dispatchRecord_otherVersion {record : Bytes} {xid : UInt32} (h : OtherVersion xid record) :
    dispatchRecord record nfsPort mountPort = some (Server.rpcMismatch xid 2 2) := by
  obtain ⟨rpcVersion, rest, hversion, rfl⟩ := h
  have hstart : At 0 (xid.toBeBytes ++ (RPC_CALL.toBeBytes ++ (rpcVersion.toBeBytes ++ rest))) (Decoder.new _) :=
    ⟨rfl, rfl⟩
  obtain ⟨c₁, hc₁, hxid⟩ := orReturn_readU32 hstart (by decide) none
  obtain ⟨c₂, hc₂, hmessageType⟩ := orReturn_readU32 hc₁ (by decide) (some (acceptedReply xid GARBAGE_ARGS []))
  obtain ⟨c₃, -, hrpcVersion⟩ := orReturn_readU32 hc₂ (by decide) (some (acceptedReply xid GARBAGE_ARGS []))
  unfold dispatchRecord answer
  rw [hxid, hmessageType, if_neg (not_not.mpr rfl)]
  rw [hrpcVersion, if_pos hversion]
  rfl

end Portmapper

/-- The portmapper looks at the version first. -/
theorem portmapper_disciplined (nfsPort mountPort : UInt16) (record : Bytes) :
    (portmapper nfsPort mountPort).Disciplined record where
  silent h sent hsent := by
    rw [hsent]
    exact Portmapper.dispatchRecord_notCall h
  mismatch xid h sent := by
    unfold portmapper
    rw [Portmapper.dispatchRecord_otherVersion h]

/-! ## The listener -/

section Listener

variable {state : ConnectionState} {clientAddr : SocketAddr} {record : Bytes}

/-- A record that is decided without asking anything has one answer. -/
theorem listener_iff_of_early {result : Except ServerError EncodedReply}
    (h : dispatchRecord state clientAddr record = Prog.ofExcept result) (sent : Option Bytes) :
    listener state clientAddr record sent ↔ sent = some (processed state record result).intoBytes := by
  unfold listener
  rw [h]
  constructor
  · intro hsent
    obtain ⟨history, result', hends, rfl⟩ := hsent
    rw [(Prog.ofExcept_ends_iff.mp hends).2]
  · intro hsent
    exact ⟨[], result, Prog.ofExcept_ends_iff.mpr ⟨rfl, rfl⟩, hsent⟩

/-- A record without a whole call header is answered with `SYSTEM_ERR`. -/
theorem listener_of_no_header (h : ∀ header, Decoder.run decodeCallHeader record ≠ .ok (some header))
    (sent : Option Bytes) :
    listener state clientAddr record sent ↔ sent = some (acceptedReply ((recordXid record).getD 0) SYSTEM_ERR []) := by
  have hfails : ∃ error, dispatchRecord state clientAddr record = Prog.ofExcept (.error error) := by
    unfold dispatchRecord
    cases hdecoded : Decoder.run decodeCallHeader record with
    | error => exact ⟨_, rfl⟩
    | ok header =>
      cases header with
      | none => exact ⟨_, rfl⟩
      | some header => exact absurd hdecoded (h header)
  obtain ⟨error, herror⟩ := hfails
  rw [listener_iff_of_early herror, processed, errorReply, intoBytes_reply]

theorem not_header_of_notCall (h : NotCall record) (header : CallHeader) :
    Decoder.run decodeCallHeader record ≠ .ok (some header) := by
  intro hdecoded
  obtain ⟨xid, messageType, rest, htype, hrecord⟩ := h
  rw [(bytes_of_decodeCallHeader hdecoded).2] at hrecord
  obtain ⟨-, hrecord⟩ := List.append_inj hrecord (by simp)
  obtain ⟨hmessageType, -⟩ := List.append_inj hrecord (by simp)
  exact htype (UInt32.toBeBytes_injective hmessageType).symm

/-- Nothing that is no call goes unanswered. -/
theorem listener_answers_notCall (h : NotCall record) :
    listener state clientAddr record (some (acceptedReply ((recordXid record).getD 0) SYSTEM_ERR [])) :=
  (listener_of_no_header (not_header_of_notCall h) _).mpr rfl

theorem header_of_otherVersion {xid : UInt32} (h : OtherVersion xid record) {header : CallHeader}
    (hdecoded : Decoder.run decodeCallHeader record = .ok (some header)) :
    header.xid = xid ∧ header.rpcVersion ≠ 2 := by
  obtain ⟨rpcVersion, rest, hversion, hrecord⟩ := h
  rw [(bytes_of_decodeCallHeader hdecoded).2] at hrecord
  obtain ⟨hxid, hrecord⟩ := List.append_inj hrecord (by simp)
  obtain ⟨-, hrecord⟩ := List.append_inj hrecord (by simp)
  obtain ⟨hrpcVersion, -⟩ := List.append_inj hrecord (by simp)
  exact ⟨UInt32.toBeBytes_injective hxid, UInt32.toBeBytes_injective hrpcVersion ▸ hversion⟩

/-- The header has an empty verifier and a credential that can be decoded. -/
def Presentable (header : CallHeader) : Prop :=
  header.verifierFlavor = AUTH_NONE ∧ header.verifier = [] ∧
    ∃ principal, decodePrincipal header.credentialFlavor header.credentialBody = .ok principal

/-- A whole header of another version is denied for its verifier, for its credential, or for its version. -/
theorem listener_of_header {header : CallHeader} (hdecoded : Decoder.run decodeCallHeader record = .ok (some header))
    (hversion : header.rpcVersion ≠ 2) :
    (Presentable header ∧ ∀ sent, listener state clientAddr record sent ↔ sent = some (rpcMismatch header.xid 2 2)) ∨
    (¬ Presentable header ∧ ∃ status, listener state clientAddr record (some (authError header.xid status))) := by
  have hdispatch : dispatchRecord state clientAddr record = dispatchHeader state clientAddr header := by
    unfold dispatchRecord
    rw [hdecoded]
    rfl
  have hsent : ∀ bytes : Bytes, dispatchHeader state clientAddr header = Prog.ofExcept (.ok (state.reply bytes)) →
      ∀ sent, listener state clientAddr record sent ↔ sent = some bytes := by
    intro bytes hreply sent
    rw [listener_iff_of_early (hdispatch.trans hreply), processed, intoBytes_reply]
  unfold dispatchHeader at hsent
  by_cases hverifier : header.verifierFlavor ≠ AUTH_NONE ∨ header.verifier ≠ []
  · refine .inr ⟨fun h => ?_, 3, (hsent _ (if_pos hverifier) _).mpr rfl⟩
    exact hverifier.elim (absurd h.1) (absurd h.2.1)
  · rw [if_neg hverifier] at hsent
    simp only [ne_eq, not_or, Decidable.not_not] at hverifier
    cases hprincipal : decodePrincipal header.credentialFlavor header.credentialBody with
    | error =>
      rw [hprincipal] at hsent
      refine .inr ⟨fun h => ?_, 1, (hsent _ rfl _).mpr rfl⟩
      obtain ⟨-, -, principal, h⟩ := h
      rw [hprincipal] at h
      cases h
    | ok principal =>
      rw [hprincipal] at hsent
      exact .inl ⟨⟨hverifier.1, hverifier.2, principal, hprincipal⟩, hsent _ (if_pos hversion)⟩

end Listener

/-! ## Which records the listener treats as it should -/

/-- The record is no message other than a call, and if it starts as a call in another version of RPC, the
rest of its header is one that version 2 could have. -/
structure Understood (record : Bytes) : Prop where
  call : ¬ NotCall record
  header : ∀ xid, OtherVersion xid record → ∃ header,
    Decoder.run decodeCallHeader record = .ok (some header) ∧ Presentable header

theorem words_injective : Function.Injective words := by
  intro values values' h
  have hlength := congrArg List.length h
  simp only [words, List.length_flatMap, UInt32.length_toBeBytes, List.map_const', List.sum_replicate,
    smul_eq_mul] at hlength
  have hsame : values.flatMap UInt32.toBeBytes ++ [] = values'.flatMap UInt32.toBeBytes ++ [] :=
    congrArg (· ++ []) h
  exact (flatMap_append_inj UInt32.length_toBeBytes UInt32.toBeBytes_injective (by omega) hsame).1

theorem rpcMismatch_ne_acceptedReply (xid xid' status : UInt32) : acceptedReply xid' status [] ≠ rpcMismatch xid 2 2 := by
  intro h
  rw [acceptedReply, List.append_nil] at h
  have := words_injective h
  simp [MSG_ACCEPTED] at this

theorem rpcMismatch_ne_authError (xid xid' status : UInt32) : authError xid' status ≠ rpcMismatch xid 2 2 := by
  intro h
  have := words_injective h
  simp at this

/-- The listener keeps to it for records that it gets through, and no others. -/
theorem listener_disciplined_iff (state : ConnectionState) (clientAddr : SocketAddr) (record : Bytes) :
    (listener state clientAddr).Disciplined record ↔ Understood record := by
  constructor
  · intro h
    refine ⟨fun hcall => ?_, fun xid hother => ?_⟩
    · cases h.silent hcall _ (listener_answers_notCall hcall)
    · by_cases hheader : ∃ header, Decoder.run decodeCallHeader record = .ok (some header)
      · obtain ⟨header, hdecoded⟩ := hheader
        obtain ⟨-, hversion⟩ := header_of_otherVersion hother hdecoded
        rcases @listener_of_header state clientAddr _ _ hdecoded hversion with ⟨hpresentable, -⟩ | ⟨-, status, hsent⟩
        · exact ⟨header, hdecoded, hpresentable⟩
        · have hsame := Option.some.inj ((h.mismatch xid hother _).mp hsent)
          exact absurd hsame (rpcMismatch_ne_authError _ _ _)
      · have hsent := (@listener_of_no_header state clientAddr _ (not_exists.mp hheader) _).mpr rfl
        have hsame := Option.some.inj ((h.mismatch xid hother _).mp hsent)
        exact absurd hsame (rpcMismatch_ne_acceptedReply _ _ _)
  · intro h
    refine ⟨fun hcall => absurd hcall h.call, fun xid hother sent => ?_⟩
    obtain ⟨header, hdecoded, hpresentable⟩ := h.header xid hother
    obtain ⟨rfl, hversion⟩ := header_of_otherVersion hother hdecoded
    rcases @listener_of_header state clientAddr _ _ hdecoded hversion with ⟨-, hsent⟩ | ⟨hnot, -⟩
    · exact hsent sent
    · exact absurd hpresentable hnot

/-- The portmapper treats every record as it should. The listener does so exactly for the records that it
understands: none of those that are no calls, and of those in another version of RPC the ones whose header
is complete, with an empty verifier and a credential that can be decoded. -/
theorem rpc_message_discipline (state : ConnectionState) (clientAddr : SocketAddr) (nfsPort mountPort : UInt16)
    (record : Bytes) :
    (portmapper nfsPort mountPort).Disciplined record ∧
      ((listener state clientAddr).Disciplined record ↔ Understood record) :=
  ⟨portmapper_disciplined nfsPort mountPort record, listener_disciplined_iff state clientAddr record⟩

/-! ## On the socket

The processor hands the record to a task, and the answer of the task to the writer. For records that are
decided without asking anything, what the writer sends in any run is what the front end answers. -/

section Runs

variable {state : ConnectionState} {cache : ReplayCache} {clientAddr : SocketAddr}

/-- The record is decided by looking at it. -/
def Decided (state : ConnectionState) (clientAddr : SocketAddr) (record : Bytes)
    (result : Except ServerError EncodedReply) : Prop :=
  dispatchRecord state clientAddr record = Prog.ofExcept result

/-- A task of such a record goes straight to its answer. -/
def TaskPhase.Straight (state : ConnectionState) (record : Bytes) (result : Except ServerError EncodedReply) :
    TaskPhase → Prop
  | .handling thread => thread.program = Prog.ofExcept result
  | .executing => False
  | .replying reply => reply = processed state record result
  | _ => True

/-- The reply is the answer to its record, if that was decided. -/
def StraightReply (state : ConnectionState) (connection : Connection) (entry : Nat × EncodedReply) : Prop :=
  ∀ record result, connection.queued[entry.1]? = some record → Decided state connection.clientAddr record result →
    entry.2 = processed state record result

structure Straight (state : ConnectionState) (connection : Connection) : Prop where
  tasks : ∀ task ∈ connection.tasks, ∀ result, Decided state connection.clientAddr task.record result →
    task.phase.Straight state task.record result
  executions : ∀ execution ∈ connection.executions, ∀ result,
    ¬ Decided state connection.clientAddr execution.record result
  replyQueue : ∀ entry ∈ connection.replyQueue, StraightReply state connection entry
  written : ∀ entry ∈ connection.written, StraightReply state connection entry

theorem ask_ne_ofExcept {op : ServerOp} {next : op.Answer → ServerM EncodedReply}
    {result : Except ServerError EncodedReply} :
    (Prog.ask (S := serverSignature) op next : ServerM EncodedReply) ≠ Prog.ofExcept result := by
  cases result <;> exact nofun

namespace Straight

variable {connection connection' : Connection} {shared shared' : Shared} {socket : Writer} {event : ConnectionEvent}

/-- A task goes on. -/
theorem task (h : Straight state connection) {before after : List Task} {number : Nat} {record : Bytes}
    {phase : TaskPhase} (phase' : TaskPhase) (htasks : connection.tasks = before ++ ⟨number, record, phase⟩ :: after)
    (hphase : ∀ result, Decided state connection.clientAddr record result →
      phase.Straight state record result → phase'.Straight state record result) :
    Straight state { connection with tasks := before ++ ⟨number, record, phase'⟩ :: after } :=
  { h with tasks := forall_mem_replace h.tasks htasks fun hlabel result hdecided =>
      hphase result hdecided (hlabel result hdecided) }

theorem resume (h : Straight state connection) {executions : List Execution}
    (hexecutions : ∀ execution ∈ executions, execution ∈ connection.executions) (number : Nat) (thread : Thread) :
    Straight state { connection with executions, tasks := connection.tasks.map (Task.resume number thread) } := by
  refine { h with
    tasks := ?_
    executions := fun execution hmem => h.executions execution (hexecutions execution hmem) }
  intro task htask result hdecided
  obtain ⟨task, hmem, rfl⟩ := List.mem_map.mp htask
  have hrecord : (task.resume number thread).record = task.record := by
    unfold Task.resume
    split
    next => split <;> rfl
    next => rfl
  rw [hrecord] at hdecided ⊢
  have hstraight := h.tasks task hmem result hdecided
  unfold Task.resume
  split
  next hphase =>
    rw [hphase] at hstraight
    exact hstraight.elim
  next => exact hstraight

theorem enqueue (h : Straight state connection) (hlabels : Labelled state shared.world connection) (reader : ReaderPhase)
    (record : Bytes) : Straight state { connection with
      reader
      queued := connection.queued ++ [record]
      queue := connection.queue ++ [(connection.queued.length, record)] } := by
  have hkeep : ∀ entry, Origin.Answers state (Proper state) connection.clientAddr connection.queued entry → StraightReply state connection entry →
      ∀ record' result, (connection.queued ++ [record])[entry.1]? = some record' →
        Decided state connection.clientAddr record' result → entry.2 = processed state record' result := by
    intro entry hanswer hstraight record' result hlookup hdecided
    obtain ⟨old, hold, -⟩ := hanswer
    obtain ⟨hlt, -⟩ := List.getElem?_eq_some_iff.mp hold
    rw [List.getElem?_append_left hlt] at hlookup
    exact hstraight record' result hlookup hdecided
  exact { h with
    replyQueue := fun entry hentry => hkeep entry (hlabels.replyQueue entry hentry) (h.replyQueue entry hentry)
    written := fun entry hentry => hkeep entry (hlabels.written entry hentry) (h.written entry hentry) }

theorem step (h : Straight state connection) (hlabels : Labelled state shared.world connection)
    (hstep : ConnectionStep state cache socket shared connection event shared' connection') :
    Straight state connection' := by
  cases hstep with
  | read | readEnds | readFails | readBreaks | sendEnds | sendExpires | close | processorReturns | writeFails
  | writeExpires | writerReturns | prepare => exact { h with }
  | enqueue record => exact h.enqueue hlabels _ record
  | receive =>
    exact { h with tasks := List.forall_mem_append.mpr ⟨h.tasks, List.forall_mem_singleton.mpr fun _ _ => trivial⟩ }
  | join _ _ _ _ _ _ htasks | dropTask _ _ _ _ htasks =>
    exact { h with tasks := (forall_mem_remove h.tasks htasks).2 }
  | joinFailed _ _ _ _ _ _ _ htasks | dropLease _ _ _ _ _ _ _ _ htasks | dropReceiver _ _ _ _ _ _ _ _ htasks =>
    exact { h with tasks := (forall_mem_remove h.tasks htasks).2 }
  | start _ _ _ _ htasks => exact h.task _ htasks fun result hdecided _ => hdecided
  | reserveExpires _ _ _ _ _ htasks | replyExpires _ _ _ _ _ _ htasks => exact h.task _ htasks fun _ _ _ => trivial
  | ask _ _ _ _ _ _ _ _ _ htasks =>
    exact h.task _ htasks fun result _ hphase => absurd hphase ask_ne_ofExcept
  | spawn _ _ _ record _ _ _ htasks =>
    have hundecided : ∀ result, ¬ Decided state connection.clientAddr record result := fun result hdecided =>
      absurd ((forall_mem_remove h.tasks htasks).1 result hdecided) ask_ne_ofExcept
    refine { h.task .executing htasks fun result hdecided _ => hundecided result hdecided with executions := ?_ }
    exact List.forall_mem_append.mpr ⟨h.executions, List.forall_mem_singleton.mpr hundecided⟩
  | handled _ _ _ _ _ _ htasks =>
    refine h.task _ htasks fun result _ hphase => ?_
    cases result with
    | ok =>
      cases hphase
      rfl
    | error => cases hphase
  | rejected _ _ _ _ _ error htasks =>
    refine h.task _ htasks fun result _ hphase => ?_
    cases result with
    | ok => cases hphase
    | error => rfl
  | reply _ _ number _ reply _ htasks =>
    obtain ⟨hrecord, -⟩ := hlabels.mem_task htasks
    have hreply : StraightReply state connection (number, reply) := by
      intro record' result hlookup hdecided
      rw [hrecord] at hlookup
      cases hlookup
      exact (forall_mem_remove h.tasks htasks).1 result hdecided
    refine { h.task .finished htasks fun _ _ _ => trivial with replyQueue := ?_ }
    exact List.forall_mem_append.mpr ⟨h.replyQueue, List.forall_mem_singleton.mpr hreply⟩
  | execute _ _ _ _ _ _ _ _ _ _ hexecutions | executionExpires _ _ _ _ _ _ _ _ hexecutions =>
    exact { h with executions := forall_mem_replace h.executions hexecutions id }
  | executed _ _ number _ _ _ _ hexecutions | aborted _ _ number _ _ _ _ _ hexecutions =>
    exact h.resume (mem_of_mem_remove hexecutions) number _
  | write _ _ _ _ _ _ hqueue =>
    obtain ⟨hfirst, hrest⟩ := List.forall_mem_cons.mp (hqueue ▸ h.replyQueue)
    exact { h with
      replyQueue := hrest
      written := List.forall_mem_append.mpr ⟨h.written, List.forall_mem_singleton.mpr hfirst⟩ }

end Straight

/-- In every state of the server, what stands on a socket for a decided record is the listener's answer. -/
theorem written_of_decided {sockets : Nat → Writer} {server : ServerState}
    (hreach : (serverMachine state cache sockets).Reachable server) (index : Nat) {number : Nat} {reply : EncodedReply}
    (hwritten : (number, reply) ∈ (server.connections index).written) {record : Bytes}
    (hrecord : (server.connections index).queued[number]? = some record) {result : Except ServerError EncodedReply}
    (hdecided : Decided state (server.connections index).clientAddr record result) :
    listener state (server.connections index).clientAddr record (some reply.intoBytes) := by
  have hstraight : Straight state (server.connections index) := by
    refine connections_invariant (P := Straight state) ?_ ?_ hreach index
    · intro clientAddr stream
      constructor <;> exact nofun
    · intro index shared shared' connection connection' event hlabels h hstep
      exact h.step hlabels hstep
  have hreply : reply = processed state record result := hstraight.written _ hwritten record result hrecord hdecided
  rw [listener_iff_of_early hdecided, hreply]

end Runs

theorem written_of_decided_short : ∃ server : ServerState,
    (serverMachine sampleState Sample.cache sampleSockets).Reachable server ∧
    (0, shortReply) ∈ (server.connections 0).written ∧
    listener sampleState (server.connections 0).clientAddr shortRecord (some shortReply.intoBytes) := by
  obtain ⟨output, trace, hrun, -⟩ := Gets.finished
  have hreach := (⟨_, trace, ⟨⟨0, rfl⟩, fun _ => ⟨_, _, rfl⟩⟩, hrun⟩ :
    (serverMachine sampleState Sample.cache sampleSockets).Reachable _)
  have hdecided : Decided sampleState (.v4 0 700) shortRecord (.error (.decode .truncated)) := rfl
  have hwritten := @written_of_decided sampleState Sample.cache sampleSockets _ hreach 0 0 shortReply
  dsimp only at hwritten
  rw [Function.update_self] at hwritten
  refine ⟨_, hreach, ?_, ?_⟩
  all_goals
    dsimp only
    rw [Function.update_self]
  · exact List.mem_cons_self
  · exact hwritten List.mem_cons_self rfl hdecided

-- the records are dispatched by evaluating the decoders
set_option maxRecDepth 20000

/-- A message of type reply, a call of version 99 that ends after the version, and one with a verifier:
the listener answers the first two with `SYSTEM_ERR` and denies the third for its verifier. -/
theorem listener_undisciplined :
    (listener sampleState (.v4 0 700) (words [7, RPC_REPLY]) (some (words [7, RPC_REPLY, MSG_ACCEPTED, 0, 0, SYSTEM_ERR])) ∧
      ¬ (listener sampleState (.v4 0 700)).Disciplined (words [7, RPC_REPLY])) ∧
    (listener sampleState (.v4 0 700) (words [7, RPC_CALL, 99])
        (some (words [7, RPC_REPLY, MSG_ACCEPTED, 0, 0, SYSTEM_ERR])) ∧
      ¬ (listener sampleState (.v4 0 700)).Disciplined (words [7, RPC_CALL, 99])) ∧
    (listener sampleState (.v4 0 700) (words [7, RPC_CALL, 99, 100003, 3, 0, AUTH_NONE, 0, AUTH_NONE, 4, 0])
        (some (words [7, RPC_REPLY, 1, 1, 3])) ∧
      ¬ (listener sampleState (.v4 0 700)).Disciplined
        (words [7, RPC_CALL, 99, 100003, 3, 0, AUTH_NONE, 0, AUTH_NONE, 4, 0])) := by
  have hmismatch : ∀ {record bytes : Bytes}, OtherVersion 7 record →
      listener sampleState (.v4 0 700) record (some bytes) → bytes ≠ rpcMismatch 7 2 2 →
      ¬ (listener sampleState (.v4 0 700)).Disciplined record := by
    intro record bytes hother hsent hne h
    exact hne (Option.some.inj ((h.mismatch 7 hother _).mp hsent))
  have hreply : listener sampleState (.v4 0 700) (words [7, RPC_REPLY])
      (some (words [7, RPC_REPLY, MSG_ACCEPTED, 0, 0, SYSTEM_ERR])) := ⟨[], _, .fail _, rfl⟩
  have hshort : listener sampleState (.v4 0 700) (words [7, RPC_CALL, 99])
      (some (words [7, RPC_REPLY, MSG_ACCEPTED, 0, 0, SYSTEM_ERR])) := ⟨[], _, .fail _, rfl⟩
  have hverifier : listener sampleState (.v4 0 700)
      (words [7, RPC_CALL, 99, 100003, 3, 0, AUTH_NONE, 0, AUTH_NONE, 4, 0]) (some (words [7, RPC_REPLY, 1, 1, 3])) :=
    ⟨[], _, .done _, rfl⟩
  refine ⟨⟨hreply, fun h => ?_⟩, ⟨hshort, hmismatch ⟨99, [], by decide, by simp [words]⟩ hshort (by decide)⟩,
    ⟨hverifier, hmismatch ⟨99, words [100003, 3, 0, AUTH_NONE, 0, AUTH_NONE, 4, 0], by decide, rfl⟩ hverifier (by decide)⟩⟩
  cases h.silent ⟨7, RPC_REPLY, [], by decide, by simp [words]⟩ _ hreply

/-- A complete call of version 99 is denied as it should be. -/
theorem rpc_message_discipline_version :
    OtherVersion 7 (words [7, RPC_CALL, 99, 100003, 3, 0, AUTH_NONE, 0, AUTH_NONE, 0]) ∧
      (listener sampleState (.v4 0 700)).Disciplined
        (words [7, RPC_CALL, 99, 100003, 3, 0, AUTH_NONE, 0, AUTH_NONE, 0]) := by
  refine ⟨⟨99, words [100003, 3, 0, AUTH_NONE, 0, AUTH_NONE, 0], by decide, rfl⟩, ?_⟩
  refine (rpc_message_discipline _ _ 2049 2049 _).2.mpr ⟨fun h => ?_, fun xid _ => ?_⟩
  · exact not_header_of_notCall h ⟨7, 99, 100003, 3, 0, AUTH_NONE, [], AUTH_NONE, [], []⟩ rfl
  · exact ⟨⟨7, 99, 100003, 3, 0, AUTH_NONE, [], AUTH_NONE, [], []⟩, rfl, rfl, rfl, .anonymous, rfl⟩

end NfsEmbed.Server
