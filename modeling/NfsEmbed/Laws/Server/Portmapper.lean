import NfsEmbed.Laws.Rpc.Record
import NfsEmbed.Laws.Server.Discipline

/-!
# What the portmapper sends

Its replies are short, so that the writer never refuses one. While a connection is served, its socket has
the replies to the records that were handled, in their order and nothing else.

The law is `sent_of_reachable`. When a connection has failed, a part of a reply may have been sent.
-/

namespace NfsEmbed.Server.Portmapper

open Lib Rpc

variable {nfsPort mountPort : UInt16}

/-! ## The length of a reply -/

/-- The longest reply has a header of six words, and a body of two. -/
def MAX_REPLY_SIZE : Nat := 32

def ShortAnswer (answer : Option Bytes) : Prop := ∀ reply ∈ answer, reply.length ≤ MAX_REPLY_SIZE

/-- Whatever the decoder holds, the function returns a short answer. -/
def AnswersShort (m : AnswerM (Option Bytes)) : Prop :=
  ∀ decoder, match m decoder with
    | .ok answer _ => ShortAnswer answer
    | .error answer _ => ShortAnswer answer

theorem ShortAnswer.none : ShortAnswer none := nofun

theorem ShortAnswer.accepted (xid status : UInt32) {body : Bytes} (h : body.length ≤ 8) :
    ShortAnswer (some (acceptedReply xid status body)) := by
  intro reply hreply
  cases hreply
  simp only [acceptedReply, acceptedReplyEncoder, words, List.length_append, List.length_flatMap,
    UInt32.length_toBeBytes, List.map_const', List.sum_replicate, smul_eq_mul, List.length_cons, List.length_nil]
  unfold MAX_REPLY_SIZE
  omega

theorem ShortAnswer.authError (xid status : UInt32) : ShortAnswer (some (authError xid status)) := by
  intro reply hreply
  cases hreply
  simp [Server.authError, words, MAX_REPLY_SIZE]

theorem AnswersShort.pure {answer : Option Bytes} (h : ShortAnswer answer) : AnswersShort (Pure.pure answer) :=
  fun _ => h

theorem AnswersShort.orReturn {α : Type} {decode : DecodeM α} {answer : Option Bytes}
    {next : α → AnswerM (Option Bytes)} (hanswer : ShortAnswer answer) (hnext : ∀ value, AnswersShort (next value)) :
    AnswersShort (orReturn decode answer >>= next) := by
  intro decoder
  rw [ReadM.bind_apply, Portmapper.orReturn]
  cases decode decoder with
  | ok value decoder => exact hnext value decoder
  | error => exact hanswer

theorem AnswersShort.ite {p : Prop} [Decidable p] {m m' : AnswerM (Option Bytes)} (h : AnswersShort m)
    (h' : AnswersShort m') : AnswersShort (if p then m else m') := by
  split
  · exact h
  · exact h'

theorem dispatchProcedure_short (xid procedure : UInt32) (args : Bytes) :
    ShortAnswer (dispatchProcedure xid procedure args nfsPort mountPort) := by
  have hstatus : ∀ status, ShortAnswer (some (acceptedReply xid status [])) := fun status =>
    .accepted xid status (by decide)
  unfold dispatchProcedure
  split
  · split
    · exact hstatus _
    · exact hstatus _
  · split
    · split
      · exact hstatus _
      · exact .accepted xid _ (by simp)
    · exact hstatus _

theorem answer_short : AnswersShort (answer nfsPort mountPort) := by
  unfold answer
  refine .orReturn .none fun xid => ?_
  have hgarbage : ShortAnswer (some (acceptedReply xid GARBAGE_ARGS [])) := .accepted xid _ (by decide)
  refine .orReturn hgarbage fun messageType => .ite (.pure .none) ?_
  refine .orReturn hgarbage fun rpcVersion => .ite (.pure ?_) ?_
  · intro reply hreply
    cases hreply
    simp [rpcMismatch, Server.rpcMismatch, words, MAX_REPLY_SIZE]
  refine .orReturn hgarbage fun program => .orReturn hgarbage fun version => .orReturn hgarbage fun procedure =>
    .orReturn hgarbage fun credentialFlavor => .orReturn (.authError xid _) fun credential =>
    .ite (.pure (.authError xid _)) ?_
  refine .orReturn (.authError xid _) fun verifierFlavor => .orReturn (.authError xid _) fun verifier =>
    .ite (.pure (.authError xid _)) ?_
  refine .ite (.pure (.accepted xid _ (by decide))) (.ite (.pure (.accepted xid _ (by simp [words]))) ?_)
  exact fun decoder => dispatchProcedure_short xid procedure decoder.rest

/-- Every reply is short. -/
theorem dispatchRecord_short (record : Bytes) : ShortAnswer (dispatchRecord record nfsPort mountPort) := by
  have h := @answer_short nfsPort mountPort (Decoder.new record)
  unfold dispatchRecord
  cases hanswer : answer nfsPort mountPort (Decoder.new record) with
  | ok | error =>
    rw [hanswer] at h
    exact h

/-! ## Connections -/

/-- The replies as they stand on the socket. -/
def wire (handled : List (Bytes × Option Bytes)) : Bytes :=
  (handled.filterMap Prod.snd).flatMap (marked recordLimits.maxFragmentSize (by decide))

theorem reply_emits {record reply : Bytes} (h : dispatchRecord record nfsPort mountPort = some reply) (socket : Writer) :
    socket.Emits (socket.writeRecordLimited reply recordLimits)
      (marked recordLimits.maxFragmentSize (by decide) reply) := by
  have hlength : reply.length ≤ MAX_REPLY_SIZE := dispatchRecord_short record reply h
  have hrecord : reply.length ≤ recordLimits.maxRecordSize := Nat.le_trans hlength (by decide)
  refine Writer.writeRecordLimited_emits (by decide) (by decide) (validateRecordLength_ok_iff.mpr ⟨hrecord, ?_, by decide⟩)
  unfold fragmentCount
  split
  · decide
  · rw [if_neg (by decide), Nat.div_le_iff_le_mul_add_pred (by decide)]
    exact Nat.le_trans (Nat.add_le_add_right hlength _) (by decide)

structure Sent (nfsPort mountPort : UInt16) (connection : TcpConnection) : Prop where
  replies : ∀ entry ∈ connection.handled, entry.2 = dispatchRecord entry.1 nfsPort mountPort
  output : (∀ error, connection.phase ≠ .failed error) → connection.output = wire connection.handled

theorem Sent.step {socket : Writer} {connection connection' : TcpConnection} (h : Sent nfsPort mountPort connection)
    (hstep : TcpStep nfsPort mountPort socket connection () connection') : Sent nfsPort mountPort connection' := by
  have hserving : connection.phase = .serving → connection.output = wire connection.handled := fun hphase =>
    h.output fun error => by rw [hphase]; exact nofun
  cases hstep with
  | reply _ _ _ output hphase _ hreply hwrite =>
    refine ⟨List.forall_mem_append.mpr ⟨h.replies, List.forall_mem_singleton.mpr hreply.symm⟩, fun _ => ?_⟩
    have houtput := (reply_emits hreply socket connection.output).1 output hwrite
    rw [houtput, hserving hphase]
    simp [wire]
  | drop _ _ hphase _ hnone =>
    refine ⟨List.forall_mem_append.mpr ⟨h.replies, List.forall_mem_singleton.mpr hnone.symm⟩, fun _ => ?_⟩
    show connection.output = _
    rw [hserving hphase]
    simp [wire]
  | ends hphase => exact ⟨h.replies, fun _ => hserving hphase⟩
  | readFails | writeFails | writeExpires => exact ⟨h.replies, fun hne => absurd rfl (hne _)⟩

/-- In every run of a connection, a message that is no call has no reply on the socket, and a call in
another version of RPC is denied. -/
theorem sent_of_reachable {socket : Writer} {connection : TcpConnection}
    (hreach : (tcpMachine nfsPort mountPort socket).Reachable connection) :
    Sent nfsPort mountPort connection ∧
      ∀ record reply, (record, reply) ∈ connection.handled →
        (NotCall record → reply = none) ∧
        ∀ xid, OtherVersion xid record → reply = some (Server.rpcMismatch xid 2 2) := by
  have hsent : Sent nfsPort mountPort connection := by
    refine hreach.invariant (I := Sent nfsPort mountPort) ?_ fun connection _ connection' h hstep => h.step hstep
    intro connection hstart
    obtain ⟨-, hhandled, houtput⟩ := hstart
    exact ⟨by rw [hhandled]; exact nofun, fun _ => by rw [houtput, hhandled]; rfl⟩
  refine ⟨hsent, fun record reply hmem => ?_⟩
  have hreply : reply = dispatchRecord record nfsPort mountPort := hsent.replies _ hmem
  subst hreply
  exact ⟨dispatchRecord_notCall, fun xid => dispatchRecord_otherVersion⟩

/-- A reply, which is left alone, and a call in version 3 of RPC. -/
theorem sent_of_reachable_denied : ∃ connection : TcpConnection,
    (tcpMachine 2049 20048 (byteWriter true)).Reachable connection ∧
    connection.handled = [([0, 0, 0, 7, 0, 0, 0, 1], none),
      ([0, 0, 0, 8, 0, 0, 0, 0, 0, 0, 0, 3], some (Server.rpcMismatch 8 2 2))] ∧
    connection.output = wire connection.handled := by
  let start : TcpConnection :=
    ⟨fragment [0, 0, 0, 7, 0, 0, 0, 1] true ++ fragment [0, 0, 0, 8, 0, 0, 0, 0, 0, 0, 0, 3] true, .serving, [], []⟩
  have hcall : dispatchRecord [0, 0, 0, 8, 0, 0, 0, 0, 0, 0, 0, 3] 2049 20048 = some (Server.rpcMismatch 8 2 2) := by
    decide +kernel
  have hwrite := (reply_emits hcall (byteWriter true) []).2 (byteWriter_willing true)
  have hdrop : TcpStep 2049 20048 (byteWriter true) start () _ :=
    .drop start [0, 0, 0, 7, 0, 0, 0, 1] (fragment [0, 0, 0, 8, 0, 0, 0, 0, 0, 0, 0, 3] true) rfl
      (by decide +kernel) (by decide +kernel)
  have hreply : TcpStep 2049 20048 (byteWriter true) _ () _ :=
    .reply { start with
      stream := fragment [0, 0, 0, 8, 0, 0, 0, 0, 0, 0, 0, 3] true
      handled := [([0, 0, 0, 7, 0, 0, 0, 1], none)] } _ [] _ _ rfl (by decide +kernel) hcall hwrite
  have hreach : (tcpMachine 2049 20048 (byteWriter true)).Reachable _ :=
    ⟨start, _, ⟨rfl, rfl, rfl⟩, (Machine.Run.nil.snoc hdrop).snoc hreply⟩
  exact ⟨_, hreach, rfl, (sent_of_reachable hreach).1.output nofun⟩

end NfsEmbed.Server.Portmapper
