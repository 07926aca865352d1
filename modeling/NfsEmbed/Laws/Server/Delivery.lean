import NfsEmbed.Laws.Server.Connection

/-!
# The writer never meets a reply it cannot send

Replies are made in many places and come back from the cache, but each of them is within the outbound
limits before it reaches the reply queue: those an execution makes are checked there, the others are
shorter than any limit the configuration may set.

The law is `replies_pass_writer_checks`. The socket may still fail.
-/

namespace NfsEmbed.Server

open Lib Rpc Replay

variable {state : ConnectionState} {cache : ReplayCache}

/-- The checks `write_record_segments_limited` makes before it writes. -/
def Writable (limits : RecordLimits) (reply : EncodedReply) : Prop :=
  ∃ length, Writer.segmentsLength [reply.segments.1, reply.segments.2.1, reply.segments.2.2] = some length ∧
    validateRecordLength length limits = .ok ()

theorem Deliverable.writable {xid : UInt32} {reply : EncodedReply} (h : Deliverable state xid reply) :
    Writable state.limits.recordLimits reply := by
  have hfits := h.fits
  rw [← EncodedReply.length_intoBytes] at hfits
  refine ⟨reply.intoBytes.length, ?_, hfits⟩
  have hle := (validateRecordLength_ok_iff.mp hfits).1
  have hlimit := state.limits.recordLimits.maxRecordSize_le
  rw [Writer.segmentsLength_eq, EncodedReply.segments_eq_intoBytes]
  apply if_pos
  unfold usizeMax usizeBound at *
  omega

/-- A writer that failed had an error of the socket or no time left. -/
def WriterSound (connection : Connection) : Prop :=
  ∀ error, connection.writer = .failed (.record error) → ∃ kind, error = .io kind

/-- No step makes the writer meet a reply that it refuses. -/
theorem WriterSound.step {socket : Writer} {shared shared' : Shared} {connection connection' : Connection}
    {event : ConnectionEvent} (hlimits : state.limits.Usable) (h : WriterSound connection)
    (hlabels : Labelled state shared.world connection)
    (hstep : ConnectionStep state cache socket shared connection event shared' connection') :
    WriterSound connection' := by
  cases hstep with
  | writeFails _ _ _ _ _ _ _ hqueue hwrite =>
    intro error' herror
    obtain ⟨record, -, hsource⟩ := (List.forall_mem_cons.mp (hqueue ▸ hlabels.replyQueue)).1
    have hfits := (hsource.deliverable hlimits).fits
    rw [← EncodedReply.length_intoBytes, ← EncodedReply.segments_eq_intoBytes] at hfits
    cases herror
    exact (Writer.writeRecordSegmentsLimited_writes hlimits.fragment hlimits.fragment_le hfits).failsIo _ _ _ hwrite
  | writeExpires | writerReturns =>
    intro error herror
    cases herror
  | _ => exact h

/-- In every state of the server, each reply that was handed to a writer passes the writer's checks, no
writer has ended with an error about a size or a fragment count, and the reply that stands in for one
that is too large is within the limits. -/
theorem replies_pass_writer_checks (state : ConnectionState) (hlimits : state.limits.validate = .ok ())
    (cache : ReplayCache) (sockets : Nat → Writer) (server : ServerState)
    (hreach : (serverMachine state cache sockets).Reachable server) :
    (∀ index, ∀ entry ∈ (server.connections index).replyQueue ++ (server.connections index).written,
      Writable state.limits.recordLimits entry.2) ∧
    (∀ index error, (server.connections index).writer = .failed (.record error) → ∃ kind, error = .io kind) ∧
    (∀ xid, validateRecordLength (state.reply (acceptedReply xid SYSTEM_ERR [])).len state.limits.recordLimits =
      .ok ()) := by
  have husable := ServerLimits.usable_of_validate hlimits
  refine ⟨fun index entry hentry => ?_, ?_, fun xid => ?_⟩
  · have hlabels := (labelled_of_reachable hreach).2 index
    rcases List.mem_append.mp hentry with hentry | hentry
    · obtain ⟨record, -, hsource⟩ := hlabels.replyQueue entry hentry
      exact (hsource.deliverable husable).writable
    · obtain ⟨record, -, hsource⟩ := hlabels.written entry hentry
      exact (hsource.deliverable husable).writable
  · refine connections_invariant (P := WriterSound) ?_ ?_ hreach
    · intro clientAddr stream error herror
      cases herror
    · intro index shared shared' connection connection' event hlabels h hstep
      exact h.step husable hlabels hstep
  · exact (deliverable_short husable (words [RPC_REPLY, MSG_ACCEPTED, AUTH_NONE, 0, SYSTEM_ERR])
      (List.append_nil _) (by simp [words])).fits

theorem replies_pass_writer_checks_short : ∃ server : ServerState,
    (serverMachine sampleState Sample.cache sampleSockets).Reachable server ∧
      (server.connections 0).written = [(0, shortReply)] ∧
      Writable sampleState.limits.recordLimits shortReply := by
  obtain ⟨output, trace, hrun, -⟩ := Gets.finished
  have hreach : (serverMachine sampleState Sample.cache sampleSockets).Reachable _ :=
    ⟨_, trace, ⟨⟨0, rfl⟩, fun _ => ⟨_, _, rfl⟩⟩, hrun⟩
  have hchecks := (replies_pass_writer_checks sampleState ServerLimits.validate_productionDefaults Sample.cache
    sampleSockets _ hreach).1 0
  dsimp only at hchecks
  rw [Function.update_self] at hchecks
  refine ⟨_, hreach, ?_, hchecks (0, shortReply) List.mem_cons_self⟩
  dsimp only
  rw [Function.update_self]

end NfsEmbed.Server
