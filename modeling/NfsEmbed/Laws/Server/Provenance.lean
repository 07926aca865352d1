import NfsEmbed.Laws.Server.AtMostOnce

/-!
# Every reply is to the request it answers

A reply on a socket was made from the record alone, is the error that stands for a failed request, or has the
bytes that the execution of a call with the same replay key and fingerprint came to, in the dialogue that
execution had with the backends (`replies_computed_for_their_request`).

A run is looked at as a whole: the replies that executions hand in anywhere in it are those that may come
out of the cache (`Produced`).
-/

namespace NfsEmbed.Server

open Lib Rpc Vfs Replay

/-- In a state of the run, an execution is about to hand in a reply of these bytes for the lease, having
computed it for the record it was spawned for in the dialogue that it had. -/
def Produced (state : ConnectionState) (trace : List (Edge ServerState ServerEvent)) (lease : ReplayEntryKey)
    (reply : EncodedReply) : Prop :=
  ∃ edge ∈ trace, ∃ index, ∃ execution ∈ (edge.source.connections index).executions, ∃ original next said,
    execution.thread.program = Prog.ask (S := serverSignature) (.complete lease original) next ∧
    said <:+ execution.thread.history ∧
    ComputedFor state (edge.source.connections index).clientAddr execution.record lease said original ∧
    original.intoBytes = reply.intoBytes

theorem storageFree_produced (state : ConnectionState) (trace : List (Edge ServerState ServerEvent)) :
    Origin.StorageFree (Produced state trace) := by
  rintro entry reply alloc ⟨edge, hedge, index, execution, hexecution, original, next, said, hprogram, hsaid, hcomputed, hbytes⟩
  refine ⟨edge, hedge, index, execution, hexecution, original, next, said, hprogram, hsaid, hcomputed, ?_⟩
  rw [hbytes, EncodedReply.replayStorage_intoBytes]

section Runs

variable {state : ConnectionState} {cache : ReplayCache} {sockets : Nat → Writer} {server server' : ServerState}
  {trace : List (Edge ServerState ServerEvent)}

/-- A task hands in no reply. -/
theorem not_complete_of_task {stage : LeaseStage} (hstage : stage.OfTask) {op : ServerOp}
    (hallows : leaseProtocol.Allows stage op) (lease : ReplayEntryKey) (reply : EncodedReply) :
    op ≠ .complete lease reply := by
  rintro rfl
  cases stage with
  | running => exact hstage
  | _ => exact hallows

/-- What a connection in a state of the run is about to hand in is produced in the run. -/
theorem handsIn_produced {edge : Edge ServerState ServerEvent} (hedge : edge ∈ trace) (index : Nat)
    {made : ReplayEntryKey → EncodedReply → Prop} (hprotocol : InProtocol (edge.source.connections index))
    (h : Origin.Traced state made edge.source.shared.world (edge.source.connections index)) :
    Origin.HandsIn (Produced state trace) (edge.source.connections index) := by
  rintro thread (⟨task, hmem, hphase⟩ | ⟨execution, hmem, rfl⟩) lease reply next hprogram
  · have htask := hprotocol.tasks task hmem
    rw [hphase] at htask
    obtain ⟨stage, hstage, hfollows, -⟩ := htask
    rw [hprogram] at hfollows
    exact absurd rfl (not_complete_of_task hstage hfollows.1 lease reply)
  · have htraceable := (h.executions execution hmem).2.traceable
    rw [hprogram] at htraceable
    obtain ⟨earlier, said, hhistory, hcomputed⟩ := htraceable.1
    exact ⟨edge, hedge, index, execution, hmem, reply, next, said, hprogram, ⟨earlier, hhistory.symm⟩, hcomputed, rfl⟩

/-- At the end of a run, everything its connections hold has its source in the run. -/
theorem produced_of_run (hstart : (serverMachine state cache sockets).Start server)
    (hrun : (serverMachine state cache sockets).Run server trace server') (index : Nat) :
    Origin.Traced state (Produced state trace) server'.shared.world (server'.connections index) :=
  (Origin.traced_of_run (storageFree_produced state trace)
    (fun _ hedge hreach index => handsIn_produced hedge index (inProtocol_of_reachable hreach index))
    hstart hrun).2 index

end Runs

/-- Any number of connections run, in any order, with any requests, retransmissions, backends, failures and
deadlines. A reply that was written on one of them, as the answer to one of its records, was made from that
record alone, or stands for the failure of the request, or has the bytes of a reply that an execution handed
in during the run, on this or another connection: an execution of a call with the same replay key and
fingerprint, whose dialogue with the backends had this reply as its outcome. -/
theorem replies_computed_for_their_request (state : ConnectionState) (cache : ReplayCache) (sockets : Nat → Writer)
    (server server' : ServerState) (trace : List (Edge ServerState ServerEvent)) (hstart : (serverMachine state cache sockets).Start server)
    (hrun : (serverMachine state cache sockets).Run server trace server') (index number : Nat) (reply : EncodedReply)
    (hwritten : (number, reply) ∈ (server'.connections index).written) :
    ∃ record, (server'.connections index).queued[number]? = some record ∧
      Origin.Source state (Produced state trace) (server'.connections index).clientAddr record reply :=
  (produced_of_run hstart hrun index).written (number, reply) hwritten

/-! ## A call on two connections

One client sends a call on two connections. It is executed for the first, and the second gets its reply. -/

-- the record is read and dispatched by evaluating the readers
set_option maxRecDepth 20000

/-- The cache has the reply. -/
def nullStored : Shared :=
  let prepared := begun.world.prepare Sample.cache nullLease nullReply Sample.alloc
  { begun with world := prepared.store Sample.cache nullLease nullReply Sample.alloc true }

/-- The call is executed for the first connection. -/
theorem nullCall_stored : ∃ trace connections, connections 1 = Connection.new (.v4 0 700) nullStream ∧
    (serverMachine tightState Sample.cache sampleSockets).Run
      ⟨⟨World.new 0, [], false⟩, fun _ => Connection.new (.v4 0 700) nullStream⟩ trace ⟨nullStored, connections⟩ := by
  have hbegin : Served Sample.cache ⟨World.new 0, [], false⟩ (.begin nullKey sampleFingerprint)
      (.ok (.execute nullLease)) begun := .begin 0 nullKey sampleFingerprint (by decide) (by decide)
  obtain ⟨trace, first, -, hexecuting⟩ := nullCall_handedOver
    ⟨⟨World.new 0, [], false⟩, fun _ => Connection.new (.v4 0 700) nullStream⟩ 0 rfl hbegin
  have hprepared := run_connection hexecuting
    (.prepare [] [] 0 nullCall nullLease nullHistory nullLease nullReply _ Sample.alloc rfl rfl)
  refine ⟨_, _, Function.update_of_ne Nat.one_ne_zero _ _, run_connection hprepared
    (.execute [] [] 0 nullCall nullLease nullHistory _ _ _ _ rfl
      (.complete nullLease nullReply Sample.alloc true rfl (.inl (by decide))))⟩

/-- For another connection it is answered from the cache. -/
theorem nullCall_replayed {connections : Nat → Connection}
    (hfresh : connections 1 = Connection.new (.v4 0 700) nullStream) :
    ∃ shared connection, ComesTo ⟨nullStored, connections⟩ 1 shared connection ∧ connection.clientAddr = .v4 0 700 ∧
      connection.queued = [nullCall] ∧ connection.written = [(0, nullReply)] := by
  have hbegin : Served Sample.cache nullStored (.begin nullKey sampleFingerprint) (.ok (.replay nullReply))
      { nullStored with world := (nullStored.world.begin Sample.cache 0 nullKey sampleFingerprint).2 } :=
    .begin 0 nullKey sampleFingerprint (by decide) (by decide)
  obtain ⟨next, hprogram, hnext⟩ : ∃ next, dispatchRecord tightState (.v4 0 700) nullCall =
      Prog.ask (S := serverSignature) (.begin nullKey sampleFingerprint) next ∧
      next (.ok (.replay nullReply)) = .done nullReply := ⟨_, rfl, rfl⟩
  have hhandled : ComesTo ⟨nullStored, connections⟩ 1 _ (nullConnection (.handling
      ⟨[⟨.begin nullKey sampleFingerprint, .ok (.replay nullReply)⟩], next (.ok (.replay nullReply))⟩) []) :=
    (ComesTo.handling hfresh).step (.ask [] [] 0 nullCall [] _ next _ _ (hprogram ▸ rfl) hbegin)
  rw [hnext] at hhandled
  have hemits : (byteWriter true).Emits
      ((byteWriter true).writeRecordSegmentsLimited nullReply.segments.1 nullReply.segments.2.1
        nullReply.segments.2.2 tightState.limits.recordLimits) _ :=
    (Writer.writeRecordSegmentsLimited_writes (by decide) (by decide) (by decide)).emits
  exact ⟨_, _, ((hhandled.step (.handled [] [] 0 nullCall _ nullReply rfl)).step
    (.reply [] [] 0 nullCall nullReply (.of_running nofun rfl rfl) rfl rfl (Nat.zero_le _))).step
    (.write 0 nullReply [] _ (.of_running nofun rfl rfl) rfl rfl ((hemits []).2 (byteWriter_willing true))), rfl, rfl, rfl⟩

/-- What is written on the second connection is what an execution on the first handed in. -/
theorem replies_computed_for_their_request_replayed :
    ∃ (server' : ServerState) (trace : List (Edge ServerState ServerEvent)),
      (server'.connections 1).written = [(0, nullReply)] ∧ ∃ lease, Produced tightState trace lease nullReply := by
  obtain ⟨trace, connections, hfresh, hstored⟩ := nullCall_stored
  obtain ⟨shared, connection, ⟨trace', hreplayed⟩, haddr, hqueued, hwritten⟩ := nullCall_replayed hfresh
  obtain ⟨record, hrecord, hsource⟩ := replies_computed_for_their_request tightState Sample.cache sampleSockets _ _ _
    ⟨⟨0, rfl⟩, fun _ => ⟨_, _, rfl⟩⟩ (hstored.append hreplayed) 1 0 nullReply (by simp [hwritten])
  dsimp only at hrecord hsource
  rw [Function.update_self] at hrecord hsource
  rw [hqueued] at hrecord
  cases hrecord
  rw [haddr] at hsource
  refine ⟨⟨shared, Function.update connections 1 connection⟩, trace ++ trace', by simp [hwritten], ?_⟩
  cases hsource with
  | immediate hdone => cases hdone
  | rejected herror => exact absurd (congrArg EncodedReply.intoBytes herror) (by decide)
  | computed key fingerprint generation _ hproduced => exact ⟨_, hproduced⟩

end NfsEmbed.Server
