import NfsEmbed.Client.Transfers
import NfsEmbed.Laws.Client.Replies
import NfsEmbed.Laws.Server.Isolation

/-!
# Reading a file to its end

One `READ` delivers what the backend returned, cut to the count that the server asked for, with the `eof`
of the backend. So the client always has a front part of the file. When `eof` comes with data that was
cut, what was cut off is still missing, although the client stops; otherwise it has the whole file.

The law is `read_to_eof_complete_iff`. That the backend keeps its file between requests is assumed, not established.
-/

namespace NfsEmbed.Client

open Lib Rpc Vfs Nfs3 Server
open Prog (Ensures)

/-- A read of the file, as it stands in a dialogue. -/
def readExchange (entry : ExportState) (context : RequestContext) (file : ObjectKey) (offset : UInt64) (count : UInt32)
    (answer : ReadBytesResult) : Exchange serverSignature :=
  ⟨.vfs entry context (.readBytes file offset count), .ok answer⟩

/-- Data that is delivered is what the backend returned, up to the count, with its `eof`. -/
def Fetched (file : ObjectKey) (content : Bytes) (offset : UInt64) (history : Dialogue) : Option ReadResult → Prop
  | some (.ok _ data eof) => ∃ entry context count answer,
      history = [readExchange entry context file offset count answer] ∧ ReadOf content offset count answer ∧
      data = answer.data.take count.toNat ∧ eof = answer.eof
  | _ => True

section Request

-- a reply is only read through its laws
attribute [local irreducible] readReply

variable {state : ConnectionState} {exportId : ExportId} {file : ObjectKey} {content : Bytes} {xid : UInt32}
  {offset : UInt64} {count : UInt32} {context : RequestContext}

theorem readErr_fetches {status : NfsStatus} (hstatus : status ≠ .ok) (history : Dialogue) :
    Ensures (ReadsFile file content) (fun _ _ => True)
      (fun history outcome => Fetched file content offset history (deliveredAs Client.read xid outcome)) history
      (nfsReply state xid (ReadResult.err status none)) := by
  refine nfsReply_delivers (ReadResult.encodeResult_writes _) (read_parses fun status' attributes h => ?_) trivial trivial
  cases h
  exact hstatus

/-- What is left of the data when it is longer than the count. -/
theorem cut_eq_take (data : Bytes) (count : Nat) : (if data.length > count then data.take count else data) = data.take count := by
  split
  next => rfl
  next h => exact (List.take_of_length_le (Nat.le_of_not_lt h)).symm

/-- One `READ` delivers the front of what the backend returned. -/
theorem dispatchRead_fetches {entry : ExportState} (hexport : context.exportId = exportId) :
    Ensures (ReadsFile file content) (fun _ _ => True)
      (fun history outcome => Fetched file content offset history (deliveredAs Client.read xid outcome)) []
      (dispatchRead state xid context entry ⟨state.handles.encode exportId file, offset, count⟩) := by
  subst hexport
  unfold dispatchRead withObject
  simp only [decodeObject_encode]
  refine ⟨trivial, fun answer hanswer => ?_⟩
  cases answer with
  | error error => exact readErr_fetches (NfsStatus.ofError_ne_ok error) _
  | ok result =>
    simp only [Prog.bind, cut_eq_take]
    split
    next reply hreply =>
      obtain ⟨hlength, hattributes, -⟩ := readSuccessReply_ok_iff.mp hreply
      show Fetched file content offset _ (readReply Client.read xid reply.intoBytes)
      rw [intoBytes_of_readSuccessReply hreply, readReply_of_parses (read_parses fun status attributes h => by cases h)
        (ReadResult.encodable_iff.mpr ⟨hlength, hattributes⟩)]
      exact ⟨entry, context, _, result, rfl, hanswer rfl result rfl, rfl, rfl⟩
    next => trivial

theorem dispatchCall_fetches {args : Bytes} (hexport : context.exportId = exportId)
    (hargs : Encoder.run (readArguments state exportId file offset count).encode = .ok args) :
    Ensures (ReadsFile file content) (fun _ _ => True)
      (fun history outcome => Fetched file content offset history (deliveredAs Client.read xid outcome)) []
      (dispatchCall state xid Nfs3.PROGRAM Nfs3.VERSION 6 args context) := by
  have hdecode : NfsArguments.decode 6 args state.limits.maxRpcRecordSize =
      .ok (readArguments state exportId file offset count) := by
    rw [decode_ok_iff_spelled, spelled_iff_encode]
    exact ⟨rfl, hargs, length_encode_le exportId file⟩
  unfold dispatchCall dispatchNfs
  rw [if_pos rfl, if_neg (by simp), if_neg (by decide), if_neg (by decide), hdecode]
  dsimp only [readArguments]
  split
  next => exact readErr_fetches (by decide : NfsStatus.badHandle ≠ .ok) []
  next entry _ => exact dispatchRead_fetches hexport

end Request

/-! ## The whole file -/

section Reading

variable {state : ConnectionState} {exportId : ExportId} {file : ObjectKey} {content : Bytes}

/-- What a step delivers, at the offset of what was received. -/
theorem ReadStep.fetches {read read' : FileRead} {label : Dialogue × Option ReadResult}
    (h : ReadStep state exportId file content read label read') :
    read' = read.receive label.2 ∧
      Fetched file content (UInt64.ofNat read.received.length) label.1 label.2 := by
  cases h with
  | request _ _ _ _ _ _ _ _ hexport hargs hends hbackend =>
    exact ⟨rfl, (executeRequest_delivers (P := Fetched file content (UInt64.ofNat read.received.length))
      (fun _ => trivial) (dispatchCall_fetches hexport hargs)).ends hends hbackend⟩

/-- What the backend returns at the end of a front part of the file goes on with it. -/
theorem ReadOf.append {received : Bytes} {offset : UInt64} {count : UInt32} {answer : ReadBytesResult}
    (h : ReadOf content offset count answer) (hoffset : offset.toNat = received.length) (hreceived : received <+: content) :
    ∃ rest, content = received ++ answer.data ++ rest ∧ (answer.eof = true → rest = []) := by
  obtain ⟨left, rfl⟩ := hreceived
  obtain ⟨rest, hrest⟩ := h.isPart
  rw [hoffset, List.drop_left] at hrest
  refine ⟨rest, by rw [List.append_assoc, hrest], fun heof => ?_⟩
  have hend := h.eof heof
  have hlength := congrArg List.length hrest
  rw [hoffset] at hend
  simp only [List.length_append] at hend hlength
  exact List.eq_nil_of_length_eq_zero (by omega)

/-- Receiving data moves the offset to where what the backend returned was cut. -/
theorem Fetched.receive (hsize : content.length < 2 ^ 64) {read : FileRead} (hreceived : read.received <+: content)
    {history : Dialogue} {attributes : Option FileAttributes} {data : Bytes} {eof : Bool}
    (h : Fetched file content (UInt64.ofNat read.received.length) history (some (.ok attributes data eof))) :
    ∃ entry context count answer rest,
      history = [readExchange entry context file (UInt64.ofNat read.received.length) count answer] ∧
      data = answer.data.take count.toNat ∧ content = read.received ++ answer.data ++ rest ∧ (eof = true → rest = []) := by
  obtain ⟨entry, context, count, answer, hhistory, hread, hdata, rfl⟩ := h
  have hoffset : (UInt64.ofNat read.received.length).toNat = read.received.length :=
    UInt64.toNat_ofNat_of_lt' (Nat.lt_of_le_of_lt hreceived.length_le hsize)
  obtain ⟨rest, hcontent, hrest⟩ := hread.append hoffset hreceived
  exact ⟨entry, context, count, answer, rest, hhistory, hdata, hcontent, hrest⟩

/-- A reply extends the front part of the file that was read. -/
theorem FileRead.receive_isPrefix (hsize : content.length < 2 ^ 64) {read : FileRead}
    (hreceived : read.received <+: content) {history : Dialogue} {result : Option ReadResult}
    (h : Fetched file content (UInt64.ofNat read.received.length) history result) :
    (read.receive result).received <+: content := by
  match result with
  | none | some (.err _ _) => exact hreceived
  | some (.ok attributes data eof) =>
    obtain ⟨_, _, count, answer, rest, -, rfl, hcontent, -⟩ := Fetched.receive hsize hreceived h
    rw [hcontent, List.append_assoc]
    exact (List.prefix_append_right_inj _).mpr ((List.take_prefix _ _).trans (List.prefix_append _ _))

/-- What a client has is a front part of the file, however often it asked. -/
theorem FileRead.received_isPrefix (hsize : content.length < 2 ^ 64) {read : FileRead}
    (hreach : (readMachine state exportId file content).Reachable read) : read.received <+: content := by
  refine hreach.invariant (I := fun read => read.received <+: content) ?_ ?_
  · intro read hstart
    rw [hstart]
    exact List.nil_prefix
  · intro read label read' hreceived hstep
    obtain ⟨rfl, hfetched⟩ := ReadStep.fetches hstep
    exact FileRead.receive_isPrefix hsize hreceived hfetched

end Reading

/-- A client that reads a file has at every point a front part of it. When a reply says `eof`, the client
has the whole file if and only if the server did not cut what the backend returned. -/
theorem read_to_eof_complete_iff (state : ConnectionState) (exportId : ExportId) (file : ObjectKey) (content : Bytes)
    (hsize : content.length < 2 ^ 64) (read : FileRead)
    (hreach : (readMachine state exportId file content).Reachable read) :
    read.received <+: content ∧
    ∀ history result read', (readMachine state exportId file content).Step read (history, result) read' →
      ∀ attributes data, result = some (.ok attributes data true) →
        read'.ended = true ∧
        (read'.received = content ↔ ∀ exchange ∈ history, Uncut exchange.1 exchange.2) := by
  have hreceived := FileRead.received_isPrefix hsize hreach
  refine ⟨hreceived, fun history result read' hstep attributes data hresult => ?_⟩
  obtain ⟨rfl, hfetched⟩ := ReadStep.fetches hstep
  dsimp only at hfetched
  subst hresult
  obtain ⟨entry, context, count, answer, rest, rfl, rfl, hcontent, hrest⟩ := Fetched.receive hsize hreceived hfetched
  obtain rfl := hrest rfl
  refine ⟨rfl, ?_⟩
  have huncut : (∀ exchange ∈ [readExchange entry context file (UInt64.ofNat read.received.length) count answer],
      Uncut exchange.1 exchange.2) ↔ answer.data.length ≤ count.toNat := by
    rw [List.forall_mem_singleton]
    constructor
    · intro h
      exact h answer rfl
    · intro h result hresult
      cases hresult
      exact h
  rw [huncut]
  show read.received ++ answer.data.take count.toNat = content ↔ _
  rw [hcontent, List.append_nil, List.append_cancel_left_eq, List.take_eq_self_iff]

/-! ## A file of two bytes

The backend returns both of them with `eof`, whatever was asked for. -/

/-- What the server says to the backend for a `READ` of this count at offset zero. -/
def bothBytes (count : UInt32) : Dialogue :=
  [readExchange sampleExport ⟨.anonymous, .v4 0 700, ⟨7⟩⟩ ⟨1, 1⟩ 0 count ⟨[1, 2], true, none⟩]

/-- The arguments of that `READ`. -/
def bothBytesArgs (count : UInt32) : Bytes :=
  opaqueBytes (sampleState.handles.encode ⟨7⟩ ⟨1, 1⟩) ++ words [0, 0, count]

theorem bothBytes_readsFile (count : UInt32) :
    ∀ exchange ∈ bothBytes count, ReadsFile ⟨1, 1⟩ [1, 2] exchange.1 exchange.2 := by
  rw [bothBytes, List.forall_mem_singleton]
  intro _ result hresult
  cases hresult
  exact ⟨List.prefix_refl _, fun _ _ => List.cons_ne_nil _ _, fun _ => Nat.le_refl _⟩

-- the dialogue is followed by evaluating the decoders and encoders
set_option maxRecDepth 20000

/-- A client that starts and is answered with that data, and `eof`. -/
theorem bothBytes_step (count : UInt32) (data : Bytes) (hcount : 0 < count)
    (hargs : Encoder.run (readArguments sampleState ⟨7⟩ ⟨1, 1⟩ (UInt64.ofNat FileRead.start.received.length) count).encode =
      .ok (bothBytesArgs count))
    (hends : ∃ outcome, (executeRequest sampleState 1 Nfs3.PROGRAM Nfs3.VERSION 6 (bothBytesArgs count)
      ⟨.anonymous, .v4 0 700, ⟨7⟩⟩).Ends (bothBytes count) outcome ∧
        deliveredAs Client.read 1 outcome = some (.ok none data true)) :
    (readMachine sampleState ⟨7⟩ ⟨1, 1⟩ [1, 2]).Step .start (bothBytes count, some (.ok none data true)) ⟨data, true⟩ := by
  obtain ⟨outcome, hends, hdelivered⟩ := hends
  have hstep := ReadStep.request .start 1 ⟨.anonymous, .v4 0 700, ⟨7⟩⟩ count (bothBytesArgs count) (bothBytes count)
    outcome rfl hcount rfl hargs hends (bothBytes_readsFile count)
  rwa [hdelivered] at hstep

/-- The client asks for one byte. It receives one byte, and `eof`. -/
theorem read_to_eof_cut : ∃ read, (readMachine sampleState ⟨7⟩ ⟨1, 1⟩ [1, 2]).Reachable read ∧
    read.ended = true ∧ read.received = [1] := by
  have hstep := bothBytes_step 1 [1] (by decide) (by decide) ⟨_, .ask (.done _), by decide⟩
  exact ⟨_, ⟨.start, _, rfl, Machine.Run.nil.snoc hstep⟩, rfl, rfl⟩

/-- The client asks for two bytes, and has the file. -/
theorem read_to_eof_complete_iff_two : ∃ read', read'.ended = true ∧ read'.received = [1, 2] ∧
    ∃ history result, (readMachine sampleState ⟨7⟩ ⟨1, 1⟩ [1, 2]).Step .start (history, result) read' := by
  have hstep := bothBytes_step 2 [1, 2] (by decide) (by decide) ⟨_, .ask (.done _), by decide⟩
  have hreach : (readMachine sampleState ⟨7⟩ ⟨1, 1⟩ [1, 2]).Reachable .start := ⟨.start, [], rfl, .nil⟩
  obtain ⟨hended, hiff⟩ := (read_to_eof_complete_iff sampleState ⟨7⟩ ⟨1, 1⟩ [1, 2] (by decide) .start hreach).2 _ _ _ hstep _ _ rfl
  refine ⟨_, hended, hiff.mpr ?_, _, _, hstep⟩
  rw [bothBytes, List.forall_mem_singleton]
  intro result hresult
  cases hresult
  decide

end NfsEmbed.Client
