import NfsEmbed.Client.Transfers
import NfsEmbed.Laws.Client.Replies
import NfsEmbed.Laws.Server.Isolation

/-!
# Writing a file in parts

A `WRITE` reaches the backend at most once, with no more than it may be given. A reply that is a success
reports what the backend reported, which is within what it was given, not nothing, and as durable as was
asked for. So each success takes at least one byte off what is left, and what was reported as written is
always a front part of the data, each byte once and at its own offset.

The law is `short_writes_finish`. That what was acknowledged is still there after a crash is up to the
backend.
-/

namespace NfsEmbed.Client

open Lib Rpc Vfs Nfs3 Server
open Prog (Ensures)

variable {args written : Bytes} {upload : Upload} {count : UInt32}

/-! ## One request -/

/-- What the server gives to the backend of the data of a `WRITE`. -/
def permitted (limits : ServerLimits) (data : Bytes) : Bytes := data.take (min data.length limits.maxWriteSize.toNat)

theorem permitted_isPrefix (limits : ServerLimits) (data : Bytes) : permitted limits data <+: data :=
  List.take_prefix _ _

/-- With a limit above zero, something of the data is always permitted. -/
theorem permitted_ne_nil {limits : ServerLimits} (hlimit : 0 < limits.maxWriteSize.toNat) {data : Bytes} (hdata : data ≠ []) :
    permitted limits data ≠ [] := by
  have hlength := List.length_pos_of_ne_nil hdata
  refine List.ne_nil_of_length_pos ?_
  rw [permitted, List.length_take]
  omega

section Request

variable (state : ConnectionState) (context : RequestContext) (entry : ExportState) (arguments : WriteArgs)

/-- The one call a `WRITE` may make. -/
def writeCall (object : ObjectKey) : ServerOp :=
  .vfs entry context (.write object arguments.offset (permitted state.limits arguments.data) arguments.requested)

/-- That call with the answer of the backend. -/
def writeExchange (object : ObjectKey) (result : MutationResult Vfs.WriteResult) : Exchange serverSignature :=
  ⟨writeCall state context entry arguments object, .ok result⟩

/-- The backend is called first, and only for a count that is the length of the data. -/
structure CallsOnce (history : Dialogue) (op : ServerOp) : Prop where
  first : history = []
  count : arguments.count.toNat = arguments.data.length
  call : ∃ object, decodeObject arguments.object state context.exportId = .ok object ∧
    op = writeCall state context entry arguments object

/-- What a success may say: what the backend reported, within what it was given and what was asked for. -/
structure Reported (history : Dialogue) (count : UInt32) (committed : WriteStability) : Prop where
  called : ∃ object result, decodeObject arguments.object state context.exportId = .ok object ∧
    history = [writeExchange state context entry arguments object result] ∧
    result.value.count = count ∧ result.value.committed = committed
  within : count.toNat ≤ (permitted state.limits arguments.data).length
  progress : permitted state.limits arguments.data ≠ [] → count ≠ 0
  durable : durabilitySatisfies committed arguments.requested = true

/-- If a success is delivered, an export of this kind has reported it. -/
def Stored (E : ExportState → Prop) (history : Dialogue) : Option Nfs3.WriteResult → Prop
  | some (.ok _ count committed _) => ∃ entry, E entry ∧ Reported state context entry arguments history count committed
  | _ => True

end Request

section Handler

-- a reply is only read through its laws
attribute [local irreducible] readReply

variable {state : ConnectionState} {context : RequestContext} {entry : ExportState} {arguments : WriteArgs} {xid : UInt32}

theorem writeErr_stores {status : NfsStatus} (hstatus : status ≠ .ok) (wcc : WccData) (history : Dialogue)
    {A : Dialogue → ServerOp → Prop} {E : ExportState → Prop} :
    Ensures (fun _ _ => True) A
      (fun history outcome => Stored state context arguments E history (deliveredAs Client.write xid outcome))
      history (nfsReply state xid (Nfs3.WriteResult.err status wcc)) := by
  refine nfsReply_delivers (Nfs3.WriteResult.encodeResult_writes _) (write_parses fun status' wcc' h => ?_) trivial trivial
  cases h
  exact hstatus

/-- The handler calls the backend once, and a success reports what it reported. -/
theorem dispatchWrite_stores :
    Ensures (fun _ _ => True) (CallsOnce state context entry arguments)
      (fun history outcome => Stored state context arguments (· = entry) history (deliveredAs Client.write xid outcome)) []
      (dispatchWrite state xid context entry arguments) := by
  unfold dispatchWrite WriteArgs.validate
  by_cases hcount : arguments.count.toNat = arguments.data.length
  swap
  · rw [if_pos hcount]
    apply writeErr_stores (by decide)
  rw [if_neg (not_not_intro hcount)]
  unfold withObject
  cases hobject : decodeObject arguments.object state context.exportId with
  | error => apply writeErr_stores (wireNfsStatus_ne_ok hobject)
  | ok object =>
    refine ⟨⟨rfl, hcount, object, hobject, rfl⟩, fun answer _ => ?_⟩
    cases answer with
    | error error => apply writeErr_stores (NfsStatus.ofError_ne_ok error)
    | ok result =>
      show Ensures _ _ _ _ (if result.value.count.toNat ≤ (permitted state.limits arguments.data).length ∧
          (permitted state.limits arguments.data = [] ∨ result.value.count ≠ 0) ∧
          durabilitySatisfies result.value.committed arguments.requested then
        nfsReply state xid (Nfs3.WriteResult.ok (MutationResult.wcc result) result.value.count result.value.committed
          state.handles.instanceId)
        else nfsReply state xid (Nfs3.WriteResult.err .serverFault (MutationResult.wcc result)))
      split
      next h =>
        refine nfsReply_delivers (Nfs3.WriteResult.encodeResult_writes _) (write_parses fun status wcc h => by cases h)
          trivial ?_
        exact ⟨entry, rfl, ⟨object, result, hobject, rfl, rfl, rfl⟩, h.1, h.2.1.resolve_left, h.2.2⟩
      next => apply writeErr_stores (by decide)

/-- The zero-copy decoder finds the arguments that were encoded, or nothing. -/
theorem eq_of_decode {maxVariableSize : Nat} {decoded : WriteArgs} (hobject : arguments.object.length ≤ 64)
    (hargs : Encoder.run (NfsArguments.write arguments).encode = .ok args)
    (h : WriteRequest.decode args maxVariableSize = .ok decoded) : decoded = arguments := by
  have hspelled := writeRequest_decode_ok_iff.mp h
  -- with a limit that is large enough for both, both are what is decoded
  have hlarge : WriteRequest.decode args (max maxVariableSize arguments.data.length) = .ok decoded :=
    writeRequest_decode_ok_iff.mpr ⟨⟨hspelled.1.1, Nat.le_trans hspelled.1.2 (Nat.le_max_left _ _)⟩, hspelled.2⟩
  have hwithin : (NfsArguments.write arguments).WithinLimits (max maxVariableSize arguments.data.length) :=
    ⟨hobject, Nat.le_max_right _ _⟩
  rw [writeRequest_decode_ok_iff.mpr (spelled_iff_encode.mpr ⟨hargs, hwithin⟩)] at hlarge
  cases hlarge
  rfl

theorem dispatchCall_stores (hobject : arguments.object.length ≤ 64)
    (hargs : Encoder.run (NfsArguments.write arguments).encode = .ok args) :
    Ensures (fun _ _ => True) (fun _ _ => True)
      (fun history outcome => Stored state context arguments (fun _ => True) history (deliveredAs Client.write xid outcome)) []
      (dispatchCall state xid Nfs3.PROGRAM Nfs3.VERSION 7 args context) := by
  unfold dispatchCall dispatchNfs
  rw [if_pos rfl, if_neg (by simp), if_neg (by decide), if_pos rfl]
  cases hdecode : WriteRequest.decode args state.limits.maxRpcRecordSize with
  | error => trivial
  | ok =>
    obtain rfl := eq_of_decode hobject hargs hdecode
    dsimp only
    split
    next => apply writeErr_stores (by decide : NfsStatus.badHandle ≠ .ok)
    next entry _ =>
      refine dispatchWrite_stores.mono (fun _ _ => id) (fun _ _ _ => trivial) fun history outcome h => ?_
      match deliveredAs Client.write xid outcome, h with
      | none, _ | some (.err _ _), _ => trivial
      | some (.ok _ _ _ _), ⟨_, rfl, hreported⟩ => exact ⟨entry, trivial, hreported⟩

end Handler

/-! ## The loop -/

section Uploading

variable {state : ConnectionState} {exportId : ExportId} {file : ObjectKey} {start : UInt64} {data : Bytes}

/-- One request of an upload. -/
theorem UploadStep.stores {upload' : Upload} {label : Dialogue × Option Nfs3.WriteResult}
    (h : UploadStep state exportId file upload label upload') :
    upload.phase = .sending ∧ upload' = upload.receive (acknowledgedIn file label.1) label.2 ∧
    ∃ context requested, context.exportId = exportId ∧
      Stored state context ⟨state.handles.encode exportId file, upload.offset, UInt32.ofNat upload.rest.length, requested,
        upload.rest⟩ (fun _ => True) label.1 label.2 := by
  cases h with
  | request _ context requested _ _ _ hphase hexport hargs hends =>
    refine ⟨hphase, rfl, context, requested, hexport, ?_⟩
    exact (executeRequest_delivers (P := Stored state context _ fun _ => True) (fun _ => trivial)
      (dispatchCall_stores (length_encode_le exportId file) hargs)).ends hends (fun _ _ => trivial)

/-- What the backend has acknowledged when a success is delivered. -/
theorem Reported.acknowledged {context : RequestContext} {entry : ExportState} {arguments : WriteArgs}
    {history : Dialogue} {committed : WriteStability} (hexport : context.exportId = exportId)
    (hobject : arguments.object = state.handles.encode exportId file)
    (h : Reported state context entry arguments history count committed) :
    acknowledgedIn file history = (arguments.data.take count.toNat).zipIdx arguments.offset.toNat := by
  subst hexport
  obtain ⟨object, result, hdecode, rfl, rfl, -⟩ := h.called
  rw [hobject, decodeObject_encode] at hdecode
  cases hdecode
  have htake : (permitted state.limits arguments.data).take result.value.count.toNat =
      arguments.data.take result.value.count.toNat := by
    have hwithin := h.within
    rw [permitted, List.length_take] at hwithin
    rw [permitted, List.take_take]
    congr 1
    omega
  simp only [acknowledgedIn, List.flatMap_cons, List.flatMap_nil, List.append_nil, writeExchange, writeCall,
    acknowledgedBy, if_true, htake]

/-- What was reported as written is a front part of the data, and the offset is where the rest begins.
Each request but the last has taken a byte off the rest. -/
structure Upload.Inv (start : UInt64) (data written : Bytes) (upload : Upload) : Prop where
  split : data = written ++ upload.rest
  offset : upload.offset.toNat = start.toNat + written.length
  acknowledged : upload.phase ≠ .failed → upload.acknowledged = written.zipIdx start.toNat
  sending : upload.phase = .sending → upload.sent ≤ written.length ∧ (upload.sent = 0 ∨ upload.rest ≠ [])
  sent : upload.sent ≤ max 1 data.length
  finished : upload.phase = .finished → upload.rest = []

theorem Upload.inv_start (start : UInt64) (data : Bytes) : (Upload.start start data).Inv start data [] where
  split := rfl
  offset := rfl
  acknowledged _ := rfl
  sending _ := ⟨Nat.le_refl 0, .inl rfl⟩
  sent := Nat.zero_le _
  finished h := by cases h

/-- One more request is within the bound. -/
theorem Upload.Inv.sent_succ_le (h : upload.Inv start data written) (hphase : upload.phase = .sending) :
    upload.sent + 1 ≤ max 1 data.length := by
  obtain ⟨hsent, hrest⟩ := h.sending hphase
  rw [h.split, List.length_append]
  obtain hzero | hrest := hrest
  · omega
  · have hlength := List.length_pos_of_ne_nil hrest
    omega

/-- A success moves the bytes it counts from what is left to what is written. -/
theorem Upload.Inv.success (h : upload.Inv start data written) (hoffset : start.toNat + data.length < 2 ^ 64)
    (hphase : upload.phase = .sending) (hwithin : count.toNat ≤ upload.rest.length)
    (hprogress : upload.rest ≠ [] → count ≠ 0) (wcc : WccData) (committed : WriteStability) (verifier : Fixed 8) :
    (upload.receive ((upload.rest.take count.toNat).zipIdx upload.offset.toNat) (some (.ok wcc count committed verifier))).Inv
      start data (written ++ upload.rest.take count.toNat) := by
  have hlength : data.length = written.length + upload.rest.length := by rw [h.split, List.length_append]
  have htake : (upload.rest.take count.toNat).length = count.toNat := List.length_take_of_le hwithin
  constructor
  · show data = written ++ upload.rest.take count.toNat ++ upload.rest.drop count.toNat
    rw [List.append_assoc, List.take_append_drop, ← h.split]
  · show (upload.offset + count.toUInt64).toNat = _
    have hstart := h.offset
    rw [UInt64.toNat_add, UInt32.toNat_toUInt64, List.length_append, htake]
    omega
  · intro _
    show upload.acknowledged ++ _ = _
    rw [h.acknowledged (by rw [hphase]; decide), List.zipIdx_append, h.offset, Nat.add_comm]
  · intro hsending
    have hmore : upload.rest.drop count.toNat ≠ [] := by
      intro hnil
      simp [Upload.receive, hnil] at hsending
    have hrest : upload.rest ≠ [] := by
      intro hnil
      rw [hnil, List.drop_nil] at hmore
      exact hmore rfl
    have hpositive : 0 < count.toNat := Nat.pos_of_ne_zero fun hzero =>
      hprogress hrest (UInt32.toNat_inj.mp hzero)
    refine ⟨?_, .inr hmore⟩
    show upload.sent + 1 ≤ _
    rw [List.length_append, htake]
    have hsent := (h.sending hphase).1
    omega
  · exact h.sent_succ_le hphase
  · intro hfinished
    by_contra hne
    have hne : upload.rest.drop count.toNat ≠ [] := hne
    simp [Upload.receive, hne] at hfinished

/-- A failure ends the upload. -/
theorem Upload.Inv.failure (h : upload.Inv start data written) (hphase : upload.phase = .sending)
    (acknowledged : List (UInt8 × Nat)) : Upload.Inv start data written { upload with
      sent := upload.sent + 1, acknowledged := upload.acknowledged ++ acknowledged, phase := .failed } where
  split := h.split
  offset := h.offset
  acknowledged hne := absurd rfl hne
  sending h := by cases h
  sent := h.sent_succ_le hphase
  finished h := by cases h

/-- What has been written is a front part of the data, wherever the upload is. -/
theorem upload_inv (hlimit : 0 < state.limits.maxWriteSize.toNat) (hoffset : start.toNat + data.length < 2 ^ 64)
    (hreach : (uploadMachine state exportId file start data).Reachable upload) :
    ∃ written, upload.Inv start data written := by
  refine hreach.invariant (I := fun upload => ∃ written, upload.Inv start data written) ?_ ?_
  · intro upload hstart
    rw [hstart]
    exact ⟨[], Upload.inv_start start data⟩
  · intro upload label upload' hinv hstep
    obtain ⟨written, hinv⟩ := hinv
    obtain ⟨hphase, rfl, context, requested, hexport, hstored⟩ := UploadStep.stores hstep
    match hresult : label.2, hstored with
    | none, _ | some (.err _ _), _ => exact ⟨written, hinv.failure hphase _⟩
    | some (.ok wcc count committed verifier), hstored =>
      obtain ⟨entry, -, hreported⟩ := hstored
      have hfront := (permitted_isPrefix state.limits upload.rest).length_le
      rw [hreported.acknowledged hexport rfl]
      exact ⟨_, hinv.success hoffset hphase (Nat.le_trans hreported.within hfront)
        (fun hrest => hreported.progress (permitted_ne_nil hlimit hrest)) wcc committed verifier⟩

end Uploading

/-- A `WRITE` calls the backend at most once, with the first bytes of the data that it may be given, and
only if the count is the length of the data. A success reports what the backend reported: no more bytes
than it was given, some unless there were none, and at least the durability that was asked for. So a
client that repeats `WRITE` with what is left sends no more requests than there are bytes, or one, and
when it has finished the backend has acknowledged each byte of the data once, at its offset. -/
theorem short_writes_finish (state : ConnectionState) (hlimit : 1 ≤ state.limits.maxWriteSize.toNat) :
    (∀ xid context entry arguments,
      (∀ history op, (dispatchWrite state xid context entry arguments).Asks history op →
        CallsOnce state context entry arguments history op) ∧
      ∀ history outcome wcc count committed verifier, (dispatchWrite state xid context entry arguments).Ends history outcome →
        deliveredAs Client.write xid outcome = some (.ok wcc count committed verifier) →
        Reported state context entry arguments history count committed ∧ (arguments.data ≠ [] → count ≠ 0)) ∧
    ∀ exportId file start (data : Bytes), start.toNat + data.length < 2 ^ 64 →
      ∀ upload, (uploadMachine state exportId file start data).Reachable upload →
        upload.sent ≤ max 1 data.length ∧
        (upload.phase = .finished → upload.rest = [] ∧ upload.acknowledged = data.zipIdx start.toNat) := by
  constructor
  · intro xid context entry arguments
    have hensures := @dispatchWrite_stores state context entry arguments xid
    refine ⟨fun history op hasks => hensures.asks hasks (fun _ _ => trivial), ?_⟩
    intro history outcome wcc count committed verifier hends hdelivered
    have hstored := hensures.ends hends (fun _ _ => trivial)
    rw [hdelivered] at hstored
    obtain ⟨_, rfl, hreported⟩ := hstored
    exact ⟨hreported, fun hdata => hreported.progress (permitted_ne_nil hlimit hdata)⟩
  · intro exportId file start data hoffset upload hreach
    obtain ⟨written, hinv⟩ := upload_inv hlimit hoffset hreach
    refine ⟨hinv.sent, fun hfinished => ?_⟩
    have hrest := hinv.finished hfinished
    have hall : written = data := by rw [hinv.split, hrest, List.append_nil]
    refine ⟨hrest, ?_⟩
    rw [hinv.acknowledged (by rw [hfinished]; decide), hall]

-- the dialogue is followed by evaluating the decoders and encoders
set_option maxRecDepth 20000

/-- A `WRITE` of two bytes, of which the backend writes the first, and another of the second. -/
theorem short_writes_finish_two :
    ∃ upload, (uploadMachine sampleState ⟨7⟩ ⟨1, 1⟩ 0 [42, 43]).Reachable upload ∧ upload.phase = .finished ∧
      upload.acknowledged = [(42, 0), (43, 1)] ∧ upload.sent = 2 ∧ upload.sent ≤ max 1 [42, 43].length := by
  -- one byte of what is left is written
  have hwrite : ∀ (upload upload' : Upload) (args : Bytes) (outcome : Except ServerError EncodedReply),
      upload.phase = .sending →
      Encoder.run (writeArguments sampleState ⟨7⟩ ⟨1, 1⟩ upload.offset .unstable upload.rest).encode = .ok args →
      (executeRequest sampleState 1 Nfs3.PROGRAM Nfs3.VERSION 7 args ⟨.anonymous, .v4 0 700, ⟨7⟩⟩).Ends
        [⟨.vfs sampleExport ⟨.anonymous, .v4 0 700, ⟨7⟩⟩ (.write ⟨1, 1⟩ upload.offset upload.rest .unstable),
          .ok ⟨⟨1, .fileSync⟩, none, none⟩⟩] outcome →
      deliveredAs Client.write 1 outcome = some (.ok {} 1 .fileSync sampleState.handles.instanceId) →
      upload.receive ((upload.rest.take 1).zipIdx upload.offset.toNat)
        (some (.ok {} 1 .fileSync sampleState.handles.instanceId)) = upload' →
      ∃ label, UploadStep sampleState ⟨7⟩ ⟨1, 1⟩ upload label upload' := by
    intro upload upload' args outcome hphase hargs hends hdelivered hreceived
    have hstep := UploadStep.request upload 1 ⟨.anonymous, .v4 0 700, ⟨7⟩⟩ .unstable args _ outcome hphase rfl hargs hends
    rw [hdelivered, acknowledgedIn, List.flatMap_singleton] at hstep
    exact ⟨_, hreceived ▸ hstep⟩
  obtain ⟨_, hfirst⟩ := hwrite (.start 0 [42, 43]) ⟨1, [43], 1, [(42, 0)], .sending⟩
    (opaqueBytes (sampleState.handles.encode ⟨7⟩ ⟨1, 1⟩) ++ words [0, 0, 2, 0, 2, 0x2a2b0000]) _ rfl (by decide)
    (.ask (.done _)) (by decide) rfl
  obtain ⟨_, hsecond⟩ := hwrite ⟨1, [43], 1, [(42, 0)], .sending⟩ ⟨2, [], 2, [(42, 0), (43, 1)], .finished⟩
    (opaqueBytes (sampleState.handles.encode ⟨7⟩ ⟨1, 1⟩) ++ words [0, 1, 1, 0, 1, 0x2b000000]) _ rfl (by decide)
    (.ask (.done _)) (by decide) rfl
  have hreach : (uploadMachine sampleState ⟨7⟩ ⟨1, 1⟩ 0 [42, 43]).Reachable _ :=
    ⟨.start 0 [42, 43], _, rfl, (Machine.Run.nil.snoc hfirst).snoc hsecond⟩
  obtain ⟨hsent, hfinished⟩ :=
    (short_writes_finish sampleState (by decide)).2 ⟨7⟩ ⟨1, 1⟩ 0 [42, 43] (by decide) _ hreach
  exact ⟨_, hreach, rfl, (hfinished rfl).2, rfl, hsent⟩

end NfsEmbed.Client
