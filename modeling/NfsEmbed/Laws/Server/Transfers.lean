import NfsEmbed.Laws.Rpc.Record
import NfsEmbed.Laws.Server.Header
import NfsEmbed.Laws.Server.Mutations
import NfsEmbed.Laws.Server.Readdir

/-!
# Transfers of the advertised sizes

The limits on transfers are checked against the transport capacity less what surrounds a transfer: the
reply header and the attributes for `READ`, the call header and the other arguments for `WRITE`, the
status for a directory listing. These constants are compared with what the encoders write.

The laws are `read_reply_is_typed` and `advertised_transfers_deliverable`.
-/

namespace NfsEmbed.Server

open Lib Rpc Vfs Nfs3
open Prog (Ensures)

variable {attributes : Option FileAttributes} {plus : Bool} {directoryLimit : Option Nat} {wireLimit size : Nat}
  {verifier : Fixed 8}

variable {exportId : ExportId} {directoryAttributes : Option FileAttributes} {call : CallHeader}
  {arguments : WriteArgs}

/-- An outcome that is a reply which fits a record. -/
def FitsRecord (state : ConnectionState) (result : Except ServerError EncodedReply) : Prop :=
  ∃ reply, result = .ok reply ∧ validateRecordLength reply.len state.limits.recordLimits = .ok ()

theorem Short.fitsRecord {state : ConnectionState} (hlimits : state.limits.Usable)
    {result : Except ServerError EncodedReply} (h : Short result) : FitsRecord state result := by
  obtain ⟨reply, hreply, hlen⟩ := h
  exact ⟨reply, hreply, ServerLimits.fits_of_short hlimits hlen⟩

theorem toNat_min_le_right (a b : UInt32) : (min a b).toNat ≤ b.toNat := by
  change (if a ≤ b then a else b).toNat ≤ b.toNat
  split
  next h => exact UInt32.le_iff_toNat_le.mp h
  next => exact Nat.le_refl _

/-! ## `READ` -/

variable {state : ConnectionState} {xid : UInt32} {context : RequestContext} {entry : ExportState}

theorem readSuccessReply_fits {data : Bytes} {eof : Bool}
    (htimes : ∀ time ∈ optionalTimes FileAttributes.times attributes, time.Valid) (hdata : data.length < 2 ^ 32) :
    ∃ reply, readSuccessReply xid attributes data eof = .ok reply ∧
      reply.len ≤ data.length + MAXIMUM_READ_REPLY_OVERHEAD := by
  have htail : Fits 12 [.word (UInt32.ofNat data.length), .flag eof, .word (UInt32.ofNat data.length)] :=
    ((Fits.nil.word _).flag _).word _
  have hattributes := postAttributesFields_fits htimes
  have hfits : Fits 104 (readPrefixFields attributes data eof) := (hattributes.append htail).word NfsStatus.ok.code
  refine ⟨_, readSuccessReply_ok_iff.mpr ⟨hdata, hattributes.1, rfl⟩, ?_⟩
  have hpadding : padding data.length < 4 := Nat.mod_lt _ (by decide)
  have hprefix := hfits.2
  show (acceptedReplyEncoder xid SUCCESS ++ (readPrefixFields attributes data eof).flatMap Field.bytes).length +
    data.length + padding data.length ≤ _
  rw [List.length_append, length_acceptedReplyEncoder]
  unfold MAXIMUM_READ_REPLY_OVERHEAD
  omega

/-- The `READ` reply that is sent in segments is the encoded result. One is there if the other is, and
its segments, its one buffer and the copy that the replay cache keeps are the same bytes. It is as long
as it says, and is charged no less. -/
theorem read_reply_is_typed (alloc : Allocator) (xid : UInt32) (attributes : Option FileAttributes) (data : Bytes)
    (eof : Bool) (hdata : data.length < 2 ^ 32) :
    ((∃ reply, readSuccessReply xid attributes data eof = .ok reply) ↔
      ∃ bytes, typedNfsReply xid (ReadResult.ok attributes data eof) = .ok bytes) ∧
    ∀ reply bytes, readSuccessReply xid attributes data eof = .ok reply →
      typedNfsReply xid (ReadResult.ok attributes data eof) = .ok bytes →
      reply.segments.1 ++ reply.segments.2.1 ++ reply.segments.2.2 = bytes ∧
      reply.intoBytes = bytes ∧
      (reply.replayStorage alloc).1.segments.1 ++ (reply.replayStorage alloc).1.segments.2.1 ++
        (reply.replayStorage alloc).1.segments.2.2 = bytes ∧
      reply.len = bytes.length ∧
      bytes.length ≤ (reply.replayStorage alloc).2 := by
  constructor
  · constructor
    · intro ⟨reply, hreply⟩
      obtain ⟨-, hencodable, -⟩ := readSuccessReply_ok_iff.mp hreply
      exact ⟨_, (typedReply_ok_iff (ReadResult.encodeResult_writes _)).mpr
        ⟨ReadResult.encodable_iff.mpr ⟨hdata, hencodable⟩, rfl⟩⟩
    · intro ⟨bytes, hbytes⟩
      obtain ⟨hencodable, -⟩ := (typedReply_ok_iff (ReadResult.encodeResult_writes _)).mp hbytes
      exact ⟨_, readSuccessReply_ok_iff.mpr ⟨hdata, (ReadResult.encodable_iff.mp hencodable).2, rfl⟩⟩
  · intro reply bytes hreply hbytes
    obtain ⟨-, rfl⟩ := (typedReply_ok_iff (ReadResult.encodeResult_writes _)).mp hbytes
    have hbytes := intoBytes_of_readSuccessReply hreply
    have hlen := reply.length_intoBytes
    rw [hbytes] at hlen
    refine ⟨reply.segments_eq_intoBytes.trans hbytes, hbytes, ?_, hlen.symm, ?_⟩
    · rw [EncodedReply.segments_eq_intoBytes, EncodedReply.replayStorage_intoBytes, hbytes]
    · rw [hlen]
      exact reply.len_le_charge alloc

/-- Three bytes of data have one of padding. -/
theorem read_reply_is_typed_three :
    ∃ reply bytes, readSuccessReply 1 none [1, 2, 3] true = .ok reply ∧
      typedNfsReply 1 (ReadResult.ok none [1, 2, 3] true) = .ok bytes ∧
      reply.segments.2 = ([1, 2, 3], [0]) ∧ reply.intoBytes = bytes ∧ reply.len = bytes.length := by
  obtain ⟨-, hsame⟩ := read_reply_is_typed ⟨id, fun _ => Nat.le_refl _⟩ 1 none [1, 2, 3] true (by decide)
  obtain ⟨-, hbytes, -, hlen, -⟩ := hsame _ _ rfl rfl
  exact ⟨_, _, rfl, rfl, rfl, hbytes, hlen⟩

theorem readErr_settles (status : NfsStatus) : Settles (nfsReply state xid (ReadResult.err status none)) :=
  .nfsReply (ReadResult.encodeResult_writes _) ((postAttributesFields_none_fits.word _).mono (by decide))

theorem sent_fits {history : Dialogue} {result : Except EncodeError EncodedReply} {reply : EncodedReply} :
    result = .ok reply → validateRecordLength reply.len state.limits.recordLimits = .ok () →
    Ensures Representable (fun _ _ => True) (fun _ => FitsRecord state) history (match result with
      | .ok reply => pure reply
      | .error error => Prog.fail (ServerError.encode error)) := by
  intro hresult hfits
  subst hresult
  exact ⟨reply, rfl, hfits⟩

/-- Whatever the backend returns for whatever was asked, the reply to a `READ` fits. -/
theorem dispatchRead_fits (hlimits : state.limits.validate = .ok ()) (arguments : ReadArgs) (history : Dialogue) :
    Ensures Representable (fun _ _ => True) (fun _ => FitsRecord state) history
      (dispatchRead state xid context entry arguments) := by
  have husable := ServerLimits.usable_of_validate hlimits
  have hread := (ServerLimits.transfers_of_validate hlimits).read
  have hshort : ∀ {program : ServerM EncodedReply}, Settles program → ∀ history,
      Ensures Representable (fun _ _ => True) (fun _ => FitsRecord state) history program :=
    fun hprogram history => (hprogram history).mono (fun _ _ => id) (fun _ _ => id) fun _ _ h => h.fitsRecord husable
  unfold dispatchRead withObject
  split
  next object _ =>
    refine ⟨trivial, fun answer htimes => ?_⟩
    cases answer with
    | error => exact hshort (readErr_settles _) _
    | ok result =>
      -- the data is cut to the count, which is at most the limit
      have hcount := toNat_min_le_right arguments.count state.limits.maxReadSize
      generalize min arguments.count state.limits.maxReadSize = count at hcount ⊢
      have hlength : (if result.data.length > count.toNat then result.data.take count.toNat else result.data).length ≤
          count.toNat := by
        split
        next => exact List.length_take_le _ _
        next h => exact Nat.le_of_not_lt h
      obtain ⟨reply, hreply, hlen⟩ := @readSuccessReply_fits result.attributes xid _ result.eof htimes
        (Nat.lt_of_le_of_lt hlength count.toNat_lt)
      exact sent_fits hreply (ServerLimits.fits_of_usable husable (by omega))
  next => exact hshort (readErr_settles _) _

/-! ## Directory listings -/

/-- The loop leaves the entries it takes within the limit, together with what was there before. -/
theorem selectEntries_size (hwire : wireLimit < usizeMax) {encodedEntries directoryBytes : Nat}
    {listed : List DirectoryEntry} {entries : List ReadDirEntry} {truncated : Bool}
    (hsize : size + encodedEntries ≤ wireLimit)
    (h : selectEntries state exportId plus directoryLimit wireLimit size encodedEntries directoryBytes listed =
      .ok (entries, truncated)) : size + encodedEntries + (entries.flatMap entryBytes).length ≤ wireLimit := by
  induction listed generalizing encodedEntries directoryBytes entries with
  | nil =>
    cases h
    exact hsize
  | cons _ _ ih =>
    obtain ⟨rfl, -⟩ | ⟨bytes, _, taken, hbytes, hroom, htaken, rfl⟩ := selectEntries_cons_ok h
    · exact hsize
    · obtain ⟨-, rfl⟩ := (Encoder.run_ok_iff (encodeReaddirEntry_writes _)).mp hbytes
      -- below the limit no sum has saturated
      have hreal : saturatingAdd size encodedEntries = size + encodedEntries :=
        saturatingAdd_of_lt (by unfold usizeMax at hwire; omega)
      rw [hreal, saturatingAdd_le_iff hwire] at hroom
      rw [saturatingAdd_of_lt (by unfold usizeMax at hwire; omega)] at htaken
      have hrest := ih (by omega) htaken
      rw [List.flatMap_cons, List.length_append]
      unfold entryBytes at hrest ⊢
      omega

theorem emptySize_ok (h : emptySize attributes verifier = .ok size) : size = armSize attributes [] := by
  unfold emptySize at h
  cases hempty : Encoder.run (encodeResult (ReadDirResult.ok attributes verifier [] false)) with
  | error =>
    rw [hempty] at h
    cases h
  | ok =>
    rw [hempty] at h
    cases h
    obtain ⟨-, rfl⟩ := (Encoder.run_ok_iff (ReadDirResult.encodeResult_writes _)).mp hempty
    rw [ReadDirResult.length_bytes]
    omega

theorem selectAttributes_ok (h : selectAttributes directoryAttributes verifier wireLimit = .ok (attributes, size)) :
    emptySize attributes verifier = .ok size := by
  simp only [selectAttributes, bind, Except.bind] at h
  split at h
  next => cases h
  next full hfull =>
  split at h
  next =>
    split at h
    next => cases h
    next hnone => cases h; exact hnone
  next => cases h; exact hfull

/-- A listing that was produced is at most the limit, the status and the header. -/
theorem readdirReply_size {page : ReadDirectoryPage} (hwire : wireLimit < usizeMax) {bytes : Bytes}
    (h : readdirReply state xid exportId plus directoryAttributes page directoryLimit wireLimit = .ok bytes) :
    bytes.length ≤ max MAXIMUM_MUTATION_REPLY_SIZE (wireLimit + READDIR_REPLY_OVERHEAD) := by
  obtain ⟨result, hresult, hreply⟩ := readdirReply_ok h
  obtain ⟨hencodable, rfl⟩ := (typedReply_ok_iff (ReadDirResult.encodeResult_writes result)).mp hreply
  rw [List.length_append, length_acceptedReplyEncoder]
  obtain rfl | ⟨attributes, size, entries, truncated, hselect, hsize, hentries, -, rfl⟩ :=
    readdirResult_cases hresult
  · have hattributes := (postAttributesFields_fits_of_encodable fun field hfield =>
      hencodable field (List.mem_cons_of_mem _ hfield)).word NfsStatus.tooSmall.code
    exact Nat.le_trans (Nat.add_le_add_left hattributes.2 24) (Nat.le_trans (by decide) (Nat.le_max_left _ _))
  · have hfull := selectEntries_size hwire hsize hentries
    have hempty := emptySize_ok (selectAttributes_ok hselect)
    rw [ReadDirResult.length_bytes, ← List.nil_append entries, armSize_append]
    unfold READDIR_REPLY_OVERHEAD
    omega

/-- Whatever is answered, a reply of the program fits a record. -/
def RepliesFit (state : ConnectionState) (program : ServerM EncodedReply) : Prop :=
  ∀ history, Ensures (fun _ _ => True) (fun _ _ => True) (fun _ result => ∀ reply, result = .ok reply →
    validateRecordLength reply.len state.limits.recordLimits = .ok ()) history program

theorem RepliesFit.encoded {bytes : Except EncodeError Bytes}
    (h : ∀ reply, bytes = .ok reply → validateRecordLength reply.length state.limits.recordLimits = .ok ()) :
    RepliesFit state (Server.encoded state bytes) := by
  intro history
  cases bytes with
  | error => exact fun reply hreply => nomatch hreply
  | ok bytes =>
    intro reply hreply
    cases hreply
    exact h bytes rfl

theorem readdirErr_fits (hlimits : state.limits.Usable) (status : NfsStatus) :
    RepliesFit state (nfsReply state xid (ReadDirResult.err status none)) := by
  obtain ⟨bytes, hbytes, hlength⟩ := typedReply_of_fits
    (ReadDirResult.encodeResult_writes (.err status none)) (postAttributesFields_none_fits.word status.code) xid
  refine RepliesFit.encoded fun reply hreply => ?_
  rw [typedNfsReply, hbytes] at hreply
  cases hreply
  exact ServerLimits.fits_of_short hlimits (Nat.le_trans hlength (by decide))

theorem readdirArm_fits (hlimits : state.limits.validate = .ok ()) {handle : FileHandle} {cookie : UInt64}
    {maxCount : UInt32} :
    RepliesFit state (readdirArm state xid context entry plus handle cookie verifier maxCount directoryLimit) := by
  have husable := ServerLimits.usable_of_validate hlimits
  have hreaddir := (ServerLimits.transfers_of_validate hlimits).readdir
  have hmutation := ServerLimits.mutation_le_capacity husable
  have hwire := toNat_min_le_right maxCount state.limits.maxReaddirResponseSize
  unfold readdirArm withObject
  split
  next directory _ =>
    dsimp only
    generalize (min maxCount state.limits.maxReaddirResponseSize).toNat = wireLimit at hwire ⊢
    split
    next => exact readdirErr_fits husable _
    next =>
      refine fun history => ⟨trivial, fun answer _ => ?_⟩
      cases answer with
      | error => exact readdirErr_fits husable _ _
      | ok page =>
        refine ⟨trivial, fun answer _ => ?_⟩
        have hpage : ∀ attributes, RepliesFit state (encoded state
            (readdirReply state xid context.exportId plus attributes page directoryLimit wireLimit)) := by
          intro attributes
          refine RepliesFit.encoded fun reply hreply => ServerLimits.fits_of_usable husable ?_
          have hsmall : wireLimit < usizeMax :=
            Nat.lt_trans (Nat.lt_of_le_of_lt hwire (UInt32.toNat_lt _)) (by decide)
          have hsize := readdirReply_size hsmall hreply
          omega
        cases answer with
        | error => exact hpage none _
        | ok attributes => exact hpage (some attributes) _
  next => exact readdirErr_fits husable _

/-! ## `WRITE` -/

/-- `MAX_VALID_RPC_CALL_PREFIX_SIZE` is what a call has at most around its arguments. -/
theorem CallHeader.length_bytes_le (hcredential : call.credentialBody.length ≤ 400) (hverifier : call.verifier = []) :
    call.bytes.length ≤ MAX_VALID_RPC_CALL_PREFIX_SIZE + call.args.length := by
  have hpadding : call.credentialBody.length + padding call.credentialBody.length ≤ 400 := by
    unfold padding
    omega
  have hempty : (opaqueBytes call.verifier).length = 4 := by rw [hverifier]; rfl
  have hbody := length_opaqueBytes call.credentialBody
  simp only [CallHeader.bytes, CallHeader.bodyBytes, List.length_append, UInt32.length_toBeBytes]
  unfold MAX_VALID_RPC_CALL_PREFIX_SIZE
  omega

theorem length_write_bytes_le (hobject : HandleFits arguments.object) : (NfsArguments.write arguments).bytes.length ≤
      WRITE_ARGUMENT_FIXED_SIZE + WRITE_PADDING_ALLOWANCE + arguments.data.length := by
  have hpadding : arguments.object.length + padding arguments.object.length ≤ 64 := by
    unfold HandleFits at hobject
    unfold padding
    omega
  have hhandle := length_opaqueBytes arguments.object
  have hdata := length_opaqueBytes_le arguments.data
  simp only [NfsArguments.bytes, List.length_append, UInt32.length_toBeBytes, UInt64.length_toBeBytes]
  unfold WRITE_ARGUMENT_FIXED_SIZE MAX_FILE_HANDLE_XDR_SIZE WRITE_PADDING_ALLOWANCE
  omega

/-- What `FSINFO` announces for a write is within the limit. -/
theorem maxWrite_boundedFsInfo_le (limits : ServerLimits) (info : FsInfo) :
    (boundedFsInfo limits info).maxWrite.toNat ≤ limits.maxWriteSize.toNat :=
  toNat_min_le_right _ _

/-- A call of `WRITE` from end to end: the client encodes it and frames it, the server reads the record
off the stream and finds the call and its arguments in it. -/
structure Transferred (limits : ServerLimits) (call : CallHeader) (arguments : WriteArgs) (record : Bytes) : Prop where
  encoded : Encoder.run (rpcCallWithVerifier call) = .ok record
  fits : validateRecordLength record.length limits.recordLimits = .ok ()
  framed : ∃ emitted, (∀ writer : Writer, writer.Emits (writer.writeRecordLimited record limits.recordLimits) emitted) ∧
    ∀ rest, readRecordBudgeted limits.recordLimits (emitted ++ rest) = .ok (record, rest)
  header : Decoder.run decodeCallHeader record = .ok (some call)
  decoded : WriteRequest.decode call.args limits.maxRpcRecordSize = .ok arguments

theorem write_transferred {limits : ServerLimits} (hlimits : limits.validate = .ok ())
    (hcredential : call.credentialBody.length ≤ 400) (hverifier : call.verifier = [])
    (hobject : arguments.object.length ≤ 64) (hdata : arguments.data.length ≤ limits.maxWriteSize.toNat)
    (hargs : Encoder.run (NfsArguments.write arguments).encode = .ok call.args) :
    Transferred limits call arguments call.bytes := by
  have husable := ServerLimits.usable_of_validate hlimits
  obtain ⟨-, hwrite, -, hrecord⟩ := ServerLimits.transfers_of_validate hlimits
  have hcapacity : limits.transportRecordCapacity ≤ limits.maxRpcRecordSize := Nat.min_le_left _ _
  have hbounded : call.Bounded := ⟨hcredential, by rw [hverifier]; decide⟩
  have hwithin : (NfsArguments.write arguments).WithinLimits limits.maxRpcRecordSize := ⟨hobject, by omega⟩
  have hspelled := spelled_iff_encode.mpr ⟨hargs, hwithin⟩
  have hlength : call.bytes.length ≤ limits.transportRecordCapacity := by
    have hprefix := CallHeader.length_bytes_le hcredential hverifier
    have harguments := @length_write_bytes_le arguments hobject
    rw [← hspelled.2.2] at harguments
    unfold MAXIMUM_WRITE_RECORD_OVERHEAD at hwrite
    omega
  have hfits := ServerLimits.fits_of_usable husable hlength
  have hencoded : Encoder.run (rpcCallWithVerifier call) = .ok call.bytes :=
    (Encoder.run_ok_iff (rpcCallWithVerifier_writes hbounded)).mpr ⟨trivial, rfl⟩
  have hshort : call.bytes.length < usizeBound := by
    unfold usizeBound
    omega
  exact {
    encoded := hencoded
    fits := hfits
    framed := ⟨marked limits.maxRpcFragmentSize husable.fragment call.bytes,
      fun writer => Writer.writeRecordLimited_emits husable.fragment husable.fragment_le hfits,
      fun rest => readRecordBudgeted_of_readRecord hrecord (readRecord_marked husable.fragment husable.fragment_le hfits rest)⟩
    header := (decodeCallHeader_ok_iff hshort).mpr ⟨hbounded, hencoded⟩
    decoded := writeRequest_decode_ok_iff.mpr hspelled }

/-! ## All transfers -/

theorem read_dispatch_fits (hlimits : state.limits.validate = .ok ()) (args : Bytes) :
    Ensures Representable (fun _ _ => True)
      (fun history result => (history = [] ∧ ∃ error, result = .error (.decode error)) ∨ FitsRecord state result) []
      (dispatchNfs state xid context 6 args) := by
  refine dispatchNfs_ensures (by decide) (by decide) (fun error => .inl ⟨rfl, error, rfl⟩) ?_ fun entry arguments h => ?_
  · exact (readErr_settles _ []).mono (fun _ _ => id) (fun _ _ => id) fun _ _ h =>
      .inr (h.fitsRecord (ServerLimits.usable_of_validate hlimits))
  · cases arguments with
    | read arguments =>
      exact (dispatchRead_fits hlimits arguments []).mono (fun _ _ => id) (fun _ _ => id) fun _ _ => .inr
    | _ => simp [NfsArguments.procedure] at h

theorem readdir_dispatch_fits (hlimits : state.limits.validate = .ok ()) {procedure : UInt32}
    (hprocedure : procedure = 16 ∨ procedure = 17) (args : Bytes) :
    Ensures (fun _ _ => True) (fun _ _ => True) (fun _ result => ∀ reply, result = .ok reply →
      validateRecordLength reply.len state.limits.recordLimits = .ok ()) []
      (dispatchNfs state xid context procedure args) := by
  have husable := ServerLimits.usable_of_validate hlimits
  refine dispatchNfs_ensures ?_ ?_ (fun error reply h => nomatch h) ?_ fun entry arguments h => ?_
  · rcases hprocedure with rfl | rfl <;> decide
  · rcases hprocedure with rfl | rfl <;> decide
  · rcases hprocedure with rfl | rfl <;> exact readdirErr_fits husable _ _
  · cases arguments with
    | readDir | readDirPlus => exact readdirArm_fits hlimits _
    | _ => rcases hprocedure with rfl | rfl <;> simp [NfsArguments.procedure] at h

/-- With limits that the builder accepts, transfers of the announced sizes get through. The reply to a
`READ` fits a record, whatever count was asked for and whatever data and expressible times the backend
returns. A `WRITE` of at most what `FSINFO` announces goes from the client's encoder to the server's
decoder. Every listing that is sent fits a record. The check on the limits does not overflow. -/
theorem advertised_transfers_deliverable (state : ConnectionState) (hlimits : state.limits.validate = .ok ()) :
    (∀ xid context args history result, (dispatchNfs state xid context 6 args).Ends history result →
      (∀ exchange ∈ history, Representable exchange.1 exchange.2) →
      (history = [] ∧ ∃ error, result = .error (.decode error)) ∨ FitsRecord state result) ∧
    (∀ (info : FsInfo) (call : CallHeader) (arguments : WriteArgs), call.credentialBody.length ≤ 400 →
      call.verifier = [] → arguments.object.length ≤ 64 →
      arguments.data.length ≤ (boundedFsInfo state.limits info).maxWrite.toNat →
      ∃ args record, Encoder.run (NfsArguments.write arguments).encode = .ok args ∧
        Transferred state.limits { call with args } arguments record) ∧
    (∀ xid context procedure, procedure = 16 ∨ procedure = 17 → ∀ args history reply,
      (dispatchNfs state xid context procedure args).Ends history (.ok reply) →
      validateRecordLength reply.len state.limits.recordLimits = .ok ()) ∧
    state.limits.validateChecked = some state.limits.validate := by
  refine ⟨?_, ?_, ?_, state.limits.validateChecked_eq⟩
  · intro xid context args history result hends htimes
    exact (read_dispatch_fits hlimits args).ends hends htimes
  · intro info call arguments hcredential hverifier hobject hdata
    have hlimit := maxWrite_boundedFsInfo_le state.limits info
    have hwithin : (NfsArguments.write arguments).WithinLimits arguments.data.length := ⟨hobject, Nat.le_refl _⟩
    have hargs : Encoder.run (NfsArguments.write arguments).encode = .ok (NfsArguments.write arguments).bytes :=
      (Encoder.run_ok_iff (encode_writes hwithin)).mpr
        ⟨Nat.lt_of_le_of_lt (Nat.le_trans hdata hlimit) (UInt32.toNat_lt _), rfl⟩
    exact ⟨_, _, hargs, write_transferred hlimits hcredential hverifier hobject (Nat.le_trans hdata hlimit) hargs⟩
  · intro xid context procedure hprocedure args history reply hends
    exact (readdir_dispatch_fits hlimits hprocedure args).ends hends (fun _ _ => trivial) reply rfl

-- the dialogue is followed by evaluating the decoders on the arguments
set_option maxRecDepth 20000

/-- A `READ` that returns two bytes, and a `WRITE` of one byte. -/
theorem advertised_transfers_deliverable_sample :
    (∃ reply : EncodedReply,
      (dispatchNfs sampleState 1 ⟨.anonymous, .v4 0 700, ⟨7⟩⟩ 6
        (opaqueBytes (sampleState.handles.encode ⟨7⟩ ⟨1, 1⟩) ++ words [0, 0, 9])).Ends
        [⟨.vfs sampleExport ⟨.anonymous, .v4 0 700, ⟨7⟩⟩ (.readBytes ⟨1, 1⟩ 0 9), .ok ⟨[1, 2], true, none⟩⟩] (.ok reply) ∧
      validateRecordLength reply.len sampleState.limits.recordLimits = .ok ()) ∧
    ∃ args record, Transferred sampleState.limits ⟨1, 2, Nfs3.PROGRAM, Nfs3.VERSION, 7, AUTH_NONE, [], AUTH_NONE, [], args⟩
      ⟨[1, 2, 3, 4], 0, 1, .unstable, [5]⟩ record := by
  obtain ⟨hread, hwrite, -, -⟩ := advertised_transfers_deliverable sampleState ServerLimits.validate_productionDefaults
  constructor
  · have hends : ∃ reply : EncodedReply, (dispatchNfs sampleState 1 ⟨.anonymous, .v4 0 700, ⟨7⟩⟩ 6
        (opaqueBytes (sampleState.handles.encode ⟨7⟩ ⟨1, 1⟩) ++ words [0, 0, 9])).Ends
        [⟨.vfs sampleExport ⟨.anonymous, .v4 0 700, ⟨7⟩⟩ (.readBytes ⟨1, 1⟩ 0 9), .ok ⟨[1, 2], true, none⟩⟩] (.ok reply) :=
      ⟨_, .ask (.done _)⟩
    obtain ⟨reply, hends⟩ := hends
    have htimes : ∀ exchange ∈ [(⟨.vfs sampleExport ⟨.anonymous, .v4 0 700, ⟨7⟩⟩ (.readBytes ⟨1, 1⟩ 0 9),
        .ok ⟨[1, 2], true, none⟩⟩ : Exchange serverSignature)], Representable exchange.1 exchange.2 := by
      rw [List.forall_mem_singleton]
      intro time htime
      cases htime
    rcases hread 1 _ _ _ _ hends htimes with ⟨hnil, -⟩ | ⟨reply', hreply, hfits⟩
    · cases hnil
    · cases hreply
      exact ⟨reply, hends, hfits⟩
  · obtain ⟨args, record, -, hrecord⟩ := hwrite ⟨0, 0, 0, 1, 0, 0, 0, 0, ⟨0, 0⟩⟩
      ⟨1, 2, Nfs3.PROGRAM, Nfs3.VERSION, 7, AUTH_NONE, [], AUTH_NONE, [], []⟩ ⟨[1, 2, 3, 4], 0, 1, .unstable, [5]⟩
      (by decide) rfl (by decide) (by decide)
    exact ⟨args, record, hrecord⟩

end NfsEmbed.Server
