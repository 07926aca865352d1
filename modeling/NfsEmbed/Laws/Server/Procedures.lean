import NfsEmbed.Laws.Handles.Codec
import NfsEmbed.Laws.Nfs3.Arguments
import NfsEmbed.Laws.Nfs3.Results
import NfsEmbed.Server.Nfs

/-!
# What an NFS procedure may do

Whatever the backend answers, a procedure calls it only for keys whose handles are among the
request's, on the export of the request and in its context, and the reply it returns is one to the
request's transaction. Both are one specification, `Serves`, proved for the parts the procedures are
built from and then for each procedure.
-/

namespace NfsEmbed.Nfs3.NfsArguments

/-- The handles a request passes. -/
def handles : NfsArguments → List FileHandle
  | .null => []
  | .getAttr arguments | .readLink arguments | .fsStat arguments | .fsInfo arguments
  | .pathConf arguments => [arguments.object]
  | .setAttr arguments => [arguments.object]
  | .access arguments => [arguments.object]
  | .read arguments => [arguments.object]
  | .write arguments => [arguments.object]
  | .commit arguments => [arguments.object]
  | .lookup arguments | .remove arguments | .rmdir arguments => [arguments.directory]
  | .create arguments => [arguments.target.directory]
  | .mkdir arguments => [arguments.target.directory]
  | .symlink arguments => [arguments.target.directory]
  | .mknod arguments => [arguments.target.directory]
  | .rename arguments => [arguments.fromArgs.directory, arguments.toArgs.directory]
  | .link arguments => [arguments.object, arguments.target.directory]
  | .readDir arguments => [arguments.directory]
  | .readDirPlus arguments => [arguments.directory]

end NfsEmbed.Nfs3.NfsArguments

namespace NfsEmbed.Server

open Lib Rpc Vfs Nfs3 Handles Replay
open Prog (Ensures)

theorem length_acceptedReplyEncoder (xid status : UInt32) : (acceptedReplyEncoder xid status).length = 24 := by
  simp [acceptedReplyEncoder, words]

/-- The reply starts with the transaction id. -/
def Carries (xid : UInt32) (reply : EncodedReply) : Prop := ∃ body, reply.intoBytes = xid.toBeBytes ++ body

/-- A condition on calls of backend methods, given the dialogue before. -/
abbrev CallRule := Dialogue → ExportState → RequestContext → VfsMethod → Prop

/-- The operations of an execution: backend calls under a rule, and the mount table. -/
def CallRule.Permits (rule : CallRule) (history : Dialogue) : ServerOp → Prop
  | .vfs entry context method => rule history entry context method
  | .mounts _ => True
  | _ => False

/-- An outcome that is no reply, or one that carries the transaction id. -/
def Answers (xid : UInt32) (result : Except ServerError EncodedReply) : Prop :=
  ∀ reply, result = .ok reply → Carries xid reply

/-- Nothing is relied on. -/
def anything (op : ServerOp) (_ : op.Answer) : Prop := True

/-- In every dialogue the backend is called as the rule says, and a reply carries the transaction
id. -/
def Serves (rule : CallRule) (xid : UInt32) (program : ServerM EncodedReply) : Prop :=
  ∀ history, Ensures anything rule.Permits (fun _ => Answers xid) history program

/-! ## Replies -/

theorem intoBytes_reply (state : ConnectionState) (bytes : Bytes) : (state.reply bytes).intoBytes = bytes :=
  rfl

theorem carries_reply (state : ConnectionState) {xid : UInt32} {bytes body : Bytes}
    (h : bytes = xid.toBeBytes ++ body) : Carries xid (state.reply bytes) :=
  ⟨body, (intoBytes_reply state bytes).trans h⟩

theorem words_cons (value : UInt32) (values : List UInt32) :
    words (value :: values) = value.toBeBytes ++ words values := rfl

theorem carries_acceptedReply (state : ConnectionState) (xid status : UInt32) (body : Bytes) :
    Carries xid (state.reply (acceptedReply xid status body)) := by
  apply carries_reply
  rw [acceptedReply, acceptedReplyEncoder, words_cons, List.append_assoc]

/-- A result is appended to the header of the reply. -/
theorem typedReply_ok_iff {encode : EncodeM Unit} {P : Prop} {w : Bytes} (h : Writes encode P w)
    {xid : UInt32} {bytes : Bytes} :
    typedReply xid encode = .ok bytes ↔ P ∧ bytes = acceptedReplyEncoder xid SUCCESS ++ w := by
  rw [← h.ok_iff, typedReply]
  cases encode.run (acceptedReplyEncoder xid SUCCESS) with
  | error => simp [Except.map]
  | ok result => cases result; simp [Except.map]

theorem carries_typedReply (state : ConnectionState) {encode : EncodeM Unit} {P : Prop} {w : Bytes}
    (h : Writes encode P w) {xid : UInt32} {bytes : Bytes} (hbytes : typedReply xid encode = .ok bytes) :
    Carries xid (state.reply bytes) := by
  obtain ⟨-, rfl⟩ := (typedReply_ok_iff h).mp hbytes
  exact carries_acceptedReply state xid SUCCESS w

/-! ## Rules -/

section Rules

variable {rule : CallRule} {state : ConnectionState} {xid : UInt32} {context : RequestContext}
  {entry : ExportState}

theorem Serves.done {reply : EncodedReply} (h : Carries xid reply) : Serves rule xid (.done reply) := by
  intro history reply' heq
  cases heq
  exact h

theorem Serves.fail (error : ServerError) : Serves rule xid (.fail error) := by
  intro history reply heq
  cases heq

theorem Serves.ask {op : ServerOp} {next : ServerOp.Answer op → ServerM EncodedReply}
    (h : ∀ history, rule.Permits history op) (hnext : ∀ answer, Serves rule xid (next answer)) :
    Serves rule xid (Prog.ask (S := serverSignature) op next) :=
  fun history => ⟨h history, fun answer _ => hnext answer _⟩

theorem Serves.callVfs {method : VfsMethod} {next : method.Answer → ServerM EncodedReply}
    (h : ∀ history, rule history entry context method) (hnext : ∀ answer, Serves rule xid (next answer)) :
    Serves rule xid (callVfs context entry method >>= next) :=
  Serves.ask h hnext

theorem Serves.postAttributes {object : ObjectKey} {next : Option FileAttributes → ServerM EncodedReply}
    (h : ∀ history, rule history entry context (.getattr object))
    (hnext : ∀ attributes, Serves rule xid (next attributes)) :
    Serves rule xid (postAttributes context entry object >>= next) :=
  Serves.ask h fun _ => hnext _

theorem Serves.encoded {bytes : Except EncodeError Bytes}
    (h : ∀ value, bytes = .ok value → Carries xid (state.reply value)) :
    Serves rule xid (encoded state bytes) := by
  cases bytes with
  | error => exact Serves.fail _
  | ok value => exact Serves.done (h value rfl)

theorem Serves.nfsReply {ρ : Type} [EncodeNfsResult ρ] [LawfulResult ρ] (result : ρ) :
    Serves rule xid (nfsReply state xid result) := by
  obtain ⟨fields, hwrites⟩ := LawfulResult.encodeResult_writes result
  exact Serves.encoded fun value hvalue => carries_typedReply state hwrites hvalue

theorem Serves.accepted (status : UInt32) (body : Bytes) :
    Serves rule xid (pure (state.reply (acceptedReply xid status body))) :=
  Serves.done (carries_acceptedReply state xid status body)

end Rules

/-! ## Keys of the request's handles -/

/-- Calls on the export and in the context of the request, for keys of these handles. -/
def FromHandles (state : ConnectionState) (context : RequestContext) (entry : ExportState)
    (handles : List FileHandle) : CallRule :=
  fun _ entry' context' method =>
    entry' = entry ∧ context' = context ∧
      ∀ key ∈ method.keys, state.handles.encode context.exportId key ∈ handles

section Procedures

variable {state : ConnectionState} {xid : UInt32} {context : RequestContext} {entry : ExportState}
  {handles : List FileHandle}

theorem encode_of_decodeObject {handle : FileHandle} {exportId : ExportId} {object : ObjectKey}
    (h : decodeObject handle state exportId = .ok object) : handle = state.handles.encode exportId object := by
  unfold decodeObject at h
  split at h
  next hdecode =>
    cases h
    exact (state.handles.decode_ok_iff).mp hdecode
  all_goals cases h

theorem encode_of_decodeDirectoryOperation {arguments : DirectoryOperationArgs} {exportId : ExportId}
    {parent : ObjectKey} {name : NfsName}
    (h : decodeDirectoryOperation arguments state exportId = .ok (parent, name)) :
    arguments.directory = state.handles.encode exportId parent := by
  unfold decodeDirectoryOperation at h
  split at h
  next => cases h
  next hobject =>
    split at h
    next => cases h
    next =>
      split at h <;> cases h
      exact encode_of_decodeObject hobject

theorem Serves.withObject {ρ : Type} [EncodeNfsResult ρ] [LawfulResult ρ] {rule : CallRule} {handle : FileHandle}
    {failure : NfsStatus → ρ} {next : ObjectKey → ServerM EncodedReply} (hmem : handle ∈ handles)
    (hnext : ∀ object, state.handles.encode context.exportId object ∈ handles → Serves rule xid (next object)) :
    Serves rule xid (withObject state xid context handle failure next) := by
  unfold Server.withObject
  split
  next object hobject => exact hnext object (encode_of_decodeObject hobject ▸ hmem)
  next => exact Serves.nfsReply _

theorem Serves.withDirectoryOperation {ρ : Type} [EncodeNfsResult ρ] [LawfulResult ρ] {rule : CallRule}
    {arguments : DirectoryOperationArgs} {failure : NfsStatus → ρ}
    {next : ObjectKey → NfsName → ServerM EncodedReply} (hmem : arguments.directory ∈ handles)
    (hnext : ∀ parent name, state.handles.encode context.exportId parent ∈ handles →
      Serves rule xid (next parent name)) :
    Serves rule xid (withDirectoryOperation state xid context arguments failure next) := by
  unfold Server.withDirectoryOperation
  split
  next parent name hparent => exact hnext parent name (encode_of_decodeDirectoryOperation hparent ▸ hmem)
  next => exact Serves.nfsReply _

/-- A call with the request's keys. -/
theorem Serves.call {method : VfsMethod} {next : method.Answer → ServerM EncodedReply}
    (hkeys : ∀ key ∈ method.keys, state.handles.encode context.exportId key ∈ handles)
    (hnext : ∀ answer, Serves (FromHandles state context entry handles) xid (next answer)) :
    Serves (FromHandles state context entry handles) xid (Server.callVfs context entry method >>= next) :=
  Serves.callVfs (fun _ => ⟨rfl, rfl, hkeys⟩) hnext

theorem Serves.attributes {object : ObjectKey} {next : Option FileAttributes → ServerM EncodedReply}
    (hkey : state.handles.encode context.exportId object ∈ handles)
    (hnext : ∀ attributes, Serves (FromHandles state context entry handles) xid (next attributes)) :
    Serves (FromHandles state context entry handles) xid
      (Server.postAttributes context entry object >>= next) :=
  Serves.postAttributes (fun _ => ⟨rfl, rfl, by simpa [VfsMethod.keys] using hkey⟩) hnext

/-! ## One procedure each -/

attribute [local simp] VfsMethod.keys

theorem getAttr_serves (arguments : ObjectArgs) (hmem : arguments.object ∈ handles) :
    Serves (FromHandles state context entry handles) xid (getAttr state xid context entry arguments) := by
  refine .withObject hmem fun object hobject => .call (by simpa) fun answer => ?_
  cases answer <;> exact .nfsReply _

theorem setAttr_serves (arguments : SetAttrArgs) (hmem : arguments.object ∈ handles) :
    Serves (FromHandles state context entry handles) xid (setAttr state xid context entry arguments) := by
  refine .withObject hmem fun object hobject => .call (by simpa) fun answer => ?_
  cases answer <;> exact .nfsReply _

theorem lookup_serves (arguments : DirectoryOperationArgs) (hmem : arguments.directory ∈ handles) :
    Serves (FromHandles state context entry handles) xid (lookup state xid context entry arguments) := by
  refine .withDirectoryOperation hmem fun parent name hparent => .call (by simpa) fun answer => ?_
  cases answer <;> exact .attributes hparent fun _ => .nfsReply _

theorem access_serves (arguments : AccessArgs) (hmem : arguments.object ∈ handles) :
    Serves (FromHandles state context entry handles) xid (access state xid context entry arguments) := by
  refine .withObject hmem fun object hobject => .call (by simpa) fun answer => ?_
  cases answer <;> exact .attributes hobject fun _ => .nfsReply _

theorem readLink_serves (arguments : ObjectArgs) (hmem : arguments.object ∈ handles) :
    Serves (FromHandles state context entry handles) xid (readLink state xid context entry arguments) := by
  refine .withObject hmem fun object hobject => .call (by simpa) fun answer => ?_
  cases answer <;> exact .attributes hobject fun _ => .nfsReply _

/-- The fields of a `READ` reply before its data. -/
def readPrefixFields (attributes : Option FileAttributes) (data : Bytes) (eof : Bool) : List Field :=
  .word NfsStatus.ok.code :: (postAttributesFields attributes ++
    [.word (UInt32.ofNat data.length), .flag eof, .word (UInt32.ofNat data.length)])

theorem readPrefixFields_encodable_iff {attributes : Option FileAttributes} {data : Bytes} {eof : Bool} :
    (∀ field ∈ readPrefixFields attributes data eof, field.Encodable) ↔
      ∀ field ∈ postAttributesFields attributes, field.Encodable := by
  simp [readPrefixFields, or_imp, forall_and, Field.Encodable]

theorem ReadResult.encodable_iff {attributes : Option FileAttributes} {data : Bytes} {eof : Bool} :
    (∀ field ∈ (ReadResult.ok attributes data eof).fields, field.Encodable) ↔
      data.length < 2 ^ 32 ∧ ∀ field ∈ postAttributesFields attributes, field.Encodable := by
  have hpayload : (Field.payload data).Encodable ↔ data.length < 2 ^ 32 := Iff.rfl
  have hword : ∀ value, (Field.word value).Encodable := fun _ => trivial
  have hflag : (Field.flag eof).Encodable := trivial
  simp only [ReadResult.fields, List.forall_mem_cons, List.forall_mem_append, hpayload, hword, hflag,
    List.not_mem_nil, false_imp_iff, implies_true, true_and, and_comm]

theorem readSuccessReply_ok_iff {attributes : Option FileAttributes} {data : Bytes} {eof : Bool} {reply : EncodedReply} :
    readSuccessReply xid attributes data eof = .ok reply ↔
      data.length < 2 ^ 32 ∧ (∀ field ∈ postAttributesFields attributes, field.Encodable) ∧
      reply = .segmented (acceptedReplyEncoder xid SUCCESS ++ (readPrefixFields attributes data eof).flatMap Field.bytes)
        data ⟨padding data.length, Nat.mod_lt _ (by decide)⟩ := by
  have hwrites : WritesFields _ (readPrefixFields attributes data eof) :=
    (WritesFields.word NfsStatus.ok.code).seq <| (encodePostAttributes_writes attributes).seq <|
    (WritesFields.word (UInt32.ofNat data.length)).seq <| (WritesFields.flag eof).seq <|
    WritesFields.word (UInt32.ofNat data.length)
  unfold readSuccessReply
  rw [← @readPrefixFields_encodable_iff attributes data eof]
  split
  next hlong =>
    simp only [reduceCtorEq, false_iff]
    rintro ⟨hshort, -⟩
    exact absurd hshort (Nat.not_lt.mpr hlong)
  next hshort =>
    dsimp only
    split
    next error herror =>
      have hnot : ¬ ∀ field ∈ readPrefixFields attributes data eof, field.Encodable := fun h => by
        have hok := (@typedReply_ok_iff _ _ _ hwrites xid _).mpr ⟨h, rfl⟩
        rw [herror] at hok
        cases hok
      simp [hnot]
    next bytes hbytes =>
      obtain ⟨hencodable, rfl⟩ := (typedReply_ok_iff hwrites).mp hbytes
      constructor
      · intro h
        cases h
        exact ⟨Nat.lt_of_not_le hshort, hencodable, rfl⟩
      · rintro ⟨-, -, rfl⟩
        rfl

/-- The segments of a `READ` reply are the bytes of the encoded result. -/
theorem intoBytes_of_readSuccessReply {attributes : Option FileAttributes} {data : Bytes} {eof : Bool}
    {reply : EncodedReply} (h : readSuccessReply xid attributes data eof = .ok reply) :
    reply.intoBytes =
      acceptedReplyEncoder xid SUCCESS ++ (ReadResult.ok attributes data eof).fields.flatMap Field.bytes := by
  obtain ⟨-, -, rfl⟩ := readSuccessReply_ok_iff.mp h
  simp only [EncodedReply.intoBytes, EncodedReply.segmented, readPrefixFields, ReadResult.fields, List.flatMap_cons,
    List.flatMap_append, List.flatMap_nil, List.append_nil, Field.bytes, opaqueBytes, List.append_assoc]

/-- The header of a `READ` reply is its first segment. -/
theorem carries_readSuccessReply {attributes : Option FileAttributes} {data : Bytes} {eof : Bool}
    {reply : EncodedReply} (h : readSuccessReply xid attributes data eof = .ok reply) : Carries xid reply := by
  rw [Carries, intoBytes_of_readSuccessReply h, acceptedReplyEncoder, words_cons]
  simp only [List.append_assoc]
  exact ⟨_, rfl⟩

theorem dispatchRead_serves (arguments : ReadArgs) (hmem : arguments.object ∈ handles) :
    Serves (FromHandles state context entry handles) xid (dispatchRead state xid context entry arguments) := by
  refine .withObject hmem fun object hobject => .call (by simpa) fun answer => ?_
  cases answer with
  | error => exact .nfsReply _
  | ok =>
    dsimp only
    split
    next reply hreply => exact .done (carries_readSuccessReply hreply)
    next => exact .fail _

theorem dispatchWrite_serves (arguments : WriteArgs) (hmem : arguments.object ∈ handles) :
    Serves (FromHandles state context entry handles) xid (dispatchWrite state xid context entry arguments) := by
  unfold dispatchWrite
  split
  next => exact .nfsReply _
  next =>
    refine .withObject hmem fun object hobject => .call (by simpa) fun answer => ?_
    cases answer with
    | error => exact .nfsReply _
    | ok =>
      dsimp only
      split <;> exact .nfsReply _

theorem createReply_serves {rule : CallRule} (result : Except NfsError (MutationResult CreatedObject)) :
    Serves rule xid (createReply state xid context result) := by
  cases result <;> exact .nfsReply _

theorem create_serves (arguments : CreateArgs) (hmem : arguments.target.directory ∈ handles) :
    Serves (FromHandles state context entry handles) xid (create state xid context entry arguments) :=
  .withDirectoryOperation hmem fun _ _ hparent => .call (by simpa) createReply_serves

theorem mkdir_serves (arguments : MkdirArgs) (hmem : arguments.target.directory ∈ handles) :
    Serves (FromHandles state context entry handles) xid (mkdir state xid context entry arguments) :=
  .withDirectoryOperation hmem fun _ _ hparent => .call (by simpa) createReply_serves

theorem symlink_serves (arguments : SymlinkArgs) (hmem : arguments.target.directory ∈ handles) :
    Serves (FromHandles state context entry handles) xid (symlink state xid context entry arguments) :=
  .withDirectoryOperation hmem fun _ _ hparent => .call (by simpa) createReply_serves

theorem mknod_serves (arguments : MknodArgs) (hmem : arguments.target.directory ∈ handles) :
    Serves (FromHandles state context entry handles) xid (mknod state xid context entry arguments) :=
  .withDirectoryOperation hmem fun _ _ hparent => .call (by simpa) createReply_serves

theorem mutationVoidReply_serves {rule : CallRule} (result : Except NfsError (MutationResult Unit)) :
    Serves rule xid (mutationVoidReply state xid result) := by
  cases result <;> exact .nfsReply _

theorem remove_serves (arguments : DirectoryOperationArgs) (hmem : arguments.directory ∈ handles) :
    Serves (FromHandles state context entry handles) xid (remove state xid context entry arguments) :=
  .withDirectoryOperation hmem fun _ _ hparent => .call (by simpa) mutationVoidReply_serves

theorem rmdir_serves (arguments : DirectoryOperationArgs) (hmem : arguments.directory ∈ handles) :
    Serves (FromHandles state context entry handles) xid (rmdir state xid context entry arguments) :=
  .withDirectoryOperation hmem fun _ _ hparent => .call (by simpa) mutationVoidReply_serves

/-- Both directories are of the request's export, so a rename never crosses exports. -/
theorem rename_serves (arguments : RenameArgs) (hfrom : arguments.fromArgs.directory ∈ handles)
    (hto : arguments.toArgs.directory ∈ handles) :
    Serves (FromHandles state context entry handles) xid (rename state xid context entry arguments) := by
  refine .withDirectoryOperation hfrom fun fromParent fromName hfromParent =>
    .withDirectoryOperation hto fun toParent toName htoParent =>
    .call (by simp [hfromParent, htoParent]) fun answer => ?_
  cases answer <;> exact .nfsReply _

/-- The object and its new directory are of the request's export. -/
theorem link_serves (arguments : LinkArgs) (hobject : arguments.object ∈ handles)
    (htarget : arguments.target.directory ∈ handles) :
    Serves (FromHandles state context entry handles) xid (link state xid context entry arguments) := by
  refine .withObject hobject fun object hkey => .withDirectoryOperation htarget fun parent name hparent =>
    .call (by simp [hkey, hparent]) fun answer => ?_
  cases answer with
  | error => exact .nfsReply _
  | ok => exact .attributes hkey fun _ => .nfsReply _

/-- A reply of a listing carries what was selected for it. -/
theorem readdirReply_ok {exportId : ExportId} {plus : Bool} {directoryAttributes : Option FileAttributes}
    {page : ReadDirectoryPage} {directoryLimit : Option Nat} {wireLimit : Nat} {bytes : Bytes}
    (h : readdirReply state xid exportId plus directoryAttributes page directoryLimit wireLimit = .ok bytes) :
    ∃ result, readdirResult state exportId plus directoryAttributes page directoryLimit wireLimit = .ok result ∧
      typedNfsReply xid result = .ok bytes := by
  unfold readdirReply at h
  cases hresult : readdirResult state exportId plus directoryAttributes page directoryLimit wireLimit with
  | error =>
    rw [hresult] at h
    cases h
  | ok result =>
    rw [hresult] at h
    exact ⟨result, rfl, h⟩

theorem carries_readdirReply {exportId : ExportId} {plus : Bool} {directoryAttributes : Option FileAttributes}
    {page : ReadDirectoryPage} {directoryLimit : Option Nat} {wireLimit : Nat} {bytes : Bytes}
    (h : readdirReply state xid exportId plus directoryAttributes page directoryLimit wireLimit = .ok bytes) :
    Carries xid (state.reply bytes) := by
  obtain ⟨result, _, hreply⟩ := readdirReply_ok h
  exact carries_typedReply state result.encodeResult_writes hreply

theorem readdirArm_serves (plus : Bool) {handle : FileHandle} (cookie : UInt64) (verifier : Fixed 8)
    (maxCount : UInt32) (directoryLimit : Option Nat) (hmem : handle ∈ handles) :
    Serves (FromHandles state context entry handles) xid
      (readdirArm state xid context entry plus handle cookie verifier maxCount directoryLimit) := by
  refine .withObject hmem fun directory hdirectory => ?_
  dsimp only
  split
  next => exact .nfsReply _
  next =>
    refine .call (by simpa) fun answer => ?_
    cases answer with
    | error => exact .nfsReply _
    | ok => exact .attributes hdirectory fun _ => .encoded fun _ => carries_readdirReply

theorem fsStat_serves (arguments : ObjectArgs) (hmem : arguments.object ∈ handles) :
    Serves (FromHandles state context entry handles) xid (fsStat state xid context entry arguments) := by
  refine .withObject hmem fun object hobject => .call (by simpa) fun answer => ?_
  cases answer with
  | error => exact .nfsReply _
  | ok => exact .attributes hobject fun _ => .nfsReply _

theorem fsInfo_serves (arguments : ObjectArgs) (hmem : arguments.object ∈ handles) :
    Serves (FromHandles state context entry handles) xid (fsInfo state xid context entry arguments) := by
  refine .withObject hmem fun object hobject => .call (by simpa) fun answer => ?_
  cases answer with
  | error => exact .nfsReply _
  | ok => exact .attributes hobject fun _ => .call (by simp) fun _ => .nfsReply _

theorem pathConf_serves (arguments : ObjectArgs) (hmem : arguments.object ∈ handles) :
    Serves (FromHandles state context entry handles) xid (pathConf state xid context entry arguments) := by
  refine .withObject hmem fun object hobject => .call (by simpa) fun answer => ?_
  cases answer with
  | error => exact .nfsReply _
  | ok => exact .attributes hobject fun _ => .nfsReply _

theorem commit_serves (arguments : CommitArgs) (hmem : arguments.object ∈ handles) :
    Serves (FromHandles state context entry handles) xid (commit state xid context entry arguments) := by
  refine .withObject hmem fun object hobject => .call (by simpa) fun answer => ?_
  cases answer <;> exact .nfsReply _

end Procedures

/-! ## All procedures -/

section Dispatch

variable {state : ConnectionState} {xid : UInt32} {context : RequestContext} {entry : ExportState}

theorem Serves.mono {rule rule' : CallRule} {program : ServerM EncodedReply} (h : Serves rule xid program)
    (himp : ∀ history entry context method,
      rule history entry context method → rule' history entry context method) :
    Serves rule' xid program := by
  intro history
  refine (h history).mono (fun _ _ => id) (fun history op hop => ?_) fun _ _ => id
  cases op with
  | vfs entry context method => exact himp history entry context method hop
  | _ => trivial

/-- Every NFS procedure answers its call. -/
theorem dispatchArguments_serves (arguments : NfsArguments) :
    Serves (FromHandles state context entry arguments.handles) xid
      (dispatchArguments state xid context entry arguments) := by
  cases arguments with
  | null => exact .accepted _ _
  | getAttr arguments => exact getAttr_serves arguments (by simp [NfsArguments.handles])
  | setAttr arguments => exact setAttr_serves arguments (by simp [NfsArguments.handles])
  | lookup arguments => exact lookup_serves arguments (by simp [NfsArguments.handles])
  | access arguments => exact access_serves arguments (by simp [NfsArguments.handles])
  | readLink arguments => exact readLink_serves arguments (by simp [NfsArguments.handles])
  | read arguments => exact dispatchRead_serves arguments (by simp [NfsArguments.handles])
  | write arguments => exact dispatchWrite_serves arguments (by simp [NfsArguments.handles])
  | create arguments => exact create_serves arguments (by simp [NfsArguments.handles])
  | mkdir arguments => exact mkdir_serves arguments (by simp [NfsArguments.handles])
  | symlink arguments => exact symlink_serves arguments (by simp [NfsArguments.handles])
  | mknod arguments => exact mknod_serves arguments (by simp [NfsArguments.handles])
  | remove arguments => exact remove_serves arguments (by simp [NfsArguments.handles])
  | rmdir arguments => exact rmdir_serves arguments (by simp [NfsArguments.handles])
  | rename arguments =>
    exact rename_serves arguments (by simp [NfsArguments.handles]) (by simp [NfsArguments.handles])
  | link arguments =>
    exact link_serves arguments (by simp [NfsArguments.handles]) (by simp [NfsArguments.handles])
  | readDir | readDirPlus => exact readdirArm_serves _ _ _ _ _ (by simp [NfsArguments.handles])
  | fsStat arguments => exact fsStat_serves arguments (by simp [NfsArguments.handles])
  | fsInfo arguments => exact fsInfo_serves arguments (by simp [NfsArguments.handles])
  | pathConf arguments => exact pathConf_serves arguments (by simp [NfsArguments.handles])
  | commit arguments => exact commit_serves arguments (by simp [NfsArguments.handles])

theorem nfsFailureReplyForProcedure_serves {rule : CallRule} (procedure : UInt32) (status : NfsStatus) :
    Serves rule xid (nfsFailureReplyForProcedure state xid procedure status) := by
  unfold nfsFailureReplyForProcedure
  split <;> first | exact .nfsReply _ | exact .accepted _ _

/-- What calls an NFS request makes: its arguments were decoded as a whole, the export is the one of
the context, and the keys are those of handles among the arguments. -/
def NfsCalls (state : ConnectionState) (context : RequestContext) (procedure : UInt32) (args : Bytes) : CallRule :=
  fun _ entry context' method =>
    entry ∈ state.exports ∧ entry.id = context.exportId ∧ context' = context ∧
      ∃ arguments, NfsArguments.decode procedure args state.limits.maxRpcRecordSize = .ok arguments ∧
        ∀ key ∈ method.keys, state.handles.encode context.exportId key ∈ arguments.handles

theorem findExport_spec {exportId : ExportId} (h : findExport state exportId = some entry) :
    entry ∈ state.exports ∧ entry.id = exportId :=
  ⟨List.mem_of_find?_eq_some h, by simpa using List.find?_some h⟩

/-- The arms serve an export that was found, for arguments that were decoded. -/
theorem Serves.found {procedure : UInt32} {args : Bytes} {arguments : NfsArguments} {program : ServerM EncodedReply}
    (hdecode : NfsArguments.decode procedure args state.limits.maxRpcRecordSize = .ok arguments)
    (hentry : findExport state context.exportId = some entry)
    (h : Serves (FromHandles state context entry arguments.handles) xid program) :
    Serves (NfsCalls state context procedure args) xid program := by
  refine h.mono fun history entry' context' method hcall => ?_
  obtain ⟨rfl, rfl, hkeys⟩ := hcall
  obtain ⟨hmem, hid⟩ := findExport_spec hentry
  exact ⟨hmem, hid, rfl, arguments, hdecode, hkeys⟩

theorem dispatchNfs_serves (procedure : UInt32) (args : Bytes) :
    Serves (NfsCalls state context procedure args) xid (dispatchNfs state xid context procedure args) := by
  unfold dispatchNfs
  split
  next => exact .accepted _ _
  next =>
  split
  next hwrite =>
    subst hwrite
    split
    next => exact .fail _
    next arguments hdecode =>
      -- the fast path accepts what the decoder of all procedures does
      have hdecode : NfsArguments.decode 7 args state.limits.maxRpcRecordSize = .ok (.write arguments) :=
        decode_ok_iff_spelled.mpr ⟨rfl, writeRequest_decode_ok_iff.mp hdecode⟩
      split
      next => exact nfsFailureReplyForProcedure_serves _ _
      next entry hentry =>
        exact .found hdecode hentry (dispatchWrite_serves arguments (by simp [NfsArguments.handles]))
  next =>
    split
    next => exact .fail _
    next => exact .accepted _ _
    next arguments _ hdecode =>
      split
      next => exact nfsFailureReplyForProcedure_serves _ _
      next entry hentry => exact .found hdecode hentry (dispatchArguments_serves arguments)

end Dispatch

end NfsEmbed.Server
