import NfsEmbed.Laws.Nfs3.Sizes
import NfsEmbed.Laws.Server.Isolation
import NfsEmbed.Laws.Server.Replies

/-!
# Replies to mutations

The builder refuses limits that could not carry the longest reply to a mutation. So once a backend has
performed one, whatever it answered, the typed reply is sent: it is within the bound, it fits a record,
and `execute_request` has no reason to replace it. Only times that the wire cannot express are left to
fail.

The law is `mutation_results_deliverable`.
-/

namespace NfsEmbed.Vfs

/-- The times in the answer of a backend. -/
def MutationResult.times {α : Type} (result : MutationResult α) : List NfsTime :=
  optionalTimes WccAttributes.times result.before ++ optionalTimes FileAttributes.times result.after

def VfsMethod.times : (method : VfsMethod) → method.Answer → List NfsTime
  | .getattr _, .ok attributes => attributes.times
  | .lookup _ _, .ok found => optionalTimes FileAttributes.times found.attributes
  | .readBytes _ _ _, .ok result => optionalTimes FileAttributes.times result.attributes
  | .create _ _ _ _, .ok result | .mkdir _ _ _, .ok result | .symlink _ _ _ _, .ok result
  | .mknod _ _ _ _, .ok result =>
    optionalTimes FileAttributes.times result.value.attributes ++ result.times
  | .setattr _ _ _, .ok result | .remove _ _, .ok result | .rmdir _ _, .ok result | .link _ _ _, .ok result
  | .commit _ _ _, .ok result => result.times
  | .write _ _ _ _, .ok result => result.times
  | .rename _ _ _ _, .ok (source, target) => source.times ++ target.times
  | .readdir _ _ _ _, .ok page => page.entries.flatMap fun entry => optionalTimes FileAttributes.times entry.attributes
  | .fsinfo _, .ok info => [info.timeGranularity]
  | _, _ => []

end NfsEmbed.Vfs

namespace NfsEmbed.Server

open Lib Rpc Vfs Nfs3
open Prog (Ensures)

/-! ## Programs that end with a short reply -/

/-- The backend answers with times the wire can express. -/
def Representable : (op : ServerOp) → op.Answer → Prop
  | .vfs _ _ method, answer => ∀ time ∈ method.times answer, time.Valid
  | _, _ => True

/-- An outcome that is a reply within the bound of mutations. -/
def Short (result : Except ServerError EncodedReply) : Prop :=
  ∃ reply, result = .ok reply ∧ reply.len ≤ MAXIMUM_MUTATION_REPLY_SIZE

/-- Whatever the backend answers, the program ends with a short reply. -/
def Settles (program : ServerM EncodedReply) : Prop :=
  ∀ history, Ensures Representable (fun _ _ => True) (fun _ => Short) history program

variable {state : ConnectionState} {xid : UInt32} {context : RequestContext} {entry : ExportState}

/-- Fields that fit make a reply that is longer by its header. -/
theorem typedReply_of_fits {encode : EncodeM Unit} {fields : List Field} {size : Nat}
    (hwrites : WritesFields encode fields) (hfits : Fits size fields) (xid : UInt32) :
    ∃ bytes, typedReply xid encode = .ok bytes ∧ bytes.length ≤ 24 + size := by
  refine ⟨_, (typedReply_ok_iff hwrites).mpr ⟨hfits.1, rfl⟩, ?_⟩
  rw [List.length_append, length_acceptedReplyEncoder]
  exact Nat.add_le_add_left hfits.2 24

/-- A result whose fields fit is sent. -/
theorem Settles.nfsReply {ρ : Type} [EncodeNfsResult ρ] {result : ρ} {fields : List Field}
    (hwrites : WritesFields (encodeResult result) fields) (hfits : Fits 280 fields) :
    Settles (nfsReply state xid result) := by
  intro history
  obtain ⟨bytes, hbytes, hlength⟩ := typedReply_of_fits hwrites hfits xid
  rw [Server.nfsReply, typedNfsReply, hbytes]
  exact ⟨state.reply bytes, rfl, hlength⟩

theorem Settles.callVfs {method : VfsMethod} {next : method.Answer → ServerM EncodedReply}
    (h : ∀ answer, (∀ time ∈ method.times answer, time.Valid) → Settles (next answer)) :
    Settles (callVfs context entry method >>= next) :=
  fun _ => ⟨trivial, fun answer hanswer => h answer hanswer _⟩

theorem Settles.postAttributes {object : ObjectKey} {next : Option FileAttributes → ServerM EncodedReply}
    (h : ∀ attributes, (∀ time ∈ optionalTimes FileAttributes.times attributes, time.Valid) →
      Settles (next attributes)) :
    Settles (postAttributes context entry object >>= next) := by
  refine fun history => ⟨trivial, fun answer hanswer => ?_⟩
  cases answer with
  | error => exact h none (by simp [optionalTimes]) _
  | ok attributes => exact h (some attributes) hanswer _

theorem Settles.withObject {ρ : Type} [EncodeNfsResult ρ] {handle : FileHandle} {failure : NfsStatus → ρ}
    {next : ObjectKey → ServerM EncodedReply} (hfailure : ∀ status, Settles (Server.nfsReply state xid (failure status)))
    (hnext : ∀ object, Settles (next object)) : Settles (withObject state xid context handle failure next) := by
  unfold Server.withObject
  split
  next object _ => exact hnext object
  next => exact hfailure _

theorem Settles.withDirectoryOperation {ρ : Type} [EncodeNfsResult ρ] {arguments : DirectoryOperationArgs}
    {failure : NfsStatus → ρ} {next : ObjectKey → NfsName → ServerM EncodedReply}
    (hfailure : ∀ status, Settles (Server.nfsReply state xid (failure status)))
    (hnext : ∀ parent name, Settles (next parent name)) :
    Settles (withDirectoryOperation state xid context arguments failure next) := by
  unfold Server.withDirectoryOperation
  split
  next parent name _ => exact hnext parent name
  next => exact hfailure _

/-! ## The eleven procedures -/

theorem wcc_fits {α : Type} (result : MutationResult α) (h : ∀ time ∈ result.times, time.Valid) :
    Fits 116 (wccFields (MutationResult.wcc result)) :=
  wccFields_fits h

theorem setAttrErr_settles (status : NfsStatus) : Settles (nfsReply state xid (SetAttrResult.err status {})) :=
  .nfsReply (SetAttrResult.encodeResult_writes _) ((wccFields_empty_fits.word _).mono (by decide))

theorem setAttr_settles (arguments : SetAttrArgs) : Settles (setAttr state xid context entry arguments) := by
  refine .withObject setAttrErr_settles fun object => .callVfs fun answer htimes => ?_
  cases answer with
  | error => exact setAttrErr_settles _
  | ok result =>
    exact .nfsReply (SetAttrResult.encodeResult_writes _) (((wcc_fits result htimes).word _).mono (by decide))

theorem writeErr_settles (status : NfsStatus) : Settles (nfsReply state xid (Nfs3.WriteResult.err status {})) :=
  .nfsReply (Nfs3.WriteResult.encodeResult_writes _) ((wccFields_empty_fits.word _).mono (by decide))

theorem dispatchWrite_settles (arguments : WriteArgs) : Settles (dispatchWrite state xid context entry arguments) := by
  unfold dispatchWrite
  split
  next => exact writeErr_settles _
  next =>
    refine .withObject writeErr_settles fun object => .callVfs fun answer htimes => ?_
    cases answer with
    | error => exact writeErr_settles _
    | ok result =>
      dsimp only
      split
      · have htail := ((Fits.nil.verifier state.handles.instanceId).word
          (encodeStability result.value.committed)).word result.value.count
        exact .nfsReply (Nfs3.WriteResult.encodeResult_writes _)
          ((((wcc_fits result htimes).append htail).word _).mono (by decide))
      · exact .nfsReply (Nfs3.WriteResult.encodeResult_writes _) (((wcc_fits result htimes).word _).mono (by decide))

theorem createErr_settles (status : NfsStatus) : Settles (nfsReply state xid (CreateResult.err status {})) :=
  .nfsReply (CreateResult.encodeResult_writes _) ((wccFields_empty_fits.word _).mono (by decide))

/-- The longest of all: a handle, attributes and complete weak cache consistency data. -/
theorem createReply_settles {result : Except NfsError (MutationResult CreatedObject)}
    (htimes : ∀ created, result = .ok created → ∀ time ∈
      optionalTimes FileAttributes.times created.value.attributes ++ created.times, time.Valid) :
    Settles (createReply state xid context result) := by
  cases result with
  | error => exact createErr_settles _
  | ok created =>
    obtain ⟨hattributes, hwcc⟩ := List.forall_mem_append.mp (htimes created rfl)
    have hhandle := state.handles.length_encode context.exportId created.value.object
    have hhandleFits : Fits 52 [.payload (state.handles.encode context.exportId created.value.object)] := by
      have hlt : (state.handles.encode context.exportId created.value.object).length < 2 ^ 32 := by
        rw [hhandle]
        decide
      refine (Fits.nil.payload hlt).mono ?_
      rw [hhandle]
      decide
    have hoptional : Fits 56 (Field.optional (fun handle => [.payload handle])
        (some (state.handles.encode context.exportId created.value.object))) := hhandleFits.flag true
    exact .nfsReply (CreateResult.encodeResult_writes _)
      (((hoptional.append ((postAttributesFields_fits hattributes).append (wcc_fits created hwcc))).word _).mono (by decide))

theorem create_settles (arguments : CreateArgs) : Settles (create state xid context entry arguments) :=
  .withDirectoryOperation createErr_settles fun _ _ => .callVfs fun _ htimes =>
    createReply_settles fun _ heq => by subst heq; exact htimes

theorem mkdir_settles (arguments : MkdirArgs) : Settles (mkdir state xid context entry arguments) :=
  .withDirectoryOperation createErr_settles fun _ _ => .callVfs fun _ htimes =>
    createReply_settles fun _ heq => by subst heq; exact htimes

theorem symlink_settles (arguments : SymlinkArgs) : Settles (symlink state xid context entry arguments) :=
  .withDirectoryOperation createErr_settles fun _ _ => .callVfs fun _ htimes =>
    createReply_settles fun _ heq => by subst heq; exact htimes

theorem mknod_settles (arguments : MknodArgs) : Settles (mknod state xid context entry arguments) :=
  .withDirectoryOperation createErr_settles fun _ _ => .callVfs fun _ htimes =>
    createReply_settles fun _ heq => by subst heq; exact htimes

theorem wccErr_settles (status : NfsStatus) : Settles (nfsReply state xid (WccResult.err status {})) :=
  .nfsReply (WccResult.encodeResult_writes _) ((wccFields_empty_fits.word _).mono (by decide))

theorem mutationVoidReply_settles {result : Except NfsError (MutationResult Unit)}
    (htimes : ∀ removed, result = .ok removed → ∀ time ∈ removed.times, time.Valid) :
    Settles (mutationVoidReply state xid result) := by
  cases result with
  | error => exact wccErr_settles _
  | ok removed =>
    exact .nfsReply (WccResult.encodeResult_writes _) (((wcc_fits removed (htimes removed rfl)).word _).mono (by decide))

theorem remove_settles (arguments : DirectoryOperationArgs) : Settles (remove state xid context entry arguments) :=
  .withDirectoryOperation wccErr_settles fun _ _ => .callVfs fun _ htimes =>
    mutationVoidReply_settles fun _ heq => by subst heq; exact htimes

theorem rmdir_settles (arguments : DirectoryOperationArgs) : Settles (rmdir state xid context entry arguments) :=
  .withDirectoryOperation wccErr_settles fun _ _ => .callVfs fun _ htimes =>
    mutationVoidReply_settles fun _ heq => by subst heq; exact htimes

theorem renameErr_settles (status : NfsStatus) : Settles (nfsReply state xid (RenameResult.err status {} {})) :=
  .nfsReply (RenameResult.encodeResult_writes _)
    (((wccFields_empty_fits.append wccFields_empty_fits).word _).mono (by decide))

theorem rename_settles (arguments : RenameArgs) : Settles (rename state xid context entry arguments) := by
  refine .withDirectoryOperation renameErr_settles fun _ _ => .withDirectoryOperation renameErr_settles fun _ _ =>
    .callVfs fun answer htimes => ?_
  cases answer with
  | error => exact renameErr_settles _
  | ok results =>
    obtain ⟨source, target⟩ := results
    obtain ⟨hsource, htarget⟩ := List.forall_mem_append.mp htimes
    exact .nfsReply (RenameResult.encodeResult_writes _)
      ((((wcc_fits source hsource).append (wcc_fits target htarget)).word _).mono (by decide))

theorem linkErr_settles (status : NfsStatus) : Settles (nfsReply state xid (LinkResult.err status none {})) :=
  .nfsReply (LinkResult.encodeResult_writes _)
    (((postAttributesFields_none_fits.append wccFields_empty_fits).word _).mono (by decide))

theorem link_settles (arguments : LinkArgs) : Settles (link state xid context entry arguments) := by
  refine .withObject linkErr_settles fun _ => .withDirectoryOperation linkErr_settles fun _ _ =>
    .callVfs fun answer htimes => ?_
  cases answer with
  | error => exact linkErr_settles _
  | ok result =>
    refine .postAttributes fun attributes hattributes => ?_
    exact .nfsReply (LinkResult.encodeResult_writes _)
      ((((postAttributesFields_fits hattributes).append (wcc_fits result htimes)).word _).mono (by decide))

theorem commitErr_settles (status : NfsStatus) : Settles (nfsReply state xid (CommitResult.err status {})) :=
  .nfsReply (CommitResult.encodeResult_writes _) ((wccFields_empty_fits.word _).mono (by decide))

theorem commit_settles (arguments : CommitArgs) : Settles (commit state xid context entry arguments) := by
  refine .withObject commitErr_settles fun object => .callVfs fun answer htimes => ?_
  cases answer with
  | error => exact commitErr_settles _
  | ok result =>
    exact .nfsReply (CommitResult.encodeResult_writes _)
      ((((wcc_fits result htimes).append (Fits.nil.verifier state.handles.instanceId)).word _).mono (by decide))

/-! ## Dispatch -/

/-- `SETATTR`, `WRITE`, `CREATE`, `MKDIR`, `SYMLINK`, `MKNOD`, `REMOVE`, `RMDIR`, `RENAME`, `LINK` and
`COMMIT`. -/
def mutations : List UInt32 := [2, 7, 8, 9, 10, 11, 12, 13, 14, 15, 21]

theorem range_of_mem_mutations {procedure : UInt32} (h : procedure ∈ mutations) :
    ¬ procedure > 21 ∧ procedure ≠ 0 := by
  simp only [mutations, List.mem_cons, List.not_mem_nil, or_false] at h
  rcases h with rfl | rfl | rfl | rfl | rfl | rfl | rfl | rfl | rfl | rfl | rfl <;> decide

/-- Each of the eleven ends with a short reply. -/
theorem dispatchArguments_settles {arguments : NfsArguments} (h : arguments.procedure ∈ mutations) :
    Settles (dispatchArguments state xid context entry arguments) := by
  cases arguments with
  | setAttr arguments => exact setAttr_settles arguments
  | write arguments => exact dispatchWrite_settles arguments
  | create arguments => exact create_settles arguments
  | mkdir arguments => exact mkdir_settles arguments
  | symlink arguments => exact symlink_settles arguments
  | mknod arguments => exact mknod_settles arguments
  | remove arguments => exact remove_settles arguments
  | rmdir arguments => exact rmdir_settles arguments
  | rename arguments => exact rename_settles arguments
  | link arguments => exact link_settles arguments
  | commit arguments => exact commit_settles arguments
  | null | getAttr | lookup | access | readLink | read | readDir | readDirPlus | fsStat | fsInfo | pathConf =>
    simp [NfsArguments.procedure, mutations] at h

theorem nfsFailureReplyForProcedure_settles {procedure : UInt32} (h : procedure ∈ mutations) (status : NfsStatus) :
    Settles (nfsFailureReplyForProcedure state xid procedure status) := by
  simp only [mutations, List.mem_cons, List.not_mem_nil, or_false] at h
  rcases h with rfl | rfl | rfl | rfl | rfl | rfl | rfl | rfl | rfl | rfl | rfl
  · exact setAttrErr_settles status
  · exact writeErr_settles status
  · exact createErr_settles status
  · exact createErr_settles status
  · exact createErr_settles status
  · exact createErr_settles status
  · exact wccErr_settles status
  · exact wccErr_settles status
  · exact renameErr_settles status
  · exact linkErr_settles status
  · exact commitErr_settles status

/-- To say something of every request for a procedure, it is enough to say it of undecodable arguments,
of an export that is gone and of the arguments of the procedure. -/
theorem dispatchNfs_ensures {R : (op : ServerOp) → op.Answer → Prop} {P : Dialogue → ServerOp → Prop}
    {Q : Dialogue → Except ServerError EncodedReply → Prop} {procedure : UInt32} (hprocedure : ¬ procedure > 21)
    (hnull : procedure ≠ 0) {args : Bytes} (hrefused : ∀ error, Q [] (.error (.decode error)))
    (hfailure : Ensures R P Q [] (nfsFailureReplyForProcedure state xid procedure .badHandle))
    (harguments : ∀ entry arguments, arguments.procedure = procedure →
      Ensures R P Q [] (dispatchArguments state xid context entry arguments)) :
    Ensures R P Q [] (dispatchNfs state xid context procedure args) := by
  unfold dispatchNfs
  rw [if_neg hprocedure]
  split
  next hwrite =>
    split
    next error _ => exact hrefused error
    next arguments _ =>
      split
      next => exact hfailure
      next entry _ => exact harguments entry (.write arguments) hwrite.symm
  next =>
    split
    next error _ => exact hrefused error
    next hdecode => exact absurd (decode_ok_iff_spelled.mp hdecode).1 hnull
    next arguments _ hdecode =>
      split
      next => exact hfailure
      next entry _ => exact harguments entry arguments (decode_ok_iff_spelled.mp hdecode).1.symm

/-- A mutation is refused for its arguments before anything was asked, or ends with a short reply. -/
theorem dispatchNfs_settles {procedure : UInt32} (h : procedure ∈ mutations) (args : Bytes) :
    Ensures Representable (fun _ _ => True)
      (fun history result => (history = [] ∧ ∃ error, result = .error (.decode error)) ∨ Short result) []
      (dispatchNfs state xid context procedure args) := by
  have hsettles : ∀ {program : ServerM EncodedReply}, Settles program → Ensures Representable (fun _ _ => True)
      (fun history result => (history = [] ∧ ∃ error, result = .error (.decode error)) ∨ Short result) [] program :=
    fun hprogram => (hprogram []).mono (fun _ _ => id) (fun _ _ => id) fun _ _ => .inr
  obtain ⟨hrange, hnull⟩ := range_of_mem_mutations h
  refine dispatchNfs_ensures hrange hnull (fun error => .inl ⟨rfl, error, rfl⟩) ?_ ?_
  · exact hsettles (nfsFailureReplyForProcedure_settles h _)
  · intro entry arguments harguments
    exact hsettles (dispatchArguments_settles (harguments ▸ h))

/-- A reply that fits is what the execution ends with. -/
theorem executeRequest_ends_iff {procedure : UInt32} {args : Bytes} {history : Dialogue} {reply : EncodedReply}
    (hends : (dispatchNfs state xid context procedure args).Ends history (.ok reply))
    (hfits : validateRecordLength reply.len state.limits.recordLimits = .ok ())
    (outcome : Except ServerError EncodedReply) :
    (executeRequest state xid Nfs3.PROGRAM Nfs3.VERSION procedure args context).Ends history outcome ↔
      outcome = .ok reply := by
  have hcall : (dispatchCall state xid Nfs3.PROGRAM Nfs3.VERSION procedure args context).Ends history (.ok reply) := by
    unfold dispatchCall
    rw [if_pos rfl, if_neg (not_not.mpr rfl)]
    exact hends
  have hbounded : (protocolReply state xid (.ok reply)).bind (boundedReply state xid) = .ok reply := by
    show boundedReply state xid reply = .ok reply
    unfold boundedReply
    rw [hfits]
  have hexecute : (executeRequest state xid Nfs3.PROGRAM Nfs3.VERSION procedure args context).Ends history
      (.ok reply) := by
    refine hcall.outcome_bind ?_
    rw [hbounded]
    exact .done reply
  constructor
  · intro h
    exact h.unique hexecute
  · rintro rfl
    exact hexecute

/-- In every dialogue of a mutation in which the backend's times can be expressed: either its arguments
were refused before the backend was called, or it ends with a typed reply of at most 304 bytes, which
passes the check on outbound records and is what the execution of the request returns. -/
theorem mutation_results_deliverable (state : ConnectionState) (hlimits : state.limits.validate = .ok ())
    (xid : UInt32) (context : RequestContext) (procedure : UInt32) (hprocedure : procedure ∈ mutations) (args : Bytes)
    (history : Dialogue) (result : Except ServerError EncodedReply)
    (hends : (dispatchNfs state xid context procedure args).Ends history result)
    (htimes : ∀ exchange ∈ history, Representable exchange.1 exchange.2) :
    (history = [] ∧ ∃ error, result = .error (.decode error)) ∨
    ∃ reply, result = .ok reply ∧ reply.len ≤ 304 ∧
      validateRecordLength reply.len state.limits.recordLimits = .ok () ∧
      ∀ outcome, (executeRequest state xid Nfs3.PROGRAM Nfs3.VERSION procedure args context).Ends history outcome ↔
        outcome = .ok reply := by
  have husable := ServerLimits.usable_of_validate hlimits
  rcases (dispatchNfs_settles hprocedure args).ends hends htimes with hrefused | ⟨reply, rfl, hlen⟩
  · exact .inl hrefused
  · have hfits := ServerLimits.fits_of_short husable hlen
    exact .inr ⟨reply, rfl, hlen, hfits, executeRequest_ends_iff hends hfits⟩

-- the dialogue is followed by evaluating the decoders on the arguments
set_option maxRecDepth 20000

/-- `COMMIT` of a file whose backend has no attributes to report. -/
theorem mutation_results_deliverable_commit : ∃ reply : EncodedReply, reply.len ≤ 304 ∧
    ∀ outcome, (executeRequest sampleState 1 Nfs3.PROGRAM Nfs3.VERSION 21
        (opaqueBytes (sampleState.handles.encode ⟨7⟩ ⟨1, 1⟩) ++ words [0, 0, 0]) ⟨.anonymous, .v4 0 700, ⟨7⟩⟩).Ends
      [⟨.vfs sampleExport ⟨.anonymous, .v4 0 700, ⟨7⟩⟩ (.commit ⟨1, 1⟩ 0 0), .ok ⟨(), none, none⟩⟩] outcome ↔
        outcome = .ok reply := by
  have htimes : ∀ exchange ∈ [(⟨.vfs sampleExport ⟨.anonymous, .v4 0 700, ⟨7⟩⟩ (.commit ⟨1, 1⟩ 0 0),
      .ok ⟨(), none, none⟩⟩ : Exchange serverSignature)], Representable exchange.1 exchange.2 := by
    rw [List.forall_mem_singleton]
    intro time htime
    cases htime
  rcases mutation_results_deliverable sampleState ServerLimits.validate_productionDefaults 1
      ⟨.anonymous, .v4 0 700, ⟨7⟩⟩ 21 (by decide) (opaqueBytes (sampleState.handles.encode ⟨7⟩ ⟨1, 1⟩) ++ words [0, 0, 0])
      [⟨.vfs sampleExport ⟨.anonymous, .v4 0 700, ⟨7⟩⟩ (.commit ⟨1, 1⟩ 0 0), .ok ⟨(), none, none⟩⟩] _
      (.ask (.done _)) htimes with
    ⟨hnil, -⟩ | ⟨reply, -, hlen, -, houtcome⟩
  · cases hnil
  · exact ⟨reply, hlen, houtcome⟩

end NfsEmbed.Server
