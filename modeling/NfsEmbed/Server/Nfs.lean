import NfsEmbed.Lib.Interaction
import NfsEmbed.Server.Reply

/-!
# NFS procedures (`dispatch_nfs` and its helpers in `server/connection.rs`)

A request handler talks to the backends, to the mount table, to the replay cache and to the runtime.
Each of these is an operation of its environment, so a handler is a program over `serverSignature`.
Cancelling a handler at one of its await points cuts its dialogue short.
-/

namespace NfsEmbed.Server

open Lib Rpc Vfs Nfs3 Replay

inductive ServerOp where
  /-- A method call on the backend of an export. `context` is the request's context; the two methods
  without a context argument do not see it. -/
  | vfs (entry : ExportState) (context : RequestContext) (method : VfsMethod)
  /-- A section under the lock of the mount table; the answer is the table before the update. -/
  | mounts (update : MountTable → MountTable)
  | begin (key : ReplayKey) (fingerprint : RequestFingerprint)
  /-- Waiting for the reply of the request this one duplicates. -/
  | wait (receiver : Channel)
  /-- Acquiring the execution permit and spawning the task that owns the lease. -/
  | spawn (lease : ReplayEntryKey)
  | complete (lease : ReplayEntryKey) (reply : EncodedReply)
  | cancel (lease : ReplayEntryKey)

@[reducible] def ServerOp.Answer : ServerOp → Type
  | vfs _ _ method => method.Answer
  | mounts _ => MountTable
  | begin _ _ => Except ReplayError ReplayDecision
  | wait _ => Except ServerError EncodedReply
  | spawn _ => Except ServerError Unit
  | complete _ _ | cancel _ => Unit

@[reducible] def serverSignature : Signature where
  Op := ServerOp
  Answer := ServerOp.Answer

abbrev ServerM := Prog serverSignature ServerError

/-- What was said with the environment. -/
abbrev Dialogue := List (Exchange serverSignature)

variable (state : ConnectionState) (xid : UInt32) (context : RequestContext) (entry : ExportState)

def callVfs (method : VfsMethod) : ServerM method.Answer :=
  Prog.ask (S := serverSignature) (ServerOp.vfs entry context method) Prog.done

/-- `?` on an encoder's result, and `.into()`. -/
def encoded (bytes : Except EncodeError Bytes) : ServerM EncodedReply :=
  match bytes with
  | .ok bytes => pure (state.reply bytes)
  | .error error => .fail (.encode error)

/-- `typed_nfs_reply(xid, &result)?` -/
def nfsReply {ρ : Type} [EncodeNfsResult ρ] (result : ρ) : ServerM EncodedReply :=
  encoded state (typedNfsReply xid result)

/-! ## Arms that fail early -/

/-- `match decode_object(..)`: the object, or the arm's failure reply. -/
def withObject {ρ : Type} [EncodeNfsResult ρ] (handle : FileHandle) (failure : NfsStatus → ρ)
    (next : ObjectKey → ServerM EncodedReply) : ServerM EncodedReply :=
  match decodeObject handle state context.exportId with
  | .ok object => next object
  | .error status => nfsReply state xid (failure (wireNfsStatus status))

/-- `match decode_directory_operation(..)`: directory and name, or the arm's failure reply. -/
def withDirectoryOperation {ρ : Type} [EncodeNfsResult ρ] (arguments : DirectoryOperationArgs)
    (failure : NfsStatus → ρ) (next : ObjectKey → NfsName → ServerM EncodedReply) : ServerM EncodedReply :=
  match decodeDirectoryOperation arguments state context.exportId with
  | .ok (parent, name) => next parent name
  | .error status => nfsReply state xid (failure (wireNfsStatus status))

/-- `vfs.getattr(..).await.ok()`. -/
def postAttributes (object : ObjectKey) : ServerM (Option FileAttributes) := do
  return Except.toOption (← callVfs context entry (.getattr object))

def MutationResult.wcc {α : Type} (result : MutationResult α) : WccData :=
  { before := result.before, after := result.after }

/-! ## One procedure each -/

def getAttr (arguments : ObjectArgs) : ServerM EncodedReply :=
  withObject state xid context arguments.object GetAttrResult.err fun object => do
    match ← callVfs context entry (.getattr object) with
    | .ok attributes => nfsReply state xid (GetAttrResult.ok attributes)
    | .error error => nfsReply state xid (GetAttrResult.err (.ofError error))

def setAttr (arguments : SetAttrArgs) : ServerM EncodedReply :=
  withObject state xid context arguments.object (SetAttrResult.err · {}) fun object => do
    match ← callVfs context entry (.setattr object arguments.attributes arguments.guard) with
    | .ok result => nfsReply state xid (SetAttrResult.ok (MutationResult.wcc result))
    | .error error => nfsReply state xid (SetAttrResult.err (.ofError error) {})

def lookup (arguments : DirectoryOperationArgs) : ServerM EncodedReply :=
  withDirectoryOperation state xid context arguments (LookupResult.err · none) fun parent name => do
    match ← callVfs context entry (.lookup parent name) with
    | .ok found =>
      let parentAttributes ← postAttributes context entry parent
      nfsReply state xid
        (LookupResult.ok (state.handles.encode context.exportId found.object) found.attributes
          parentAttributes)
    | .error error =>
      let parentAttributes ← postAttributes context entry parent
      nfsReply state xid (LookupResult.err (.ofError error) parentAttributes)

def ACCESS_MASK : UInt32 := 0x3f

def access (arguments : AccessArgs) : ServerM EncodedReply :=
  withObject state xid context arguments.object (AccessResult.err · none) fun object => do
    let requested := arguments.requested &&& ACCESS_MASK
    match ← callVfs context entry (.access object requested) with
    | .ok allowed =>
      let attributes ← postAttributes context entry object
      nfsReply state xid (AccessResult.ok attributes (allowed &&& requested &&& ACCESS_MASK))
    | .error error =>
      let attributes ← postAttributes context entry object
      nfsReply state xid (AccessResult.err (.ofError error) attributes)

def readLink (arguments : ObjectArgs) : ServerM EncodedReply :=
  withObject state xid context arguments.object (ReadLinkResult.err · none) fun object => do
    match ← callVfs context entry (.readlink object) with
    | .ok path =>
      let attributes ← postAttributes context entry object
      nfsReply state xid (ReadLinkResult.ok attributes path)
    | .error error =>
      let attributes ← postAttributes context entry object
      nfsReply state xid (ReadLinkResult.err (.ofError error) attributes)

/-- Only the fixed fields are encoded; data and padding stay separate segments. -/
def readSuccessReply (attributes : Option FileAttributes) (data : Bytes) (eof : Bool) :
    Except EncodeError EncodedReply :=
  if data.length ≥ 2 ^ 32 then .error (.tooLarge data.length)
  else
    let fields : EncodeM Unit := do
      Encoder.writeU32 NfsStatus.ok.code
      encodePostAttributes attributes
      Encoder.writeU32 (UInt32.ofNat data.length)
      Encoder.writeBool eof
      Encoder.writeU32 (UInt32.ofNat data.length)
    match typedReply xid fields with
    | .error error => .error error
    | .ok bytes =>
      .ok (EncodedReply.segmented bytes data ⟨(4 - data.length % 4) % 4, Nat.mod_lt _ (by decide)⟩)

def dispatchRead (arguments : ReadArgs) : ServerM EncodedReply :=
  withObject state xid context arguments.object (ReadResult.err · none) fun object => do
    let count := min arguments.count state.limits.maxReadSize
    match ← callVfs context entry (.readBytes object arguments.offset count) with
    | .ok result =>
      let data := if result.data.length > count.toNat then result.data.take count.toNat else result.data
      match readSuccessReply xid result.attributes data result.eof with
      | .ok reply => pure reply
      | .error error => .fail (.encode error)
    | .error error => nfsReply state xid (ReadResult.err (.ofError error) none)

def dispatchWrite (arguments : WriteArgs) : ServerM EncodedReply :=
  match arguments.validate with
  | .error status => nfsReply state xid (Nfs3.WriteResult.err status {})
  | .ok () =>
    withObject state xid context arguments.object (Nfs3.WriteResult.err · {}) fun object => do
      let requested := arguments.requested
      let permittedCount := min arguments.data.length state.limits.maxWriteSize.toNat
      let data := arguments.data.take permittedCount
      match ← callVfs context entry (.write object arguments.offset data requested) with
      | .ok result =>
        if result.value.count.toNat ≤ data.length ∧ (data = [] ∨ result.value.count ≠ 0) ∧
            durabilitySatisfies result.value.committed requested then
          nfsReply state xid
            (Nfs3.WriteResult.ok (MutationResult.wcc result) result.value.count result.value.committed
              state.handles.instanceId)
        else nfsReply state xid (Nfs3.WriteResult.err .serverFault (MutationResult.wcc result))
      | .error error => nfsReply state xid (Nfs3.WriteResult.err (.ofError error) {})

def createReply (result : Except NfsError (MutationResult CreatedObject)) : ServerM EncodedReply :=
  match result with
  | .ok result =>
    nfsReply state xid
      (CreateResult.ok (some (state.handles.encode context.exportId result.value.object))
        result.value.attributes (MutationResult.wcc result))
  | .error error => nfsReply state xid (CreateResult.err (.ofError error) {})

def create (arguments : CreateArgs) : ServerM EncodedReply :=
  withDirectoryOperation state xid context arguments.target (CreateResult.err · {}) fun parent name => do
    createReply state xid context
      (← callVfs context entry (.create parent name arguments.attributes arguments.mode))

def mkdir (arguments : MkdirArgs) : ServerM EncodedReply :=
  withDirectoryOperation state xid context arguments.target (CreateResult.err · {}) fun parent name => do
    createReply state xid context (← callVfs context entry (.mkdir parent name arguments.attributes))

def symlink (arguments : SymlinkArgs) : ServerM EncodedReply :=
  withDirectoryOperation state xid context arguments.target (CreateResult.err · {}) fun parent name => do
    createReply state xid context
      (← callVfs context entry (.symlink parent name arguments.path arguments.attributes))

def mknod (arguments : MknodArgs) : ServerM EncodedReply :=
  withDirectoryOperation state xid context arguments.target (CreateResult.err · {}) fun parent name => do
    createReply state xid context
      (← callVfs context entry (.mknod parent name arguments.nodeType arguments.attributes))

def mutationVoidReply (result : Except NfsError (MutationResult Unit)) : ServerM EncodedReply :=
  match result with
  | .ok result => nfsReply state xid (WccResult.ok (MutationResult.wcc result))
  | .error error => nfsReply state xid (WccResult.err (.ofError error) {})

def remove (arguments : DirectoryOperationArgs) : ServerM EncodedReply :=
  withDirectoryOperation state xid context arguments (WccResult.err · {}) fun parent name => do
    mutationVoidReply state xid (← callVfs context entry (.remove parent name))

def rmdir (arguments : DirectoryOperationArgs) : ServerM EncodedReply :=
  withDirectoryOperation state xid context arguments (WccResult.err · {}) fun parent name => do
    mutationVoidReply state xid (← callVfs context entry (.rmdir parent name))

def rename (arguments : RenameArgs) : ServerM EncodedReply :=
  withDirectoryOperation state xid context arguments.fromArgs (RenameResult.err · {} {})
    fun fromParent fromName =>
  withDirectoryOperation state xid context arguments.toArgs (RenameResult.err · {} {})
    fun toParent toName => do
    match ← callVfs context entry (.rename fromParent fromName toParent toName) with
    | .ok (source, target) =>
      nfsReply state xid (RenameResult.ok (MutationResult.wcc source) (MutationResult.wcc target))
    | .error error => nfsReply state xid (RenameResult.err (.ofError error) {} {})

def link (arguments : LinkArgs) : ServerM EncodedReply :=
  withObject state xid context arguments.object (LinkResult.err · none {}) fun object =>
  withDirectoryOperation state xid context arguments.target (LinkResult.err · none {})
    fun parent name => do
    match ← callVfs context entry (.link object parent name) with
    | .ok result =>
      let objectAttributes ← postAttributes context entry object
      nfsReply state xid (LinkResult.ok objectAttributes (MutationResult.wcc result))
    | .error error => nfsReply state xid (LinkResult.err (.ofError error) none {})

/-! ### Directories -/

/-- The entry as a `READDIR` result has it. -/
def basicEntry (listed : DirectoryEntry) : ReadDirEntry :=
  { fileId := listed.fileId, name := listed.name.bytes, cookie := listed.cookie, extension := .basic }

/-- The entry as it goes into the reply. -/
def typedEntry (exportId : ExportId) (plus : Bool) (listed : DirectoryEntry) : ReadDirEntry :=
  if plus then
    { basicEntry listed with
      extension := .plus listed.attributes (some (state.handles.encode exportId listed.object)) }
  else basicEntry listed

/-- The entry loop of `readdir_reply`: the entries that fit, and whether one did not. `emptySize` is
the size of the reply without entries. -/
def selectEntries (exportId : ExportId) (plus : Bool) (directoryLimit : Option Nat) (wireLimit emptySize : Nat) :
    (encodedEntries directoryBytes : Nat) → List DirectoryEntry → Except EncodeError (List ReadDirEntry × Bool)
  | _, _, [] => .ok ([], false)
  | encodedEntries, directoryBytes, listed :: rest => do
    let directoryPart ← Encoder.run (encodeReaddirEntry (basicEntry listed))
    if directoryLimit.any fun limit =>
        saturatingAdd (saturatingAdd directoryBytes directoryPart.length) 4 > limit then
      return ([], true)
    let directoryBytes := saturatingAdd directoryBytes directoryPart.length
    let encoded ← Encoder.run (encodeReaddirEntry (typedEntry state exportId plus listed))
    if saturatingAdd (saturatingAdd emptySize encodedEntries) encoded.length > wireLimit then
      return ([], true)
    let encodedEntries := saturatingAdd encodedEntries encoded.length
    let (entries, truncated) ←
      selectEntries exportId plus directoryLimit wireLimit emptySize encodedEntries directoryBytes rest
    return (typedEntry state exportId plus listed :: entries, truncated)

/-- The size of a successful reply without entries, which excludes the status word. -/
def emptySize (directoryAttributes : Option FileAttributes) (verifier : Fixed 8) : Except EncodeError Nat := do
  let empty ← Encoder.run (encodeResult (ReadDirResult.ok directoryAttributes verifier [] false))
  return empty.length - 4

/-- The attributes that go into the reply, and its size without entries. Attributes that leave no room
are dropped. -/
def selectAttributes (directoryAttributes : Option FileAttributes) (verifier : Fixed 8) (wireLimit : Nat) :
    Except EncodeError (Option FileAttributes × Nat) := do
  let size ← emptySize directoryAttributes verifier
  if size > wireLimit then return (none, ← emptySize none verifier)
  return (directoryAttributes, size)

/-- The result of `readdir_reply`, before it is encoded. -/
def readdirResult (exportId : ExportId) (plus : Bool) (directoryAttributes : Option FileAttributes)
    (page : ReadDirectoryPage) (directoryLimit : Option Nat) (wireLimit : Nat) :
    Except EncodeError ReadDirResult := do
  let (selectedAttributes, size) ← selectAttributes directoryAttributes page.verifier wireLimit
  if size > wireLimit then return .err .tooSmall directoryAttributes
  let (entries, truncated) ←
    selectEntries state exportId plus directoryLimit wireLimit size 0 0 page.entries
  if page.entries ≠ [] ∧ truncated ∧ entries = [] then return .err .tooSmall directoryAttributes
  return .ok selectedAttributes page.verifier entries (page.eof && !truncated)

def readdirReply (exportId : ExportId) (plus : Bool) (directoryAttributes : Option FileAttributes)
    (page : ReadDirectoryPage) (directoryLimit : Option Nat) (wireLimit : Nat) :
    Except EncodeError Bytes := do
  typedNfsReply xid
    (← readdirResult state exportId plus directoryAttributes page directoryLimit wireLimit)

/-- The arm of both directory listings: `maxCount` bounds the reply, `directoryLimit` what it may hold
of names and cookies. -/
def readdirArm (plus : Bool) (handle : FileHandle) (cookie : UInt64) (verifier : Fixed 8) (maxCount : UInt32)
    (directoryLimit : Option Nat) : ServerM EncodedReply :=
  withObject state xid context handle (ReadDirResult.err · none) fun directory => do
    let wireLimit := (min maxCount state.limits.maxReaddirResponseSize).toNat
    if wireLimit < 20 then nfsReply state xid (ReadDirResult.err .tooSmall none)
    else
      let hintLimit := directoryLimit.elim wireLimit (min · wireLimit)
      let hint := max 1 (min (hintLimit / 32) 4096)
      match ← callVfs context entry (.readdir directory cookie verifier hint) with
      | .ok page =>
        let attributes ← postAttributes context entry directory
        encoded state
          (readdirReply state xid context.exportId plus attributes page directoryLimit wireLimit)
      | .error error => nfsReply state xid (ReadDirResult.err (.ofError error) none)

def readDir (arguments : ReadDirArgs) : ServerM EncodedReply :=
  readdirArm state xid context entry false arguments.directory arguments.cookie arguments.verifier
    arguments.count none

def readDirPlus (arguments : ReadDirPlusArgs) : ServerM EncodedReply :=
  readdirArm state xid context entry true arguments.directory arguments.cookie arguments.verifier
    arguments.maxCount (some arguments.directoryCount.toNat)

/-! ### The file system -/

def fsStat (arguments : ObjectArgs) : ServerM EncodedReply :=
  withObject state xid context arguments.object (FsStatResult.err · none) fun object => do
    match ← callVfs context entry (.fsstat object) with
    | .ok info =>
      let attributes ← postAttributes context entry object
      nfsReply state xid (FsStatResult.ok attributes info)
    | .error error => nfsReply state xid (FsStatResult.err (.ofError error) none)

/-- The `FSINFO` property bits. -/
def fsInfoProperties (capabilities : VfsCapabilities) : UInt32 :=
  capabilities.hardLinks.toNat.toUInt32 ||| (capabilities.symbolicLinks.toNat.toUInt32 <<< 1) |||
    (capabilities.homogeneous.toNat.toUInt32 <<< 3) ||| (capabilities.canSetTime.toNat.toUInt32 <<< 4)

/-- What the backend announces, within what the server accepts. -/
def boundedFsInfo (limits : ServerLimits) (info : FsInfo) : FsInfo :=
  let maxRead := min info.maxRead limits.maxReadSize
  let maxWrite := min info.maxWrite limits.maxWriteSize
  { info with
    maxRead
    preferredRead := min info.preferredRead maxRead
    readMultiple := min info.readMultiple maxRead
    maxWrite
    preferredWrite := min info.preferredWrite maxWrite
    writeMultiple := min info.writeMultiple maxWrite
    preferredReaddir := min info.preferredReaddir limits.maxReaddirResponseSize }

def fsInfo (arguments : ObjectArgs) : ServerM EncodedReply :=
  withObject state xid context arguments.object (FsInfoResult.err · none) fun object => do
    match ← callVfs context entry (.fsinfo object) with
    | .ok info =>
      let attributes ← postAttributes context entry object
      let capabilities ← callVfs context entry .capabilities
      nfsReply state xid
        (FsInfoResult.ok attributes (boundedFsInfo state.limits info) (fsInfoProperties capabilities))
    | .error error => nfsReply state xid (FsInfoResult.err (.ofError error) none)

def pathConf (arguments : ObjectArgs) : ServerM EncodedReply :=
  withObject state xid context arguments.object (PathConfResult.err · none) fun object => do
    match ← callVfs context entry (.pathconf object) with
    | .ok info =>
      let attributes ← postAttributes context entry object
      let info := { info with maxNameLength := min info.maxNameLength (UInt32.ofNat NfsName.MAX_LEN) }
      nfsReply state xid (PathConfResult.ok attributes info)
    | .error error => nfsReply state xid (PathConfResult.err (.ofError error) none)

def commit (arguments : CommitArgs) : ServerM EncodedReply :=
  withObject state xid context arguments.object (CommitResult.err · {}) fun object => do
    match ← callVfs context entry (.commit object arguments.offset arguments.count) with
    | .ok result =>
      nfsReply state xid (CommitResult.ok (MutationResult.wcc result) state.handles.instanceId)
    | .error error => nfsReply state xid (CommitResult.err (.ofError error) {})

/-! ## All procedures -/

def nfsFailureReplyForProcedure (procedure : UInt32) (status : NfsStatus) : ServerM EncodedReply :=
  match procedure with
  | 1 => nfsReply state xid (GetAttrResult.err status)
  | 2 => nfsReply state xid (SetAttrResult.err status {})
  | 3 => nfsReply state xid (LookupResult.err status none)
  | 4 => nfsReply state xid (AccessResult.err status none)
  | 5 => nfsReply state xid (ReadLinkResult.err status none)
  | 6 => nfsReply state xid (ReadResult.err status none)
  | 7 => nfsReply state xid (Nfs3.WriteResult.err status {})
  | 8 | 9 | 10 | 11 => nfsReply state xid (CreateResult.err status {})
  | 12 | 13 => nfsReply state xid (WccResult.err status {})
  | 14 => nfsReply state xid (RenameResult.err status {} {})
  | 15 => nfsReply state xid (LinkResult.err status none {})
  | 16 | 17 => nfsReply state xid (ReadDirResult.err status none)
  | 18 => nfsReply state xid (FsStatResult.err status none)
  | 19 => nfsReply state xid (FsInfoResult.err status none)
  | 20 => nfsReply state xid (PathConfResult.err status none)
  | 21 => nfsReply state xid (CommitResult.err status {})
  | _ => pure (state.reply (acceptedReply xid PROC_UNAVAIL []))

/-- The arms of `dispatch_nfs`, on decoded arguments and the export they are for. -/
def dispatchArguments (arguments : NfsArguments) : ServerM EncodedReply :=
  match arguments with
  | .null => pure (state.reply (acceptedReply xid SUCCESS []))
  | .getAttr arguments => getAttr state xid context entry arguments
  | .setAttr arguments => setAttr state xid context entry arguments
  | .lookup arguments => lookup state xid context entry arguments
  | .access arguments => access state xid context entry arguments
  | .readLink arguments => readLink state xid context entry arguments
  | .read arguments => dispatchRead state xid context entry arguments
  | .write arguments => dispatchWrite state xid context entry arguments
  | .create arguments => create state xid context entry arguments
  | .mkdir arguments => mkdir state xid context entry arguments
  | .symlink arguments => symlink state xid context entry arguments
  | .mknod arguments => mknod state xid context entry arguments
  | .remove arguments => remove state xid context entry arguments
  | .rmdir arguments => rmdir state xid context entry arguments
  | .rename arguments => rename state xid context entry arguments
  | .link arguments => link state xid context entry arguments
  | .readDir arguments => readDir state xid context entry arguments
  | .readDirPlus arguments => readDirPlus state xid context entry arguments
  | .fsStat arguments => fsStat state xid context entry arguments
  | .fsInfo arguments => fsInfo state xid context entry arguments
  | .pathConf arguments => pathConf state xid context entry arguments
  | .commit arguments => commit state xid context entry arguments

def findExport (exportId : ExportId) : Option ExportState :=
  state.exports.find? fun entry => entry.id = exportId

def dispatchNfs (procedure : UInt32) (args : Bytes) : ServerM EncodedReply :=
  if procedure > 21 then pure (state.reply (acceptedReply xid PROC_UNAVAIL []))
  else if procedure = 7 then
    -- the fast path of `WRITE`, whose data stays in the received record
    match WriteRequest.decode args state.limits.maxRpcRecordSize with
    | .error error => .fail (.decode error)
    | .ok arguments =>
      match findExport state context.exportId with
      | none => nfsFailureReplyForProcedure state xid procedure .badHandle
      | some entry => dispatchWrite state xid context entry arguments
  else
    match NfsArguments.decode procedure args state.limits.maxRpcRecordSize with
    | .error error => .fail (.decode error)
    | .ok .null => pure (state.reply (acceptedReply xid SUCCESS []))
    | .ok arguments =>
      match findExport state context.exportId with
      | none => nfsFailureReplyForProcedure state xid procedure .badHandle
      | some entry => dispatchArguments state xid context entry arguments

end NfsEmbed.Server
