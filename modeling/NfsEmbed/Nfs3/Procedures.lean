import NfsEmbed.Nfs3.Types

/-!
# Procedure arguments and result unions (`nfs3/procedures/mod.rs`)

Every request is decoded and finished as one typed value before its handles and names are given a
meaning, and every result is built before it is encoded.
-/

namespace NfsEmbed.Nfs3

open Lib Rpc Vfs

abbrev FileHandle := Bytes

/-! ## Arguments -/

structure ObjectArgs where
  object : FileHandle
deriving DecidableEq, Repr

structure DirectoryOperationArgs where
  directory : FileHandle
  name : Bytes
deriving DecidableEq, Repr

structure SetAttrArgs where
  object : FileHandle
  attributes : SetAttributes
  guard : Option NfsTime
deriving DecidableEq, Repr

structure AccessArgs where
  object : FileHandle
  requested : UInt32
deriving DecidableEq, Repr

structure ReadArgs where
  object : FileHandle
  offset : UInt64
  count : UInt32
deriving DecidableEq, Repr

/-- `WriteArgs`, and `WriteRequest`, which shares its data with the received record. -/
structure WriteArgs where
  object : FileHandle
  offset : UInt64
  count : UInt32
  requested : WriteStability
  data : Bytes
deriving DecidableEq, Repr

structure CreateArgs where
  target : DirectoryOperationArgs
  mode : CreateMode
  attributes : SetAttributes
deriving DecidableEq, Repr

structure MkdirArgs where
  target : DirectoryOperationArgs
  attributes : SetAttributes
deriving DecidableEq, Repr

structure SymlinkArgs where
  target : DirectoryOperationArgs
  attributes : SetAttributes
  path : Bytes
deriving DecidableEq, Repr

structure MknodArgs where
  target : DirectoryOperationArgs
  nodeType : NodeType
  attributes : SetAttributes
deriving DecidableEq, Repr

structure RenameArgs where
  fromArgs : DirectoryOperationArgs
  toArgs : DirectoryOperationArgs
deriving DecidableEq, Repr

structure LinkArgs where
  object : FileHandle
  target : DirectoryOperationArgs
deriving DecidableEq, Repr

structure ReadDirArgs where
  directory : FileHandle
  cookie : UInt64
  verifier : Fixed 8
  count : UInt32
deriving DecidableEq, Repr

structure ReadDirPlusArgs where
  directory : FileHandle
  cookie : UInt64
  verifier : Fixed 8
  directoryCount : UInt32
  maxCount : UInt32
deriving DecidableEq, Repr

structure CommitArgs where
  object : FileHandle
  offset : UInt64
  count : UInt32
deriving DecidableEq, Repr

inductive NfsArguments where
  | null
  | getAttr (arguments : ObjectArgs)
  | setAttr (arguments : SetAttrArgs)
  | lookup (arguments : DirectoryOperationArgs)
  | access (arguments : AccessArgs)
  | readLink (arguments : ObjectArgs)
  | read (arguments : ReadArgs)
  | write (arguments : WriteArgs)
  | create (arguments : CreateArgs)
  | mkdir (arguments : MkdirArgs)
  | symlink (arguments : SymlinkArgs)
  | mknod (arguments : MknodArgs)
  | remove (arguments : DirectoryOperationArgs)
  | rmdir (arguments : DirectoryOperationArgs)
  | rename (arguments : RenameArgs)
  | link (arguments : LinkArgs)
  | readDir (arguments : ReadDirArgs)
  | readDirPlus (arguments : ReadDirPlusArgs)
  | fsStat (arguments : ObjectArgs)
  | fsInfo (arguments : ObjectArgs)
  | pathConf (arguments : ObjectArgs)
  | commit (arguments : CommitArgs)
deriving DecidableEq, Repr

/-! ## Decoding arguments -/

/-- `read_bool()?.then(|| decode()).transpose()?`. -/
def readOptional {α : Type} (decode : DecodeM α) : DecodeM (Option α) := do
  if ← Decoder.readBool then
    return some (← decode)
  else
    return none

def decodeHandle : DecodeM FileHandle := Decoder.readOpaque "NFS file handle" 64

def decodeObjectArgs : DecodeM ObjectArgs := do
  let object ← decodeHandle
  return { object }

/-- The length and the characters of a name are judged later, as NFS errors. -/
def decodeDirectoryOperation : DecodeM DirectoryOperationArgs := do
  let directory ← decodeHandle
  let name ← Decoder.readString "NFS filename" 1024
  return { directory, name }

def decodeTime : DecodeM NfsTime := do
  let seconds := (← Decoder.readU32).toUInt64
  let nanoseconds ← Decoder.readU32
  if nanoseconds > 999999999 then throw (.invalidDiscriminant "nanoseconds" nanoseconds)
  return { seconds, nanoseconds }

def decodeSetTime : DecodeM (Option SetTime) := do
  match ← Decoder.readU32 with
  | 0 => return none
  | 1 => return some .serverTime
  | 2 => return some (.clientTime (← decodeTime))
  | value => throw (.invalidDiscriminant "set time" value)

def decodeSetAttributes : DecodeM SetAttributes := do
  let mode ← readOptional Decoder.readU32
  let uid ← readOptional Decoder.readU32
  let gid ← readOptional Decoder.readU32
  let size ← readOptional Decoder.readU64
  let accessTime ← decodeSetTime
  let modifyTime ← decodeSetTime
  return { mode, uid, gid, size, accessTime, modifyTime }

def decodeStability : DecodeM WriteStability := do
  match ← Decoder.readU32 with
  | 0 => return .unstable
  | 1 => return .dataSync
  | 2 => return .fileSync
  | value => throw (.invalidDiscriminant "write stability" value)

def decodeCreateMode : DecodeM CreateMode := do
  match ← Decoder.readU32 with
  | 0 => return .unchecked
  | 1 => return .guarded
  | 2 => return .exclusive (← Decoder.readFixed 8)
  | value => throw (.invalidDiscriminant "CREATE mode" value)

def CreateMode.isExclusive : CreateMode → Bool
  | .exclusive _ => true
  | _ => false

/-- An exclusive creation carries no attributes. -/
def decodeCreateAttributes (mode : CreateMode) : DecodeM SetAttributes :=
  if CreateMode.isExclusive mode then pure {} else decodeSetAttributes

/-- The arm of a `MKNOD` union whose discriminant `kind` was read before the attributes. -/
def decodeNodeType (kind : UInt32) : DecodeM NodeType := do
  match kind with
  | 3 => return .blockDevice (← Decoder.readU32) (← Decoder.readU32)
  | 4 => return .characterDevice (← Decoder.readU32) (← Decoder.readU32)
  | 6 => return .socket
  | 7 => return .fifo
  | value => throw (.invalidDiscriminant "MKNOD type" value)

def decodeSetAttrArgs : DecodeM SetAttrArgs := do
  let object ← decodeHandle
  let attributes ← decodeSetAttributes
  let guard ← readOptional decodeTime
  return { object, attributes, guard }

def decodeAccessArgs : DecodeM AccessArgs := do
  let object ← decodeHandle
  let requested ← Decoder.readU32
  return { object, requested }

def decodeReadArgs : DecodeM ReadArgs := do
  let object ← decodeHandle
  let offset ← Decoder.readU64
  let count ← Decoder.readU32
  return { object, offset, count }

def decodeWriteArgs (maxVariableSize : Nat) : DecodeM WriteArgs := do
  let object ← decodeHandle
  let offset ← Decoder.readU64
  let count ← Decoder.readU32
  let requested ← decodeStability
  let data ← Decoder.readOpaque "WRITE data" maxVariableSize
  return { object, offset, count, requested, data }

def decodeCreateArgs : DecodeM CreateArgs := do
  let target ← decodeDirectoryOperation
  let mode ← decodeCreateMode
  let attributes ← decodeCreateAttributes mode
  return { target, mode, attributes }

def decodeMkdirArgs : DecodeM MkdirArgs := do
  let target ← decodeDirectoryOperation
  let attributes ← decodeSetAttributes
  return { target, attributes }

def decodeSymlinkArgs (maxVariableSize : Nat) : DecodeM SymlinkArgs := do
  let target ← decodeDirectoryOperation
  let attributes ← decodeSetAttributes
  let path ← Decoder.readString "symlink target" maxVariableSize
  return { target, attributes, path }

def decodeMknodArgs : DecodeM MknodArgs := do
  let target ← decodeDirectoryOperation
  let kind ← Decoder.readU32
  let attributes ← decodeSetAttributes
  let nodeType ← decodeNodeType kind
  return { target, nodeType, attributes }

def decodeRenameArgs : DecodeM RenameArgs := do
  let fromArgs ← decodeDirectoryOperation
  let toArgs ← decodeDirectoryOperation
  return { fromArgs, toArgs }

def decodeLinkArgs : DecodeM LinkArgs := do
  let object ← decodeHandle
  let target ← decodeDirectoryOperation
  return { object, target }

def decodeReadDirArgs : DecodeM ReadDirArgs := do
  let directory ← decodeHandle
  let cookie ← Decoder.readU64
  let verifier ← Decoder.readFixed 8
  let count ← Decoder.readU32
  return { directory, cookie, verifier, count }

def decodeReadDirPlusArgs : DecodeM ReadDirPlusArgs := do
  let directory ← decodeHandle
  let cookie ← Decoder.readU64
  let verifier ← Decoder.readFixed 8
  let directoryCount ← Decoder.readU32
  let maxCount ← Decoder.readU32
  return { directory, cookie, verifier, directoryCount, maxCount }

def decodeCommitArgs : DecodeM CommitArgs := do
  let object ← decodeHandle
  let offset ← Decoder.readU64
  let count ← Decoder.readU32
  return { object, offset, count }

/-- The arms of `NfsArguments::decode`, before the end of the input is checked. The source decodes
most records in the arm itself. -/
def decodeArguments (procedure : UInt32) (maxVariableSize : Nat) : DecodeM NfsArguments := do
  match procedure with
  | 0 => return .null
  | 1 => return .getAttr (← decodeObjectArgs)
  | 2 => return .setAttr (← decodeSetAttrArgs)
  | 3 => return .lookup (← decodeDirectoryOperation)
  | 4 => return .access (← decodeAccessArgs)
  | 5 => return .readLink (← decodeObjectArgs)
  | 6 => return .read (← decodeReadArgs)
  | 7 => return .write (← decodeWriteArgs maxVariableSize)
  | 8 => return .create (← decodeCreateArgs)
  | 9 => return .mkdir (← decodeMkdirArgs)
  | 10 => return .symlink (← decodeSymlinkArgs maxVariableSize)
  | 11 => return .mknod (← decodeMknodArgs)
  | 12 => return .remove (← decodeDirectoryOperation)
  | 13 => return .rmdir (← decodeDirectoryOperation)
  | 14 => return .rename (← decodeRenameArgs)
  | 15 => return .link (← decodeLinkArgs)
  | 16 => return .readDir (← decodeReadDirArgs)
  | 17 => return .readDirPlus (← decodeReadDirPlusArgs)
  | 18 => return .fsStat (← decodeObjectArgs)
  | 19 => return .fsInfo (← decodeObjectArgs)
  | 20 => return .pathConf (← decodeObjectArgs)
  | 21 => return .commit (← decodeCommitArgs)
  | value => throw (.invalidDiscriminant "NFS procedure" value)

def NfsArguments.decode (procedure : UInt32) (input : Bytes) (maxVariableSize : Nat) :
    Except DecodeError NfsArguments :=
  Decoder.run
    (do let arguments ← decodeArguments procedure maxVariableSize; Decoder.finish; return arguments)
    input

/-- What the zero-copy decoder of `WRITE` arguments has validated: the arguments apart from the data,
and where the data is in the input. -/
structure WriteRequest.Parts where
  object : FileHandle
  offset : UInt64
  count : UInt32
  requested : WriteStability
  dataStart : Nat
  dataEnd : Nat
deriving DecidableEq, Repr

def WriteRequest.decodeParts (input : Bytes) (maxVariableSize : Nat) : Except DecodeError WriteRequest.Parts :=
  Decoder.run
    (do
      let object ← decodeHandle
      let offset ← Decoder.readU64
      let count ← Decoder.readU32
      let requested ← decodeStability
      let dataPrefix := (← get).position
      let dataLen := (← Decoder.readOpaqueSlice "WRITE data" maxVariableSize).length
      Decoder.finish
      match checkedAdd dataPrefix 4 with
      | none => throw .overflow
      | some dataStart =>
        match checkedAdd dataStart dataLen with
        | none => throw .overflow
        | some dataEnd => return { object, offset, count, requested, dataStart, dataEnd })
    input

/-- The zero-copy decoder of `WRITE` arguments: the data is cut out of the input once the whole input
has been validated. `Bytes::slice` needs the range to be in bounds, which is proved of the parts. -/
def WriteRequest.decode (input : Bytes) (maxVariableSize : Nat) : Except DecodeError WriteArgs := do
  let parts ← WriteRequest.decodeParts input maxVariableSize
  return { object := parts.object, offset := parts.offset, count := parts.count, requested := parts.requested,
           data := (input.drop parts.dataStart).take (parts.dataEnd - parts.dataStart) }

/-- `validate_write_count`, through `WriteArgs::validate` and `WriteRequest::validate`. -/
def WriteArgs.validate (arguments : WriteArgs) : Except NfsStatus Unit :=
  if arguments.count.toNat ≠ arguments.data.length then .error .invalid else .ok ()

/-! ## Results -/

inductive GetAttrResult where
  | ok (attributes : FileAttributes)
  | err (status : NfsStatus)
deriving DecidableEq, Repr

inductive SetAttrResult where
  | ok (objectWcc : WccData)
  | err (status : NfsStatus) (objectWcc : WccData)
deriving DecidableEq, Repr

inductive RenameResult where
  | ok (fromDirectoryWcc toDirectoryWcc : WccData)
  | err (status : NfsStatus) (fromDirectoryWcc toDirectoryWcc : WccData)
deriving DecidableEq, Repr

inductive ReadLinkResult where
  | ok (attributes : Option FileAttributes) (path : Bytes)
  | err (status : NfsStatus) (attributes : Option FileAttributes)
deriving DecidableEq, Repr

inductive LookupResult where
  | ok (objectHandle : Bytes) (objectAttributes directoryAttributes : Option FileAttributes)
  | err (status : NfsStatus) (directoryAttributes : Option FileAttributes)
deriving DecidableEq, Repr

inductive AccessResult where
  | ok (attributes : Option FileAttributes) (access : UInt32)
  | err (status : NfsStatus) (attributes : Option FileAttributes)
deriving DecidableEq, Repr

inductive ReadResult where
  | ok (attributes : Option FileAttributes) (data : Bytes) (eof : Bool)
  | err (status : NfsStatus) (attributes : Option FileAttributes)
deriving DecidableEq, Repr

inductive WriteResult where
  | ok (fileWcc : WccData) (count : UInt32) (committed : WriteStability) (verifier : Fixed 8)
  | err (status : NfsStatus) (fileWcc : WccData)
deriving DecidableEq, Repr

/-- Also the result of `MKDIR`, `SYMLINK` and `MKNOD`. -/
inductive CreateResult where
  | ok (objectHandle : Option Bytes) (objectAttributes : Option FileAttributes) (directoryWcc : WccData)
  | err (status : NfsStatus) (directoryWcc : WccData)
deriving DecidableEq, Repr

/-- The result of `REMOVE` and `RMDIR`. -/
inductive WccResult where
  | ok (objectWcc : WccData)
  | err (status : NfsStatus) (objectWcc : WccData)
deriving DecidableEq, Repr

inductive LinkResult where
  | ok (objectAttributes : Option FileAttributes) (directoryWcc : WccData)
  | err (status : NfsStatus) (objectAttributes : Option FileAttributes) (directoryWcc : WccData)
deriving DecidableEq, Repr

inductive ReadDirEntryExtension where
  | basic
  | plus (attributes : Option FileAttributes) (handle : Option Bytes)
deriving DecidableEq, Repr

structure ReadDirEntry where
  fileId : UInt64
  name : Bytes
  cookie : UInt64
  extension : ReadDirEntryExtension
deriving DecidableEq, Repr

/-- Also the result of `READDIRPLUS`. -/
inductive ReadDirResult where
  | ok (directoryAttributes : Option FileAttributes) (verifier : Fixed 8) (entries : List ReadDirEntry)
      (eof : Bool)
  | err (status : NfsStatus) (directoryAttributes : Option FileAttributes)
deriving DecidableEq, Repr

inductive FsStatResult where
  | ok (attributes : Option FileAttributes) (info : FsStat)
  | err (status : NfsStatus) (attributes : Option FileAttributes)
deriving DecidableEq, Repr

inductive FsInfoResult where
  | ok (attributes : Option FileAttributes) (info : FsInfo) (properties : UInt32)
  | err (status : NfsStatus) (attributes : Option FileAttributes)
deriving DecidableEq, Repr

inductive PathConfResult where
  | ok (attributes : Option FileAttributes) (info : PathConf)
  | err (status : NfsStatus) (attributes : Option FileAttributes)
deriving DecidableEq, Repr

inductive CommitResult where
  | ok (fileWcc : WccData) (verifier : Fixed 8)
  | err (status : NfsStatus) (fileWcc : WccData)
deriving DecidableEq, Repr

end NfsEmbed.Nfs3
