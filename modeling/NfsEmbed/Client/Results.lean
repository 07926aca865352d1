import NfsEmbed.Lib.Parser
import NfsEmbed.Nfs3.Codec

/-!
# What a client reads

Parsers for the result unions of RFC 1813, one per procedure. `READDIR` and `READDIRPLUS` results
share one type on the server; on the wire they are two unions, whose entries have different shapes,
and a `NfsResult` records which of the two it is.
-/

namespace NfsEmbed.Client

open Lib Rpc Vfs Nfs3

abbrev XdrParser := Parser UInt8

/-! ## Primitives -/

def u32 : XdrParser UInt32 := do return UInt32.fromBeBytes (← Parser.take 4)

def u64 : XdrParser UInt64 := do return UInt64.fromBeBytes (← Parser.take 8)

def boolean : XdrParser Bool := do
  match ← u32 with
  | 0 => return false
  | 1 => return true
  | _ => failure

def verifier : XdrParser (Fixed 8) := do
  let bytes ← Parser.take 8
  if h : bytes.length = 8 then return ⟨bytes, h⟩ else failure

/-- A variable-length opaque field. -/
def payload : XdrParser Bytes := do
  let length := (← u32).toNat
  let value ← Parser.take length
  if (← Parser.take (padding length)).all (· = 0) then return value else failure

def optional {α : Type} (parse : XdrParser α) : XdrParser (Option α) := do
  if ← boolean then return some (← parse) else return none

/-! ## Parts of a result -/

def status : XdrParser NfsStatus := do
  match NfsStatus.fromCode (← u32) with
  | some status => return status
  | none => failure

def fileType : XdrParser FileType := do
  match ← u32 with
  | 1 => return .regular
  | 2 => return .directory
  | 3 => return .blockDevice
  | 4 => return .characterDevice
  | 5 => return .symlink
  | 6 => return .socket
  | 7 => return .fifo
  | _ => failure

def stability : XdrParser WriteStability := do
  match ← u32 with
  | 0 => return .unstable
  | 1 => return .dataSync
  | 2 => return .fileSync
  | _ => failure

def time : XdrParser NfsTime := do
  let seconds := (← u32).toUInt64
  let nanoseconds ← u32
  return { seconds, nanoseconds }

def device : XdrParser DeviceNumber := do
  let major ← u32
  let minor ← u32
  return { major, minor }

def attributes : XdrParser FileAttributes := do
  let fileType ← fileType
  let mode ← u32
  let links ← u32
  let uid ← u32
  let gid ← u32
  let size ← u64
  let used ← u64
  let device ← device
  let fsId ← u64
  let fileId ← u64
  let accessTime ← time
  let modifyTime ← time
  let changeTime ← time
  return { fileType, mode, links, uid, gid, size, used, device := some device, fsId, fileId, accessTime,
           modifyTime, changeTime }

def wccAttributes : XdrParser WccAttributes := do
  let size ← u64
  let modifyTime ← time
  let changeTime ← time
  return { size, modifyTime, changeTime }

def wcc : XdrParser WccData := do
  let before ← optional wccAttributes
  let after ← optional attributes
  return { before, after }

def readdirExtension (plus : Bool) : XdrParser ReadDirEntryExtension := do
  if plus then
    let attributes ← optional attributes
    let handle ← optional payload
    return .plus attributes handle
  else return .basic

/-- The next entry of a directory list, if there is one. -/
def nextReaddirEntry (plus : Bool) : XdrParser (Option ReadDirEntry) :=
  optional do
    let fileId ← u64
    let name ← payload
    let cookie ← u64
    let extension ← readdirExtension plus
    return { fileId, name, cookie, extension }

/-! ## Result unions -/

/-- A union switched by the status: one arm for success, one for all failures. -/
def union {ρ : Type} (ok : XdrParser ρ) (err : NfsStatus → XdrParser ρ) : XdrParser ρ := do
  let status ← status
  if status = .ok then ok else err status

def getAttr : XdrParser GetAttrResult :=
  union (do return .ok (← attributes)) fun status => pure (.err status)

def setAttr : XdrParser SetAttrResult :=
  union (do return .ok (← wcc)) fun status => do return .err status (← wcc)

def lookup : XdrParser LookupResult :=
  union (do return .ok (← payload) (← optional attributes) (← optional attributes)) fun status => do
    return .err status (← optional attributes)

def access : XdrParser AccessResult :=
  union (do return .ok (← optional attributes) (← u32)) fun status => do
    return .err status (← optional attributes)

def readLink : XdrParser ReadLinkResult :=
  union (do return .ok (← optional attributes) (← payload)) fun status => do
    return .err status (← optional attributes)

/-- The count word of a `READ` result has to be the length of the data. -/
def read : XdrParser ReadResult :=
  union
    (do
      let attributes ← optional attributes
      let count ← u32
      let eof ← boolean
      let data ← payload
      if count.toNat = data.length then return .ok attributes data eof else failure)
    fun status => do return .err status (← optional attributes)

def write : XdrParser Nfs3.WriteResult :=
  union (do return .ok (← wcc) (← u32) (← stability) (← verifier)) fun status => do
    return .err status (← wcc)

def create : XdrParser CreateResult :=
  union (do return .ok (← optional payload) (← optional attributes) (← wcc)) fun status => do
    return .err status (← wcc)

def wccResult : XdrParser WccResult :=
  union (do return .ok (← wcc)) fun status => do return .err status (← wcc)

def rename : XdrParser RenameResult :=
  union (do return .ok (← wcc) (← wcc)) fun status => do return .err status (← wcc) (← wcc)

def link : XdrParser LinkResult :=
  union (do return .ok (← optional attributes) (← wcc)) fun status => do
    return .err status (← optional attributes) (← wcc)

def readDir (plus : Bool) : XdrParser ReadDirResult :=
  union
    (do
      let directoryAttributes ← optional attributes
      let verifier ← verifier
      let entries ← Parser.chainAll (nextReaddirEntry plus)
      let eof ← boolean
      return .ok directoryAttributes verifier entries eof)
    fun status => do return .err status (← optional attributes)

def fsStat : XdrParser FsStatResult :=
  union
    (do
      let attributes ← optional attributes
      let totalBytes ← u64
      let freeBytes ← u64
      let availableBytes ← u64
      let totalFiles ← u64
      let freeFiles ← u64
      let availableFiles ← u64
      let invariantSeconds ← u32
      return .ok attributes
        { totalBytes, freeBytes, availableBytes, totalFiles, freeFiles, availableFiles, invariantSeconds })
    fun status => do return .err status (← optional attributes)

def fsInfo : XdrParser FsInfoResult :=
  union
    (do
      let attributes ← optional attributes
      let maxRead ← u32
      let preferredRead ← u32
      let readMultiple ← u32
      let maxWrite ← u32
      let preferredWrite ← u32
      let writeMultiple ← u32
      let preferredReaddir ← u32
      let maxFileSize ← u64
      let timeGranularity ← time
      let properties ← u32
      return .ok attributes
        { maxRead, preferredRead, readMultiple, maxWrite, preferredWrite, writeMultiple,
          preferredReaddir, maxFileSize, timeGranularity } properties)
    fun status => do return .err status (← optional attributes)

def pathConf : XdrParser PathConfResult :=
  union
    (do
      let attributes ← optional attributes
      let maxLinks ← u32
      let maxNameLength ← u32
      let noTruncation ← boolean
      let chownRestricted ← boolean
      let caseInsensitive ← boolean
      let casePreserving ← boolean
      return .ok attributes
        { maxLinks, maxNameLength, noTruncation, chownRestricted, caseInsensitive, casePreserving })
    fun status => do return .err status (← optional attributes)

def commit : XdrParser CommitResult :=
  union (do return .ok (← wcc) (← verifier)) fun status => do return .err status (← wcc)

/-! ## Results by procedure -/

def isPlus : ReadDirEntryExtension → Bool
  | .basic => false
  | .plus _ _ => true

/-- The entries of a directory list all have the shape of the procedure. -/
def HasShape (plus : Bool) : ReadDirResult → Prop
  | .ok _ _ entries _ => ∀ entry ∈ entries, isPlus entry.extension = plus
  | .err _ _ => True

instance (plus : Bool) : DecidablePred (HasShape plus)
  | .ok _ _ entries _ => inferInstanceAs (Decidable (∀ entry ∈ entries, isPlus entry.extension = plus))
  | .err _ _ => inferInstanceAs (Decidable True)

/-- The result of a call, by procedure. -/
inductive NfsResult where
  | getAttr (result : GetAttrResult)
  | setAttr (result : SetAttrResult)
  | lookup (result : LookupResult)
  | access (result : AccessResult)
  | readLink (result : ReadLinkResult)
  | read (result : ReadResult)
  | write (result : Nfs3.WriteResult)
  | create (result : CreateResult)
  | mkdir (result : CreateResult)
  | symlink (result : CreateResult)
  | mknod (result : CreateResult)
  | remove (result : WccResult)
  | rmdir (result : WccResult)
  | rename (result : RenameResult)
  | link (result : LinkResult)
  | readDir (result : ReadDirResult) (shape : HasShape false result)
  | readDirPlus (result : ReadDirResult) (shape : HasShape true result)
  | fsStat (result : FsStatResult)
  | fsInfo (result : FsInfoResult)
  | pathConf (result : PathConfResult)
  | commit (result : CommitResult)

namespace NfsResult

def procedure : NfsResult → UInt32
  | getAttr _ => 1
  | setAttr _ => 2
  | lookup _ => 3
  | access _ => 4
  | readLink _ => 5
  | read _ => 6
  | write _ => 7
  | create _ => 8
  | mkdir _ => 9
  | symlink _ => 10
  | mknod _ => 11
  | remove _ => 12
  | rmdir _ => 13
  | rename _ => 14
  | link _ => 15
  | readDir _ _ => 16
  | readDirPlus _ _ => 17
  | fsStat _ => 18
  | fsInfo _ => 19
  | pathConf _ => 20
  | commit _ => 21

/-- What the server writes for the result. -/
def encode : NfsResult → EncodeM Unit
  | getAttr result => encodeResult result
  | setAttr result => encodeResult result
  | lookup result => encodeResult result
  | access result => encodeResult result
  | readLink result => encodeResult result
  | read result => encodeResult result
  | write result => encodeResult result
  | create result | mkdir result | symlink result | mknod result => encodeResult result
  | remove result | rmdir result => encodeResult result
  | rename result => encodeResult result
  | link result => encodeResult result
  | readDir result _ | readDirPlus result _ => encodeResult result
  | fsStat result => encodeResult result
  | fsInfo result => encodeResult result
  | pathConf result => encodeResult result
  | commit result => encodeResult result

/-- What the client of a procedure parses its result with. -/
def parser (procedure : UInt32) : XdrParser NfsResult := do
  match procedure with
  | 1 => return getAttr (← Client.getAttr)
  | 2 => return setAttr (← Client.setAttr)
  | 3 => return lookup (← Client.lookup)
  | 4 => return access (← Client.access)
  | 5 => return readLink (← Client.readLink)
  | 6 => return read (← Client.read)
  | 7 => return write (← Client.write)
  | 8 => return create (← Client.create)
  | 9 => return mkdir (← Client.create)
  | 10 => return symlink (← Client.create)
  | 11 => return mknod (← Client.create)
  | 12 => return remove (← Client.wccResult)
  | 13 => return rmdir (← Client.wccResult)
  | 14 => return rename (← Client.rename)
  | 15 => return link (← Client.link)
  | 16 =>
    let result ← Client.readDir false
    if shape : HasShape false result then return readDir result shape else failure
  | 17 =>
    let result ← Client.readDir true
    if shape : HasShape true result then return readDirPlus result shape else failure
  | 18 => return fsStat (← Client.fsStat)
  | 19 => return fsInfo (← Client.fsInfo)
  | 20 => return pathConf (← Client.pathConf)
  | 21 => return commit (← Client.commit)
  | _ => failure

end NfsResult

end NfsEmbed.Client
