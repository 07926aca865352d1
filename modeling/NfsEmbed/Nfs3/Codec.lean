import NfsEmbed.Nfs3.Procedures

/-!
# Encoding results (`nfs3/codec.rs`)
-/

namespace NfsEmbed.Nfs3

open Lib Rpc Vfs Encoder

/-! ## Parts of a result -/

def encodeStability : WriteStability → UInt32
  | .unstable => 0
  | .dataSync => 1
  | .fileSync => 2

def encodeTime (time : NfsTime) : EncodeM Unit := do
  if time.seconds.toNat ≥ 2 ^ 32 then throw (.invalidTime time.seconds time.nanoseconds)
  if time.nanoseconds > 999999999 then throw (.invalidTime time.seconds time.nanoseconds)
  writeU32 time.seconds.toUInt32
  writeU32 time.nanoseconds

/-- The `ftype3` code of a file type. -/
def encodeFileType : FileType → UInt32
  | .regular => 1
  | .directory => 2
  | .blockDevice => 3
  | .characterDevice => 4
  | .symlink => 5
  | .socket => 6
  | .fifo => 7

/-- The device number that is written: zero unless the object is a device. -/
def encodedDevice (attributes : FileAttributes) : DeviceNumber :=
  match attributes.fileType with
  | .blockDevice | .characterDevice => attributes.device.getD {}
  | _ => {}

def encodeAttributes (attributes : FileAttributes) : EncodeM Unit := do
  writeU32 (encodeFileType attributes.fileType)
  writeU32 attributes.mode
  writeU32 attributes.links
  writeU32 attributes.uid
  writeU32 attributes.gid
  writeU64 attributes.size
  writeU64 attributes.used
  writeU32 (encodedDevice attributes).major
  writeU32 (encodedDevice attributes).minor
  writeU64 attributes.fsId
  writeU64 attributes.fileId
  encodeTime attributes.accessTime
  encodeTime attributes.modifyTime
  encodeTime attributes.changeTime

/-- `write_bool(value.is_some())`, then the value if there is one. -/
def writeOptional {α : Type} (encode : α → EncodeM Unit) (value : Option α) : EncodeM Unit := do
  writeBool value.isSome
  match value with
  | some value => encode value
  | none => pure ()

def encodePostAttributes (attributes : Option FileAttributes) : EncodeM Unit :=
  writeOptional encodeAttributes attributes

def encodeWcc (wcc : WccData) : EncodeM Unit := do
  writeOptional
    (fun attributes => do
      writeU64 attributes.size
      encodeTime attributes.modifyTime
      encodeTime attributes.changeTime)
    wcc.before
  encodePostAttributes wcc.after

def encodeReaddirEntry (entry : ReadDirEntry) : EncodeM Unit := do
  writeBool true
  writeU64 entry.fileId
  writeOpaque entry.name
  writeU64 entry.cookie
  match entry.extension with
  | .basic => pure ()
  | .plus attributes handle =>
    encodePostAttributes attributes
    writeOptional writeOpaque handle

/-! ## Results -/

class EncodeNfsResult (ρ : Type) where
  encodeResult : ρ → EncodeM Unit

export EncodeNfsResult (encodeResult)

instance : EncodeNfsResult GetAttrResult where
  encodeResult
    | .ok attributes => do
      writeU32 NfsStatus.ok.code
      encodeAttributes attributes
    | .err status => writeU32 status.code

instance : EncodeNfsResult LookupResult where
  encodeResult
    | .ok objectHandle objectAttributes directoryAttributes => do
      writeU32 NfsStatus.ok.code
      writeOpaque objectHandle
      encodePostAttributes objectAttributes
      encodePostAttributes directoryAttributes
    | .err status directoryAttributes => do
      writeU32 status.code
      encodePostAttributes directoryAttributes

instance : EncodeNfsResult AccessResult where
  encodeResult
    | .ok attributes access => do
      writeU32 NfsStatus.ok.code
      encodePostAttributes attributes
      writeU32 access
    | .err status attributes => do
      writeU32 status.code
      encodePostAttributes attributes

instance : EncodeNfsResult ReadResult where
  encodeResult
    | .ok attributes data eof => do
      writeU32 NfsStatus.ok.code
      encodePostAttributes attributes
      if data.length ≥ 2 ^ 32 then throw (.tooLarge data.length)
      writeU32 (UInt32.ofNat data.length)
      writeBool eof
      writeOpaque data
    | .err status attributes => do
      writeU32 status.code
      encodePostAttributes attributes

instance : EncodeNfsResult WriteResult where
  encodeResult
    | .ok fileWcc count committed verifier => do
      writeU32 NfsStatus.ok.code
      encodeWcc fileWcc
      writeU32 count
      writeU32 (encodeStability committed)
      writeFixed verifier.bytes
    | .err status fileWcc => do
      writeU32 status.code
      encodeWcc fileWcc

instance : EncodeNfsResult CreateResult where
  encodeResult
    | .ok objectHandle objectAttributes directoryWcc => do
      writeU32 NfsStatus.ok.code
      writeOptional writeOpaque objectHandle
      encodePostAttributes objectAttributes
      encodeWcc directoryWcc
    | .err status directoryWcc => do
      writeU32 status.code
      encodeWcc directoryWcc

instance : EncodeNfsResult WccResult where
  encodeResult
    | .ok objectWcc => do
      writeU32 NfsStatus.ok.code
      encodeWcc objectWcc
    | .err status objectWcc => do
      writeU32 status.code
      encodeWcc objectWcc

instance : EncodeNfsResult LinkResult where
  encodeResult
    | .ok objectAttributes directoryWcc => do
      writeU32 NfsStatus.ok.code
      encodePostAttributes objectAttributes
      encodeWcc directoryWcc
    | .err status objectAttributes directoryWcc => do
      writeU32 status.code
      encodePostAttributes objectAttributes
      encodeWcc directoryWcc

instance : EncodeNfsResult ReadDirResult where
  encodeResult
    | .ok directoryAttributes verifier entries eof => do
      writeU32 NfsStatus.ok.code
      encodePostAttributes directoryAttributes
      writeFixed verifier.bytes
      entries.forM encodeReaddirEntry
      writeBool false
      writeBool eof
    | .err status directoryAttributes => do
      writeU32 status.code
      encodePostAttributes directoryAttributes

instance : EncodeNfsResult FsStatResult where
  encodeResult
    | .ok attributes info => do
      writeU32 NfsStatus.ok.code
      encodePostAttributes attributes
      writeU64 info.totalBytes
      writeU64 info.freeBytes
      writeU64 info.availableBytes
      writeU64 info.totalFiles
      writeU64 info.freeFiles
      writeU64 info.availableFiles
      writeU32 info.invariantSeconds
    | .err status attributes => do
      writeU32 status.code
      encodePostAttributes attributes

instance : EncodeNfsResult PathConfResult where
  encodeResult
    | .ok attributes info => do
      writeU32 NfsStatus.ok.code
      encodePostAttributes attributes
      writeU32 info.maxLinks
      writeU32 info.maxNameLength
      writeBool info.noTruncation
      writeBool info.chownRestricted
      writeBool info.caseInsensitive
      writeBool info.casePreserving
    | .err status attributes => do
      writeU32 status.code
      encodePostAttributes attributes

instance : EncodeNfsResult CommitResult where
  encodeResult
    | .ok fileWcc verifier => do
      writeU32 NfsStatus.ok.code
      encodeWcc fileWcc
      writeFixed verifier.bytes
    | .err status fileWcc => do
      writeU32 status.code
      encodeWcc fileWcc

instance : EncodeNfsResult SetAttrResult where
  encodeResult
    | .ok objectWcc => do
      writeU32 NfsStatus.ok.code
      encodeWcc objectWcc
    | .err status objectWcc => do
      writeU32 status.code
      encodeWcc objectWcc

instance : EncodeNfsResult RenameResult where
  encodeResult
    | .ok fromDirectoryWcc toDirectoryWcc => do
      writeU32 NfsStatus.ok.code
      encodeWcc fromDirectoryWcc
      encodeWcc toDirectoryWcc
    | .err status fromDirectoryWcc toDirectoryWcc => do
      writeU32 status.code
      encodeWcc fromDirectoryWcc
      encodeWcc toDirectoryWcc

instance : EncodeNfsResult ReadLinkResult where
  encodeResult
    | .ok attributes path => do
      writeU32 NfsStatus.ok.code
      encodePostAttributes attributes
      writeOpaque path
    | .err status attributes => do
      writeU32 status.code
      encodePostAttributes attributes

instance : EncodeNfsResult FsInfoResult where
  encodeResult
    | .ok attributes info properties => do
      writeU32 NfsStatus.ok.code
      encodePostAttributes attributes
      writeU32 info.maxRead
      writeU32 info.preferredRead
      writeU32 info.readMultiple
      writeU32 info.maxWrite
      writeU32 info.preferredWrite
      writeU32 info.writeMultiple
      writeU32 info.preferredReaddir
      writeU64 info.maxFileSize
      encodeTime info.timeGranularity
      writeU32 properties
    | .err status attributes => do
      writeU32 status.code
      encodePostAttributes attributes

/-! ## Fitting a directory page into a reply

Both functions change the result they are given. They are modelled with what they return and the result
as they leave it, also when they return an error.
-/

/-- The loop of `truncate_readdir_result`: drop entries from the end until the size fits. The entries
are held last entry first, the order in which `pop` takes them. -/
def truncateLoop (maxSize : Nat) :
    List ReadDirEntry → (eof : Bool) → (encodedSize : Nat) → Except EncodeError Bool × List ReadDirEntry × Bool
  | [], eof, encodedSize => (.ok (decide (encodedSize ≤ maxSize)), [], eof)
  | last :: earlier, eof, encodedSize =>
    if encodedSize > maxSize then
      match Encoder.run (encodeReaddirEntry last) with
      | .error error => (.error error, earlier, eof)
      | .ok removed => truncateLoop maxSize earlier false (encodedSize - removed.length)
    else (.ok true, last :: earlier, eof)

/-- `truncate_readdir_result`: the limit excludes the status word. -/
def truncateReaddirResult (result : ReadDirResult) (maxSize : Nat) : Except EncodeError Bool × ReadDirResult :=
  match Encoder.run (encodeResult result) with
  | .error error => (.error error, result)
  | .ok encoded =>
    let encodedSize := encoded.length - 4
    if encodedSize ≤ maxSize then (.ok true, result)
    else match result with
      | .err _ _ => (.ok false, result)
      | .ok directoryAttributes verifier entries eof =>
        let (returned, kept, eof) := truncateLoop maxSize entries.reverse eof encodedSize
        (returned, .ok directoryAttributes verifier kept.reverse eof)

/-- The result after `entries.pop()` and `*eof = false`, if there is an entry. -/
def ReadDirResult.pop : ReadDirResult → Option ReadDirResult
  | .ok directoryAttributes verifier (entry :: entries) _ =>
    some (.ok directoryAttributes verifier (entry :: entries).dropLast false)
  | _ => none

def ReadDirResult.entries : ReadDirResult → List ReadDirEntry
  | .ok _ _ entries _ => entries
  | .err _ _ => []

theorem ReadDirResult.length_entries_of_pop {result shorter : ReadDirResult} (h : result.pop = some shorter) :
    shorter.entries.length < result.entries.length := by
  unfold pop at h
  split at h
  next =>
    cases h
    simp [entries]
  next => cases h

/-- `truncate_readdir_result_reference` of the tests, which encodes the whole result again each time. -/
def truncateReaddirResultReference (result : ReadDirResult) (maxSize : Nat) :
    Except EncodeError Bool × ReadDirResult :=
  match Encoder.run (encodeResult result) with
  | .error error => (.error error, result)
  | .ok encoded =>
    if encoded.length - 4 ≤ maxSize then (.ok true, result)
    else match _hpop : result.pop with
      | some shorter => truncateReaddirResultReference shorter maxSize
      | none => (.ok false, result)
termination_by result.entries.length
decreasing_by exact ReadDirResult.length_entries_of_pop _hpop

end NfsEmbed.Nfs3
