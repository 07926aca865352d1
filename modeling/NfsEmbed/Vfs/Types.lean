import NfsEmbed.Rpc.Codec

/-!
# Backend-facing values (`vfs/types.rs`)

A name that reaches a backend is an `NfsName`: its conditions are fields of the structure, so a name
that breaks them cannot be built.
-/

namespace NfsEmbed.Vfs

open Lib Rpc

inductive NfsError where
  | permission | notFound | io | noDeviceOrAddress | access | exists | crossDevice | noDevice
  | notDirectory | isDirectory | invalid | fileTooLarge | noSpace | readOnly | tooManyLinks
  | nameTooLong | notEmpty | quota | stale | remote | notSynchronized | badCookie | notSupported
  | tooSmall | serverFault | badType | jukebox
deriving DecidableEq, Repr

structure ObjectKey where
  fileId : UInt64
  generation : UInt64
deriving DecidableEq, Repr

/-- A validated file name. -/
structure NfsName where
  bytes : Bytes
  ne_nil : bytes ≠ []
  length_le : bytes.length ≤ 255
  no_slash : 0x2f ∉ bytes
  no_nul : 0 ∉ bytes
deriving DecidableEq, Repr

def NfsName.MAX_LEN : Nat := 255

def NfsName.new (value : Bytes) : Except NfsError NfsName :=
  if hlen : value.length > MAX_LEN then .error .nameTooLong
  else if hbad : value = [] ∨ 0x2f ∈ value ∨ 0 ∈ value then .error .invalid
  else .ok
    { bytes := value
      ne_nil := fun h => hbad (.inl h)
      length_le := Nat.le_of_not_gt hlen
      no_slash := fun h => hbad (.inr (.inl h))
      no_nul := fun h => hbad (.inr (.inr h)) }

inductive FileType where
  | regular | directory | blockDevice | characterDevice | symlink | socket | fifo
deriving DecidableEq, Repr

structure DeviceNumber where
  major : UInt32 := 0
  minor : UInt32 := 0
deriving DecidableEq, Repr

structure NfsTime where
  seconds : UInt64 := 0
  nanoseconds : UInt32 := 0
deriving DecidableEq, Repr

structure FileAttributes where
  fileType : FileType
  mode : UInt32
  links : UInt32
  uid : UInt32
  gid : UInt32
  size : UInt64
  used : UInt64
  /-- Device identity for block and character nodes, ignored for other types. -/
  device : Option DeviceNumber
  fsId : UInt64
  fileId : UInt64
  accessTime : NfsTime
  modifyTime : NfsTime
  changeTime : NfsTime
deriving DecidableEq, Repr

inductive SetTime where
  | serverTime
  | clientTime (time : NfsTime)
deriving DecidableEq, Repr

structure SetAttributes where
  mode : Option UInt32 := none
  uid : Option UInt32 := none
  gid : Option UInt32 := none
  size : Option UInt64 := none
  accessTime : Option SetTime := none
  modifyTime : Option SetTime := none
deriving DecidableEq, Repr

structure WccAttributes where
  size : UInt64
  modifyTime : NfsTime
  changeTime : NfsTime
deriving DecidableEq, Repr

structure MutationResult (α : Type) where
  value : α
  before : Option WccAttributes
  after : Option FileAttributes
deriving DecidableEq, Repr

inductive CreateMode where
  | unchecked
  | guarded
  | exclusive (verifier : Fixed 8)
deriving DecidableEq, Repr

structure CreatedObject where
  object : ObjectKey
  attributes : Option FileAttributes
deriving DecidableEq, Repr

inductive WriteStability where
  | unstable | dataSync | fileSync
deriving DecidableEq, Repr

structure WriteResult where
  count : UInt32
  committed : WriteStability
deriving DecidableEq, Repr

structure ReadBytesResult where
  data : Bytes
  eof : Bool
  attributes : Option FileAttributes
deriving DecidableEq, Repr

structure DirectoryEntry where
  object : ObjectKey
  fileId : UInt64
  name : NfsName
  cookie : UInt64
  attributes : Option FileAttributes
deriving DecidableEq, Repr

structure ReadDirectoryPage where
  verifier : Fixed 8
  entries : List DirectoryEntry
  eof : Bool
deriving DecidableEq, Repr

structure FsStat where
  totalBytes : UInt64
  freeBytes : UInt64
  availableBytes : UInt64
  totalFiles : UInt64
  freeFiles : UInt64
  availableFiles : UInt64
  invariantSeconds : UInt32
deriving DecidableEq, Repr

structure FsInfo where
  maxRead : UInt32
  preferredRead : UInt32
  readMultiple : UInt32
  maxWrite : UInt32
  preferredWrite : UInt32
  writeMultiple : UInt32
  preferredReaddir : UInt32
  maxFileSize : UInt64
  timeGranularity : NfsTime
deriving DecidableEq, Repr

structure PathConf where
  maxLinks : UInt32
  maxNameLength : UInt32
  noTruncation : Bool
  chownRestricted : Bool
  caseInsensitive : Bool
  casePreserving : Bool
deriving DecidableEq, Repr

inductive NodeType where
  | blockDevice (major minor : UInt32)
  | characterDevice (major minor : UInt32)
  | socket
  | fifo
deriving DecidableEq, Repr

end NfsEmbed.Vfs
