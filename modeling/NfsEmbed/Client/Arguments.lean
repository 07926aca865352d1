import NfsEmbed.Nfs3.Codec

/-!
# What a client sends

The XDR encoding that RFC 1813 gives the arguments of each procedure, written with the codec's own
encoder, and the limits the server puts on what it accepts. The server's decoder is not consulted
here.
-/

namespace NfsEmbed.Vfs

/-- The times `nfstime3` can express. -/
def NfsTime.Valid (time : NfsTime) : Prop :=
  time.seconds.toNat < 2 ^ 32 ∧ time.nanoseconds ≤ 999999999

end NfsEmbed.Vfs

namespace NfsEmbed.Nfs3

open Lib Rpc Vfs Encoder

/-! ## Encoding -/

def encodeDirectoryOperation (arguments : DirectoryOperationArgs) : EncodeM Unit := do
  writeOpaque arguments.directory
  writeOpaque arguments.name

def encodeSetTime : Option SetTime → EncodeM Unit
  | none => writeU32 0
  | some .serverTime => writeU32 1
  | some (.clientTime time) => do
    writeU32 2
    encodeTime time

def encodeSetAttributes (attributes : SetAttributes) : EncodeM Unit := do
  writeOptional writeU32 attributes.mode
  writeOptional writeU32 attributes.uid
  writeOptional writeU32 attributes.gid
  writeOptional writeU64 attributes.size
  encodeSetTime attributes.accessTime
  encodeSetTime attributes.modifyTime

/-- `createhow3`: the attributes are part of the union, and an exclusive creation has none. -/
def encodeCreateHow (mode : CreateMode) (attributes : SetAttributes) : EncodeM Unit :=
  match mode with
  | .unchecked => do
    writeU32 0
    encodeSetAttributes attributes
  | .guarded => do
    writeU32 1
    encodeSetAttributes attributes
  | .exclusive verifier => do
    writeU32 2
    writeFixed verifier.bytes

/-- `mknoddata3`: the attributes stand between the discriminant and the device number. -/
def encodeNodeData (nodeType : NodeType) (attributes : SetAttributes) : EncodeM Unit :=
  match nodeType with
  | .blockDevice major minor => do
    writeU32 3
    encodeSetAttributes attributes
    writeU32 major
    writeU32 minor
  | .characterDevice major minor => do
    writeU32 4
    encodeSetAttributes attributes
    writeU32 major
    writeU32 minor
  | .socket => do
    writeU32 6
    encodeSetAttributes attributes
  | .fifo => do
    writeU32 7
    encodeSetAttributes attributes

namespace NfsArguments

def procedure : NfsArguments → UInt32
  | null => 0
  | getAttr _ => 1
  | setAttr _ => 2
  | lookup _ => 3
  | access _ => 4
  | readLink _ => 5
  | read _ => 6
  | write _ => 7
  | create _ => 8
  | mkdir _ => 9
  | symlink _ => 10
  | mknod _ => 11
  | remove _ => 12
  | rmdir _ => 13
  | rename _ => 14
  | link _ => 15
  | readDir _ => 16
  | readDirPlus _ => 17
  | fsStat _ => 18
  | fsInfo _ => 19
  | pathConf _ => 20
  | commit _ => 21

def encode : NfsArguments → EncodeM Unit
  | null => pure ()
  | getAttr arguments | readLink arguments | fsStat arguments | fsInfo arguments
  | pathConf arguments => writeOpaque arguments.object
  | setAttr arguments => do
    writeOpaque arguments.object
    encodeSetAttributes arguments.attributes
    writeOptional encodeTime arguments.guard
  | lookup arguments | remove arguments | rmdir arguments => encodeDirectoryOperation arguments
  | access arguments => do
    writeOpaque arguments.object
    writeU32 arguments.requested
  | read arguments => do
    writeOpaque arguments.object
    writeU64 arguments.offset
    writeU32 arguments.count
  | write arguments => do
    writeOpaque arguments.object
    writeU64 arguments.offset
    writeU32 arguments.count
    writeU32 (encodeStability arguments.requested)
    writeOpaque arguments.data
  | create arguments => do
    encodeDirectoryOperation arguments.target
    encodeCreateHow arguments.mode arguments.attributes
  | mkdir arguments => do
    encodeDirectoryOperation arguments.target
    encodeSetAttributes arguments.attributes
  | symlink arguments => do
    encodeDirectoryOperation arguments.target
    encodeSetAttributes arguments.attributes
    writeOpaque arguments.path
  | mknod arguments => do
    encodeDirectoryOperation arguments.target
    encodeNodeData arguments.nodeType arguments.attributes
  | rename arguments => do
    encodeDirectoryOperation arguments.fromArgs
    encodeDirectoryOperation arguments.toArgs
  | link arguments => do
    writeOpaque arguments.object
    encodeDirectoryOperation arguments.target
  | readDir arguments => do
    writeOpaque arguments.directory
    writeU64 arguments.cookie
    writeFixed arguments.verifier.bytes
    writeU32 arguments.count
  | readDirPlus arguments => do
    writeOpaque arguments.directory
    writeU64 arguments.cookie
    writeFixed arguments.verifier.bytes
    writeU32 arguments.directoryCount
    writeU32 arguments.maxCount
  | commit arguments => do
    writeOpaque arguments.object
    writeU64 arguments.offset
    writeU32 arguments.count

end NfsArguments

/-! ## Limits -/

def HandleFits (handle : FileHandle) : Prop := handle.length ≤ 64

def DirectoryOperationArgs.Fits (arguments : DirectoryOperationArgs) : Prop :=
  HandleFits arguments.directory ∧ arguments.name.length ≤ 1024

def SetTimeValid : Option SetTime → Prop
  | some (.clientTime time) => time.Valid
  | _ => True

def SetAttributesValid (attributes : SetAttributes) : Prop :=
  SetTimeValid attributes.accessTime ∧ SetTimeValid attributes.modifyTime

/-- The limits on accepted arguments; `maxVariableSize` bounds `WRITE` data and symlink targets. -/
def NfsArguments.WithinLimits (maxVariableSize : Nat) : NfsArguments → Prop
  | null => True
  | getAttr arguments | readLink arguments | fsStat arguments | fsInfo arguments
  | pathConf arguments => HandleFits arguments.object
  | setAttr arguments =>
    HandleFits arguments.object ∧ SetAttributesValid arguments.attributes ∧
      ∀ guard ∈ arguments.guard, guard.Valid
  | lookup arguments | remove arguments | rmdir arguments => arguments.Fits
  | access arguments => HandleFits arguments.object
  | read arguments => HandleFits arguments.object
  | write arguments => HandleFits arguments.object ∧ arguments.data.length ≤ maxVariableSize
  | create arguments =>
    arguments.target.Fits ∧ SetAttributesValid arguments.attributes ∧
      (CreateMode.isExclusive arguments.mode = true → arguments.attributes = {})
  | mkdir arguments => arguments.target.Fits ∧ SetAttributesValid arguments.attributes
  | symlink arguments =>
    arguments.target.Fits ∧ SetAttributesValid arguments.attributes ∧
      arguments.path.length ≤ maxVariableSize
  | mknod arguments => arguments.target.Fits ∧ SetAttributesValid arguments.attributes
  | rename arguments => arguments.fromArgs.Fits ∧ arguments.toArgs.Fits
  | link arguments => HandleFits arguments.object ∧ arguments.target.Fits
  | readDir arguments => HandleFits arguments.directory
  | readDirPlus arguments => HandleFits arguments.directory
  | commit arguments => HandleFits arguments.object

end NfsEmbed.Nfs3
