import NfsEmbed.Vfs.Types

/-!
# The backend contract (`vfs/mod.rs`, `vfs/capabilities.rs`)

The backend is written by the application. What is modelled is the calls it receives and the answers
it may give. Of `read` and `read_bytes` the server calls only the second.
-/

namespace NfsEmbed.Vfs

open Lib Rpc

structure VfsCapabilities where
  readOnly : Bool
  hardLinks : Bool
  symbolicLinks : Bool
  mknod : Bool
  homogeneous : Bool
  canSetTime : Bool
deriving DecidableEq, Repr

/-- A call of a method of `VirtualFileSystem`, without the context argument. -/
inductive VfsMethod where
  | capabilities
  | root
  | getattr (object : ObjectKey)
  | lookup (parent : ObjectKey) (name : NfsName)
  | access (object : ObjectKey) (requested : UInt32)
  | setattr (object : ObjectKey) (attributes : SetAttributes) (guard : Option NfsTime)
  | readlink (object : ObjectKey)
  | readBytes (object : ObjectKey) (offset : UInt64) (count : UInt32)
  | write (object : ObjectKey) (offset : UInt64) (data : Bytes) (requested : WriteStability)
  | create (parent : ObjectKey) (name : NfsName) (attributes : SetAttributes) (mode : CreateMode)
  | mkdir (parent : ObjectKey) (name : NfsName) (attributes : SetAttributes)
  | symlink (parent : ObjectKey) (name : NfsName) (target : Bytes) (attributes : SetAttributes)
  | mknod (parent : ObjectKey) (name : NfsName) (nodeType : NodeType) (attributes : SetAttributes)
  | remove (parent : ObjectKey) (name : NfsName)
  | rmdir (parent : ObjectKey) (name : NfsName)
  | rename (fromParent : ObjectKey) (fromName : NfsName) (toParent : ObjectKey) (toName : NfsName)
  | link (object : ObjectKey) (toParent : ObjectKey) (toName : NfsName)
  | readdir (directory : ObjectKey) (cookie : UInt64) (verifier : Fixed 8) (backendHint : Nat)
  | fsstat (object : ObjectKey)
  | fsinfo (object : ObjectKey)
  | pathconf (object : ObjectKey)
  | commit (object : ObjectKey) (offset : UInt64) (count : UInt32)
deriving DecidableEq, Repr

namespace VfsMethod

@[reducible] def Answer : VfsMethod → Type
  | capabilities => VfsCapabilities
  | root => ObjectKey
  | getattr _ => Except NfsError FileAttributes
  | lookup _ _ => Except NfsError CreatedObject
  | access _ _ => Except NfsError UInt32
  | setattr _ _ _ => Except NfsError (MutationResult Unit)
  | readlink _ => Except NfsError Bytes
  | readBytes _ _ _ => Except NfsError ReadBytesResult
  | write _ _ _ _ => Except NfsError (MutationResult WriteResult)
  | create _ _ _ _ | mkdir _ _ _ | symlink _ _ _ _ | mknod _ _ _ _ =>
    Except NfsError (MutationResult CreatedObject)
  | remove _ _ | rmdir _ _ => Except NfsError (MutationResult Unit)
  | rename _ _ _ _ => Except NfsError (MutationResult Unit × MutationResult Unit)
  | link _ _ _ => Except NfsError (MutationResult Unit)
  | readdir _ _ _ _ => Except NfsError ReadDirectoryPage
  | fsstat _ => Except NfsError FsStat
  | fsinfo _ => Except NfsError FsInfo
  | pathconf _ => Except NfsError PathConf
  | commit _ _ _ => Except NfsError (MutationResult Unit)

/-- The object keys a call passes. -/
def keys : VfsMethod → List ObjectKey
  | capabilities | root => []
  | getattr object | access object _ | setattr object _ _ | readlink object | readBytes object _ _
  | write object _ _ _ | fsstat object | fsinfo object | pathconf object | commit object _ _ => [object]
  | lookup parent _ | create parent _ _ _ | mkdir parent _ _ | symlink parent _ _ _
  | mknod parent _ _ _ | remove parent _ | rmdir parent _ => [parent]
  | rename fromParent _ toParent _ => [fromParent, toParent]
  | link object toParent _ => [object, toParent]
  | readdir directory _ _ _ => [directory]

/-- The names a call passes. -/
def names : VfsMethod → List NfsName
  | lookup _ name | create _ name _ _ | mkdir _ name _ | symlink _ name _ _ | mknod _ name _ _
  | remove _ name | rmdir _ name | link _ _ name => [name]
  | rename _ fromName _ toName => [fromName, toName]
  | _ => []

end VfsMethod

end NfsEmbed.Vfs
