import NfsEmbed.Legacy.Nfs
import NfsEmbed.Lib.Interaction

/-!
# The file systems of the pre-1.0 implementation (`vfs/legacy.rs`)

A handler calls the methods of an `NFSFileSystem`, which may answer anything. What the defaults of the
trait do is said apart; an implementation may replace them.
-/

namespace NfsEmbed.Legacy

open Lib Rpc

inductive VFSCapabilities where
  | readOnly
  | readWrite
deriving DecidableEq, Repr

structure DirEntrySimple where
  fileid : Fileid3
  name : Filename3
deriving DecidableEq, Repr

structure ReadDirSimpleResult where
  entries : List DirEntrySimple
  /-- Nothing follows these. -/
  isEnd : Bool
deriving DecidableEq, Repr

structure DirEntry where
  fileid : Fileid3
  name : Filename3
  attr : Fattr3
deriving DecidableEq, Repr

structure ReadDirResult where
  entries : List DirEntry
  /-- Nothing follows these. -/
  isEnd : Bool
deriving DecidableEq, Repr

def DirEntry.simple (entry : DirEntry) : DirEntrySimple := ⟨entry.fileid, entry.name⟩

def ReadDirSimpleResult.fromReaddirResult (result : ReadDirResult) : ReadDirSimpleResult :=
  ⟨result.entries.map DirEntry.simple, result.isEnd⟩

/-- The methods of the trait that the handlers call. -/
inductive FileSystemOp where
  | capabilities
  | lookup (dirid : Fileid3) (filename : Filename3)
  | getattr (id : Fileid3)
  | setattr (id : Fileid3) (setattr : Sattr3)
  | read (id : Fileid3) (offset : Offset3) (count : Count3)
  | write (id : Fileid3) (offset : Offset3) (data : Bytes)
  | create (dirid : Fileid3) (filename : Filename3) (attr : Sattr3)
  | createExclusive (dirid : Fileid3) (filename : Filename3)
  | mkdir (dirid : Fileid3) (dirname : Filename3)
  | remove (dirid : Fileid3) (filename : Filename3)
  | rename (fromDirid : Fileid3) (fromFilename : Filename3) (toDirid : Fileid3) (toFilename : Filename3)
  | readdir (dirid : Fileid3) (startAfter : Fileid3) (maxEntries : Nat)
  | readdirSimple (dirid : Fileid3) (count : Nat)
  | symlink (dirid : Fileid3) (linkname : Filename3) (symlink : Nfspath3) (attr : Sattr3)
  | readlink (id : Fileid3)
  | fsinfo (rootFileid : Fileid3)
  | idToFh (id : Fileid3)
  | fhToId (id : NfsFh3)
  | serverid
deriving DecidableEq, Repr

def FileSystemOp.Answer : FileSystemOp → Type
  | capabilities => VFSCapabilities
  | lookup _ _ => Except Nfsstat3 Fileid3
  | getattr _ => Except Nfsstat3 Fattr3
  | setattr _ _ => Except Nfsstat3 Fattr3
  | read _ _ _ => Except Nfsstat3 (Bytes × Bool)
  | write _ _ _ => Except Nfsstat3 Fattr3
  | create _ _ _ => Except Nfsstat3 (Fileid3 × Fattr3)
  | createExclusive _ _ => Except Nfsstat3 Fileid3
  | mkdir _ _ => Except Nfsstat3 (Fileid3 × Fattr3)
  | remove _ _ => Except Nfsstat3 Unit
  | rename _ _ _ _ => Except Nfsstat3 Unit
  | readdir _ _ _ => Except Nfsstat3 ReadDirResult
  | readdirSimple _ _ => Except Nfsstat3 ReadDirSimpleResult
  | symlink _ _ _ _ => Except Nfsstat3 (Fileid3 × Fattr3)
  | readlink _ => Except Nfsstat3 Nfspath3
  | fsinfo _ => Except Nfsstat3 Fsinfo3
  | idToFh _ => NfsFh3
  | fhToId _ => Except Nfsstat3 Fileid3
  | serverid => Cookieverf3

def fileSystemSignature : Signature := ⟨FileSystemOp, FileSystemOp.Answer⟩

abbrev Dialogue := List (Exchange fileSystemSignature)

/-- The default of `readdir_simple`: it lists from the start. -/
def readdirSimpleDefault (dirid : Fileid3) (count : Nat) :
    Prog fileSystemSignature Nfsstat3 ReadDirSimpleResult := do
  match ← Prog.ask (S := fileSystemSignature) (.readdir dirid 0 count) Prog.done with
  | .ok result => return .fromReaddirResult result
  | .error stat => .fail stat

end NfsEmbed.Legacy
