import NfsEmbed.Legacy.Xdr

/-!
# The NFS types of the pre-1.0 implementation (`nfs.rs`)

A union of `Void` and one other case is an `Option`. Strings are their bytes.
-/

namespace NfsEmbed.Legacy

open Lib Rpc

namespace Nfs

def VERSION : UInt32 := 3

/-- The maximum size in bytes of a file handle. -/
def NFS3_FHSIZE : UInt32 := 64

end Nfs

abbrev Filename3 := Bytes

abbrev Nfspath3 := Bytes

abbrev Fileid3 := UInt64

abbrev Cookie3 := UInt64

abbrev Cookieverf3 := Fixed 8

abbrev Createverf3 := Fixed 8

abbrev Writeverf3 := Fixed 8

abbrev Size3 := UInt64

abbrev Offset3 := UInt64

abbrev Count3 := UInt32

/-- `[0; 8]`, the default of the verifiers. -/
def zeroVerifier : Fixed 8 := ⟨[0, 0, 0, 0, 0, 0, 0, 0], rfl⟩

inductive Nfsstat3 where
  | ok | perm | noent | io | nxio | acces | exist | xdev | nodev | notdir | isdir | inval | fbig | nospc | rofs
  | mlink | nametoolong | notempty | dquot | stale | remote | badhandle | notSync | badCookie | notsupp
  | toosmall | serverfault | badtype | jukebox
deriving DecidableEq, Repr

namespace Nfsstat3

def toU32 : Nfsstat3 → UInt32
  | ok => 0
  | perm => 1
  | noent => 2
  | io => 5
  | nxio => 6
  | acces => 13
  | exist => 17
  | xdev => 18
  | nodev => 19
  | notdir => 20
  | isdir => 21
  | inval => 22
  | fbig => 27
  | nospc => 28
  | rofs => 30
  | mlink => 31
  | nametoolong => 63
  | notempty => 66
  | dquot => 69
  | stale => 70
  | remote => 71
  | badhandle => 10001
  | notSync => 10002
  | badCookie => 10003
  | notsupp => 10004
  | toosmall => 10005
  | serverfault => 10006
  | badtype => 10007
  | jukebox => 10008

def fromU32 (value : UInt32) : Option Nfsstat3 :=
  match value with
  | 0 => some ok
  | 1 => some perm
  | 2 => some noent
  | 5 => some io
  | 6 => some nxio
  | 13 => some acces
  | 17 => some exist
  | 18 => some xdev
  | 19 => some nodev
  | 20 => some notdir
  | 21 => some isdir
  | 22 => some inval
  | 27 => some fbig
  | 28 => some nospc
  | 30 => some rofs
  | 31 => some mlink
  | 63 => some nametoolong
  | 66 => some notempty
  | 69 => some dquot
  | 70 => some stale
  | 71 => some remote
  | 10001 => some badhandle
  | 10002 => some notSync
  | 10003 => some badCookie
  | 10004 => some notsupp
  | 10005 => some toosmall
  | 10006 => some serverfault
  | 10007 => some badtype
  | 10008 => some jukebox
  | _ => none

end Nfsstat3

instance : Xdr Nfsstat3 := xdrEnum "nfsstat3" Nfsstat3.toU32 Nfsstat3.fromU32

inductive Ftype3 where
  | reg | dir | blk | chr | lnk | sock | fifo
deriving DecidableEq, Repr

namespace Ftype3

def toU32 : Ftype3 → UInt32
  | reg => 1
  | dir => 2
  | blk => 3
  | chr => 4
  | lnk => 5
  | sock => 6
  | fifo => 7

def fromU32 (value : UInt32) : Option Ftype3 :=
  match value with
  | 1 => some reg
  | 2 => some dir
  | 3 => some blk
  | 4 => some chr
  | 5 => some lnk
  | 6 => some sock
  | 7 => some fifo
  | _ => none

end Ftype3

instance : Xdr Ftype3 := xdrEnum "ftype3" Ftype3.toU32 Ftype3.fromU32

structure Specdata3 where
  specdata1 : UInt32
  specdata2 : UInt32
deriving DecidableEq, Repr

instance : Xdr Specdata3 :=
  xdrStruct (fun s => (s.specdata1, s.specdata2)) fun (specdata1, specdata2) => ⟨specdata1, specdata2⟩

structure NfsFh3 where
  data : Bytes
deriving DecidableEq, Repr

instance : Xdr NfsFh3 := xdrStruct NfsFh3.data NfsFh3.mk

structure Nfstime3 where
  seconds : UInt32
  nseconds : UInt32
deriving DecidableEq, Repr

instance : Xdr Nfstime3 := xdrStruct (fun t => (t.seconds, t.nseconds)) fun (seconds, nseconds) => ⟨seconds, nseconds⟩

structure Fattr3 where
  ftype : Ftype3
  mode : UInt32
  nlink : UInt32
  uid : UInt32
  gid : UInt32
  size : Size3
  used : Size3
  rdev : Specdata3
  fsid : UInt64
  fileid : Fileid3
  atime : Nfstime3
  mtime : Nfstime3
  ctime : Nfstime3
deriving DecidableEq, Repr

instance : Xdr Fattr3 :=
  xdrStruct
    (fun a => (a.ftype, a.mode, a.nlink, a.uid, a.gid, a.size, a.used, a.rdev, a.fsid, a.fileid, a.atime, a.mtime, a.ctime))
    fun (ftype, mode, nlink, uid, gid, size, used, rdev, fsid, fileid, atime, mtime, ctime) =>
      ⟨ftype, mode, nlink, uid, gid, size, used, rdev, fsid, fileid, atime, mtime, ctime⟩

structure WccAttr where
  size : Size3
  mtime : Nfstime3
  ctime : Nfstime3
deriving DecidableEq, Repr

instance : Xdr WccAttr := xdrStruct (fun a => (a.size, a.mtime, a.ctime)) fun (size, mtime, ctime) => ⟨size, mtime, ctime⟩

abbrev PreOpAttr := Option WccAttr

abbrev PostOpAttr := Option Fattr3

structure WccData where
  before : PreOpAttr := none
  after : PostOpAttr := none
deriving DecidableEq, Repr

instance : Xdr WccData := xdrStruct (fun w => (w.before, w.after)) fun (before, after) => ⟨before, after⟩

abbrev PostOpFh3 := Option NfsFh3

/-- `set_atime` and `set_mtime`, which differ in the text of their error. -/
inductive SetTime where
  | dontChange
  | setToServerTime
  | setToClientTime (time : Nfstime3)
deriving DecidableEq, Repr

def SetTime.serialize : SetTime → Writer Unit
  | dontChange => Xdr.serialize (0 : UInt32)
  | setToServerTime => Xdr.serialize (1 : UInt32)
  | setToClientTime time => do
    Xdr.serialize (2 : UInt32)
    Xdr.serialize time

def SetTime.deserialize (name : String) : Reader SetTime := do
  let how : UInt32 ← Xdr.deserialize
  if how = 0 then return dontChange
  else if how = 1 then return setToServerTime
  else if how = 2 then return setToClientTime (← Xdr.deserialize)
  else throw (.invalidData ("Invalid value for " ++ name))

structure Sattr3 where
  mode : Option UInt32 := none
  uid : Option UInt32 := none
  gid : Option UInt32 := none
  size : Option Size3 := none
  atime : SetTime := .dontChange
  mtime : SetTime := .dontChange
deriving DecidableEq, Repr

instance : Xdr Sattr3 where
  serialize attributes := do
    serialize attributes.mode
    serialize attributes.uid
    serialize attributes.gid
    serialize attributes.size
    attributes.atime.serialize
    attributes.mtime.serialize
  deserialize := do
    let mode ← deserialize
    let uid ← deserialize
    let gid ← deserialize
    let size ← deserialize
    let atime ← SetTime.deserialize "set_atime"
    let mtime ← SetTime.deserialize "set_mtime"
    return { mode, uid, gid, size, atime, mtime }

structure Diropargs3 where
  dir : NfsFh3
  name : Filename3
deriving DecidableEq, Repr

instance : Xdr Diropargs3 := xdrStruct (fun a => (a.dir, a.name)) fun (dir, name) => ⟨dir, name⟩

structure Symlinkdata3 where
  symlinkAttributes : Sattr3
  symlinkData : Nfspath3
deriving DecidableEq, Repr

instance : Xdr Symlinkdata3 :=
  xdrStruct (fun s => (s.symlinkAttributes, s.symlinkData)) fun (attributes, data) => ⟨attributes, data⟩

structure Fsinfo3 where
  objAttributes : PostOpAttr
  rtmax : UInt32
  rtpref : UInt32
  rtmult : UInt32
  wtmax : UInt32
  wtpref : UInt32
  wtmult : UInt32
  dtpref : UInt32
  maxfilesize : Size3
  timeDelta : Nfstime3
  properties : UInt32
deriving DecidableEq, Repr

instance : Xdr Fsinfo3 :=
  xdrStruct
    (fun i => (i.objAttributes, i.rtmax, i.rtpref, i.rtmult, i.wtmax, i.wtpref, i.wtmult, i.dtpref, i.maxfilesize,
      i.timeDelta, i.properties))
    fun (objAttributes, rtmax, rtpref, rtmult, wtmax, wtpref, wtmult, dtpref, maxfilesize, timeDelta, properties) =>
      ⟨objAttributes, rtmax, rtpref, rtmult, wtmax, wtpref, wtmult, dtpref, maxfilesize, timeDelta, properties⟩

end NfsEmbed.Legacy
