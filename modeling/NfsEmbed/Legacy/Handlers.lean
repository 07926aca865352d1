import NfsEmbed.Legacy.FileSystem
import NfsEmbed.Legacy.Message
import NfsEmbed.Legacy.WriteCounter
import NfsEmbed.Lib.Usize

/-!
# The NFS handlers of the pre-1.0 implementation (`nfs_handlers.rs`)

A handler reads its arguments from the input, calls the file system and writes a reply to the output. A
failed read ends it with an error, a panic ends it without one. Tracing is left out.

Arithmetic that leaves its range panics in a build with overflow checks and wraps around in one without;
which of the two it is, is a parameter.
-/

namespace NfsEmbed.Legacy

open Lib Rpc

/-! ## Running a handler -/

inductive Overflow where
  | panics
  | wraps
deriving DecidableEq, Repr

inductive Fault where
  | io (error : IoError)
  | panic (panic : Panic)
deriving DecidableEq, Repr

structure Streams where
  input : Bytes
  output : Bytes
deriving DecidableEq, Repr

abbrev FileSystemM := Prog fileSystemSignature Fault

abbrev HandlerM := StateT Streams FileSystemM

/-- A call of a method of `context.vfs`. -/
def call (op : FileSystemOp) : HandlerM op.Answer := fun streams =>
  Prog.ask (S := fileSystemSignature) op fun answer => .done (answer, streams)

/-- `deserialize(input)?` -/
def read {α : Type} [Xdr α] : HandlerM α := fun streams =>
  match (deserialize : Reader α).run streams.input with
  | .ok (value, rest) => .done (value, { streams with input := rest })
  | .error error => .fail (.io error)

/-- `serialize(output)?`, of one value or of several in sequence. -/
def write (writer : Writer Unit) : HandlerM Unit := fun streams =>
  match writer.run streams.output with
  | .ok ((), output) => .done ((), { streams with output })
  | .error panic => .fail (.panic panic)

/-- `usize` subtraction. -/
def usizeSub (overflow : Overflow) (a b : Nat) : Except Panic Nat :=
  if b ≤ a then .ok (a - b)
  else
    match overflow with
    | .panics => .error ⟨"attempt to subtract with overflow"⟩
    | .wraps => .ok (a + usizeBound - b)

variable (overflow : Overflow) (xid : UInt32)

/-- An accepted reply with a status, and the arm of the result that goes with it. -/
def reply (stat : Nfsstat3) (arm : Writer Unit) : Writer Unit := do
  (makeSuccessReply xid).serialize
  serialize stat
  arm

def postOpAttr : Except Nfsstat3 Fattr3 → PostOpAttr
  | .ok attributes => some attributes
  | .error _ => none

def wccAttr (attributes : Fattr3) : WccAttr := ⟨attributes.size, attributes.mtime, attributes.ctime⟩

/-- A failure with `wcc_data::default()`. -/
def refuse (stat : Nfsstat3) : HandlerM Unit := write (reply xid stat (serialize ({} : WccData)))

/-- The procedures that change something need write capabilities. -/
def withWriteCapabilities (handler : HandlerM Unit) : HandlerM Unit := do
  match ← call .capabilities with
  | .readOnly => refuse xid .rofs
  | .readWrite => handler

/-! ## Attributes and names -/

def nfsproc3Null : HandlerM Unit := write (makeSuccessReply xid).serialize

def nfsproc3Getattr : HandlerM Unit := do
  let handle : NfsFh3 ← read
  match ← call (.fhToId handle) with
  | .error stat => write (reply xid stat (pure ()))
  | .ok id =>
    match ← call (.getattr id) with
    | .ok attributes => write (reply xid .ok (serialize attributes))
    | .error stat => write (reply xid stat (pure ()))

def nfsproc3Lookup : HandlerM Unit := do
  let dirops : Diropargs3 ← read
  match ← call (.fhToId dirops.dir) with
  | .error stat => write (reply xid stat (serialize (none : PostOpAttr)))
  | .ok dirid =>
    let dirAttr := postOpAttr (← call (.getattr dirid))
    match ← call (.lookup dirid dirops.name) with
    | .ok fid =>
      let objAttr := postOpAttr (← call (.getattr fid))
      let object : NfsFh3 ← call (.idToFh fid)
      write <| reply xid .ok do
        serialize object
        serialize objAttr
        serialize dirAttr
    | .error stat => write (reply xid stat (serialize dirAttr))

def ACCESS3_READ : UInt32 := 0x0001

def ACCESS3_LOOKUP : UInt32 := 0x0002

def nfsproc3Access : HandlerM Unit := do
  let handle : NfsFh3 ← read
  let access : UInt32 ← read
  match ← call (.fhToId handle) with
  | .error stat => write (reply xid stat (serialize (none : PostOpAttr)))
  | .ok id =>
    let objAttr := postOpAttr (← call (.getattr id))
    let access :=
      match ← call .capabilities with
      | .readWrite => access
      | .readOnly => access &&& (ACCESS3_READ ||| ACCESS3_LOOKUP)
    write <| reply xid .ok do
      serialize objAttr
      serialize access

structure SETATTR3args where
  object : NfsFh3
  newAttribute : Sattr3
  /-- `sattrguard3`: the expected `ctime` of the object. -/
  guard : Option Nfstime3
deriving DecidableEq, Repr

instance : Xdr SETATTR3args :=
  xdrStruct (fun a => (a.object, a.newAttribute, a.guard)) fun (object, newAttribute, guard) => ⟨object, newAttribute, guard⟩

/-- The part of `nfsproc3_setattr` after the guard. -/
def applyAttributes (id : Fileid3) (newAttribute : Sattr3) (preOpAttr : PreOpAttr) : HandlerM Unit := do
  match ← call (.setattr id newAttribute) with
  | .ok attributes => write (reply xid .ok (serialize ({ before := preOpAttr, after := some attributes } : WccData)))
  | .error stat => refuse xid stat

def nfsproc3Setattr : HandlerM Unit := withWriteCapabilities xid do
  let args : SETATTR3args ← read
  match ← call (.fhToId args.object) with
  | .error stat => write (reply xid stat (pure ()))
  | .ok id =>
    match ← call (.getattr id) with
    | .error stat => refuse xid stat
    | .ok attributes =>
      match args.guard with
      | none => pure ()
      | some c =>
        if c.seconds ≠ attributes.ctime.seconds ∨ c.nseconds ≠ attributes.ctime.nseconds then
          -- there is no return after the reply
          refuse xid .notSync
      applyAttributes xid id args.newAttribute (some (wccAttr attributes))

def nfsproc3Readlink : HandlerM Unit := do
  let handle : NfsFh3 ← read
  match ← call (.fhToId handle) with
  | .error stat => write (reply xid stat (pure ()))
  | .ok id =>
    match ← call (.getattr id) with
    | .error stat => write (reply xid stat (serialize (none : PostOpAttr)))
    | .ok attributes =>
      let symlinkAttr : PostOpAttr := some attributes
      match ← call (.readlink id) with
      | .ok path =>
        write <| reply xid .ok do
          serialize symlinkAttr
          serialize path
      | .error stat => write (reply xid stat (serialize symlinkAttr))

/-! ## Contents of files -/

structure READ3args where
  file : NfsFh3
  offset : Offset3
  count : Count3
deriving DecidableEq, Repr

instance : Xdr READ3args := xdrStruct (fun a => (a.file, a.offset, a.count)) fun (file, offset, count) => ⟨file, offset, count⟩

structure READ3resok where
  fileAttributes : PostOpAttr
  count : Count3
  eof : Bool
  data : Bytes
deriving DecidableEq, Repr

instance : Xdr READ3resok :=
  xdrStruct (fun r => (r.fileAttributes, r.count, r.eof, r.data))
    fun (fileAttributes, count, eof, data) => ⟨fileAttributes, count, eof, data⟩

def nfsproc3Read : HandlerM Unit := do
  let args : READ3args ← read
  match ← call (.fhToId args.file) with
  | .error stat => write (reply xid stat (serialize (none : PostOpAttr)))
  | .ok id =>
    let objAttr := postOpAttr (← call (.getattr id))
    match ← call (.read id args.offset args.count) with
    | .ok (bytes, eof) =>
      let res : READ3resok := { fileAttributes := objAttr, count := UInt32.ofNat bytes.length, eof, data := bytes }
      write (reply xid .ok (serialize res))
    | .error stat => write (reply xid stat (serialize objAttr))

inductive StableHow where
  | unstable | dataSync | fileSync
deriving DecidableEq, Repr

namespace StableHow

def toU32 : StableHow → UInt32
  | unstable => 0
  | dataSync => 1
  | fileSync => 2

def fromU32 (value : UInt32) : Option StableHow :=
  match value with
  | 0 => some unstable
  | 1 => some dataSync
  | 2 => some fileSync
  | _ => none

end StableHow

instance : Xdr StableHow := xdrEnum "stable_how" StableHow.toU32 StableHow.fromU32

structure WRITE3args where
  file : NfsFh3
  offset : Offset3
  count : Count3
  stable : UInt32
  data : Bytes
deriving DecidableEq, Repr

instance : Xdr WRITE3args :=
  xdrStruct (fun a => (a.file, a.offset, a.count, a.stable, a.data))
    fun (file, offset, count, stable, data) => ⟨file, offset, count, stable, data⟩

structure WRITE3resok where
  fileWcc : WccData
  count : Count3
  committed : StableHow
  verf : Writeverf3
deriving DecidableEq, Repr

instance : Xdr WRITE3resok :=
  xdrStruct (fun r => (r.fileWcc, r.count, r.committed, r.verf))
    fun (fileWcc, count, committed, verf) => ⟨fileWcc, count, committed, verf⟩

def nfsproc3Write : HandlerM Unit := withWriteCapabilities xid do
  let args : WRITE3args ← read
  if args.data.length ≠ args.count.toNat then write (garbageArgsReplyMessage xid).serialize
  else
    match ← call (.fhToId args.file) with
    | .error stat => refuse xid stat
    | .ok id =>
      let preObjAttr := (postOpAttr (← call (.getattr id))).map wccAttr
      match ← call (.write id args.offset args.data) with
      | .ok attributes =>
        let verf ← call .serverid
        let res : WRITE3resok :=
          { fileWcc := ⟨preObjAttr, some attributes⟩, count := args.count, committed := .fileSync, verf }
        write (reply xid .ok (serialize res))
      | .error stat => refuse xid stat

/-! ## Entries of directories -/

inductive Createmode3 where
  | unchecked | guarded | exclusive
deriving DecidableEq, Repr

namespace Createmode3

def toU32 : Createmode3 → UInt32
  | unchecked => 0
  | guarded => 1
  | exclusive => 2

def fromU32 (value : UInt32) : Option Createmode3 :=
  match value with
  | 0 => some unchecked
  | 1 => some guarded
  | 2 => some exclusive
  | _ => none

end Createmode3

instance : Xdr Createmode3 := xdrEnum "createmode3" Createmode3.toU32 Createmode3.fromU32

/-- The directory of a procedure, with its attributes before it. -/
def withDirectory (dir : NfsFh3) (handler : Fileid3 → PreOpAttr → HandlerM Unit) : HandlerM Unit := do
  match ← call (.fhToId dir) with
  | .error stat => refuse xid stat
  | .ok dirid =>
    match ← call (.getattr dirid) with
    | .error stat => refuse xid stat
    | .ok attributes => handler dirid (some (wccAttr attributes))

/-- The directory's attributes after the procedure are read again for the reply. -/
def wccOf (dirid : Fileid3) (preDirAttr : PreOpAttr) : HandlerM WccData := do
  return { before := preDirAttr, after := postOpAttr (← call (.getattr dirid)) }

/-- The end of the procedures that create an object. -/
def created (dirid : Fileid3) (preDirAttr : PreOpAttr) (fid : Except Nfsstat3 Fileid3) (postopattr : PostOpAttr) :
    HandlerM Unit := do
  let wccRes ← wccOf dirid preDirAttr
  match fid with
  | .ok fid =>
    let fh : NfsFh3 ← call (.idToFh fid)
    write <| reply xid .ok do
      serialize (some fh : PostOpFh3)
      serialize postopattr
      serialize wccRes
  | .error stat => write (reply xid stat (serialize wccRes))

/-- `fid` and `postopattr` of what a creating method returned. -/
def createdObject : Except Nfsstat3 (Fileid3 × Fattr3) → Except Nfsstat3 Fileid3 × PostOpAttr
  | .ok (fid, attributes) => (.ok fid, some attributes)
  | .error stat => (.error stat, none)

def nfsproc3Create : HandlerM Unit := withWriteCapabilities xid do
  let dirops : Diropargs3 ← read
  let createhow : Createmode3 ← read
  withDirectory xid dirops.dir fun dirid preDirAttr => do
    match createhow with
    | .unchecked =>
      let targetAttributes : Sattr3 ← read
      let (fid, postopattr) := createdObject (← call (.create dirid dirops.name targetAttributes))
      created xid dirid preDirAttr fid postopattr
    | .guarded =>
      let targetAttributes : Sattr3 ← read
      match ← call (.lookup dirid dirops.name) with
      | .ok _ =>
        let wccRes ← wccOf dirid preDirAttr
        write (reply xid .exist (serialize wccRes))
      | .error _ =>
        let (fid, postopattr) := createdObject (← call (.create dirid dirops.name targetAttributes))
        created xid dirid preDirAttr fid postopattr
    | .exclusive =>
      let fid ← call (.createExclusive dirid dirops.name)
      created xid dirid preDirAttr fid none

structure MKDIR3args where
  dirops : Diropargs3
  attributes : Sattr3
deriving DecidableEq, Repr

instance : Xdr MKDIR3args := xdrStruct (fun a => (a.dirops, a.attributes)) fun (dirops, attributes) => ⟨dirops, attributes⟩

def nfsproc3Mkdir : HandlerM Unit := withWriteCapabilities xid do
  let args : MKDIR3args ← read
  withDirectory xid args.dirops.dir fun dirid preDirAttr => do
    let (fid, postopattr) := createdObject (← call (.mkdir dirid args.dirops.name))
    created xid dirid preDirAttr fid postopattr

structure SYMLINK3args where
  dirops : Diropargs3
  symlink : Symlinkdata3
deriving DecidableEq, Repr

instance : Xdr SYMLINK3args := xdrStruct (fun a => (a.dirops, a.symlink)) fun (dirops, symlink) => ⟨dirops, symlink⟩

def nfsproc3Symlink : HandlerM Unit := withWriteCapabilities xid do
  let args : SYMLINK3args ← read
  withDirectory xid args.dirops.dir fun dirid preDirAttr => do
    let (fid, postopattr) := createdObject (← call
      (.symlink dirid args.dirops.name args.symlink.symlinkData args.symlink.symlinkAttributes))
    created xid dirid preDirAttr fid postopattr

def nfsproc3Remove : HandlerM Unit := withWriteCapabilities xid do
  let dirops : Diropargs3 ← read
  withDirectory xid dirops.dir fun dirid preDirAttr => do
    let res ← call (.remove dirid dirops.name)
    let wccRes ← wccOf dirid preDirAttr
    match res with
    | .ok () => write (reply xid .ok (serialize wccRes))
    | .error stat => write (reply xid stat (serialize wccRes))

def nfsproc3Rename : HandlerM Unit := withWriteCapabilities xid do
  let fromdirops : Diropargs3 ← read
  let todirops : Diropargs3 ← read
  -- each failure before the renaming is answered with one `wcc_data`
  match ← call (.fhToId fromdirops.dir) with
  | .error stat => refuse xid stat
  | .ok fromDirid =>
    match ← call (.fhToId todirops.dir) with
    | .error stat => refuse xid stat
    | .ok toDirid =>
      match ← call (.getattr fromDirid) with
      | .error stat => refuse xid stat
      | .ok fromAttributes =>
        match ← call (.getattr toDirid) with
        | .error stat => refuse xid stat
        | .ok toAttributes =>
          let res ← call (.rename fromDirid fromdirops.name toDirid todirops.name)
          let fromWccRes ← wccOf fromDirid (some (wccAttr fromAttributes))
          let toWccRes ← wccOf toDirid (some (wccAttr toAttributes))
          let stat := match res with
            | .ok () => .ok
            | .error stat => stat
          write <| reply xid stat do
            serialize fromWccRes
            serialize toWccRes

/-! ## Directory listings -/

structure READDIR3args where
  dir : NfsFh3
  cookie : Cookie3
  cookieverf : Cookieverf3
  dircount : Count3
deriving DecidableEq, Repr

instance : Xdr READDIR3args :=
  xdrStruct (fun a => (a.dir, a.cookie, a.cookieverf, a.dircount))
    fun (dir, cookie, cookieverf, dircount) => ⟨dir, cookie, cookieverf, dircount⟩

structure READDIRPLUS3args where
  dir : NfsFh3
  cookie : Cookie3
  cookieverf : Cookieverf3
  dircount : Count3
  maxcount : Count3
deriving DecidableEq, Repr

instance : Xdr READDIRPLUS3args :=
  xdrStruct (fun a => (a.dir, a.cookie, a.cookieverf, a.dircount, a.maxcount))
    fun (dir, cookie, cookieverf, dircount, maxcount) => ⟨dir, cookie, cookieverf, dircount, maxcount⟩

structure Entry3 where
  fileid : Fileid3
  name : Filename3
  cookie : Cookie3
deriving DecidableEq, Repr

instance : Xdr Entry3 :=
  xdrStruct (fun e => (e.fileid, e.name, e.cookie)) fun (fileid, name, cookie) => ⟨fileid, name, cookie⟩

structure Entryplus3 where
  fileid : Fileid3
  name : Filename3
  cookie : Cookie3
  nameAttributes : PostOpAttr
  nameHandle : PostOpFh3
deriving DecidableEq, Repr

instance : Xdr Entryplus3 :=
  xdrStruct (fun e => (e.fileid, e.name, e.cookie, e.nameAttributes, e.nameHandle))
    fun (fileid, name, cookie, nameAttributes, nameHandle) => ⟨fileid, name, cookie, nameAttributes, nameHandle⟩

/-- The verifier is made of the directory's modification time. -/
def dirversion : Except Nfsstat3 Fattr3 → Cookieverf3
  | .ok attributes =>
    ⟨(attributes.mtime.seconds.toUInt64 <<< 32 ||| attributes.mtime.nseconds.toUInt64).toBeBytes,
      UInt64.length_toBeBytes _⟩
  | .error _ => zeroVerifier

/-- `?` on a result of serialising. -/
def orPanic {α : Type} (result : Except Panic α) : FileSystemM α := Prog.ofExcept (result.mapError .panic)

/-- An entry in the buffer it is measured in: the flag that it follows, and the entry. -/
def entryBuffer {η : Type} [Xdr η] (entry : η) : Except Panic Bytes := do
  let ((), buf) ← (do serialize true; serialize entry : Writer Unit).run []
  return buf

/-- What an entry adds to the part of the reply that `dircount` is about. -/
def addedDircount (name : Filename3) : Nat := 8 + (4 + name.length) + 8

/-- The loop over a page. `allows` decides whether an entry is written, from the number of bytes the reply
would have and the one `dircount` is about; the second result says whether all were. -/
def writeEntries {ε η : Type} [Xdr η] (prepare : ε → FileSystemM η) (name : η → Filename3) (allows : Nat → Nat → Bool) :
    List ε → WriteCounter → Nat → FileSystemM (WriteCounter × Bool)
  | [], countingOutput, _ => pure (countingOutput, true)
  | entry :: entries, countingOutput, accumulatedDircount => do
    let entry ← prepare entry
    let writeBuf ← orPanic (entryBuffer entry)
    let added := addedDircount (name entry)
    if allows (writeBuf.length + countingOutput.bytesWritten) (added + accumulatedDircount) then
      writeEntries prepare name allows entries (countingOutput.write writeBuf) (accumulatedDircount + added)
    else pure (countingOutput, false)

/-- The success arm of both listings. -/
def listing {ε η : Type} [Xdr η] (prepare : ε → FileSystemM η) (name : η → Filename3) (allows : Nat → Nat → Bool)
    (dirAttr : PostOpAttr) (version : Cookieverf3) (entries : List ε) (isEnd : Bool) : HandlerM Unit := fun streams => do
  let countingOutput ← orPanic <| (WriteCounter.new streams.output).emit <| reply xid .ok do
    serialize dirAttr
    serialize version
  let (countingOutput, allEntriesWritten) ← writeEntries prepare name allows entries countingOutput 0
  let countingOutput ← orPanic <| countingOutput.emit do
    serialize false
    serialize (if allEntriesWritten then isEnd else false)
  return ((), { streams with output := countingOutput.inner })

/-- The byte limit derived from a client's count. -/
def maxBytesAllowed (count : Count3) : Except Panic Nat := usizeSub overflow count.toNat 128

/-- An entry of a simple listing as it is sent. -/
def entry3 (entry : DirEntrySimple) : FileSystemM Entry3 := pure ⟨entry.fileid, entry.name, entry.fileid⟩

/-- An entry of a listing with attributes as it is sent, with the handle of its object. -/
def entryplus3 (entry : DirEntry) : FileSystemM Entryplus3 :=
  Prog.ask (S := fileSystemSignature) (.idToFh entry.fileid) fun handle =>
    .done ⟨entry.fileid, entry.name, entry.fileid, some entry.attr, some handle⟩

/-- A directory that is about to be listed. -/
structure Opened where
  dirid : Fileid3
  dirAttrMaybe : Except Nfsstat3 Fattr3
  maxBytes : Nat

/-- The start of both listings, up to the byte limit. A handle that is refused is answered here. -/
def openListing (dir : NfsFh3) (count : Count3) : HandlerM (Option Opened) := do
  match ← call (.fhToId dir) with
  | .error stat =>
    write (reply xid stat (serialize (none : PostOpAttr)))
    return none
  | .ok dirid =>
    let dirAttrMaybe ← call (.getattr dirid)
    let maxBytes ← StateT.lift (orPanic (maxBytesAllowed overflow count))
    return some { dirid, dirAttrMaybe, maxBytes }

def nfsproc3Readdir : HandlerM Unit := do
  let args : READDIR3args ← read
  match ← openListing overflow xid args.dir args.dircount with
  | none => pure ()
  | some { dirid, dirAttrMaybe, maxBytes } =>
    -- the cookie is not passed on
    match ← call (.readdirSimple dirid (args.dircount / 16).toNat) with
    | .ok result =>
      listing xid entry3 Entry3.name (fun bytes _ => bytes < maxBytes) (postOpAttr dirAttrMaybe)
        (dirversion dirAttrMaybe) result.entries result.isEnd
    | .error stat => write (reply xid stat (serialize (postOpAttr dirAttrMaybe)))

def nfsproc3Readdirplus : HandlerM Unit := do
  let args : READDIRPLUS3args ← read
  match ← openListing overflow xid args.dir args.maxcount with
  | none => pure ()
  | some { dirid, dirAttrMaybe, maxBytes } =>
    match ← call (.readdir dirid args.cookie (args.dircount / 16).toNat) with
    | .ok result =>
      listing xid entryplus3 Entryplus3.name (fun bytes dircount => bytes < maxBytes ∧ dircount < args.dircount.toNat)
        (postOpAttr dirAttrMaybe) (dirversion dirAttrMaybe) result.entries result.isEnd
    | .error stat => write (reply xid stat (serialize (postOpAttr dirAttrMaybe)))

/-! ## File systems -/

def nfsproc3Fsinfo : HandlerM Unit := do
  let handle : NfsFh3 ← read
  match ← call (.fhToId handle) with
  | .error stat => write (reply xid stat (serialize (none : PostOpAttr)))
  | .ok id =>
    match ← call (.fsinfo id) with
    | .ok fsinfo => write (reply xid .ok (serialize fsinfo))
    | .error stat => write (reply xid stat (pure ()))

structure FSSTAT3resok where
  objAttributes : PostOpAttr
  tbytes : Size3
  fbytes : Size3
  abytes : Size3
  tfiles : Size3
  ffiles : Size3
  afiles : Size3
  invarsec : UInt32
deriving DecidableEq, Repr

instance : Xdr FSSTAT3resok :=
  xdrStruct (fun r => (r.objAttributes, r.tbytes, r.fbytes, r.abytes, r.tfiles, r.ffiles, r.afiles, r.invarsec))
    fun (objAttributes, tbytes, fbytes, abytes, tfiles, ffiles, afiles, invarsec) =>
      ⟨objAttributes, tbytes, fbytes, abytes, tfiles, ffiles, afiles, invarsec⟩

def nfsproc3Fsstat : HandlerM Unit := do
  let handle : NfsFh3 ← read
  match ← call (.fhToId handle) with
  | .error stat => write (reply xid stat (serialize (none : PostOpAttr)))
  | .ok id =>
    let res : FSSTAT3resok :=
      { objAttributes := postOpAttr (← call (.getattr id))
        tbytes := 1024 * 1024 * 1024 * 1024
        fbytes := 1024 * 1024 * 1024 * 1024
        abytes := 1024 * 1024 * 1024 * 1024
        tfiles := 1024 * 1024 * 1024
        ffiles := 1024 * 1024 * 1024
        afiles := 1024 * 1024 * 1024
        invarsec := 0xffffffff }
    write (reply xid .ok (serialize res))

structure PATHCONF3resok where
  objAttributes : PostOpAttr
  linkmax : UInt32
  nameMax : UInt32
  noTrunc : Bool
  chownRestricted : Bool
  caseInsensitive : Bool
  casePreserving : Bool
deriving DecidableEq, Repr

instance : Xdr PATHCONF3resok :=
  xdrStruct
    (fun r => (r.objAttributes, r.linkmax, r.nameMax, r.noTrunc, r.chownRestricted, r.caseInsensitive, r.casePreserving))
    fun (objAttributes, linkmax, nameMax, noTrunc, chownRestricted, caseInsensitive, casePreserving) =>
      ⟨objAttributes, linkmax, nameMax, noTrunc, chownRestricted, caseInsensitive, casePreserving⟩

def nfsproc3Pathconf : HandlerM Unit := do
  let handle : NfsFh3 ← read
  match ← call (.fhToId handle) with
  | .error stat => write (reply xid stat (serialize (none : PostOpAttr)))
  | .ok id =>
    let res : PATHCONF3resok :=
      { objAttributes := postOpAttr (← call (.getattr id))
        linkmax := 0
        nameMax := 32768
        noTrunc := true
        chownRestricted := true
        caseInsensitive := false
        casePreserving := true }
    write (reply xid .ok (serialize res))

/-! ## Dispatch -/

def handleNfs (body : CallBody) : HandlerM Unit :=
  if body.vers ≠ Nfs.VERSION then write (progMismatchReplyMessage xid Nfs.VERSION).serialize
  else
    match body.proc with
    | 0 => nfsproc3Null xid
    | 1 => nfsproc3Getattr xid
    | 2 => nfsproc3Setattr xid
    | 3 => nfsproc3Lookup xid
    | 4 => nfsproc3Access xid
    | 5 => nfsproc3Readlink xid
    | 6 => nfsproc3Read xid
    | 7 => nfsproc3Write xid
    | 8 => nfsproc3Create xid
    | 9 => nfsproc3Mkdir xid
    | 10 => nfsproc3Symlink xid
    | 12 => nfsproc3Remove xid
    -- `RMDIR` is served by the handler of `REMOVE`
    | 13 => nfsproc3Remove xid
    | 14 => nfsproc3Rename xid
    | 16 => nfsproc3Readdir overflow xid
    | 17 => nfsproc3Readdirplus overflow xid
    | 18 => nfsproc3Fsstat xid
    | 19 => nfsproc3Fsinfo xid
    | 20 => nfsproc3Pathconf xid
    | _ => write (procUnavailReplyMessage xid).serialize

end NfsEmbed.Legacy
