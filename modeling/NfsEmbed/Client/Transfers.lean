import NfsEmbed.Client.Arguments
import NfsEmbed.Client.Replies
import NfsEmbed.Lib.Transition

/-!
# Clients that read and write a file

A client that reads repeats `READ` at the offset of what it has received, with any counts, until a reply
says `eof`. A client that writes repeats `WRITE` with what is left, at the offset where that begins, until
nothing is left or a reply is no success. In both, transaction ids and callers may differ from request to
request.
-/

namespace NfsEmbed.Client

open Lib Rpc Vfs Nfs3 Server

/-! ## Reading -/

/-- What a backend may return of the file: some of the bytes at the offset, which may be fewer or more
than asked for, at least one if there is one and one was asked for, and `eof` only if they reach the end. -/
structure ReadOf (content : Bytes) (offset : UInt64) (count : UInt32) (result : ReadBytesResult) : Prop where
  isPart : result.data <+: content.drop offset.toNat
  progress : offset.toNat < content.length → 0 < count → result.data ≠ []
  eof : result.eof = true → content.length ≤ offset.toNat + result.data.length

/-- Reads of this file are answered as above. -/
def ReadsFile (file : ObjectKey) (content : Bytes) : (op : ServerOp) → op.Answer → Prop
  | .vfs _ _ (.readBytes object offset count), answer =>
    object = file → ∀ result, answer = .ok result → ReadOf content offset count result
  | _, _ => True

/-- The backend did not return more than it was asked for, so the server did not cut what it returned. -/
def Uncut : (op : ServerOp) → op.Answer → Prop
  | .vfs _ _ (.readBytes _ _ count), answer => ∀ result, answer = .ok result → result.data.length ≤ count.toNat
  | _, _ => True

structure FileRead where
  received : Bytes
  /-- A reply said `eof`. -/
  ended : Bool

namespace FileRead

def start : FileRead := ⟨[], false⟩

def receive (read : FileRead) : Option ReadResult → FileRead
  | some (.ok _ data eof) => { received := read.received ++ data, ended := eof }
  | _ => read

end FileRead

section Reading

variable (state : ConnectionState) (exportId : ExportId) (file : ObjectKey) (content : Bytes)

def readArguments (offset : UInt64) (count : UInt32) : NfsArguments :=
  .read { object := state.handles.encode exportId file, offset, count }

/-- One `READ`, with what the server said to the backend for it. -/
inductive ReadStep : FileRead → Dialogue × Option ReadResult → FileRead → Prop
  | request (read : FileRead) (xid : UInt32) (context : RequestContext) (count : UInt32) (args : Bytes)
      (history : Dialogue) (outcome : Except ServerError EncodedReply) :
    read.ended = false → 0 < count → context.exportId = exportId →
    Encoder.run (readArguments state exportId file (UInt64.ofNat read.received.length) count).encode = .ok args →
    (executeRequest state xid Nfs3.PROGRAM Nfs3.VERSION 6 args context).Ends history outcome →
    (∀ exchange ∈ history, ReadsFile file content exchange.1 exchange.2) →
    ReadStep read (history, deliveredAs Client.read xid outcome) (read.receive (deliveredAs Client.read xid outcome))

def readMachine : Machine FileRead (Dialogue × Option ReadResult) where
  Start read := read = .start
  Step := ReadStep state exportId file content

end Reading

/-! ## Writing -/

/-- The bytes of the file that the backend reports as written, each with its offset. -/
def acknowledgedBy (file : ObjectKey) : (op : ServerOp) → op.Answer → List (UInt8 × Nat)
  | .vfs _ _ (.write object offset data _), answer =>
    match answer with
    | .ok result => if object = file then (data.take result.value.count.toNat).zipIdx offset.toNat else []
    | .error _ => []
  | _, _ => []

def acknowledgedIn (file : ObjectKey) (history : Dialogue) : List (UInt8 × Nat) :=
  history.flatMap fun exchange => acknowledgedBy file exchange.1 exchange.2

inductive UploadPhase where
  | sending
  /-- Everything was reported as written. -/
  | finished
  /-- A reply was no success. -/
  | failed
deriving DecidableEq, Repr

structure Upload where
  offset : UInt64
  rest : Bytes
  /-- How many requests were sent. -/
  sent : Nat
  /-- What the backend has reported as written. -/
  acknowledged : List (UInt8 × Nat)
  phase : UploadPhase

namespace Upload

def start (offset : UInt64) (data : Bytes) : Upload := ⟨offset, data, 0, [], .sending⟩

def receive (upload : Upload) (acknowledged : List (UInt8 × Nat)) : Option Nfs3.WriteResult → Upload
  | some (.ok _ count _ _) =>
    { offset := upload.offset + count.toUInt64
      rest := upload.rest.drop count.toNat
      sent := upload.sent + 1
      acknowledged := upload.acknowledged ++ acknowledged
      phase := if upload.rest.drop count.toNat = [] then .finished else .sending }
  | _ =>
    { upload with
      sent := upload.sent + 1
      acknowledged := upload.acknowledged ++ acknowledged
      phase := .failed }

end Upload

section Writing

variable (state : ConnectionState) (exportId : ExportId) (file : ObjectKey)

def writeArguments (offset : UInt64) (requested : WriteStability) (data : Bytes) : NfsArguments :=
  .write { object := state.handles.encode exportId file, offset, count := UInt32.ofNat data.length, requested, data }

/-- One `WRITE` of what is left. The backend may answer anything. -/
inductive UploadStep : Upload → Dialogue × Option Nfs3.WriteResult → Upload → Prop
  | request (upload : Upload) (xid : UInt32) (context : RequestContext) (requested : WriteStability) (args : Bytes)
      (history : Dialogue) (outcome : Except ServerError EncodedReply) :
    upload.phase = .sending → context.exportId = exportId →
    Encoder.run (writeArguments state exportId file upload.offset requested upload.rest).encode = .ok args →
    (executeRequest state xid Nfs3.PROGRAM Nfs3.VERSION 7 args context).Ends history outcome →
    UploadStep upload (history, deliveredAs Client.write xid outcome)
      (upload.receive (acknowledgedIn file history) (deliveredAs Client.write xid outcome))

def uploadMachine (offset : UInt64) (data : Bytes) : Machine Upload (Dialogue × Option Nfs3.WriteResult) where
  Start upload := upload = .start offset data
  Step := UploadStep state exportId file

end Writing

end NfsEmbed.Client
