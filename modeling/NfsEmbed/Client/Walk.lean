import NfsEmbed.Client.Arguments
import NfsEmbed.Client.Replies
import NfsEmbed.Lib.Transition

/-!
# A client that lists a directory

The client starts at cookie 0 and repeats `READDIR`, or `READDIRPLUS`, with the cookie of the last
entry it received. Counts, verifier, transaction id and caller may differ from request to request. A
reply that is no successful list leaves it where it was.

The backend serves a fixed directory: a page starts right after the cookie, it has an entry if there
is one to come, and it says `eof` only if it reaches the end. What it answers is otherwise open, and
so is everything else the server asks.
-/

namespace NfsEmbed.Client

open Lib Rpc Vfs Nfs3 Server

/-! ## The backend -/

/-- The entries after a cookie; cookie 0 stands before the first. -/
def after (cookie : UInt64) (listing : List DirectoryEntry) : List DirectoryEntry :=
  if cookie = 0 then listing else (listing.dropWhile fun entry => entry.cookie ≠ cookie).tail

/-- A page of the directory after a cookie. -/
structure PageOf (listing : List DirectoryEntry) (cookie : UInt64) (page : ReadDirectoryPage) : Prop where
  isFront : page.entries <+: after cookie listing
  progress : after cookie listing ≠ [] → page.entries ≠ []
  eof : page.eof = true → page.entries = after cookie listing

/-- Pages of this directory are answered as above. -/
def ListsDirectory (directory : ObjectKey) (listing : List DirectoryEntry) : (op : ServerOp) → op.Answer → Prop
  | .vfs _ _ (.readdir object cookie _ _), answer =>
    object = directory → ∀ page, answer = .ok page → PageOf listing cookie page
  | _, _ => True

/-! ## The walk -/

structure Walk where
  cookie : UInt64
  received : List ReadDirEntry
  /-- The last list received said `eof`. -/
  ended : Bool

namespace Walk

def start : Walk := ⟨0, [], false⟩

/-- What the client does with a reply. -/
def receive (walk : Walk) : Option ReadDirResult → Walk
  | some (.ok _ _ entries eof) =>
    { cookie := entries.getLast?.elim walk.cookie ReadDirEntry.cookie
      received := walk.received ++ entries
      ended := eof }
  | _ => walk

end Walk

def listArguments (plus : Bool) (directory : FileHandle) (cookie : UInt64) (verifier : Fixed 8)
    (directoryCount count : UInt32) : NfsArguments :=
  if plus then .readDirPlus { directory, cookie, verifier, directoryCount, maxCount := count }
  else .readDir { directory, cookie, verifier, count }

section Machine

variable (state : ConnectionState) (exportId : ExportId) (directory : ObjectKey) (plus : Bool)
  (listing : List DirectoryEntry)

inductive WalkStep : Walk → Option ReadDirResult → Walk → Prop
  | request (walk : Walk) (xid : UInt32) (context : RequestContext) (verifier : Fixed 8)
      (directoryCount count : UInt32) (args : Bytes) (history : Dialogue)
      (outcome : Except ServerError EncodedReply) :
    context.exportId = exportId →
    Encoder.run (listArguments plus (state.handles.encode exportId directory) walk.cookie verifier
      directoryCount count).encode = .ok args →
    (executeRequest state xid Nfs3.PROGRAM Nfs3.VERSION (if plus then 17 else 16) args context).Ends history
      outcome →
    (∀ exchange ∈ history, ListsDirectory directory listing exchange.1 exchange.2) →
    WalkStep walk (deliveredAs (readDir plus) xid outcome) (walk.receive (deliveredAs (readDir plus) xid outcome))

def walkMachine : Machine Walk (Option ReadDirResult) where
  Start walk := walk = .start
  Step := WalkStep state exportId directory plus listing

end Machine

end NfsEmbed.Client
