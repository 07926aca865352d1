import NfsEmbed.Laws.Legacy.Results

/-!
# Running the handlers of the pre-1.0 implementation

`Handles Q` says how a handler ends in every dialogue with the file system. Its rules follow the steps of a
handler: arguments that are read back, a call that may be answered with anything, a reply that is written.

What a file system does between two calls is not restricted; a law about `Handles` is one about all file
systems.
-/

namespace NfsEmbed.Legacy

open Lib Rpc Client
open Server (acceptedReplyEncoder GARBAGE_ARGS words)
open Prog (Ensures)

variable {writer : Writer Unit} {w input output : Bytes} {streams : Streams}

abbrev Outcome := Except Fault (Unit × Streams)

/-- In every dialogue with the file system, the handler ends as `Q` says. -/
structure Handles (Q : Dialogue → Outcome → Prop) (history : Dialogue) (handler : HandlerM Unit) (streams : Streams) :
    Prop where
  ensures : Ensures (fun _ _ => True) (fun _ _ => True) Q history (handler.run streams)

theorem write_run (hwrites : Writes writer True w) :
    (Legacy.write writer).run ⟨input, output⟩ = .done ((), ⟨input, output ++ w⟩) := by
  have hrun : writer output = .ok ((), output ++ w) := (hwrites output).1 trivial
  simp only [StateT.run, Legacy.write, hrun]

namespace Handles

variable {Q : Dialogue → Outcome → Prop} {history : Dialogue}

theorem mono {Q' : Dialogue → Outcome → Prop} {handler : HandlerM Unit} (h : Handles Q history handler streams)
    (himp : ∀ dialogue outcome, Q dialogue outcome → Q' dialogue outcome) : Handles Q' history handler streams :=
  ⟨h.ensures.mono (fun _ _ => id) (fun _ _ => id) himp⟩

/-- A call of the file system may be answered with anything. -/
theorem call {op : FileSystemOp} {next : op.Answer → HandlerM Unit}
    (h : ∀ answer, Handles Q (history ++ [⟨op, answer⟩]) (next answer) streams) :
    Handles Q history (Legacy.call op >>= next) streams :=
  ⟨trivial, fun answer _ => (h answer).ensures⟩

/-- Arguments that were spelled are read. -/
theorem read {α : Type} [Xdr α] [LawfulXdr α] {next : α → HandlerM Unit} {value : α} {rest : Bytes}
    (hfits : Fits (2 ^ 32) value) (h : Handles Q history (next value) ⟨rest, output⟩) :
    Handles Q history (Legacy.read >>= next) ⟨spell value ++ rest, output⟩ := by
  have hread : (Legacy.read : HandlerM α).run ⟨spell value ++ rest, output⟩ = .done (value, ⟨rest, output⟩) := by
    have hrun : (deserialize : Reader α) (spell value ++ rest) = .ok (value, rest) :=
      deserialize_consumes value hfits rest
    simp only [StateT.run, Legacy.read, hrun]
  constructor
  rw [StateT.run_bind, hread]
  exact h.ensures

/-- What is written is appended, or the handler panics on a vector that is too long. -/
theorem write {P : Prop} (hwrites : Writes writer P w) (hok : P → Q history (.ok ((), ⟨input, output ++ w⟩)))
    (hpanic : ¬ P → ∀ fault, Q history (.error fault)) : Handles Q history (Legacy.write writer) ⟨input, output⟩ := by
  constructor
  by_cases hP : P
  · have hrun : writer output = .ok ((), output ++ w) := (hwrites output).1 hP
    simp only [StateT.run, Legacy.write, hrun]
    exact hok hP
  · obtain ⟨panic, hrun⟩ := (hwrites output).2 hP
    have hrun : writer output = .error panic := hrun
    simp only [StateT.run, Legacy.write, hrun]
    exact hpanic hP _

/-- A reply whose arm is always written. -/
theorem write_total (hwrites : Writes writer True w) (h : Q history (.ok ((), ⟨input, output ++ w⟩))) :
    Handles Q history (Legacy.write writer) ⟨input, output⟩ :=
  write hwrites (fun _ => h) fun hfalse => (hfalse trivial).elim

/-- One reply after the other. -/
theorem write_then {next : Unit → HandlerM Unit} (hwrites : Writes writer True w)
    (h : Handles Q history (next ()) ⟨input, output ++ w⟩) :
    Handles Q history (Legacy.write writer >>= next) ⟨input, output⟩ := by
  constructor
  rw [StateT.run_bind, write_run hwrites]
  exact h.ensures

/-- On a read-only file system the handler refuses. -/
theorem withWriteCapabilities {xid : UInt32} {handler : HandlerM Unit}
    (hrefuse : Handles Q (history ++ [⟨.capabilities, .readOnly⟩]) (refuse xid .rofs) streams)
    (h : Handles Q (history ++ [⟨.capabilities, .readWrite⟩]) handler streams) :
    Handles Q history (Legacy.withWriteCapabilities xid handler) streams := by
  apply call
  intro capabilities
  cases capabilities with
  | readOnly => exact hrefuse
  | readWrite => exact h

theorem wccOf {dirid : Fileid3} {preDirAttr : PreOpAttr} {next : WccData → HandlerM Unit}
    (h : ∀ answer, Handles Q (history ++ [⟨.getattr dirid, answer⟩]) (next ⟨preDirAttr, postOpAttr answer⟩) streams) :
    Handles Q history (Legacy.wccOf dirid preDirAttr >>= next) streams :=
  call h

/-- A procedure that changes a directory is refused if its handle or its attributes are. -/
theorem withDirectory {xid : UInt32} {dir : NfsFh3} {handler : Fileid3 → PreOpAttr → HandlerM Unit}
    (hhandle : ∀ stat, Handles Q (history ++ [⟨.fhToId dir, .error stat⟩]) (refuse xid stat) streams)
    (hgetattr : ∀ dirid stat, Handles Q (history ++ [⟨.fhToId dir, .ok dirid⟩] ++ [⟨.getattr dirid, .error stat⟩])
      (refuse xid stat) streams)
    (h : ∀ dirid attributes, Handles Q (history ++ [⟨.fhToId dir, .ok dirid⟩] ++ [⟨.getattr dirid, .ok attributes⟩])
      (handler dirid (some (wccAttr attributes))) streams) :
    Handles Q history (Legacy.withDirectory xid dir handler) streams := by
  apply call
  intro dirid
  cases dirid with
  | error stat => exact hhandle stat
  | ok dirid =>
    apply call
    intro attributes
    cases attributes with
    | error stat => exact hgetattr dirid stat
    | ok attributes => exact h dirid attributes

end Handles

/-! ## Replies -/

theorem acceptBody_writes (xid : UInt32) {body : AcceptBody} {status : UInt32}
    (h : Writes body.serialize True status.toBeBytes) :
    Writes (ReplyMessage.mk xid body).serialize True (acceptedReplyEncoder xid status) := by
  have hnil : Fits (2 ^ 32 - 1) ([] : Bytes) := show 0 < 2 ^ 32 - 1 by decide
  refine ((serialize_writes xid).seq <| (serialize_writes (1 : UInt32)).seq <| (serialize_writes (0 : UInt32)).seq <|
    (serialize_writes (0 : UInt32)).seq <| (serialize_writes ([] : Bytes)).seq h).congr ?_ fun _ => ?_
  · exact iff_of_true ⟨trivial, trivial, trivial, trivial, hnil, trivial⟩ trivial
  · simp [acceptedReplyEncoder, words]
    rfl

/-- A reply is its header, the status and the arm. -/
theorem reply_writes (xid : UInt32) (stat : Nfsstat3) {arm : Writer Unit} {P : Prop} (h : Writes arm P w) :
    Writes (reply xid stat arm) P (resultBytes xid stat w) := by
  have hsuccess : Writes AcceptBody.success.serialize True (0 : UInt32).toBeBytes := serialize_writes (0 : UInt32)
  exact ((acceptBody_writes xid hsuccess).seq ((serialize_writes stat).seq h)).congr
    ⟨fun h => h.2.2, fun h => ⟨trivial, trivial, h⟩⟩ fun _ => rfl

theorem garbageArgs_writes (xid : UInt32) :
    Writes (garbageArgsReplyMessage xid).serialize True (acceptedReplyEncoder xid GARBAGE_ARGS) :=
  acceptBody_writes xid (serialize_writes (4 : UInt32))

end NfsEmbed.Legacy
