import NfsEmbed.Laws.Legacy.Arguments
import NfsEmbed.Laws.Legacy.Arms
import NfsEmbed.Laws.Legacy.Guard

/-!
# When a handler of the pre-1.0 implementation writes one complete reply

A reply is complete if a client of RFC 1813 reads a result of the procedure behind the header, nothing is left, and
the handles in it are no longer than handles may be. `one_complete_reply` says for every dialogue with a file system
whether the handler writes one. The exceptions are failures that are answered without the fields of the failure arm, a
`SETATTR` that goes on after its guard failed, a count that is smaller than what is subtracted from it, and file
systems that fail with `NFS3_OK`, or return what does not fit where it is sent.

That the result is the right one for the request is not established here.
-/

namespace NfsEmbed.Legacy

open Lib Rpc Client
open Server (acceptedReplyEncoder SUCCESS GARBAGE_ARGS)

variable {handle : NfsFh3} {stat : Nfsstat3} {input : Bytes} {dialogue : Dialogue} {dirid : Fileid3}

/-! ## Complete replies -/

/-- The handler returned, and its output is an accepted reply with one result of the procedure. -/
def Complete (procedure xid : UInt32) (outcome : Outcome) : Prop :=
  ∃ streams result, outcome = .ok ((), streams) ∧
    readReply (NfsResult.parser procedure) xid streams.output = some result ∧ HandlesFit result

/-- The only exception: a `WRITE` whose count is not the length of its data is garbage. -/
def Garbage (xid : UInt32) (arguments : Arguments) (outcome : Outcome) : Prop :=
  ∃ args streams, arguments = .write args ∧ args.data.length ≠ args.count.toNat ∧ outcome = .ok ((), streams) ∧
    streams.output = acceptedReplyEncoder xid GARBAGE_ARGS

def Answered (xid : UInt32) (arguments : Arguments) (outcome : Outcome) : Prop :=
  Complete arguments.procedure xid outcome ∨ Garbage xid arguments outcome

/-! ## Conditions on the file system -/

/-- What can be sent as a vector. -/
def Short (value : Bytes) : Prop := value.length < 2 ^ 32 - 1

/-- A handle that a client accepts. -/
def NfsFh3.Bounded (handle : NfsFh3) : Prop := handle.data.length ≤ Nfs.NFS3_FHSIZE.toNat

/-- An error is not `NFS3_OK`. -/
def Fails {α : Type} (answer : Except Nfsstat3 α) : Prop := answer ≠ .error .ok

def Succeeds {α : Type} (answer : Except Nfsstat3 α) : Prop := ∀ stat, answer ≠ .error stat

/-- A value that is returned can be sent as a vector. -/
def Sendable {α : Type} (vector : α → Bytes) (answer : Except Nfsstat3 α) : Prop :=
  Fails answer ∧ ∀ value, answer = .ok value → Short (vector value)

/-- The guard of a `SETATTR` is the change time the file system reports, or there is none. -/
def PassesGuard (guard : Option Nfstime3) (answer : Except Nfsstat3 Fattr3) : Prop :=
  ∀ attributes, answer = .ok attributes → ∀ c ∈ guard, c = attributes.ctime

section Answers

variable {α : Type} {stat : Nfsstat3} {vector : α → Bytes} {value : α}

@[simp] theorem fails_ok : Fails (.ok value) := fun h => by cases h

@[simp] theorem fails_error : Fails (.error stat : Except Nfsstat3 α) ↔ stat ≠ .ok := by
  simp [Fails]

@[simp] theorem succeeds_ok : Succeeds (.ok value) := nofun

@[simp] theorem not_succeeds_error : ¬ Succeeds (.error stat : Except Nfsstat3 α) := fun h => h stat rfl

@[simp] theorem passesGuard_ok {guard : Option Nfstime3} {attributes : Fattr3} :
    PassesGuard guard (.ok attributes) ↔ ∀ c ∈ guard, c = attributes.ctime := by
  simp [PassesGuard]

@[simp] theorem passesGuard_error {guard : Option Nfstime3} : PassesGuard guard (.error stat) := nofun

@[simp] theorem sendable_ok : Sendable vector (.ok value) ↔ Short (vector value) := by
  simp [Sendable]

@[simp] theorem sendable_error : Sendable vector (.error stat) ↔ stat ≠ .ok := by
  simp [Sendable]

theorem NfsFh3.Bounded.fits (h : handle.Bounded) : Fits (2 ^ 32 - 1) handle :=
  Nat.lt_of_le_of_lt h (by decide)

end Answers

/-- What a procedure needs of each answer. `SETATTR` and `READLINK` answer a refused handle without the failure arm.
`REMOVE`, `RMDIR` and `RENAME` send the same fields in both arms, whatever the status. -/
def Proper (arguments : Arguments) : Exchange fileSystemSignature → Prop
  | ⟨.fhToId _, answer⟩ =>
    match arguments with
    | .setattr _ | .readlink _ => Succeeds answer
    | .remove _ | .rmdir _ | .rename _ _ => True
    | _ => Fails answer
  | ⟨.getattr _, answer⟩ =>
    match arguments with
    | .setattr args => PassesGuard args.guard answer
    | .readlink _ => Fails answer
    | _ => True
  | ⟨.lookup _ _, answer⟩ =>
    match arguments with
    | .lookup _ => Fails answer
    | _ => True
  | ⟨.idToFh _, handle⟩ =>
    match arguments with
    | .readdirplus _ => True
    | _ => NfsFh3.Bounded handle
  | ⟨.read _ _ _, answer⟩ => Sendable Prod.fst answer
  | ⟨.readlink _, answer⟩ => Sendable id answer
  | ⟨.write _ _ _, answer⟩ => Fails answer
  | ⟨.readdir _ _ _, answer⟩ => Fails answer
  | ⟨.readdirSimple _ _, answer⟩ => Fails answer
  | _ => True

/-- A method that creates an object fails with the status of a success. -/
def CreatesNothing : Exchange fileSystemSignature → Prop
  | ⟨.create _ _ _, answer⟩ => answer = .error .ok
  | ⟨.createExclusive _ _, answer⟩ => answer = .error .ok
  | ⟨.mkdir _ _, answer⟩ => answer = .error .ok
  | ⟨.symlink _ _ _ _, answer⟩ => answer = .error .ok
  | _ => False

/-- The directory of a creation: its attributes are not refused with the status of a success, and where an object is,
they spell one. -/
structure CreationSettled (dialogue : Dialogue) : Prop where
  before : ∀ dirid, dialogue[2]? ≠ some ⟨.getattr dirid, .error .ok⟩
  after : (∃ exchange ∈ dialogue, CreatesNothing exchange) →
    ∃ dirid attributes answer, dialogue[2]? = some ⟨.getattr dirid, .ok attributes⟩ ∧
      dialogue.getLast? = some ⟨.getattr dirid, answer⟩ ∧ SpellsCreation attributes (postOpAttr answer)

/-- A `RENAME` gets as far as the renaming. -/
def ReachesRename (fromArgs toArgs : Diropargs3) (dialogue : Dialogue) : Prop :=
  ∃ fromDirid toDirid fromAttributes toAttributes rest,
    dialogue = ⟨.capabilities, .readWrite⟩ :: ⟨.fhToId fromArgs.dir, .ok fromDirid⟩ ::
      ⟨.fhToId toArgs.dir, .ok toDirid⟩ :: ⟨.getattr fromDirid, .ok fromAttributes⟩ ::
      ⟨.getattr toDirid, .ok toAttributes⟩ :: rest

section Listings

variable {ρ ε η : Type} [Xdr η] [LawfulXdr η]

/-- The entries that fit into a page, and with `more` the first that does not. -/
def Lister.reached (lister : Lister ρ ε η) (attributes : Except Nfsstat3 Fattr3) (maxBytes : Nat) (result : ρ)
    (trace : Dialogue) (more : Bool) : List η :=
  fitting lister.name (lister.allows maxBytes) more (lister.makes (lister.entries result) trace)
    (28 + (pageHead (postOpAttr attributes) (dirversion attributes)).length) 0

/-- All of these can be serialised, and the handles of those that fit are bounded. -/
def Lister.Sendable (lister : Lister ρ ε η) (attributes : Except Nfsstat3 Fattr3) (maxBytes : Nat) (result : ρ)
    (trace : Dialogue) : Prop :=
  (∀ made ∈ lister.reached attributes maxBytes result trace true, Fits (2 ^ 32 - 1) made) ∧
    ∀ made ∈ lister.reached attributes maxBytes result trace false, ∀ handle ∈ lister.handle made, handle.Bounded

/-- The byte limit can be computed, or it does not come to that, and what is to be sent can be. -/
structure ListingSettled (lister : Lister ρ ε η) (overflow : Overflow) (dir : NfsFh3) (count : Count3)
    (dialogue : Dialogue) : Prop where
  limit : overflow = .wraps ∨ 128 ≤ count.toNat ∨ HandleRefused dir dialogue
  entries : ∀ dirid attributes result trace maxBytes, dialogue = lister.asked dir dirid attributes (.ok result) ++ trace →
    maxBytesAllowed overflow count = .ok maxBytes → lister.Sendable attributes maxBytes result trace

end Listings

/-- What a procedure needs of the dialogue as a whole. -/
def Completes (overflow : Overflow) : Arguments → Dialogue → Prop
  | .create _ _, dialogue | .mkdir _, dialogue | .symlink _, dialogue => CreationSettled dialogue
  | .rename fromArgs toArgs, dialogue => ReachesRename fromArgs toArgs dialogue
  | .readdir args, dialogue => ListingSettled (readdirLister args) overflow args.dir args.dircount dialogue
  | .readdirplus args, dialogue => ListingSettled (readdirplusLister args) overflow args.dir args.maxcount dialogue
  | _, _ => True

/-- When the reply is complete. -/
def Settled (overflow : Overflow) (arguments : Arguments) (dialogue : Dialogue) : Prop :=
  (∀ exchange ∈ dialogue, Proper arguments exchange) ∧ Completes overflow arguments dialogue

/-- The reply is complete just if it should be. -/
def Verdict (overflow : Overflow) (xid : UInt32) (arguments : Arguments) (dialogue : Dialogue) (outcome : Outcome) : Prop :=
  Answered xid arguments outcome ↔ Settled overflow arguments dialogue

/-! ## Verdicts over one reply -/

section Verdicts

variable {overflow : Overflow} {xid : UInt32} {arguments : Arguments} {history : Dialogue}

/-- A reply with a status is answered by its result. -/
theorem answered_iff {streams : Streams} {arm : Bytes} (houtput : streams.output = resultBytes xid stat arm) :
    Answered xid arguments (.ok ((), streams)) ↔ Recognised arguments.procedure (spell stat ++ arm) := by
  constructor
  · rintro (⟨_, result, heq, hread, hfit⟩ | ⟨_, _, _, _, heq, hgarbage⟩)
    · cases heq
      rw [houtput, resultBytes, readReply_header_iff] at hread
      exact ⟨result, hread, hfit⟩
    · -- a reply that is garbage has no status
      cases heq
      have hlength := congrArg List.length (houtput.symm.trans hgarbage)
      rw [length_resultBytes, Server.length_acceptedReplyEncoder] at hlength
      omega
  · rintro ⟨result, hrun, hfit⟩
    refine .inl ⟨streams, result, rfl, ?_, hfit⟩
    rw [houtput, resultBytes, readReply_header_iff]
    exact hrun

theorem Verdict.of_reply {streams : Streams} {arm : Bytes} (houtput : streams.output = resultBytes xid stat arm)
    (h : Recognised arguments.procedure (spell stat ++ arm) ↔ Settled overflow arguments history) :
    Verdict overflow xid arguments history (.ok ((), streams)) :=
  (answered_iff houtput).trans h

/-- A handler that panics writes no complete reply. -/
theorem Verdict.of_fault {fault : Fault} (h : ¬ Settled overflow arguments history) :
    Verdict overflow xid arguments history (.error fault) := by
  refine iff_of_false ?_ h
  rintro (⟨_, _, heq, _⟩ | ⟨_, _, _, _, heq, _⟩) <;> cases heq

/-- A reply with one arm, which may be too long to be written. -/
theorem Handles.verdict {arm : Writer Unit} {P : Prop} {w : Bytes} (harm : Writes arm P w)
    (hok : P → (Recognised arguments.procedure (spell stat ++ w) ↔ Settled overflow arguments history))
    (hpanic : ¬ P → ¬ Settled overflow arguments history) :
    Handles (Verdict overflow xid arguments) history (Legacy.write (reply xid stat arm)) ⟨input, []⟩ := by
  apply Handles.write (reply_writes xid stat harm)
  · exact fun h => Verdict.of_reply rfl (hok h)
  · exact fun h _ => Verdict.of_fault (hpanic h)

/-- An arm that is always written. -/
theorem Handles.verdict_total {α : Type} [Xdr α] [LawfulXdr α] [VectorFree α] {value : α}
    (h : Recognised arguments.procedure (spell stat ++ spell value) ↔ Settled overflow arguments history) :
    Handles (Verdict overflow xid arguments) history (Legacy.write (reply xid stat (serialize value))) ⟨input, []⟩ :=
  Handles.verdict (serialize_writes_total value) (fun _ => h) fun hfalse => (hfalse trivial).elim

/-- A failure with the attributes of the object. -/
theorem attrFailure_verdict {attr : PostOpAttr} (hproc : arguments.procedure ∈ [3, 5, 6, 16, 17])
    (h : Settled overflow arguments history ↔ stat ≠ .ok) :
    Handles (Verdict overflow xid arguments) history (Legacy.write (reply xid stat (serialize attr))) ⟨input, []⟩ :=
  Handles.verdict_total ((attrFailure_recognised_iff hproc stat attr).trans h.symm)

/-- A failure without attributes. -/
theorem refuse_verdict (hproc : arguments.procedure ∈ [7, 8, 9, 10])
    (h : Settled overflow arguments history ↔ stat ≠ .ok) :
    Handles (Verdict overflow xid arguments) history (refuse xid stat) ⟨input, []⟩ :=
  Handles.verdict_total ((refusal_recognised_iff hproc stat).trans h.symm)

/-! ## Names and contents -/

theorem lookup_verdict {what : Diropargs3} (hfits : Fits (2 ^ 32) what) (rest : Bytes) :
    Handles (Verdict overflow xid (.lookup what)) [] (nfsproc3Lookup xid) ⟨spell what ++ rest, []⟩ := by
  have hproc : (Arguments.lookup what).procedure ∈ [3, 5, 6, 16, 17] := by simp [Arguments.procedure]
  apply Handles.read hfits
  apply Handles.call
  intro dirid
  cases dirid with
  | error => exact attrFailure_verdict hproc (by simp [Settled, Proper, Completes])
  | ok dirid =>
    apply Handles.call
    intro dirAttr
    apply Handles.call
    intro fid
    cases fid with
    | error => exact attrFailure_verdict hproc (by simp [Settled, Proper, Completes])
    | ok fid =>
      apply Handles.call
      intro objAttr
      apply Handles.call
      intro (object : NfsFh3)
      have hsettled : Settled overflow (.lookup what) [⟨.fhToId what.dir, .ok dirid⟩, ⟨.getattr dirid, dirAttr⟩,
          ⟨.lookup dirid what.name, .ok fid⟩, ⟨.getattr fid, objAttr⟩, ⟨.idToFh fid, object⟩] ↔ object.Bounded := by
        simp [Settled, Proper, Completes]
      refine Handles.verdict ((serialize_writes object).seq <| (serialize_writes_total _).seq
        (serialize_writes_total _)) (fun hfits => ?_) fun hlong => ?_
      · exact (lookup_recognised_iff hfits.1 _ _).trans hsettled.symm
      · exact fun h => hlong ⟨(hsettled.mp h).fits, trivial, trivial⟩

theorem read_verdict {args : READ3args} (hfits : Fits (2 ^ 32) args) (rest : Bytes) :
    Handles (Verdict overflow xid (.read args)) [] (nfsproc3Read xid) ⟨spell args ++ rest, []⟩ := by
  have hproc : (Arguments.read args).procedure ∈ [3, 5, 6, 16, 17] := by simp [Arguments.procedure]
  apply Handles.read hfits
  apply Handles.call
  intro id
  cases id with
  | error => exact attrFailure_verdict hproc (by simp [Settled, Proper, Completes])
  | ok id =>
    apply Handles.call
    intro objAttr
    apply Handles.call
    intro contents
    cases contents with
    | error => exact attrFailure_verdict hproc (by simp [Settled, Proper, Completes])
    | ok contents =>
      obtain ⟨bytes, eof⟩ := contents
      have hsettled : Settled overflow (.read args) [⟨.fhToId args.file, .ok id⟩, ⟨.getattr id, objAttr⟩,
          ⟨.read id args.offset args.count, .ok (bytes, eof)⟩] ↔ Short bytes := by
        simp [Settled, Proper, Completes]
      refine Handles.verdict (serialize_writes _) (fun hfits => ?_) fun hlong => ?_
      · have hshort : Short bytes := hfits.2.2.2
        exact iff_of_true (read_recognised hshort _ _) (hsettled.mpr hshort)
      · exact fun h => hlong ⟨VectorFree.fits _ (postOpAttr objAttr), trivial, trivial, hsettled.mp h⟩

/-- The failure arm of a refused handle is left out. -/
theorem readlink_verdict (hfits : Fits (2 ^ 32) handle) (rest : Bytes) :
    Handles (Verdict overflow xid (.readlink handle)) [] (nfsproc3Readlink xid) ⟨spell handle ++ rest, []⟩ := by
  have hproc : (Arguments.readlink handle).procedure ∈ [3, 5, 6, 16, 17] := by simp [Arguments.procedure]
  apply Handles.read hfits
  apply Handles.call
  intro id
  cases id with
  | error stat =>
    apply Handles.write_total (reply_writes xid stat Writes.pure)
    exact Verdict.of_reply rfl (iff_of_false (readlink_not_recognised stat) (by simp [Settled, Proper]))
  | ok id =>
    apply Handles.call
    intro attributes
    cases attributes with
    | error => exact attrFailure_verdict hproc (by simp [Settled, Proper, Completes])
    | ok attributes =>
      apply Handles.call
      intro path
      cases path with
      | error => exact attrFailure_verdict hproc (by simp [Settled, Proper, Completes])
      | ok path =>
        have hsettled : Settled overflow (.readlink handle) [⟨.fhToId handle, .ok id⟩, ⟨.getattr id, .ok attributes⟩,
            ⟨.readlink id, .ok path⟩] ↔ Short path := by
          simp [Settled, Proper, Completes]
        refine Handles.verdict ((serialize_writes_total _).seq (serialize_writes path)) (fun hfits => ?_) fun hlong => ?_
        · exact iff_of_true (readlink_recognised hfits.2 _) (hsettled.mpr hfits.2)
        · exact fun h => hlong ⟨trivial, hsettled.mp h⟩

theorem write_verdict {args : WRITE3args} (hfits : Fits (2 ^ 32) args) (rest : Bytes) :
    Handles (Verdict overflow xid (.write args)) [] (nfsproc3Write xid) ⟨spell args ++ rest, []⟩ := by
  have hproc : (Arguments.write args).procedure ∈ [7, 8, 9, 10] := by simp [Arguments.procedure]
  apply Handles.withWriteCapabilities
  · exact refuse_verdict hproc (by simp [Settled, Proper, Completes])
  · apply Handles.read hfits
    split
    next hcount =>
      apply Handles.write_total (garbageArgs_writes xid)
      exact iff_of_true (.inr ⟨args, _, rfl, hcount, rfl, rfl⟩) (by simp [Settled, Proper, Completes])
    next hcount =>
      apply Handles.call
      intro id
      cases id with
      | error => exact refuse_verdict hproc (by simp [Settled, Proper, Completes])
      | ok =>
        apply Handles.call
        intro preAttributes
        apply Handles.call
        intro attributes
        cases attributes with
        | error => exact refuse_verdict hproc (by simp [Settled, Proper, Completes])
        | ok =>
          apply Handles.call
          intro verf
          refine Handles.verdict_total (iff_of_true (write_recognised _ _ _) ?_)
          simp [Settled, Proper, Completes]

/-! ## Entries of directories -/

/-- The procedures that create an object. -/
def Arguments.Creates : Arguments → Prop
  | .create _ _ | .mkdir _ | .symlink _ => True
  | _ => False

/-- Where a creation has got to when its method has answered, from the attributes of the directory before it. -/
structure Creating (arguments : Arguments) (dirid : Fileid3) (before : Fattr3) (history : Dialogue)
    (fid : Except Nfsstat3 Fileid3) : Prop where
  proper : ∀ exchange ∈ history, Proper arguments exchange
  attributes : history[2]? = some ⟨.getattr dirid, .ok before⟩
  nothing : (∃ exchange ∈ history, CreatesNothing exchange) ↔ fid = .error .ok

/-- Where the creating method does not fail with `NFS3_OK`, only the first attributes matter. -/
theorem creationSettled_iff (h : ∀ exchange ∈ dialogue, ¬ CreatesNothing exchange) :
    CreationSettled dialogue ↔ ∀ dirid, dialogue[2]? ≠ some ⟨.getattr dirid, .error .ok⟩ :=
  ⟨fun hsettled => hsettled.before, fun hbefore => ⟨hbefore, fun ⟨exchange, hmem, hnothing⟩ =>
    absurd hnothing (h exchange hmem)⟩⟩

section Creation

variable (hcreates : arguments.Creates)

include hcreates

theorem Arguments.Creates.procedure_mem : arguments.procedure ∈ [8, 9, 10] := by
  cases arguments <;> first | exact hcreates.elim | simp [Arguments.procedure]

theorem Arguments.Creates.settled_iff :
    Settled overflow arguments history ↔ (∀ exchange ∈ history, Proper arguments exchange) ∧ CreationSettled history := by
  cases arguments <;> first | exact hcreates.elim | exact Iff.rfl

theorem Arguments.Creates.proper_fhToId {answer : Except Nfsstat3 Fileid3} :
    Proper arguments ⟨.fhToId handle, answer⟩ ↔ Fails answer := by
  cases arguments <;> first | exact hcreates.elim | exact Iff.rfl

theorem Arguments.Creates.proper_getattr {id : Fileid3} {answer : Except Nfsstat3 Fattr3} :
    Proper arguments ⟨.getattr id, answer⟩ := by
  cases arguments <;> first | exact hcreates.elim | trivial

theorem Arguments.Creates.proper_idToFh {id : Fileid3} : Proper arguments ⟨.idToFh id, handle⟩ ↔ handle.Bounded := by
  cases arguments <;> first | exact hcreates.elim | exact Iff.rfl

/-- What is refused before anything is created. -/
theorem Arguments.Creates.refuse (hnothing : ∀ exchange ∈ history, ¬ CreatesNothing exchange)
    (hstat : ((∀ exchange ∈ history, Proper arguments exchange) ∧
      ∀ dirid, history[2]? ≠ some ⟨.getattr dirid, .error .ok⟩) ↔ stat ≠ .ok) :
    Handles (Verdict overflow xid arguments) history (Legacy.refuse xid stat) ⟨input, []⟩ := by
  have hsubset : ([8, 9, 10] : List UInt32) ⊆ [7, 8, 9, 10] := by decide
  apply refuse_verdict (hsubset hcreates.procedure_mem)
  rw [hcreates.settled_iff, creationSettled_iff hnothing, hstat]

theorem Arguments.Creates.readOnly :
    Handles (Verdict overflow xid arguments) [⟨.capabilities, .readOnly⟩] (Legacy.refuse xid .rofs) ⟨input, []⟩ :=
  hcreates.refuse (by simp [CreatesNothing]) (by simp [Proper])

/-- A handle and the attributes of a directory that are refused. -/
theorem Arguments.Creates.withDirectory {dir : NfsFh3} {handler : Fileid3 → PreOpAttr → HandlerM Unit}
    (h : ∀ dirid attributes, Handles (Verdict overflow xid arguments)
      [⟨.capabilities, .readWrite⟩, ⟨.fhToId dir, .ok dirid⟩, ⟨.getattr dirid, .ok attributes⟩]
      (handler dirid (some (wccAttr attributes))) ⟨input, []⟩) :
    Handles (Verdict overflow xid arguments) [⟨.capabilities, .readWrite⟩] (Legacy.withDirectory xid dir handler)
      ⟨input, []⟩ := by
  have hcapabilities : Proper arguments ⟨.capabilities, .readWrite⟩ := trivial
  refine Handles.withDirectory (fun stat => ?_) (fun dirid stat => ?_) h
  · exact hcreates.refuse (by simp [CreatesNothing]) (by simp [hcapabilities, hcreates.proper_fhToId])
  · refine hcreates.refuse (by simp [CreatesNothing]) ?_
    have hproper : ∀ exchange ∈ [⟨.capabilities, .readWrite⟩, ⟨.fhToId dir, .ok dirid⟩, ⟨.getattr dirid, .error stat⟩],
        Proper arguments exchange := by
      simp [hcapabilities, hcreates.proper_fhToId, hcreates.proper_getattr]
    refine (and_iff_right hproper).trans ⟨?_, fun hstat dirid' heq => ?_⟩
    · rintro hbefore rfl
      exact hbefore dirid rfl
    · cases heq
      exact hstat rfl

/-- What is sent after the creating method has returned. -/
theorem Creating.verdict {before : Fattr3} {fid : Except Nfsstat3 Fileid3} {postopattr : PostOpAttr}
    (h : Creating arguments dirid before history fid) :
    Handles (Verdict overflow xid arguments) history (created xid dirid (some (wccAttr before)) fid postopattr)
      ⟨input, []⟩ := by
  obtain ⟨hlt, -⟩ := List.getElem?_eq_some_iff.mp h.attributes
  apply Handles.wccOf
  intro answer
  have hproper : ∀ exchange ∈ history ++ [⟨.getattr dirid, answer⟩], Proper arguments exchange := by
    simp only [List.forall_mem_append, List.forall_mem_singleton]
    exact ⟨h.proper, hcreates.proper_getattr⟩
  have hbefore : (history ++ [⟨.getattr dirid, answer⟩])[2]? = some ⟨.getattr dirid, .ok before⟩ := by
    rw [List.getElem?_append_left hlt, h.attributes]
  have hnothing : (∃ exchange ∈ history ++ [⟨.getattr dirid, answer⟩], CreatesNothing exchange) ↔ fid = .error .ok := by
    rw [← h.nothing]
    simp [or_and_right, exists_or, CreatesNothing]
  cases fid with
  | error stat =>
    refine Handles.verdict_total ((createFailure_recognised_iff hcreates.procedure_mem stat before _).trans ?_)
    rw [hcreates.settled_iff, and_iff_right hproper]
    constructor
    · intro hspells
      refine ⟨fun dirid' heq => ?_, fun hany => ?_⟩
      · cases hbefore.symm.trans heq
      · have hstat : stat = .ok := by simpa using hnothing.mp hany
        exact ⟨dirid, before, answer, hbefore, List.getLast?_concat, hspells hstat⟩
    · rintro hsettled rfl
      obtain ⟨_, _, _, hbefore', hlast, hspells⟩ := hsettled.after (hnothing.mpr rfl)
      cases hbefore.symm.trans hbefore'
      rw [List.getLast?_concat] at hlast
      cases hlast
      exact hspells
  | ok fid =>
    apply Handles.call
    intro (fh : NfsFh3)
    have hsettled : Settled overflow arguments (history ++ [⟨.getattr dirid, answer⟩] ++ [⟨.idToFh fid, fh⟩]) ↔
        fh.Bounded := by
      rw [hcreates.settled_iff, List.forall_mem_append, List.forall_mem_singleton, hcreates.proper_idToFh,
        and_iff_right hproper]
      refine and_iff_left ⟨fun dirid' heq => ?_, fun hany => ?_⟩
      · rw [List.getElem?_append_left (by rw [List.length_append]; omega)] at heq
        cases hbefore.symm.trans heq
      · obtain ⟨exchange, hmem, hcreates⟩ := hany
        obtain hmem | hmem := List.mem_append.mp hmem
        · cases hnothing.mp ⟨exchange, hmem, hcreates⟩
        · cases List.mem_singleton.mp hmem
          exact hcreates.elim
    refine Handles.verdict ((serialize_writes (some fh : PostOpFh3)).seq <| (serialize_writes_total _).seq
      (serialize_writes_total _)) (fun hfits => ?_) fun hlong => ?_
    · exact (created_recognised_iff hcreates.procedure_mem hfits.1 _ _).trans hsettled.symm
    · exact fun h => hlong ⟨(hsettled.mp h).fits, trivial, trivial⟩

end Creation

/-- The object that a method of the file system created, or its error. -/
theorem Creating.of_call {dir : NfsFh3} {before : Fattr3} (more : Dialogue) {op : FileSystemOp} {answer : op.Answer}
    {fid : Except Nfsstat3 Fileid3} (hcreates : arguments.Creates)
    (hmore : ∀ exchange ∈ more, Proper arguments exchange ∧ ¬ CreatesNothing exchange)
    (hproper : Proper arguments ⟨op, answer⟩) (hnothing : CreatesNothing ⟨op, answer⟩ ↔ fid = .error .ok) :
    Creating arguments dirid before ([⟨.capabilities, .readWrite⟩, ⟨.fhToId dir, .ok dirid⟩,
      ⟨.getattr dirid, .ok before⟩] ++ more ++ [⟨op, answer⟩]) fid where
  proper := by
    have hcapabilities : Proper arguments ⟨.capabilities, .readWrite⟩ := trivial
    simp only [List.forall_mem_append, List.forall_mem_cons]
    refine ⟨⟨⟨hcapabilities, hcreates.proper_fhToId.mpr fails_ok, hcreates.proper_getattr, List.forall_mem_nil _⟩, ?_⟩, ?_⟩
    · exact fun exchange hmem => (hmore exchange hmem).1
    · exact ⟨hproper, List.forall_mem_nil _⟩
  attributes := rfl
  nothing := by
    rw [← hnothing]
    constructor
    · rintro ⟨exchange, hmem, hany⟩
      simp only [List.mem_append, List.mem_cons, List.not_mem_nil, or_false] at hmem
      obtain ((rfl | rfl | rfl) | hmem) | rfl := hmem
      · exact hany.elim
      · exact hany.elim
      · exact hany.elim
      · exact absurd hany (hmore exchange hmem).2
      · exact hany
    · exact fun hany => ⟨_, List.mem_append_right _ (List.mem_singleton_self _), hany⟩

theorem createdObject_fst_eq {answer : Except Nfsstat3 (Fileid3 × Fattr3)} :
    answer = .error .ok ↔ (createdObject answer).1 = .error .ok := by
  cases answer <;> simp [createdObject]

theorem create_verdict {target : Diropargs3} {how : Createhow3} (hfits : Fits (2 ^ 32) target) (rest : Bytes) :
    Handles (Verdict overflow xid (.create target how)) [] (nfsproc3Create xid)
      ⟨spell target ++ (how.spell ++ rest), []⟩ := by
  have hcreates : (Arguments.create target how).Creates := trivial
  apply Handles.withWriteCapabilities
  · exact hcreates.readOnly
  · apply Handles.read hfits
    cases how with
    | unchecked =>
      rw [Createhow3.spell, List.append_assoc]
      apply Handles.read trivial
      refine hcreates.withDirectory fun dirid before => ?_
      apply Handles.read trivial
      apply Handles.call
      intro answer
      exact Creating.verdict hcreates (.of_call [] hcreates (List.forall_mem_nil _) trivial createdObject_fst_eq)
    | guarded =>
      rw [Createhow3.spell, List.append_assoc]
      apply Handles.read trivial
      refine hcreates.withDirectory fun dirid before => ?_
      apply Handles.read trivial
      apply Handles.call
      intro found
      cases found with
      | ok =>
        apply Handles.wccOf
        intro answer
        refine Handles.verdict_total (iff_of_true (wccFailure_recognised (by simp [Arguments.procedure]) (by decide) _) ?_)
        refine ⟨by simp [Proper], (creationSettled_iff (by simp [CreatesNothing])).mpr fun dirid' heq => ?_⟩
        cases heq
      | error stat =>
        apply Handles.call
        intro answer
        exact Creating.verdict hcreates (.of_call [⟨.lookup dirid target.name, .error stat⟩] hcreates
          (List.forall_mem_singleton.mpr ⟨trivial, not_false⟩) trivial createdObject_fst_eq)
    | exclusive =>
      -- the verifier is not read
      rw [Createhow3.spell, List.append_assoc]
      apply Handles.read trivial
      refine hcreates.withDirectory fun dirid before => ?_
      apply Handles.call
      intro fid
      exact Creating.verdict hcreates (.of_call [] hcreates (List.forall_mem_nil _) trivial Iff.rfl)

theorem mkdir_verdict {args : MKDIR3args} (hfits : Fits (2 ^ 32) args) (rest : Bytes) :
    Handles (Verdict overflow xid (.mkdir args)) [] (nfsproc3Mkdir xid) ⟨spell args ++ rest, []⟩ := by
  have hcreates : (Arguments.mkdir args).Creates := trivial
  apply Handles.withWriteCapabilities
  · exact hcreates.readOnly
  · apply Handles.read hfits
    refine hcreates.withDirectory fun dirid before => ?_
    apply Handles.call
    intro answer
    exact Creating.verdict hcreates (.of_call [] hcreates (List.forall_mem_nil _) trivial createdObject_fst_eq)

theorem symlink_verdict {args : SYMLINK3args} (hfits : Fits (2 ^ 32) args) (rest : Bytes) :
    Handles (Verdict overflow xid (.symlink args)) [] (nfsproc3Symlink xid) ⟨spell args ++ rest, []⟩ := by
  have hcreates : (Arguments.symlink args).Creates := trivial
  apply Handles.withWriteCapabilities
  · exact hcreates.readOnly
  · apply Handles.read hfits
    refine hcreates.withDirectory fun dirid before => ?_
    apply Handles.call
    intro answer
    exact Creating.verdict hcreates (.of_call [] hcreates (List.forall_mem_nil _) trivial createdObject_fst_eq)

/-- `REMOVE` and `RMDIR` send the same fields whatever happens. -/
theorem remove_verdict {object : Diropargs3} (hfits : Fits (2 ^ 32) object) (rest : Bytes)
    (harguments : arguments = .remove object ∨ arguments = .rmdir object) :
    Handles (Verdict overflow xid arguments) [] (nfsproc3Remove xid) ⟨spell object ++ rest, []⟩ := by
  have hcomplete : ∀ {history stat input} {wcc : WccData}, Settled overflow arguments history →
      Handles (Verdict overflow xid arguments) history (Legacy.write (reply xid stat (serialize wcc))) ⟨input, []⟩ := by
    intro history stat input wcc hsettled
    refine Handles.verdict_total (iff_of_true (wccResult_recognised ?_ stat wcc) hsettled)
    obtain rfl | rfl := harguments <;> simp [Arguments.procedure]
  apply Handles.withWriteCapabilities
  · exact hcomplete (by obtain rfl | rfl := harguments <;> simp [Settled, Proper, Completes])
  · apply Handles.read hfits
    refine Handles.withDirectory (fun stat => hcomplete ?_) (fun dirid stat => hcomplete ?_) fun dirid attributes => ?_
    · obtain rfl | rfl := harguments <;> simp [Settled, Proper, Completes]
    · obtain rfl | rfl := harguments <;> simp [Settled, Proper, Completes]
    · apply Handles.call
      intro res
      apply Handles.wccOf
      intro answer
      cases res with
      | ok | error => exact hcomplete (by obtain rfl | rfl := harguments <;> simp [Settled, Proper, Completes])

/-- A failure before the renaming has one `wcc_data` too few. -/
theorem refuse_rename_verdict {fromArgs toArgs : Diropargs3} (hnot : ¬ ReachesRename fromArgs toArgs history) :
    Handles (Verdict overflow xid (.rename fromArgs toArgs)) history (refuse xid stat) ⟨input, []⟩ :=
  Handles.verdict_total (iff_of_false (rename_not_recognised stat) fun h => hnot h.2)

theorem rename_verdict {fromArgs toArgs : Diropargs3} (hfrom : Fits (2 ^ 32) fromArgs) (hto : Fits (2 ^ 32) toArgs)
    (rest : Bytes) :
    Handles (Verdict overflow xid (.rename fromArgs toArgs)) [] (nfsproc3Rename xid)
      ⟨spell fromArgs ++ (spell toArgs ++ rest), []⟩ := by
  apply Handles.withWriteCapabilities
  · exact refuse_rename_verdict fun ⟨_, _, _, _, _, heq⟩ => by cases heq
  · apply Handles.read hfrom
    apply Handles.read hto
    apply Handles.call
    intro fromDirid
    cases fromDirid with
    | error => exact refuse_rename_verdict fun ⟨_, _, _, _, _, heq⟩ => by cases heq
    | ok fromDirid =>
      apply Handles.call
      intro toDirid
      cases toDirid with
      | error => exact refuse_rename_verdict fun ⟨_, _, _, _, _, heq⟩ => by cases heq
      | ok toDirid =>
        apply Handles.call
        intro fromAttributes
        cases fromAttributes with
        | error => exact refuse_rename_verdict fun ⟨_, _, _, _, _, heq⟩ => by cases heq
        | ok fromAttributes =>
          apply Handles.call
          intro toAttributes
          cases toAttributes with
          | error => exact refuse_rename_verdict fun ⟨_, _, _, _, _, heq⟩ => by cases heq
          | ok toAttributes =>
            apply Handles.call
            intro res
            apply Handles.wccOf
            intro fromAnswer
            apply Handles.wccOf
            intro toAnswer
            refine Handles.verdict ((serialize_writes_total _).seq (serialize_writes_total _)) (fun _ => ?_) fun h =>
              (h ⟨trivial, trivial⟩).elim
            refine iff_of_true (rename_recognised _ _ _) ⟨?_, fromDirid, toDirid, fromAttributes, toAttributes, _, rfl⟩
            simp [Proper]

/-! ## Attributes -/

/-- `SETATTR` leaves out the failure arm of a refused handle, and goes on when its guard fails. -/
theorem setattr_verdict {args : SETATTR3args} (hfits : Fits (2 ^ 32) args) (rest : Bytes) :
    Handles (Verdict overflow xid (.setattr args)) [] (nfsproc3Setattr xid) ⟨spell args ++ rest, []⟩ := by
  have hproc : (2 : UInt32) ∈ [2, 12, 13] := List.mem_cons_self
  have hcomplete : ∀ {history streams stat} {wcc : WccData}, Settled overflow (.setattr args) history →
      streams.output = resultBytes xid stat (spell wcc) →
      Verdict overflow xid (.setattr args) history (.ok ((), streams)) :=
    fun hsettled houtput => Verdict.of_reply houtput (iff_of_true (wccResult_recognised hproc _ _) hsettled)
  apply Handles.setattr hfits rest
  · exact fun _ => hcomplete (by simp [Settled, Proper, Completes]) rfl
  · exact fun stat => Verdict.of_reply rfl (iff_of_false (setattr_not_recognised stat) (by simp [Settled, Proper]))
  · exact fun id stat => hcomplete (by simp [Settled, Proper, Completes]) rfl
  · exact fun id attributes answer stat wcc hguard => hcomplete (by simpa [Settled, Proper, Completes] using hguard) rfl
  · intro id attributes answer stat wcc c hguard hdiffers
    have houtput : resultBytes xid .notSync (spell ({} : WccData)) ++ resultBytes xid stat (spell wcc) =
        resultBytes xid .notSync (spell ({} : WccData) ++ resultBytes xid stat (spell wcc)) := by
      simp only [resultBytes, List.append_assoc]
    refine Verdict.of_reply houtput (iff_of_false (setattr_twice_not_recognised fun hnil => ?_) ?_)
    · have hlength := length_resultBytes xid stat (spell wcc)
      rw [hnil, List.length_nil] at hlength
      omega
    · simp [Settled, Proper, hguard, hdiffers]

/-! ## Directory listings -/

section Listings

variable {ρ ε η : Type} [Xdr η] [LawfulXdr η] {lister : Lister ρ ε η} {dir : NfsFh3} {count : Count3}

section Reached

variable {attributes : Except Nfsstat3 Fattr3} {maxBytes : Nat} {result : ρ} {trace : Dialogue}

/-- A page has exactly the entries that are reached. -/
theorem Lister.Fills.reached_eq {written : List η} {counter : WriteCounter} {all : Bool}
    (h : lister.Fills xid attributes maxBytes result trace written counter all) :
    lister.reached attributes maxBytes result trace false = written ∧
      ∀ made ∈ lister.reached attributes maxBytes result trace true, Fits (2 ^ 32 - 1) made := by
  have hfitting := Filled.fitting_eq lister.lawful h
  rwa [count_pageCounter] at hfitting

/-- A handler panics on an entry that is reached. -/
theorem Lister.Breaks.reached_long (h : lister.Breaks xid attributes maxBytes result trace) :
    ∃ made ∈ lister.reached attributes maxBytes result trace true, ¬ Fits (2 ^ 32 - 1) made := by
  have hfitting := Broken.fitting_long lister.lawful h
  rwa [count_pageCounter] at hfitting

end Reached

/-- With a limit, the entries are all that is left. -/
theorem listingSettled_of_limit {maxBytes : Nat} (hlimit : maxBytesAllowed overflow count = .ok maxBytes) :
    ListingSettled lister overflow dir count dialogue ↔ ∀ dirid attributes result trace,
      dialogue = lister.asked dir dirid attributes (.ok result) ++ trace →
        lister.Sendable attributes maxBytes result trace := by
  constructor
  · exact fun h dirid attributes result trace heq => h.entries dirid attributes result trace maxBytes heq hlimit
  · intro h
    refine ⟨?_, fun dirid attributes result trace maxBytes' heq hlimit' => ?_⟩
    · cases overflow with
      | wraps => exact .inl rfl
      | panics =>
        refine .inr (.inl ?_)
        by_contra hlt
        obtain ⟨panic, hpanic⟩ := maxBytesAllowed_panics hlt
        cases hpanic.symm.trans hlimit
    · cases hlimit.symm.trans hlimit'
      exact h dirid attributes result trace heq

/-- A limit that cannot be computed ends the handler without a reply. -/
theorem not_listingSettled_of_panic {panic : Panic} (hlimit : maxBytesAllowed overflow count = .error panic)
    (hresolved : ¬ HandleRefused dir dialogue) : ¬ ListingSettled lister overflow dir count dialogue := by
  intro h
  obtain rfl | hle | hrefused := h.limit
  · by_cases hle : 128 ≤ count.toNat
    · cases (maxBytesAllowed_of_le hle).symm.trans hlimit
    · cases (maxBytesAllowed_wraps hle).symm.trans hlimit
  · cases (maxBytesAllowed_of_le hle).symm.trans hlimit
  · exact hresolved hrefused

/-- What a listing needs of a dialogue, and when its pages are read. -/
structure Lists (lister : Lister ρ ε η) (overflow : Overflow) (arguments : Arguments) (dir : NfsFh3) (count : Count3) :
    Prop where
  procedure_mem : arguments.procedure ∈ [3, 5, 6, 16, 17]
  settled_iff : ∀ {dialogue}, Settled overflow arguments dialogue ↔
    (∀ exchange ∈ dialogue, Proper arguments exchange) ∧ ListingSettled lister overflow dir count dialogue
  proper_fhToId : ∀ {answer : Except Nfsstat3 Fileid3}, Proper arguments ⟨.fhToId dir, answer⟩ ↔ Fails answer
  proper_getattr : ∀ {dirid} {answer : Except Nfsstat3 Fattr3}, Proper arguments ⟨.getattr dirid, answer⟩
  proper_request : ∀ {dirid answer}, Proper arguments (lister.request dirid answer) ↔ Fails answer
  proper_sent : ∀ entry piece made, lister.Sent entry piece made → ∀ exchange ∈ piece, Proper arguments exchange
  recognised_iff : ∀ {dirAttr version eof} {written : List η}, (∀ made ∈ written, Fits (2 ^ 32 - 1) made) →
    (Recognised arguments.procedure (spell Nfsstat3.ok ++ pageBytes dirAttr version written eof) ↔
      ∀ made ∈ written, ∀ handle ∈ lister.handle made, handle.Bounded)

namespace Lists

variable (hlists : Lists lister overflow arguments dir count)

include hlists

theorem proper_asked {attributes : Except Nfsstat3 Fattr3} {answer : Except Nfsstat3 ρ} :
    (∀ exchange ∈ lister.asked dir dirid attributes answer, Proper arguments exchange) ↔ Fails answer := by
  have hhandle : Proper arguments ⟨.fhToId dir, .ok dirid⟩ := hlists.proper_fhToId.mpr fails_ok
  have hgetattr : Proper arguments ⟨.getattr dirid, attributes⟩ := hlists.proper_getattr
  simp only [Lister.asked, List.forall_mem_cons, hhandle, hgetattr, hlists.proper_request, true_and]
  exact and_iff_left (List.forall_mem_nil _)

/-- Every way a listing can end has its verdict. -/
theorem verdict {rest : Bytes} {outcome : Outcome} (h : Listed lister overflow xid dir count rest dialogue outcome) :
    Verdict overflow xid arguments dialogue outcome := by
  cases h with
  | refused stat =>
    refine Verdict.of_reply rfl ((attrFailure_recognised_iff hlists.procedure_mem stat _).trans ?_)
    have hproper : Proper arguments ⟨.fhToId dir, .error stat⟩ ↔ stat ≠ .ok := hlists.proper_fhToId.trans fails_error
    rw [hlists.settled_iff, List.forall_mem_singleton, hproper]
    refine (and_iff_left ⟨.inr (.inr ⟨stat, rfl⟩), ?_⟩).symm
    intro _ _ _ _ _ heq
    cases heq
  | underflow _ _ hlimit =>
    exact Verdict.of_fault fun h => not_listingSettled_of_panic hlimit not_handleRefused (hlists.settled_iff.mp h).2
  | failed dirid attributes stat hlimit =>
    refine Verdict.of_reply rfl ((attrFailure_recognised_iff hlists.procedure_mem stat _).trans ?_)
    rw [hlists.settled_iff, listingSettled_of_limit hlimit, hlists.proper_asked, fails_error]
    refine (and_iff_left fun dirid' attributes' result trace heq => ?_).symm
    rw [← List.append_nil (lister.asked dir dirid attributes _)] at heq
    cases (Lister.asked_append_inj heq).2.1
  | @page dirid attributes _ result trace _ _ _ hlimit hfills =>
    refine Verdict.of_reply rfl ((hlists.recognised_iff (Filled.fits hfills)).trans ?_)
    obtain ⟨hwritten, hfits⟩ := hfills.reached_eq
    rw [hlists.settled_iff, listingSettled_of_limit hlimit, List.forall_mem_append, hlists.proper_asked]
    constructor
    · intro hbounded
      refine ⟨⟨fails_ok, Filled.forall_trace hlists.proper_sent hfills⟩, fun dirid' attributes' result' trace' heq => ?_⟩
      obtain ⟨rfl, hresult, rfl⟩ := Lister.asked_append_inj heq
      cases hresult
      refine ⟨hfits, ?_⟩
      rw [hwritten]
      exact hbounded
    · rintro ⟨-, hentries⟩
      have hbounded := (hentries dirid attributes result trace rfl).2
      rwa [hwritten] at hbounded
  | @long dirid attributes _ result trace _ hlimit hbreaks =>
    refine Verdict.of_fault fun h => ?_
    obtain ⟨made, hmem, hlong⟩ := hbreaks.reached_long
    have hentries := (listingSettled_of_limit hlimit).mp (hlists.settled_iff.mp h).2
    exact hlong ((hentries dirid attributes result trace rfl).1 made hmem)

end Lists

theorem lists_readdir (overflow : Overflow) (args : READDIR3args) :
    Lists (readdirLister args) overflow (.readdir args) args.dir args.dircount where
  procedure_mem := by simp [Arguments.procedure]
  settled_iff := Iff.rfl
  proper_fhToId := Iff.rfl
  proper_getattr := trivial
  proper_request := Iff.rfl
  proper_sent := by
    rintro entry _ _ ⟨rfl, rfl⟩
    exact List.forall_mem_nil _
  recognised_iff hfits := iff_of_true (readdirPage_recognised hfits _ _ _) nofun

theorem lists_readdirplus (overflow : Overflow) (args : READDIRPLUS3args) :
    Lists (readdirplusLister args) overflow (.readdirplus args) args.dir args.maxcount where
  procedure_mem := by simp [Arguments.procedure]
  settled_iff := Iff.rfl
  proper_fhToId := Iff.rfl
  proper_getattr := trivial
  proper_request := Iff.rfl
  proper_sent := by
    rintro entry _ _ ⟨handle, rfl, rfl⟩
    exact List.forall_mem_singleton.mpr trivial
  recognised_iff hfits := readdirplusPage_recognised_iff hfits _ _ _

end Listings

/-! ## All procedures -/

/-- Every procedure, dispatched by its number. -/
theorem handleNfs_verdict (hwellFormed : arguments.WellFormed) (rest : Bytes) :
    Handles (Verdict overflow xid arguments) [] (handleNfs overflow xid ⟨Nfs.VERSION, arguments.procedure⟩)
      ⟨arguments.spell ++ rest, []⟩ := by
  cases arguments with
  | setattr => exact setattr_verdict hwellFormed rest
  | lookup => exact lookup_verdict hwellFormed rest
  | readlink => exact readlink_verdict hwellFormed rest
  | read => exact read_verdict hwellFormed rest
  | write => exact write_verdict hwellFormed rest
  | create =>
    rw [Arguments.spell, List.append_assoc]
    exact create_verdict hwellFormed rest
  | mkdir => exact mkdir_verdict hwellFormed rest
  | symlink => exact symlink_verdict hwellFormed rest
  | remove => exact remove_verdict hwellFormed rest (.inl rfl)
  | rmdir => exact remove_verdict hwellFormed rest (.inr rfl)
  | rename =>
    rw [Arguments.spell, List.append_assoc]
    exact rename_verdict hwellFormed.1 hwellFormed.2 rest
  | readdir args => exact (Handles.readdir hwellFormed rest).mono fun _ _ => (lists_readdir overflow args).verdict
  | readdirplus args =>
    exact (Handles.readdirplus hwellFormed rest).mono fun _ _ => (lists_readdirplus overflow args).verdict

end Verdicts

/-- A `RENAME` in one directory. -/
def renameAToB : Arguments := .rename ⟨⟨[1]⟩, [97]⟩ ⟨⟨[1]⟩, [98]⟩

theorem renameAToB_wellFormed : renameAToB.WellFormed :=
  ⟨⟨show 1 < 2 ^ 32 by decide, show 1 < 2 ^ 32 by decide⟩, show 1 < 2 ^ 32 by decide, show 1 < 2 ^ 32 by decide⟩

/-- A file system that fails to rename with `NFS3_OK`, and then cannot read the directory. -/
def renameDialogue : Dialogue :=
  [⟨.capabilities, .readWrite⟩, ⟨.fhToId ⟨[1]⟩, .ok 1⟩, ⟨.fhToId ⟨[1]⟩, .ok 1⟩,
    ⟨.getattr 1, .ok (fileChangedAt ⟨0, 0⟩)⟩, ⟨.getattr 1, .ok (fileChangedAt ⟨0, 0⟩)⟩,
    ⟨.rename 1 [97] 1 [98], .error .ok⟩, ⟨.getattr 1, .error .io⟩, ⟨.getattr 1, .error .io⟩]

end NfsEmbed.Legacy
