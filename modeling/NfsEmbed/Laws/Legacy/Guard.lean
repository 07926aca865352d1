import NfsEmbed.Laws.Legacy.Handlers

/-!
# What `SETATTR` does with its guard

A guard is the change time a client believes the object to have. If it has another one, the handler says so
and goes on: the attributes are set, and a second reply follows the first.

`setattr_honours_guard_iff` says when a guard is honoured.
-/

namespace NfsEmbed.Legacy

open Lib Rpc Client

/-- The state of a file system, by what it answers. -/
abbrev FileSystemState := (op : FileSystemOp) → op.Answer

section Rules

variable {Q : Dialogue → Outcome → Prop} {xid : UInt32} {history : Dialogue}

theorem Handles.refuse {stat : Nfsstat3} {input output : Bytes}
    (h : Q history (.ok ((), ⟨input, output ++ resultBytes xid stat (spell ({} : WccData))⟩))) :
    Handles Q history (Legacy.refuse xid stat) ⟨input, output⟩ :=
  Handles.write_total (reply_writes xid stat (serialize_writes_total _)) h

/-- A handler that ends in some way in every dialogue with a state of the file system does so in the one it has. -/
theorem Handles.converse {state : FileSystemState} {handler : HandlerM Unit} {streams : Streams}
    (h : Handles (fun dialogue outcome => (∀ exchange ∈ dialogue, exchange.2 = state exchange.1) → Q dialogue outcome) []
      handler streams) :
    Q ((handler.run streams).converse state).1 ((handler.run streams).converse state).2 := by
  have hends := Prog.converse_ends (S := fileSystemSignature) state (handler.run streams)
  have hanswers := Prog.converse_answers (S := fileSystemSignature) state (handler.run streams)
  exact h.ensures.ends hends (fun _ _ => trivial) hanswers

theorem Handles.applyAttributes {id : Fileid3} {newAttribute : Sattr3} {preOpAttr : PreOpAttr} {input output : Bytes}
    (h : ∀ answer stat (wcc : WccData), Q (history ++ [⟨.setattr id newAttribute, answer⟩])
      (.ok ((), ⟨input, output ++ resultBytes xid stat (spell wcc)⟩))) :
    Handles Q history (Legacy.applyAttributes xid id newAttribute preOpAttr) ⟨input, output⟩ := by
  apply Handles.call
  intro answer
  cases answer with
  | ok => exact Handles.write_total (reply_writes xid .ok (serialize_writes_total _)) (h _ _ _)
  | error => exact Handles.refuse (h _ _ _)

/-- Everything `SETATTR` can do. -/
theorem Handles.setattr {args : SETATTR3args} (hfits : Fits (2 ^ 32) args) (rest : Bytes)
    (hreadOnly : ∀ input, Q [⟨.capabilities, .readOnly⟩]
      (.ok ((), ⟨input, resultBytes xid .rofs (spell ({} : WccData))⟩)))
    (hhandle : ∀ stat, Q [⟨.capabilities, .readWrite⟩, ⟨.fhToId args.object, .error stat⟩]
      (.ok ((), ⟨rest, resultBytes xid stat []⟩)))
    (hgetattr : ∀ id stat, Q [⟨.capabilities, .readWrite⟩, ⟨.fhToId args.object, .ok id⟩, ⟨.getattr id, .error stat⟩]
      (.ok ((), ⟨rest, resultBytes xid stat (spell ({} : WccData))⟩)))
    (happly : ∀ id (attributes : Fattr3) answer stat (wcc : WccData), (∀ c ∈ args.guard, c = attributes.ctime) →
      Q [⟨.capabilities, .readWrite⟩, ⟨.fhToId args.object, .ok id⟩, ⟨.getattr id, .ok attributes⟩,
          ⟨.setattr id args.newAttribute, answer⟩]
        (.ok ((), ⟨rest, resultBytes xid stat (spell wcc)⟩)))
    (hmismatch : ∀ id (attributes : Fattr3) answer stat (wcc : WccData) c, args.guard = some c → c ≠ attributes.ctime →
      Q [⟨.capabilities, .readWrite⟩, ⟨.fhToId args.object, .ok id⟩, ⟨.getattr id, .ok attributes⟩,
          ⟨.setattr id args.newAttribute, answer⟩]
        (.ok ((), ⟨rest, resultBytes xid .notSync (spell ({} : WccData)) ++ resultBytes xid stat (spell wcc)⟩))) :
    Handles Q [] (nfsproc3Setattr xid) ⟨spell args ++ rest, []⟩ := by
  apply Handles.withWriteCapabilities
  · exact Handles.refuse (hreadOnly _)
  · apply Handles.read hfits
    apply Handles.call
    intro id
    cases id with
    | error stat => exact Handles.write_total (reply_writes xid stat Writes.pure) (hhandle stat)
    | ok id =>
      apply Handles.call
      intro attributes
      cases attributes with
      | error stat => exact Handles.refuse (hgetattr id stat)
      | ok attributes =>
        cases hguard : args.guard with
        | none =>
          dsimp only
          apply Handles.applyAttributes
          intro answer stat wcc
          exact happly id attributes answer stat wcc (by simp [hguard])
        | some c =>
          dsimp only
          split
          next hdiffers =>
            apply Handles.write_then (reply_writes xid .notSync (serialize_writes_total _))
            apply Handles.applyAttributes
            intro answer stat wcc
            apply hmismatch id attributes answer stat wcc c hguard
            rintro rfl
            simp at hdiffers
          next hsame =>
            apply Handles.applyAttributes
            intro answer stat wcc
            apply happly id attributes answer stat wcc
            intro c' hmem
            cases hguard.symm.trans hmem
            rw [not_or, not_not, not_not] at hsame
            exact congrArg₂ Nfstime3.mk hsame.1 hsame.2

end Rules

/-! ## The guard -/

/-- The attributes that were set in a dialogue, and of which objects. -/
def setattrCalls (dialogue : Dialogue) : List (Fileid3 × Sattr3) :=
  dialogue.filterMap fun
    | ⟨.setattr id newAttribute, _⟩ => some (id, newAttribute)
    | _ => none

/-- All that a client receives is one failure with the status. -/
def OnlyFails (xid : UInt32) (status : Nfs3.NfsStatus) (outcome : Outcome) : Prop :=
  ∃ streams wcc, outcome = .ok ((), streams) ∧
    readReply (NfsResult.parser 2) xid streams.output = some (.setAttr (.err status wcc))

/-- What a guard is for: on another change time nothing is set and the client is told, otherwise the
attributes are set, once. -/
def HonoursGuard (xid : UInt32) (args : SETATTR3args) (id : Fileid3) (ctime : Nfstime3) (dialogue : Dialogue)
    (outcome : Outcome) : Prop :=
  (∀ c ∈ args.guard, c ≠ ctime → setattrCalls dialogue = [] ∧ OnlyFails xid .notSynchronized outcome) ∧
    ((∀ c ∈ args.guard, c = ctime) → setattrCalls dialogue = [(id, args.newAttribute)])

/-- A `SETATTR` in a state of the file system: what is said, and how it ends. -/
def setattrIn (state : FileSystemState) (xid : UInt32) (input : Bytes) : Dialogue × Outcome :=
  ((nfsproc3Setattr xid).run ⟨input, []⟩).converse state

/-- A client is told one thing only. -/
theorem OnlyFails.unique {xid : UInt32} {status status' : Nfs3.NfsStatus} {outcome : Outcome}
    (h : OnlyFails xid status outcome) (h' : OnlyFails xid status' outcome) : status = status' := by
  obtain ⟨streams, wcc, rfl, hread⟩ := h
  obtain ⟨streams', wcc', houtcome, hread'⟩ := h'
  cases houtcome
  rw [hread] at hread'
  cases hread'
  rfl

/-- How `SETATTR` treats the guard: it is honoured just when the file system can be written and the guard is
absent or the object's change time; a read-only one refuses. -/
def TreatsGuard (state : FileSystemState) (xid : UInt32) (args : SETATTR3args) (id : Fileid3) (ctime : Nfstime3)
    (dialogue : Dialogue) (outcome : Outcome) : Prop :=
  (HonoursGuard xid args id ctime dialogue outcome ↔
    state .capabilities = .readWrite ∧ ∀ c ∈ args.guard, c = ctime) ∧
  (state .capabilities = .readOnly → setattrCalls dialogue = [] ∧ OnlyFails xid .readOnly outcome)

/-- The handler in a file system whose state is fixed. -/
theorem setattr_treatsGuard {xid : UInt32} {args : SETATTR3args} (hfits : Fits (2 ^ 32) args) (rest : Bytes)
    {state : FileSystemState} {id : Fileid3} {attributes : Fattr3} (hid : state (.fhToId args.object) = .ok id)
    (hattributes : state (.getattr id) = .ok attributes) :
    Handles (fun dialogue outcome => (∀ exchange ∈ dialogue, exchange.2 = state exchange.1) →
      TreatsGuard state xid args id attributes.ctime dialogue outcome) [] (nfsproc3Setattr xid)
      ⟨spell args ++ rest, []⟩ := by
  apply Handles.setattr hfits rest
  · intro input hanswers
    have hcapabilities := hanswers _ List.mem_cons_self
    have hrefused : OnlyFails xid .readOnly (.ok ((), ⟨input, resultBytes xid .rofs (spell ({} : WccData))⟩)) :=
      ⟨_, WccData.received {}, rfl, readReply_of_parses_spell
        (Parses.map (union_parses_err (by decide) ((wcc_parses_spell {}).map _)) _)⟩
    refine ⟨iff_of_false (fun hhonours => ?_) fun hwritable => ?_, fun _ => ⟨rfl, hrefused⟩⟩
    · -- nothing is set, and the client is told another thing than that the guard differs
      by_cases hguard : ∀ c ∈ args.guard, c = attributes.ctime
      · cases hhonours.2 hguard
      · simp only [not_forall] at hguard
        obtain ⟨c, hmem, hdiffers⟩ := hguard
        cases hrefused.unique (hhonours.1 c hmem hdiffers).2
    · cases hcapabilities.trans hwritable.1
  · intro stat hanswers
    simp only [List.forall_mem_cons] at hanswers
    cases hanswers.2.1.trans hid
  · intro id' stat hanswers
    simp only [List.forall_mem_cons] at hanswers
    obtain ⟨_, hhandle, hgetattr, _⟩ := hanswers
    cases hhandle.trans hid
    cases hgetattr.trans hattributes
  · intro id' attributes' answer stat wcc hguard hanswers
    simp only [List.forall_mem_cons] at hanswers
    obtain ⟨hcapabilities, hhandle, hgetattr, _⟩ := hanswers
    cases hhandle.trans hid
    cases hgetattr.trans hattributes
    refine ⟨iff_of_true ⟨?_, fun _ => rfl⟩ ⟨hcapabilities.symm, hguard⟩, fun hreadOnly => ?_⟩
    · exact fun c hmem hdiffers => absurd (hguard c hmem) hdiffers
    · cases hcapabilities.trans hreadOnly
  · intro id' attributes' answer stat wcc c hguard hdiffers hanswers
    simp only [List.forall_mem_cons] at hanswers
    obtain ⟨hcapabilities, hhandle, hgetattr, _⟩ := hanswers
    cases hhandle.trans hid
    cases hgetattr.trans hattributes
    refine ⟨iff_of_false ?_ fun hsame => hdiffers (hsame.2 c hguard), fun hreadOnly => ?_⟩
    · intro hhonours
      exact List.cons_ne_nil _ _ (hhonours.1 c hguard hdiffers).1
    · cases hcapabilities.trans hreadOnly

/-- Whatever the state of the file system, for every object that resolves and has attributes, all new
attributes and every guard: the guard is honoured if and only if the file system can be written and the guard
is absent or the object's change time. On a read-only file system nothing is set, and the one reply says that
it is read-only. -/
theorem setattr_honours_guard_iff {xid : UInt32} {args : SETATTR3args} (hfits : Fits (2 ^ 32) args) (rest : Bytes)
    {state : FileSystemState} {id : Fileid3} {attributes : Fattr3} (hid : state (.fhToId args.object) = .ok id)
    (hattributes : state (.getattr id) = .ok attributes) {dialogue : Dialogue} {outcome : Outcome}
    (hrun : setattrIn state xid (spell args ++ rest) = (dialogue, outcome)) :
    (HonoursGuard xid args id attributes.ctime dialogue outcome ↔
      state .capabilities = .readWrite ∧ ∀ c ∈ args.guard, c = attributes.ctime) ∧
    (state .capabilities = .readOnly → setattrCalls dialogue = [] ∧ OnlyFails xid .readOnly outcome) := by
  obtain ⟨rfl, rfl⟩ := Prod.mk.inj hrun
  exact (setattr_treatsGuard hfits rest hid hattributes).converse

/-- A file system with one file, whose attributes can be read and set. -/
def oneFile (attributes : Fattr3) : FileSystemState
  | .capabilities => .readWrite
  | .fhToId _ => .ok 1
  | .idToFh _ => ⟨[1]⟩
  | .getattr _ | .setattr _ _ => .ok attributes
  | .serverid => zeroVerifier
  | .lookup _ _ | .read _ _ _ | .write _ _ _ | .create _ _ _ | .createExclusive _ _ | .mkdir _ _ | .remove _ _
  | .rename _ _ _ _ | .readdir _ _ _ | .readdirSimple _ _ | .symlink _ _ _ _ | .readlink _ | .fsinfo _ =>
    .error .notsupp

/-- A regular file that was changed at the given time. -/
def fileChangedAt (ctime : Nfstime3) : Fattr3 where
  ftype := .reg
  mode := 0o644
  nlink := 1
  uid := 0
  gid := 0
  size := 0
  used := 0
  rdev := ⟨0, 0⟩
  fsid := 0
  fileid := 1
  atime := ⟨0, 0⟩
  mtime := ⟨0, 0⟩
  ctime := ctime

/-- Truncating a file, if it was not changed since. -/
def truncateUnchangedSince (ctime : Nfstime3) : SETATTR3args where
  object := ⟨[1]⟩
  newAttribute := { size := some 0 }
  guard := some ctime

/-- A file that was not changed since is truncated. -/
theorem setattr_honours_guard_same :
    HonoursGuard 7 (truncateUnchangedSince ⟨5, 0⟩) 1 ⟨5, 0⟩
      (setattrIn (oneFile (fileChangedAt ⟨5, 0⟩)) 7 (spell (truncateUnchangedSince ⟨5, 0⟩) ++ [])).1
      (setattrIn (oneFile (fileChangedAt ⟨5, 0⟩)) 7 (spell (truncateUnchangedSince ⟨5, 0⟩) ++ [])).2 := by
  have hfits : Fits (2 ^ 32) (truncateUnchangedSince ⟨5, 0⟩) := ⟨show 1 < 2 ^ 32 by decide, trivial, trivial, trivial⟩
  have hguard := @setattr_honours_guard_iff 7 _ hfits [] (oneFile (fileChangedAt ⟨5, 0⟩)) 1 _ rfl rfl _ _ rfl
  refine hguard.1.mpr ⟨rfl, fun c hmem => ?_⟩
  cases hmem
  rfl

/-- The file is truncated although it was changed since. -/
theorem setattr_despite_guard :
    setattrCalls (setattrIn (oneFile (fileChangedAt ⟨6, 0⟩)) 7 (spell (truncateUnchangedSince ⟨5, 0⟩))).1 =
        [(1, { size := some 0 })] ∧
      ¬ HonoursGuard 7 (truncateUnchangedSince ⟨5, 0⟩) 1 ⟨6, 0⟩
        (setattrIn (oneFile (fileChangedAt ⟨6, 0⟩)) 7 (spell (truncateUnchangedSince ⟨5, 0⟩))).1
        (setattrIn (oneFile (fileChangedAt ⟨6, 0⟩)) 7 (spell (truncateUnchangedSince ⟨5, 0⟩))).2 := by
  have hcalls : setattrCalls (setattrIn (oneFile (fileChangedAt ⟨6, 0⟩)) 7
      (spell (truncateUnchangedSince ⟨5, 0⟩))).1 = [(1, { size := some 0 })] := by rfl
  refine ⟨hcalls, fun hhonours => ?_⟩
  have hnone := (hhonours.1 ⟨5, 0⟩ rfl (by decide)).1
  rw [hcalls] at hnone
  cases hnone

end NfsEmbed.Legacy
