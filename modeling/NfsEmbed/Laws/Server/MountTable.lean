import NfsEmbed.Laws.Server.Isolation
import NfsEmbed.Server.MountTable

/-!
# The mount table over whole runs

A request locks the table at most once, for `MNT` after its path turned out to be a directory. Under
the lock it only adds or removes entries of its own client (`LockSection`), so everything about the
table follows from what one such section does to it. A pair is in the table if the last section that
did something to it was a successful `MNT`.

The law is `mount_table_over_runs`.
-/

namespace NfsEmbed.Server

open Lib Rpc Vfs Mount3

variable {state : ConnectionState} {xid : UInt32} {context : RequestContext}

variable {entry : ExportState} {history : Dialogue} {op : ServerOp} {q : ServerM EncodedReply} {path : Bytes}
  {next : op.Answer → ServerM EncodedReply} {update : MountTable → MountTable} {mounts : MountTable}
  {request : MountRequest} {index : Nat}

/-! ## Replies -/

/-- The reply of MOUNT with this status. -/
def HasMountStatus (xid : UInt32) (status : MountStatus) (reply : EncodedReply) : Prop :=
  ∃ rest, reply.intoBytes = acceptedReply xid SUCCESS (status.code.toBeBytes ++ rest)

theorem mountReply_err (status : MountStatus) :
    ∃ reply, HasMountStatus xid status reply ∧ mountReply state xid (MountResult.err status) = .done reply := by
  have hreply : typedMountReply xid (MountResult.err status) = .ok (acceptedReply xid SUCCESS status.code.toBeBytes) :=
    (typedReply_ok_iff (Encoder.writeU32_writes _)).mpr ⟨trivial, rfl⟩
  refine ⟨state.reply (acceptedReply xid SUCCESS status.code.toBeBytes), ⟨[], ?_⟩, ?_⟩
  · rw [intoBytes_reply, List.append_nil]
  · rw [mountReply, hreply]
    rfl

theorem writeAuthFlavors_writes_of_lt {authFlavors : List UInt32} (h : authFlavors.length < 2 ^ 32) :
    Writes (do
      if authFlavors.length ≥ 2 ^ 32 then throw (.tooLarge authFlavors.length)
      Encoder.writeU32 (UInt32.ofNat authFlavors.length)
      authFlavors.forM Encoder.writeU32 : EncodeM Unit) True
      ((UInt32.ofNat authFlavors.length).toBeBytes ++ authFlavors.flatMap UInt32.toBeBytes) := by
  simp only [if_neg (Nat.not_le.mpr h)]
  exact ((Encoder.writeU32_writes _).seq (Writes.forM Encoder.writeU32_writes _)).congr (by simp) fun _ => rfl

theorem length_authFlavors_lt (policy : AuthPolicy) : (authFlavors policy).length < 2 ^ 32 := by
  cases policy <;> decide

theorem mountReply_ok (entry : ExportState) (root : ObjectKey) : ∃ reply, HasMountStatus xid .ok reply ∧
    mountReply state xid (MountResult.ok (state.handles.encode entry.id root) (authFlavors state.authPolicy)) =
      .done reply := by
  have hhandle : (state.handles.encode entry.id root).length < 2 ^ 32 := by
    rw [state.handles.length_encode]
    decide
  have hwrites := (Encoder.writeU32_writes 0).seq ((Encoder.writeOpaque_writes (state.handles.encode entry.id root)).seq
    (writeAuthFlavors_writes_of_lt (length_authFlavors_lt state.authPolicy)))
  have hreply : typedMountReply xid
      (MountResult.ok (state.handles.encode entry.id root) (authFlavors state.authPolicy)) = .ok _ :=
    (typedReply_ok_iff hwrites).mpr ⟨⟨trivial, hhandle, trivial⟩, rfl⟩
  refine ⟨_, ?_, by rw [mountReply, hreply]; rfl⟩
  exact ⟨_, intoBytes_reply _ _⟩

theorem HasMountStatus.unique {status status' : MountStatus} {reply : EncodedReply}
    (h : HasMountStatus xid status reply) (h' : HasMountStatus xid status' reply) : status.code = status'.code := by
  obtain ⟨rest, h⟩ := h
  obtain ⟨rest', h'⟩ := h'
  have hbody := List.append_cancel_left (h.symm.trans h')
  exact UInt32.toBeBytes_injective (List.append_inj hbody (by simp)).1

theorem mountStatus_code_ne (error : NfsError) : (mountStatus error).code ≠ MountStatus.ok.code := by
  cases error <;> decide

/-! ## The dialogue of a request -/

/-- The operation is a call of a backend. -/
def IsVfs (op : ServerOp) : Prop := ∃ entry context method, op = .vfs entry context method

theorem not_isVfs_mounts (update : MountTable → MountTable) : ¬ IsVfs (.mounts update) := by
  rintro ⟨_, _, _, h⟩
  cases h

theorem callVfs_asks {method : VfsMethod} (h : (callVfs context entry method).Asks history op) : IsVfs op := by
  cases h with
  | now => exact ⟨_, _, _, rfl⟩
  | later hrest => cases hrest

theorem walk_asks {object : ObjectKey} {components : List Bytes}
    (h : (walk context entry object components).Asks history op) : IsVfs op := by
  induction components generalizing object history with
  | nil => cases h
  | cons _ _ ih =>
    unfold walk at h
    split at h
    next => cases h
    next name _ =>
      rcases h.of_bind with h | ⟨_, _, answer, -, -, h⟩
      · exact callVfs_asks h
      · cases answer with
        | error => cases h
        | ok => exact ih h

theorem resolveMountObject_asks {requested : Bytes} (h : (resolveMountObject context entry requested).Asks history op) :
    IsVfs op := by
  unfold resolveMountObject at h
  split at h
  next => cases h
  next =>
    rcases h.of_bind with h | ⟨_, _, _, -, -, h⟩
    · exact callVfs_asks h
    · exact walk_asks h

/-- The dialogue in which the path turns out to be a directory: the walk to its object and the object's
attributes. -/
def FindsDirectory (state : ConnectionState) (context : RequestContext) (path : Bytes) (dialogue : Dialogue)
    (entry : ExportState) (root : ObjectKey) : Prop :=
  selectExport state path = some entry ∧ ∃ walked attributes,
    (resolveMountObject { context with exportId := entry.id } entry path).Ends walked (.ok (.ok root)) ∧
    attributes.fileType = .directory ∧
    dialogue = walked ++ [⟨.vfs entry { context with exportId := entry.id } (.getattr root), .ok attributes⟩]

theorem isVfs_of_after {requested : Bytes} {q : ServerM (Except NfsError ObjectKey)}
    (h : (resolveMountObject context entry requested).After history q) : ∀ exchange ∈ history, IsVfs exchange.1 := by
  intro exchange hmem
  obtain ⟨_, hasks⟩ := h.asked hmem
  exact resolveMountObject_asks hasks

theorem FindsDirectory.isVfs {dialogue : Dialogue} {root : ObjectKey}
    (h : FindsDirectory state context path dialogue entry root) : ∀ exchange ∈ dialogue, IsVfs exchange.1 := by
  obtain ⟨-, walked, attributes, hends, -, rfl⟩ := h
  intro exchange hmem
  rcases List.mem_append.mp hmem with hmem | hmem
  · exact isVfs_of_after hends.after exchange hmem
  · cases List.mem_singleton.mp hmem
    exact ⟨_, _, _, rfl⟩

/-- What `MNT` does when it has the lock and found this table. -/
def mntLocked (state : ConnectionState) (xid : UInt32) (context : RequestContext) (path : Bytes)
    (entry : ExportState) (root : ObjectKey) (mounts : MountTable) : ServerM EncodedReply :=
  if ¬ alreadyMounted context path mounts ∧ mounts.length ≥ state.limits.maxMounts then
    mountReply state xid (MountResult.err .io)
  else
    mountReply state xid (MountResult.ok (state.handles.encode entry.id root) (authFlavors state.authPolicy))

/-- `MNT` after it decoded its path. -/
def mntPath (state : ConnectionState) (xid : UInt32) (context : RequestContext) (path : Bytes) :
    ServerM EncodedReply :=
  match selectExport state path with
  | none => mountReply state xid (MountResult.err .notFound)
  | some entry => do
    match ← resolveMountObject { context with exportId := entry.id } entry path with
    | .error error => mountReply state xid (MountResult.err (mountStatus error))
    | .ok root =>
      match ← callVfs { context with exportId := entry.id } entry (.getattr root) with
      | .error error => mountReply state xid (MountResult.err (mountStatus error))
      | .ok attributes =>
        if attributes.fileType ≠ .directory then mountReply state xid (MountResult.err .notDirectory)
        else lockMounts (recordMount state context path) >>= mntLocked state xid context path entry root

theorem mnt_eq (args : Bytes) :
    mnt state xid context args = decoded (decodeMountPath args) >>= mntPath state xid context := rfl

/-! ### How far a request has come -/

theorem callVfs_after {method : VfsMethod} {next : method.Answer → ServerM EncodedReply}
    (h : (callVfs context entry method >>= next).After history q) :
    (history = [] ∧ ∃ op rest, IsVfs op ∧ q = Prog.ask (S := serverSignature) op rest) ∨
      ∃ answer rest, history = ⟨.vfs entry context method, answer⟩ :: rest ∧ (next answer).After rest q := by
  cases h with
  | start => exact .inl ⟨rfl, _, _, ⟨_, _, _, rfl⟩, rfl⟩
  | later hrest => exact .inr ⟨_, _, rfl, hrest⟩

theorem lockMounts_after {next : MountTable → ServerM EncodedReply} (h : (lockMounts update >>= next).After history q) :
    (history = [] ∧ q = lockMounts update >>= next) ∨
      ∃ before rest, history = ⟨.mounts update, before⟩ :: rest ∧ (next before).After rest q := by
  cases h with
  | start => exact .inl ⟨rfl, rfl⟩
  | later hrest => exact .inr ⟨_, _, rfl, hrest⟩

theorem done_after {reply : EncodedReply} (h : (Prog.done reply : ServerM EncodedReply).After history q) :
    history = [] ∧ q = .done reply := by
  cases h
  exact ⟨rfl, rfl⟩

/-- `MNT` of a path waits for its backend, has refused the path, found it to be a directory and waits
for the lock, or had the lock and found this table. -/
inductive MntPosition (state : ConnectionState) (xid : UInt32) (context : RequestContext) (path : Bytes) :
    Dialogue → ServerM EncodedReply → Prop
  | resolving {history : Dialogue} {op : ServerOp} {next : op.Answer → ServerM EncodedReply} :
    (∀ exchange ∈ history, IsVfs exchange.1) → IsVfs op →
    MntPosition state xid context path history (Prog.ask (S := serverSignature) op next)
  | failed {history : Dialogue} {error : ServerError} :
    (∀ exchange ∈ history, IsVfs exchange.1) → MntPosition state xid context path history (.fail error)
  | refused {history : Dialogue} {status : MountStatus} {reply : EncodedReply} :
    (∀ exchange ∈ history, IsVfs exchange.1) → HasMountStatus xid status reply →
    status.code ≠ MountStatus.ok.code → MntPosition state xid context path history (.done reply)
  | locking {history : Dialogue} {entry : ExportState} {root : ObjectKey} :
    FindsDirectory state context path history entry root →
    MntPosition state xid context path history
      (lockMounts (recordMount state context path) >>= mntLocked state xid context path entry root)
  | locked {dialogue : Dialogue} {entry : ExportState} {root : ObjectKey} {before : MountTable} :
    FindsDirectory state context path dialogue entry root →
    MntPosition state xid context path (dialogue ++ [⟨.mounts (recordMount state context path), before⟩])
      (mntLocked state xid context path entry root before)

theorem MntPosition.err {dialogue : Dialogue} {status : MountStatus} (hvfs : ∀ exchange ∈ dialogue, IsVfs exchange.1)
    (hstatus : status.code ≠ MountStatus.ok.code)
    (h : (mountReply state xid (MountResult.err status)).After history q) :
    MntPosition state xid context path (dialogue ++ history) q := by
  obtain ⟨reply, hreply, heq⟩ := @mountReply_err state xid status
  rw [heq] at h
  obtain ⟨rfl, rfl⟩ := done_after h
  rw [List.append_nil]
  exact .refused hvfs hreply hstatus

/-- An entry is compared as a whole. -/
theorem alreadyMounted_iff : alreadyMounted context path mounts = true ↔ (context.clientAddr.ip, path) ∈ mounts := by
  unfold alreadyMounted
  rw [List.any_eq_true]
  constructor
  · rintro ⟨mount, hmem, hmount⟩
    obtain ⟨hip, hpath⟩ := of_decide_eq_true hmount
    rwa [← hip, ← hpath]
  · intro hmem
    exact ⟨_, hmem, decide_eq_true ⟨rfl, rfl⟩⟩

theorem mem_recordMount : (context.clientAddr.ip, path) ∈ recordMount state context path mounts ↔
      ¬ (¬ alreadyMounted context path mounts ∧ mounts.length ≥ state.limits.maxMounts) := by
  unfold recordMount
  by_cases halready : alreadyMounted context path mounts = true
  · rw [if_pos (.inl halready)]
    exact iff_of_true (alreadyMounted_iff.mp halready) fun hfull => hfull.1 halready
  · by_cases hfull : mounts.length ≥ state.limits.maxMounts
    · rw [if_pos (.inr hfull)]
      exact iff_of_false (fun hmem => halready (alreadyMounted_iff.mpr hmem)) fun h => h ⟨halready, hfull⟩
    · rw [if_neg (not_or.mpr ⟨halready, hfull⟩)]
      exact iff_of_true (by simp) fun h => hfull h.2

theorem recordMount_of_not_mem (h : (context.clientAddr.ip, path) ∉ recordMount state context path mounts) :
    recordMount state context path mounts = mounts := by
  unfold recordMount at h ⊢
  split
  next => rfl
  next hnew =>
    rw [if_neg hnew] at h
    exact absurd (List.mem_append_right _ (List.mem_singleton_self _)) h

/-- An entry that is there is not added again. -/
theorem recordMount_of_mem (h : (context.clientAddr.ip, path) ∈ mounts) :
    recordMount state context path mounts = mounts := by
  unfold recordMount
  rw [if_pos (.inl (alreadyMounted_iff.mpr h))]

/-- The status is a success exactly if the entry is then in the table. -/
theorem mntLocked_eq (path : Bytes) (entry : ExportState) (root : ObjectKey) (mounts : MountTable) :
    ∃ status reply, mntLocked state xid context path entry root mounts = .done reply ∧
      HasMountStatus xid status reply ∧
      (status.code = MountStatus.ok.code ↔ (context.clientAddr.ip, path) ∈ recordMount state context path mounts) := by
  unfold mntLocked
  rw [mem_recordMount]
  split
  next hfull =>
    obtain ⟨reply, hreply, heq⟩ := @mountReply_err state xid .io
    exact ⟨.io, reply, heq, hreply, by simp [hfull, MountStatus.code]⟩
  next hroom =>
    obtain ⟨reply, hreply, heq⟩ := @mountReply_ok state xid entry root
    exact ⟨.ok, reply, heq, hreply, iff_of_true rfl hroom⟩

/-- `MNT` is always at one of its positions. -/
theorem mntPath_position (h : (mntPath state xid context path).After history q) :
    MntPosition state xid context path history q := by
  unfold mntPath at h
  split at h
  next =>
    rw [← List.nil_append history]
    exact .err (by simp) (by decide) h
  next entry hselect =>
    rcases h.of_bind with ⟨op, next, hafter, rfl⟩ | ⟨error, hends, rfl⟩ | ⟨walked, rest, found, rfl, hends, hrest⟩
    · exact .resolving (isVfs_of_after hafter) (resolveMountObject_asks hafter.asks)
    · exact .failed (isVfs_of_after hends.after)
    · have hwalked := isVfs_of_after hends.after
      cases found with
      | error error => exact .err hwalked (mountStatus_code_ne error) hrest
      | ok root =>
        rcases callVfs_after hrest with ⟨rfl, op, next, hop, rfl⟩ | ⟨answer, rest', rfl, hrest'⟩
        · rw [List.append_nil]
          exact .resolving hwalked hop
        · have hvfs : ∀ exchange ∈ walked ++
              [(⟨.vfs entry { context with exportId := entry.id } (.getattr root), answer⟩ : Exchange serverSignature)],
              IsVfs exchange.1 := by
            intro exchange hmem
            rcases List.mem_append.mp hmem with hmem | hmem
            · exact hwalked exchange hmem
            · cases List.mem_singleton.mp hmem
              exact ⟨_, _, _, rfl⟩
          rw [List.append_cons]
          cases answer with
          | error error => exact .err hvfs (mountStatus_code_ne error) hrest'
          | ok attributes =>
            dsimp only at hrest'
            split at hrest'
            next => exact .err hvfs (by decide) hrest'
            next hdirectory =>
              have hfinds : FindsDirectory state context path _ entry root :=
                ⟨hselect, walked, attributes, hends, not_not.mp hdirectory, rfl⟩
              rcases lockMounts_after hrest' with ⟨rfl, rfl⟩ | ⟨before, rest'', rfl, hlocked⟩
              · rw [List.append_nil]
                exact .locking hfinds
              · obtain ⟨status, reply, heq, -⟩ := @mntLocked_eq state xid context path entry root before
                rw [heq] at hlocked
                obtain ⟨rfl, rfl⟩ := done_after hlocked
                rw [← heq]
                exact .locked hfinds

theorem mnt_position {args : Bytes} (h : (mnt state xid context args).After history q) :
    (∃ error, history = [] ∧ q = .fail error) ∨
      ∃ path, decodeMountPath args = .ok path ∧ MntPosition state xid context path history q := by
  rw [mnt_eq] at h
  cases hpath : decodeMountPath args with
  | error =>
    rw [hpath] at h
    cases h
    exact .inl ⟨_, rfl, rfl⟩
  | ok path =>
    rw [hpath] at h
    exact .inr ⟨path, rfl, mntPath_position h⟩

/-! ## Lock sections -/

/-- What a request does to the table under the lock. -/
inductive LockSection (state : ConnectionState) (context : RequestContext) (args : Bytes) :
    UInt32 → (MountTable → MountTable) → Prop
  | mnt (path : Bytes) : decodeMountPath args = .ok path →
    LockSection state context args 1 (recordMount state context path)
  | dump : LockSection state context args 2 id
  | umnt (path : Bytes) : decodeMountPath args = .ok path →
    LockSection state context args 3
      fun mounts => mounts.filter fun mount => mount.1 ≠ context.clientAddr.ip ∨ mount.2 ≠ path
  | umntAll : LockSection state context args 4 fun mounts => mounts.filter fun mount => mount.1 ≠ context.clientAddr.ip

theorem encoded_after {bytes : Except EncodeError Bytes}
    (h : (encoded state bytes).After history (Prog.ask (S := serverSignature) op next)) : False := by
  cases bytes <;> cases h

/-- Whatever a MOUNT request does to the table, it is the section of its procedure. -/
theorem lockSection_of_after {procedure : UInt32} {args : Bytes} {next : MountTable → ServerM EncodedReply}
    (h : (dispatchMount state xid context procedure args).After history
      (Prog.ask (S := serverSignature) (.mounts update) next)) : LockSection state context args procedure update := by
  unfold dispatchMount at h
  split at h
  next => cases h
  next =>
    split at h
    case h_1 => cases h
    case h_2 =>
      rcases mnt_position h with ⟨error, -, hq⟩ | ⟨path, hpath, hposition⟩
      · cases hq
      · generalize hq : Prog.ask (S := serverSignature) (.mounts update) next = q at hposition
        cases hposition with
        | resolving _ hop =>
          cases hq
          exact absurd hop (not_isVfs_mounts update)
        | failed | refused => cases hq
        | locking =>
          cases hq
          exact .mnt path hpath
        | @locked _ entry root before =>
          obtain ⟨status, reply, heq, -⟩ := @mntLocked_eq state xid context path entry root before
          rw [heq] at hq
          cases hq
    case h_3 =>
      rcases lockMounts_after h with ⟨-, hq⟩ | ⟨before, rest, -, hrest⟩
      · cases hq
        exact .dump
      · split at hrest
        · cases hrest
        · exact (encoded_after hrest).elim
    case h_4 =>
      unfold umnt at h
      cases hpath : decodeMountPath args with
      | error =>
        rw [hpath] at h
        cases h
      | ok path =>
        rw [hpath] at h
        rcases lockMounts_after h with ⟨-, hq⟩ | ⟨before, rest, -, hrest⟩
        · cases hq
          exact .umnt path hpath
        · cases hrest
    case h_5 =>
      rcases lockMounts_after h with ⟨-, hq⟩ | ⟨before, rest, -, hrest⟩
      · cases hq
        exact .umntAll
      · cases hrest
    case h_6 =>
      unfold exportList at h
      split at h
      · cases h
      · exact (encoded_after h).elim
    case h_7 => cases h

namespace LockSection

variable {args : Bytes} {procedure : UInt32} {update : MountTable → MountTable} {mounts : MountTable}

theorem nodup (h : LockSection state context args procedure update) (hmounts : mounts.Nodup) :
    (update mounts).Nodup := by
  cases h with
  | mnt path =>
    unfold recordMount
    split
    next => exact hmounts
    next hnew =>
      have hnotin : (context.clientAddr.ip, path) ∉ mounts := fun hmem => hnew (.inl (alreadyMounted_iff.mpr hmem))
      exact List.nodup_append.mpr ⟨hmounts, List.nodup_singleton _, fun mount hmem other hother heq => by
        rw [List.mem_singleton.mp hother] at heq
        exact hnotin (heq ▸ hmem)⟩
  | dump => exact hmounts
  | umnt | umntAll => exact hmounts.filter _

theorem length_le (h : LockSection state context args procedure update)
    (hmounts : mounts.length ≤ state.limits.maxMounts) : (update mounts).length ≤ state.limits.maxMounts := by
  cases h with
  | mnt =>
    unfold recordMount
    split
    next => exact hmounts
    next hroom =>
      have hlt : mounts.length < state.limits.maxMounts := Nat.lt_of_not_le fun hfull => hroom (.inr hfull)
      rw [List.length_append]
      exact hlt
  | dump => exact hmounts
  | umnt | umntAll => exact Nat.le_trans (List.length_filter_le _ _) hmounts

/-- `MNT` leaves all other pairs alone. -/
theorem mem_recordMount_of_ne {pair : IpAddr × Bytes} (hne : pair ≠ (context.clientAddr.ip, path)) :
    pair ∈ recordMount state context path mounts ↔ pair ∈ mounts := by
  unfold recordMount
  split
  next => exact Iff.rfl
  next => simp [hne]

/-- No section changes the entries of another client. -/
theorem mem_of_other (h : LockSection state context args procedure update) {pair : IpAddr × Bytes}
    (hother : pair.1 ≠ context.clientAddr.ip) : pair ∈ update mounts ↔ pair ∈ mounts := by
  cases h with
  | mnt => exact mem_recordMount_of_ne fun heq => hother (congrArg Prod.fst heq)
  | dump => exact Iff.rfl
  | umnt | umntAll => simp [hother]

end LockSection

/-! ## Requests -/

namespace MountRequest

/-- The request is where its program is after its dialogue. -/
def Valid (state : ConnectionState) (request : MountRequest) : Prop :=
  (dispatchMount state request.xid request.context request.procedure request.args).After request.thread.history
    request.thread.program

/-- The request was answered with `MNT3_OK`. -/
def AnswersOk (request : MountRequest) : Prop :=
  ∃ reply, request.thread.program = .done reply ∧ HasMountStatus request.xid .ok reply

/-- Resolving the path of an `MNT` has led to a directory. -/
def FoundDirectory (state : ConnectionState) (request : MountRequest) : Prop :=
  ∃ path dialogue rest entry root, decodeMountPath request.args = .ok path ∧
    FindsDirectory state request.context path dialogue entry root ∧ request.thread.history = dialogue ++ rest

/-- The request is an `MNT` of the pair. -/
def Mounts (request : MountRequest) (pair : IpAddr × Bytes) : Prop :=
  request.procedure = 1 ∧ request.context.clientAddr.ip = pair.1 ∧ decodeMountPath request.args = .ok pair.2

/-- The request is an `UMNT` of the pair or an `UMNTALL` of its client. -/
def Unmounts (request : MountRequest) (pair : IpAddr × Bytes) : Prop :=
  request.context.clientAddr.ip = pair.1 ∧
    (request.procedure = 3 ∧ decodeMountPath request.args = .ok pair.2 ∨ request.procedure = 4)

end MountRequest

theorem dispatchMount_one (args : Bytes) : dispatchMount state xid context 1 args = mnt state xid context args := rfl

/-- An `MNT` that had the lock is answered, with `MNT3_OK` if its pair is in the table now. -/
theorem answersOk_of_locked (hvalid : request.Valid state) (hprocedure : request.procedure = 1) {before : MountTable}
    (hmem : (⟨.mounts update, before⟩ : Exchange serverSignature) ∈ request.thread.history) :
    ∃ path, decodeMountPath request.args = .ok path ∧ update = recordMount state request.context path ∧
      request.FoundDirectory state ∧
      (request.AnswersOk ↔ (request.context.clientAddr.ip, path) ∈ update before) := by
  unfold MountRequest.Valid at hvalid
  rw [hprocedure, dispatchMount_one] at hvalid
  have hnot : ∀ {dialogue : Dialogue}, (∀ exchange ∈ dialogue, IsVfs exchange.1) →
      (⟨.mounts update, before⟩ : Exchange serverSignature) ∉ dialogue := fun hvfs hmem =>
    not_isVfs_mounts update (hvfs _ hmem)
  rcases mnt_position hvalid with ⟨_, hnil, -⟩ | ⟨path, hpath, hposition⟩
  · rw [hnil] at hmem
    exact absurd hmem List.not_mem_nil
  · generalize hhistory : request.thread.history = history at hposition hmem
    generalize hprogram : request.thread.program = q at hposition
    cases hposition with
    | resolving hvfs | failed hvfs | refused hvfs => exact absurd hmem (hnot hvfs)
    | locking hfinds => exact absurd hmem (hnot hfinds.isVfs)
    | @locked dialogue entry root _ hfinds =>
      rcases List.mem_append.mp hmem with hmem | hmem
      · exact absurd hmem (hnot hfinds.isVfs)
      · cases List.mem_singleton.mp hmem
        obtain ⟨status, reply, heq, hstatus, hiff⟩ :=
          @mntLocked_eq state request.xid request.context path entry root before
        refine ⟨path, hpath, rfl, ⟨path, dialogue, _, entry, root, hpath, hfinds, hhistory⟩, ?_⟩
        rw [← hiff]
        constructor
        · rintro ⟨reply', hdone, hok⟩
          rw [hprogram, heq] at hdone
          cases hdone
          exact hstatus.unique hok
        · intro hcode
          refine ⟨reply, hprogram.trans heq, ?_⟩
          obtain ⟨rest, hbytes⟩ := hstatus
          exact ⟨rest, by rw [hbytes, hcode]⟩

/-- An `MNT` answered with `MNT3_OK` had the lock. -/
theorem locked_of_answersOk (hvalid : request.Valid state) (hprocedure : request.procedure = 1)
    (hok : request.AnswersOk) : ∃ path before, decodeMountPath request.args = .ok path ∧
      (⟨.mounts (recordMount state request.context path), before⟩ : Exchange serverSignature) ∈
        request.thread.history := by
  unfold MountRequest.Valid at hvalid
  rw [hprocedure, dispatchMount_one] at hvalid
  obtain ⟨reply, hdone, hok⟩ := hok
  rw [hdone] at hvalid
  rcases mnt_position hvalid with ⟨_, -, hq⟩ | ⟨path, hpath, hposition⟩
  · cases hq
  · generalize hhistory : request.thread.history = history at hposition ⊢
    generalize hprogram : (Prog.done reply : ServerM EncodedReply) = q at hposition
    cases hposition with
    | resolving | failed | locking => cases hprogram
    | refused _ hstatus hne =>
      cases hprogram
      exact absurd (hstatus.unique hok) hne
    | @locked _ _ _ before => exact ⟨path, before, hpath, by simp⟩

/-! ## Steps -/

section Steps

variable {server after : MountServer} {event : MountEvent}

theorem MountRequest.Valid.resume (h : request.Valid state)
    (hprogram : request.thread.program = Prog.ask (S := serverSignature) op next) (answer : op.Answer) :
    (request.resume op next answer).Valid state := by
  unfold MountRequest.Valid at h
  rw [hprogram] at h
  exact h.answer answer

theorem valid_step (hvalid : ∀ request ∈ server.requests, request.Valid state)
    (hstep : MountStep state server event after) : ∀ request ∈ after.requests, request.Valid state := by
  intro request hmem
  cases hstep with
  | arrive =>
    rcases List.mem_append.mp hmem with hmem | hmem
    · exact hvalid request hmem
    · cases List.mem_singleton.mp hmem
      exact Prog.After.start _
  | answer _ old _ _ answer hget hprogram =>
    rcases List.mem_or_eq_of_mem_set hmem with hmem | rfl
    · exact hvalid request hmem
    · exact (hvalid old (List.mem_of_getElem? hget)).resume hprogram answer
  | lock _ old _ _ hget hprogram =>
    rcases List.mem_or_eq_of_mem_set hmem with hmem | rfl
    · exact hvalid request hmem
    · exact (hvalid old (List.mem_of_getElem? hget)).resume hprogram _

/-- Every request of a reachable server is a MOUNT request on its way. -/
theorem valid_of_reachable (h : (mountMachine state).Reachable server) :
    ∀ request ∈ server.requests, request.Valid state := by
  refine Machine.Reachable.invariant (M := mountMachine state)
    (I := fun server => ∀ request ∈ server.requests, request.Valid state) ?_ ?_ h
  · intro start hstart request hmem
    rw [hstart.2] at hmem
    exact absurd hmem List.not_mem_nil
  · intro before event after hbefore hstep
    exact valid_step hbefore hstep

/-- Only lock sections change the table. -/
theorem table_eq_of_not_lock (hstep : MountStep state server event after) (hevent : ∀ index, event ≠ .lock index) :
    after.table = server.table := by
  cases hstep with
  | arrive | answer => rfl
  | lock index => exact absurd rfl (hevent index)

/-- All a lock section does. -/
theorem lock_spec (hvalid : ∀ request ∈ server.requests, request.Valid state)
    (hstep : MountStep state server (.lock index) after) :
    ∃ request update next, server.requests[index]? = some request ∧
      LockSection state request.context request.args request.procedure update ∧
      after.table = update server.table ∧
      after.requests[index]? = some (request.resume (.mounts update) next server.table) ∧
      (request.resume (.mounts update) next server.table).Valid state := by
  cases hstep with
  | lock _ request update next hget hprogram =>
    have hrequest := hvalid request (List.mem_of_getElem? hget)
    have hsection : LockSection state request.context request.args request.procedure update := by
      unfold MountRequest.Valid at hrequest
      rw [hprogram] at hrequest
      exact lockSection_of_after hrequest
    refine ⟨request, update, next, hget, hsection, rfl, ?_, hrequest.resume hprogram _⟩
    exact List.getElem?_set_self (List.getElem?_eq_some_iff.mp hget).1

/-- Dialogues only get longer. -/
theorem history_step (hstep : MountStep state server event after) (hget : server.requests[index]? = some request) :
    ∃ request', after.requests[index]? = some request' ∧
      ∀ exchange ∈ request.thread.history, exchange ∈ request'.thread.history := by
  have hlt : index < server.requests.length := (List.getElem?_eq_some_iff.mp hget).1
  -- a request that is set to a resumed one
  have hset : ∀ {i : Nat} {old : MountRequest} (op : ServerOp) (next : op.Answer → ServerM EncodedReply)
      (answer : op.Answer), server.requests[i]? = some old →
      ∃ request', (server.requests.set i (old.resume op next answer))[index]? = some request' ∧
        ∀ exchange ∈ request.thread.history, exchange ∈ request'.thread.history := by
    intro i old op next answer hold
    by_cases heq : i = index
    · subst heq
      rw [hget] at hold
      cases hold
      exact ⟨_, List.getElem?_set_self hlt, fun exchange hmem => List.mem_append_left _ hmem⟩
    · exact ⟨request, by rw [List.getElem?_set_ne heq, hget], fun _ hmem => hmem⟩
  cases hstep with
  | arrive => exact ⟨request, by rw [List.getElem?_append_left hlt, hget], fun _ hmem => hmem⟩
  | answer _ _ op next answer hold => exact hset op next answer hold
  | lock _ _ update next hold => exact hset (.mounts update) next server.table hold

/-- What a request was told, after one of them was told something more. -/
theorem mem_history_of_set {requests : List MountRequest} {i : Nat} {old : MountRequest} {answer : op.Answer}
    {exchange : Exchange serverSignature} (hold : requests[i]? = some old)
    (hget : (requests.set i (old.resume op next answer))[index]? = some request)
    (hmem : exchange ∈ request.thread.history) :
    (∃ earlier, requests[index]? = some earlier ∧ exchange ∈ earlier.thread.history) ∨
      (i = index ∧ exchange = ⟨op, answer⟩) := by
  by_cases heq : i = index
  · subst heq
    rw [List.getElem?_set_self (List.getElem?_eq_some_iff.mp hold).1] at hget
    cases hget
    rcases List.mem_append.mp hmem with hmem | hmem
    · exact .inl ⟨old, hold, hmem⟩
    · exact .inr ⟨rfl, List.mem_singleton.mp hmem⟩
  · rw [List.getElem?_set_ne heq] at hget
    exact .inl ⟨request, hget, hmem⟩

end Steps

/-! ## Runs -/

/-- The lock sections of the run are the ones the dialogues tell of. -/
structure Linked (trace : List (Edge MountServer MountEvent)) (server : MountServer) : Prop where
  recorded : ∀ edge ∈ trace, ∀ index, edge.event = .lock index → ∃ request update,
    server.requests[index]? = some request ∧
    (⟨.mounts update, edge.source.table⟩ : Exchange serverSignature) ∈ request.thread.history ∧
    edge.target.table = update edge.source.table
  happened : ∀ index request, server.requests[index]? = some request → ∀ update before,
    (⟨.mounts update, before⟩ : Exchange serverSignature) ∈ request.thread.history →
    ∃ edge ∈ trace, edge.event = .lock index ∧ edge.source.table = before ∧ edge.target.table = update before

theorem Linked.step {trace : List (Edge MountServer MountEvent)} {server after : MountServer} {event : MountEvent}
    (h : Linked trace server) (hstep : MountStep state server event after) :
    Linked (trace ++ [⟨server, event, after⟩]) after where
  recorded := by
    intro edge hedge index hevent
    rcases List.mem_append.mp hedge with hedge | hedge
    · obtain ⟨request, update, hget, hmem, htable⟩ := h.recorded edge hedge index hevent
      obtain ⟨request', hget', hhistory⟩ := history_step hstep hget
      exact ⟨request', update, hget', hhistory _ hmem, htable⟩
    · cases List.mem_singleton.mp hedge
      cases hstep with
      | arrive | answer => cases hevent
      | lock _ _ update _ hget =>
        cases hevent
        refine ⟨_, update, List.getElem?_set_self (List.getElem?_eq_some_iff.mp hget).1, ?_, rfl⟩
        exact List.mem_append_right _ (List.mem_singleton_self _)
  happened := by
    intro index request hget update before hmem
    have hold : ∀ {request : MountRequest}, server.requests[index]? = some request →
        (⟨.mounts update, before⟩ : Exchange serverSignature) ∈ request.thread.history →
        ∃ edge ∈ trace ++ [⟨server, event, after⟩], edge.event = .lock index ∧ edge.source.table = before ∧
          edge.target.table = update before := by
      intro request hget hmem
      obtain ⟨edge, hedge, hspec⟩ := h.happened index request hget update before hmem
      exact ⟨edge, List.mem_append_left _ hedge, hspec⟩
    cases hstep with
    | arrive =>
      by_cases hlt : index < server.requests.length
      · rw [List.getElem?_append_left hlt] at hget
        exact hold hget hmem
      · rw [List.getElem?_append_right (Nat.le_of_not_lt hlt)] at hget
        cases List.mem_singleton.mp (List.mem_of_getElem? hget)
        exact absurd hmem List.not_mem_nil
    | answer _ _ _ _ _ hget' _ hop =>
      rcases mem_history_of_set hget' hget hmem with ⟨earlier, hget, hmem⟩ | ⟨-, hnew⟩
      · exact hold hget hmem
      · cases hnew
        exact absurd rfl (hop update)
    | lock _ _ _ _ hget' =>
      rcases mem_history_of_set hget' hget hmem with ⟨earlier, hget, hmem⟩ | ⟨rfl, hnew⟩
      · exact hold hget hmem
      · cases hnew
        exact ⟨_, List.mem_append_right _ (List.mem_singleton_self _), rfl, rfl, rfl⟩

/-- The step is the lock section of an `MNT` of the pair that is answered with `MNT3_OK`. -/
def MountsOk (pair : IpAddr × Bytes) (edge : Edge MountServer MountEvent) : Prop :=
  ∃ index request answered, edge.event = .lock index ∧ edge.source.requests[index]? = some request ∧
    request.Mounts pair ∧ edge.target.requests[index]? = some answered ∧ answered.AnswersOk

/-- The step is the lock section of an `UMNT` of the pair or an `UMNTALL` of its client. -/
def Unmounts (pair : IpAddr × Bytes) (edge : Edge MountServer MountEvent) : Prop :=
  ∃ index request, edge.event = .lock index ∧ edge.source.requests[index]? = some request ∧ request.Unmounts pair

section Effects

variable {server after : MountServer} {event : MountEvent} {pair : IpAddr × Bytes}

/-- What the lock section of an `MNT` does, and its answer. -/
theorem mnt_lock_spec (hvalid : ∀ request ∈ server.requests, request.Valid state)
    (hstep : MountStep state server (.lock index) after) (hget : server.requests[index]? = some request)
    (hmounts : request.Mounts pair) :
    ∃ answered, after.requests[index]? = some answered ∧ (answered.AnswersOk ↔ pair ∈ after.table) ∧
      after.table = recordMount state request.context pair.2 server.table := by
  obtain ⟨request', update, next, hget', -, htable, hanswered, hvalid'⟩ := lock_spec hvalid hstep
  rw [hget] at hget'
  cases hget'
  obtain ⟨hprocedure, hip, hpath⟩ := hmounts
  obtain ⟨path, hpath', hupdate, -, hiff⟩ := answersOk_of_locked hvalid' hprocedure
    (List.mem_append_right _ (List.mem_singleton_self _))
  cases hpath.symm.trans hpath'
  refine ⟨_, hanswered, ?_, by rw [htable, hupdate]; rfl⟩
  rw [hiff, htable]
  show (request.context.clientAddr.ip, pair.2) ∈ _ ↔ _
  rw [hip]

theorem mem_of_mountsOk (hvalid : ∀ request ∈ server.requests, request.Valid state)
    (hstep : MountStep state server event after) (h : MountsOk pair ⟨server, event, after⟩) : pair ∈ after.table := by
  obtain ⟨index, request, answered, hevent, hget, hmounts, hget', hok⟩ := h
  cases hevent
  obtain ⟨answered', hanswered, hiff, -⟩ := mnt_lock_spec hvalid hstep hget hmounts
  rw [hget'] at hanswered
  cases hanswered
  exact hiff.mp hok

theorem not_mem_of_unmounts (hvalid : ∀ request ∈ server.requests, request.Valid state)
    (hstep : MountStep state server event after) (h : Unmounts pair ⟨server, event, after⟩) : pair ∉ after.table := by
  obtain ⟨index, request, hevent, hget, hip, hprocedure⟩ := h
  cases hevent
  obtain ⟨request', update, next, hget', hsection, htable, -, -⟩ := lock_spec hvalid hstep
  rw [hget] at hget'
  cases hget'
  rw [htable]
  rcases hprocedure with ⟨hprocedure, hpath⟩ | hprocedure
  · rw [hprocedure] at hsection
    cases hsection with
    | umnt _ hpath' =>
      rw [hpath] at hpath'
      cases hpath'
      simp [hip]
  · rw [hprocedure] at hsection
    cases hsection
    simp [hip]

theorem mem_iff_of_untouched (hvalid : ∀ request ∈ server.requests, request.Valid state)
    (hstep : MountStep state server event after) (hmounts : ¬ MountsOk pair ⟨server, event, after⟩)
    (hunmounts : ¬ Unmounts pair ⟨server, event, after⟩) : pair ∈ after.table ↔ pair ∈ server.table := by
  by_cases hlock : ∃ index, event = .lock index
  · obtain ⟨index, rfl⟩ := hlock
    obtain ⟨request, update, next, hget, hsection, htable, -, -⟩ := lock_spec hvalid hstep
    by_cases hip : pair.1 = request.context.clientAddr.ip
    · rw [htable]
      generalize hprocedure : request.procedure = procedure at hsection
      cases hsection with
      | mnt path hpath =>
        by_cases hpair : pair.2 = path
        · -- it was refused, so the pair is not there, and was not
          subst hpair
          obtain ⟨answered, hanswered, hiff, htable'⟩ :=
            mnt_lock_spec hvalid hstep hget ⟨hprocedure, hip.symm, hpath⟩
          have hnot : pair ∉ after.table := fun hmem =>
            hmounts ⟨index, request, answered, rfl, hget, ⟨hprocedure, hip.symm, hpath⟩, hanswered, hiff.mpr hmem⟩
          rw [htable] at hnot
          refine iff_of_false hnot fun hmem => hnot ?_
          rw [recordMount_of_mem (by rw [← hip]; exact hmem)]
          exact hmem
        · exact LockSection.mem_recordMount_of_ne fun heq => hpair (congrArg Prod.snd heq)
      | dump => exact Iff.rfl
      | umnt path hpath =>
        have hpair : pair.2 ≠ path := by
          rintro rfl
          exact hunmounts ⟨index, request, rfl, hget, hip.symm, .inl ⟨hprocedure, hpath⟩⟩
        simp [hpair]
      | umntAll => exact absurd ⟨index, request, rfl, hget, hip.symm, .inr hprocedure⟩ hunmounts
    · rw [htable]
      exact hsection.mem_of_other hip
  · rw [table_eq_of_not_lock hstep fun index hindex => hlock ⟨index, hindex⟩]

end Effects

/-- What holds of the table in every reachable state. -/
theorem table_bounded {server : MountServer} (h : (mountMachine state).Reachable server) :
    server.table.Nodup ∧ server.table.length ≤ state.limits.maxMounts := by
  have hall : (∀ request ∈ server.requests, request.Valid state) ∧ server.table.Nodup ∧
      server.table.length ≤ state.limits.maxMounts := by
    refine Machine.Reachable.invariant (M := mountMachine state)
      (I := fun server => (∀ request ∈ server.requests, request.Valid state) ∧ server.table.Nodup ∧
        server.table.length ≤ state.limits.maxMounts) ?_ ?_ h
    · intro start hstart
      rw [hstart.1, hstart.2]
      exact ⟨fun _ hmem => absurd hmem List.not_mem_nil, List.nodup_nil, Nat.zero_le _⟩
    · rintro before event after ⟨hvalid, hnodup, hlength⟩ hstep
      refine ⟨valid_step hvalid hstep, ?_⟩
      by_cases hlock : ∃ index, event = .lock index
      · obtain ⟨index, rfl⟩ := hlock
        obtain ⟨_, update, _, _, hsection, htable, -, -⟩ := lock_spec hvalid hstep
        rw [htable]
        exact ⟨hsection.nodup hnodup, hsection.length_le hlength⟩
      · rw [table_eq_of_not_lock hstep fun index hindex => hlock ⟨index, hindex⟩]
        exact ⟨hnodup, hlength⟩
  exact hall.2

/-- In every run of MOUNT requests: the table has no duplicates and stays within its limit; a pair is in
it exactly if the last lock section that did something to it was a successful `MNT`; an `MNT` is answered
`MNT3_OK` exactly if its path led to a directory and the pair is in the table when it gives the lock back,
and otherwise leaves the table alone; nothing but lock sections changes the table, and these only the
entries of their own client; an `MNT` of a pair that is there succeeds, however full the table is, and
changes nothing. -/
theorem mount_table_over_runs (state : ConnectionState) {start server : MountServer}
    {trace : List (Edge MountServer MountEvent)} (hstart : (mountMachine state).Start start)
    (hrun : (mountMachine state).Run start trace server) :
    (server.table.Nodup ∧ server.table.length ≤ state.limits.maxMounts) ∧
    (∀ pair, pair ∈ server.table ↔ ∃ before edge after, trace = before ++ edge :: after ∧ MountsOk pair edge ∧
      ∀ later ∈ after, ¬ MountsOk pair later ∧ ¬ Unmounts pair later) ∧
    (∀ index request, server.requests[index]? = some request → request.procedure = 1 →
      (request.AnswersOk ↔ request.FoundDirectory state ∧ ∃ path, decodeMountPath request.args = .ok path ∧
        ∃ edge ∈ trace, edge.event = .lock index ∧ (request.context.clientAddr.ip, path) ∈ edge.target.table) ∧
      (¬ request.AnswersOk → ∀ edge ∈ trace, edge.event = .lock index → edge.target.table = edge.source.table)) ∧
    (∀ edge ∈ trace, (∀ index, edge.event ≠ .lock index) → edge.target.table = edge.source.table) ∧
    (∀ edge ∈ trace, ∀ index request, edge.event = .lock index → edge.source.requests[index]? = some request →
      ∀ pair : IpAddr × Bytes, pair.1 ≠ request.context.clientAddr.ip →
        (pair ∈ edge.target.table ↔ pair ∈ edge.source.table)) ∧
    (∀ edge ∈ trace, ∀ index request pair, edge.event = .lock index → edge.source.requests[index]? = some request →
      request.Mounts pair → pair ∈ edge.source.table →
        edge.target.table = edge.source.table ∧
          ∃ answered, edge.target.requests[index]? = some answered ∧ answered.AnswersOk) := by
  have hreach : (mountMachine state).Reachable start := ⟨start, [], hstart, .nil⟩
  have hserver := hreach.run hrun
  have hlinked : Linked trace server := by
    refine hrun.keeps (P := Linked) (fun trace s e t _ h hstep => h.step hstep) hreach ⟨?_, ?_⟩
    · intro edge hedge
      exact absurd hedge List.not_mem_nil
    · intro index request hget
      rw [hstart.2] at hget
      cases hget
  refine ⟨table_bounded hserver, fun pair => ?_, fun index request hget hprocedure => ?_, fun edge hedge => ?_,
    fun edge hedge index request hevent hget pair hpair => ?_,
    fun edge hedge index request pair hevent hget hmounts hmem => ?_⟩
  · refine hrun.last_write (P := fun server => pair ∈ server.table) ?_ ?_ ?_ hreach (by rw [hstart.1]; simp)
    · exact fun s e t hs hstep => mem_of_mountsOk (valid_of_reachable hs) hstep
    · exact fun s e t hs hstep => not_mem_of_unmounts (valid_of_reachable hs) hstep
    · exact fun s e t hs hstep => mem_iff_of_untouched (valid_of_reachable hs) hstep
  · have hvalid := valid_of_reachable hserver request (List.mem_of_getElem? hget)
    constructor
    · constructor
      · intro hok
        obtain ⟨path, before, hpath, hmem⟩ := locked_of_answersOk hvalid hprocedure hok
        obtain ⟨path', hpath', -, hfound, hiff⟩ := answersOk_of_locked hvalid hprocedure hmem
        cases hpath.symm.trans hpath'
        obtain ⟨edge, hedge, hevent, rfl, htable⟩ := hlinked.happened index request hget _ _ hmem
        exact ⟨hfound, path, hpath, edge, hedge, hevent, by rw [htable]; exact hiff.mp hok⟩
      · rintro ⟨-, path, hpath, edge, hedge, hevent, hpair⟩
        obtain ⟨request', update, hget', hmem, htable⟩ := hlinked.recorded edge hedge index hevent
        rw [hget] at hget'
        cases hget'
        obtain ⟨path', hpath', -, -, hiff⟩ := answersOk_of_locked hvalid hprocedure hmem
        cases hpath.symm.trans hpath'
        rw [htable] at hpair
        exact hiff.mpr hpair
    · intro hnot edge hedge hevent
      obtain ⟨request', update, hget', hmem, htable⟩ := hlinked.recorded edge hedge index hevent
      rw [hget] at hget'
      cases hget'
      obtain ⟨path, -, rfl, -, hiff⟩ := answersOk_of_locked hvalid hprocedure hmem
      rw [htable]
      exact recordMount_of_not_mem fun hpair => hnot (hiff.mpr hpair)
  · exact table_eq_of_not_lock (hrun.edge hreach hedge).2
  · obtain ⟨hsource, hstep⟩ := hrun.edge hreach hedge
    rw [hevent] at hstep
    obtain ⟨request', update, _, hget', hsection, htable, -, -⟩ := lock_spec (valid_of_reachable hsource) hstep
    rw [hget] at hget'
    cases hget'
    rw [htable]
    exact hsection.mem_of_other hpair
  · obtain ⟨hsource, hstep⟩ := hrun.edge hreach hedge
    rw [hevent] at hstep
    obtain ⟨answered, hanswered, hiff, htable⟩ := mnt_lock_spec (valid_of_reachable hsource) hstep hget hmounts
    have hsame : edge.target.table = edge.source.table := by
      rw [htable]
      exact recordMount_of_mem (by rw [hmounts.2.1]; exact hmem)
    exact ⟨hsame, answered, hanswered, hiff.mpr (hsame ▸ hmem)⟩

/-! ## One mount -/

def sampleDirectory : FileAttributes := ⟨.directory, 0o755, 2, 0, 0, 0, 0, none, 1, 1, ⟨0, 0⟩, ⟨0, 0⟩, ⟨0, 0⟩⟩

-- the program of the request is followed by evaluating it
set_option maxRecDepth 20000

/-- An `MNT` of `/`, alone. -/
theorem sampleMount : ∃ trace server, (mountMachine sampleState).Run ⟨[], []⟩ trace server ∧
    server.table = [(IpAddr.v4 0, [0x2f])] := by
  have harrive := Machine.Run.snoc (M := mountMachine sampleState) .nil
    (MountStep.arrive ⟨[], []⟩ 1 ⟨.anonymous, .v4 0 700, ⟨7⟩⟩ 1 (opaqueBytes [0x2f]))
  have hroot := harrive.snoc (MountStep.answer _ 0 _ _ _ (⟨1, 1⟩ : ObjectKey) rfl rfl (by intro _ h; cases h))
  have hattributes := hroot.snoc
    (MountStep.answer _ 0 _ _ _ (.ok sampleDirectory : Except NfsError FileAttributes) rfl rfl (by intro _ h; cases h))
  exact ⟨_, _, hattributes.snoc (MountStep.lock _ 0 _ _ _ rfl rfl), rfl⟩

theorem mount_table_over_runs_root : ∃ trace server, (mountMachine sampleState).Run ⟨[], []⟩ trace server ∧
    server.table = [(IpAddr.v4 0, [0x2f])] ∧
    ∃ before edge after, trace = before ++ edge :: after ∧ MountsOk (IpAddr.v4 0, [0x2f]) edge ∧
      ∀ later ∈ after, ¬ MountsOk (IpAddr.v4 0, [0x2f]) later ∧ ¬ Unmounts (IpAddr.v4 0, [0x2f]) later := by
  obtain ⟨trace, server, hrun, htable⟩ := sampleMount
  refine ⟨trace, server, hrun, htable, ((mount_table_over_runs sampleState ⟨rfl, rfl⟩ hrun).2.1 _).mp ?_⟩
  rw [htable]
  exact List.mem_singleton_self _

end NfsEmbed.Server
