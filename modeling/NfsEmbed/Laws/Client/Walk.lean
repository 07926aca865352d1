import NfsEmbed.Client.Walk
import NfsEmbed.Laws.Client.Replies
import NfsEmbed.Laws.Server.Readdir
import NfsEmbed.Lib.Paging

/-!
# Listing a directory is complete

One request delivers a front part of what is left of the directory, none of it only if nothing is
left, and `eof` only if it is all. The walk therefore has, at every point, a front part of the
directory and a cookie at which the rest begins.

The law is `readdir_walk_complete`. The directory stays the same during the walk; nothing is said of one
that changes.
-/

namespace NfsEmbed.Client

open Lib Rpc Vfs Nfs3 Server
open Prog (Ensures)

variable {bytes args : Bytes} {context : RequestContext} {verifier : Fixed 8} {directoryCount count : UInt32}
  {walk : Walk}

/-- An entry of the directory as the client reads it. -/
def wireEntry (state : ConnectionState) (exportId : ExportId) (plus : Bool) (listed : DirectoryEntry) : ReadDirEntry :=
  normalisedEntry (typedEntry state exportId plus listed)

/-! ## Replies -/

/-- A list that was encoded is read back, up to what the wire does not show. -/
theorem readReply_list_fields {plus : Bool} (xid : UInt32) {result : ReadDirResult} (hshape : HasShape plus result)
    (hstatus : ∀ status attributes, result = .err status attributes → status ≠ .ok)
    (hencodable : ∀ field ∈ result.fields, field.Encodable) :
    readReply (readDir plus) xid (acceptedReplyEncoder xid SUCCESS ++ result.fields.flatMap Field.bytes) =
      some (normalisedReadDir result) := by
  exact readReply_of_parses (readDir_parses hshape hstatus) hencodable

/-! ## One request -/

/-- What a reply says about the rest of the directory: a list is a front part of it, which is empty
only if the rest is, and says `eof` only if it is all of it. -/
def Delivers (wire : DirectoryEntry → ReadDirEntry) (rest : List DirectoryEntry) : Option ReadDirResult → Prop
  | some (.ok _ _ entries eof) => ∃ sent remaining, rest = sent ++ remaining ∧ entries = sent.map wire ∧
      (sent = [] → remaining = []) ∧ (eof = true → remaining = [])
  | _ => True

section Request

-- a reply is only read through its laws
attribute [local irreducible] readReply

variable {state : ConnectionState} {exportId : ExportId} {directory : ObjectKey} {plus : Bool}
  {listing : List DirectoryEntry} {xid : UInt32} {cookie : UInt64}

theorem isPlus_typedEntry (listed : DirectoryEntry) :
    isPlus (typedEntry state exportId plus listed).extension = plus := by
  cases plus <;> rfl

/-- What a client reads of an encoded result. -/
theorem readReply_list_typedNfsReply {result : ReadDirResult} (hshape : HasShape plus result)
    (hstatus : ∀ status attributes, result = .err status attributes → status ≠ .ok)
    (h : typedNfsReply xid result = .ok bytes) :
    readReply (readDir plus) xid bytes = some (normalisedReadDir result) := by
  obtain ⟨hencodable, rfl⟩ := (typedReply_ok_iff result.encodeResult_writes).mp h
  exact readReply_list_fields xid hshape hstatus hencodable

theorem readReply_list_err {status : NfsStatus} {attributes : Option FileAttributes} (hstatus : status ≠ .ok)
    (h : typedNfsReply xid (ReadDirResult.err status attributes) = .ok bytes) :
    readReply (readDir plus) xid bytes = some (.err status (attributes.map normalisedAttributes)) := by
  have hshape : HasShape plus (.err status attributes) := trivial
  refine readReply_list_typedNfsReply hshape (fun status' attributes' heq => ?_) h
  cases heq
  exact hstatus

/-- A reply delivers a front part of the page. -/
theorem readdirReply_delivers {attributes : Option FileAttributes} {page : ReadDirectoryPage}
    {directoryLimit : Option Nat} {wireLimit : Nat} (hpage : PageOf listing cookie page)
    (h : readdirReply state xid exportId plus attributes page directoryLimit wireLimit = .ok bytes) :
    Delivers (wireEntry state exportId plus) (after cookie listing) (readReply (readDir plus) xid bytes) := by
  obtain ⟨result, hresult, hreply⟩ := readdirReply_ok h
  obtain ⟨status, attributes, rfl, hstatus⟩ | ⟨attributes, sent, rest, eof, rfl, hentries, hempty, heof⟩ :=
    readdirResult_ok hresult
  · rw [readReply_list_err hstatus hreply]
    trivial
  · have hshape : HasShape plus (.ok attributes page.verifier (sent.map (typedEntry state exportId plus)) eof) := by
      intro entry hentry
      obtain ⟨listed, -, rfl⟩ := List.mem_map.mp hentry
      exact isPlus_typedEntry listed
    rw [readReply_list_typedNfsReply hshape (by rintro _ _ ⟨⟩) hreply]
    obtain ⟨more, hmore⟩ := hpage.isFront
    refine ⟨sent, rest ++ more, by rw [← hmore, hentries, List.append_assoc], ?_, fun hsent => ?_, fun h => ?_⟩
    · simp [wireEntry]
    · -- an empty page means that nothing is left
      have hnil : after cookie listing = [] := by
        by_contra hne
        exact hpage.progress hne (hempty hsent)
      simp_all
    · obtain ⟨hpageEof, rfl⟩ := heof h
      have := hpage.eof hpageEof
      simp_all

/-- In every dialogue with such a backend, the outcome delivers a part of the rest. -/
def Lists (state : ConnectionState) (exportId : ExportId) (directory : ObjectKey) (plus : Bool)
    (listing : List DirectoryEntry) (cookie : UInt64) (xid : UInt32) (program : ServerM EncodedReply) : Prop :=
  ∀ history, Ensures (ListsDirectory directory listing) (fun _ _ => True)
    (fun _ outcome => Delivers (wireEntry state exportId plus) (after cookie listing) (deliveredAs (readDir plus) xid outcome))
    history program

theorem lists_nfsReply_err {status : NfsStatus} (hstatus : status ≠ .ok) (attributes : Option FileAttributes) :
    Lists state exportId directory plus listing cookie xid
      (nfsReply state xid (ReadDirResult.err status attributes)) := by
  intro history
  unfold nfsReply encoded
  split
  next bytes hbytes =>
    change Delivers _ _ (readReply (readDir plus) xid (state.reply bytes).intoBytes)
    rw [intoBytes_reply, readReply_list_err hstatus hbytes]
    trivial
  next => trivial

/-- The handler of both listings delivers a front part of what is behind the cookie. -/
theorem readdirArm_lists {entry : ExportState} (verifier : Fixed 8) (maxCount : UInt32) (directoryLimit : Option Nat)
    (hexport : context.exportId = exportId) : Lists state exportId directory plus listing cookie xid
      (readdirArm state xid context entry plus (state.handles.encode exportId directory) cookie verifier maxCount
        directoryLimit) := by
  subst hexport
  unfold readdirArm withObject
  simp only [decodeObject_encode]
  split
  next => exact lists_nfsReply_err (by decide) none
  next =>
    refine fun history => ⟨trivial, fun answer hanswer => ?_⟩
    cases answer with
    | error error => exact lists_nfsReply_err (NfsStatus.ofError_ne_ok error) none _
    | ok page =>
      refine ⟨trivial, fun attributes _ => ?_⟩
      change Ensures _ _ _ _ (encoded state (readdirReply state xid context.exportId plus
        (Except.toOption attributes) page directoryLimit _))
      unfold encoded
      split
      next bytes hbytes =>
        change Delivers _ _ (readReply (readDir plus) xid (state.reply bytes).intoBytes)
        rw [intoBytes_reply]
        exact readdirReply_delivers (hanswer rfl page rfl) hbytes
      next => trivial

theorem decode_listArguments {handle : FileHandle} (hhandle : handle.length ≤ 64)
    (h : Encoder.run (listArguments plus handle cookie verifier directoryCount count).encode = .ok args)
    (maxVariableSize : Nat) : NfsArguments.decode (if plus then 17 else 16) args maxVariableSize =
      .ok (listArguments plus handle cookie verifier directoryCount count) := by
  rw [decode_ok_iff_spelled, spelled_iff_encode]
  refine ⟨by cases plus <;> rfl, h, ?_⟩
  cases plus <;> exact hhandle

theorem dispatchCall_lists (hexport : context.exportId = exportId)
    (hargs : Encoder.run (listArguments plus (state.handles.encode exportId directory) cookie verifier
      directoryCount count).encode = .ok args) : Lists state exportId directory plus listing cookie xid
      (dispatchCall state xid Nfs3.PROGRAM Nfs3.VERSION (if plus then 17 else 16) args context) := by
  have hlength : (state.handles.encode exportId directory).length ≤ 64 := by
    rw [state.handles.length_encode]
    decide
  have hdecode := decode_listArguments hlength hargs state.limits.maxRpcRecordSize
  unfold dispatchCall dispatchNfs
  rw [if_pos rfl, if_neg (by simp)]
  cases plus
  all_goals
    rw [if_neg (by decide), if_neg (by decide), hdecode]
    simp only [listArguments, Bool.false_eq_true, if_true, if_false]
    split
    next => exact lists_nfsReply_err (by decide : NfsStatus.badHandle ≠ .ok) none
    next entry _ => exact readdirArm_lists _ _ _ hexport

/-- So does the whole request. -/
theorem executeRequest_lists (hexport : context.exportId = exportId)
    (hargs : Encoder.run (listArguments plus (state.handles.encode exportId directory) cookie verifier
      directoryCount count).encode = .ok args) : Lists state exportId directory plus listing cookie xid
      (executeRequest state xid Nfs3.PROGRAM Nfs3.VERSION (if plus then 17 else 16) args context) := by
  intro history
  have hlists := @dispatchCall_lists args context verifier directoryCount count state exportId directory plus listing
    xid cookie hexport hargs history
  exact executeRequest_delivers (P := fun _ => Delivers (wireEntry state exportId plus) (after cookie listing))
    (fun _ => trivial) hlists

end Request

/-! ## The walk -/

section Walk

variable {listing : List DirectoryEntry}

/-- After the last entry of a front part comes the rest. -/
theorem after_getLast {sent remaining : List DirectoryEntry} {last : DirectoryEntry}
    (hdistinct : ((sent ++ last :: remaining).map DirectoryEntry.cookie).Nodup) (hnonzero : last.cookie ≠ 0) :
    after last.cookie (sent ++ last :: remaining) = remaining := by
  rw [after, if_neg hnonzero]
  exact tail_dropWhile_of_nodup hdistinct

/-- At every point the client has a front part of the directory, and its cookie is where the rest
begins. -/
def Walk.Inv (wire : DirectoryEntry → ReadDirEntry) (listing : List DirectoryEntry) (walk : Walk) : Prop :=
  ∃ sent remaining, listing = sent ++ remaining ∧ walk.received = sent.map wire ∧
    after walk.cookie listing = remaining ∧ (walk.ended = true → remaining = [])

theorem Walk.inv_start (wire : DirectoryEntry → ReadDirEntry) : Walk.start.Inv wire listing :=
  ⟨[], listing, rfl, rfl, rfl, by simp [Walk.start]⟩

/-- A reply takes the walk further along the directory. -/
theorem Walk.Inv.receive {wire : DirectoryEntry → ReadDirEntry}
    (hcookie : ∀ listed, (wire listed).cookie = listed.cookie) (hdistinct : (listing.map DirectoryEntry.cookie).Nodup)
    (hnonzero : ∀ entry ∈ listing, entry.cookie ≠ 0) (hinv : walk.Inv wire listing) {result : Option ReadDirResult}
    (hdelivers : Delivers wire (after walk.cookie listing) result) : (walk.receive result).Inv wire listing := by
  obtain ⟨sent, remaining, hlisting, hreceived, hafter, hended⟩ := hinv
  rw [hafter] at hdelivers
  match result with
  | none => exact ⟨sent, remaining, hlisting, hreceived, hafter, hended⟩
  | some (.err _ _) => exact ⟨sent, remaining, hlisting, hreceived, hafter, hended⟩
  | some (.ok attributes verifier entries eof) =>
    obtain ⟨more, rest, rfl, rfl, hempty, heof⟩ := hdelivers
    refine ⟨sent ++ more, rest, by rw [hlisting, List.append_assoc], by simp [Walk.receive, hreceived], ?_, heof⟩
    induction more using List.reverseRecOn with
    | nil => simpa [Walk.receive] using hafter
    | append_singleton more last =>
      have hsplit : listing = (sent ++ more) ++ last :: rest := by simp [hlisting]
      have hlast : last.cookie ≠ 0 := hnonzero last (by simp [hsplit])
      simp only [Walk.receive, List.map_append, List.map_cons, List.map_nil, List.getLast?_concat, Option.elim_some,
        hcookie]
      rw [hsplit] at hdistinct ⊢
      exact after_getLast hdistinct hlast

end Walk

section Completeness

variable {state : ConnectionState} {exportId : ExportId} {directory : ObjectKey} {plus : Bool}
  {listing : List DirectoryEntry}

theorem wireEntry_cookie (listed : DirectoryEntry) :
    (wireEntry state exportId plus listed).cookie = listed.cookie := by
  cases plus <;> rfl

/-- One request of the walk. -/
theorem WalkStep.delivers {walk' : Walk} {result : Option ReadDirResult}
    (hstep : WalkStep state exportId directory plus listing walk result walk') : walk' = walk.receive result ∧
      Delivers (wireEntry state exportId plus) (after walk.cookie listing) result := by
  cases hstep with
  | request _ _ _ _ _ _ _ _ hexport hargs hends hbackend =>
    exact ⟨rfl, (executeRequest_lists hexport hargs []).ends hends hbackend⟩

/-- The walk has a front part of the directory, wherever it is. -/
theorem walk_inv (hdistinct : (listing.map DirectoryEntry.cookie).Nodup)
    (hnonzero : ∀ entry ∈ listing, entry.cookie ≠ 0)
    (hreach : (walkMachine state exportId directory plus listing).Reachable walk) :
    walk.Inv (wireEntry state exportId plus) listing := by
  refine hreach.invariant ?_ ?_
  · rintro _ rfl
    exact Walk.inv_start _
  · intro walk result walk' hinv hstep
    obtain ⟨rfl, hdelivers⟩ := hstep.delivers
    exact hinv.receive wireEntry_cookie hdistinct hnonzero hdelivers

end Completeness

/-- Listing a directory is complete: the client has received each entry of the directory once and in
order when a reply says `eof`, a list without entries means that there are no more, and a reply that
is an error leaves the walk where it was, to be resumed with any other count. -/
theorem readdir_walk_complete (state : ConnectionState) (exportId : ExportId) (directory : ObjectKey) (plus : Bool)
    (listing : List DirectoryEntry) (hdistinct : (listing.map DirectoryEntry.cookie).Nodup)
    (hnonzero : ∀ entry ∈ listing, entry.cookie ≠ 0) (walk : Walk)
    (hreach : (walkMachine state exportId directory plus listing).Reachable walk) :
    walk.received <+: listing.map (wireEntry state exportId plus) ∧
    (walk.ended = true → walk.received = listing.map (wireEntry state exportId plus)) ∧
    ∀ result walk', (walkMachine state exportId directory plus listing).Step walk result walk' →
      (∀ attributes verifier eof, result = some (.ok attributes verifier [] eof) →
        walk.received = listing.map (wireEntry state exportId plus)) ∧
      (∀ attributes verifier entries, result = some (.ok attributes verifier entries true) →
        walk'.received = walk.received ++ entries ∧
          walk'.received = listing.map (wireEntry state exportId plus)) ∧
      (∀ status attributes, result = some (.err status attributes) → walk' = walk) := by
  have hinv := walk_inv hdistinct hnonzero hreach
  have hall : ∀ {walk : Walk}, walk.Inv (wireEntry state exportId plus) listing → walk.ended = true →
      walk.received = listing.map (wireEntry state exportId plus) := by
    rintro walk ⟨sent, remaining, hlisting, hreceived, -, hended⟩ h
    rw [hreceived, hlisting, hended h, List.append_nil]
  refine ⟨?_, hall hinv, fun result walk' hstep => ?_⟩
  · obtain ⟨sent, remaining, rfl, hreceived, -, -⟩ := hinv
    exact ⟨remaining.map (wireEntry state exportId plus), by rw [hreceived, List.map_append]⟩
  · obtain ⟨rfl, hdelivers⟩ := WalkStep.delivers hstep
    refine ⟨?_, ?_, ?_⟩
    · rintro attributes verifier eof rfl
      obtain ⟨sent, remaining, hlisting, hreceived, hafter, -⟩ := hinv
      obtain ⟨more, rest, hrest, hmore, hempty, -⟩ := hdelivers
      obtain rfl : more = [] := List.map_eq_nil_iff.mp hmore.symm
      rw [hafter, hempty rfl] at hrest
      rw [hreceived, hlisting, hrest, List.append_nil, List.append_nil]
    · rintro attributes verifier entries rfl
      exact ⟨rfl, hall (hinv.receive wireEntry_cookie hdistinct hnonzero hdelivers) rfl⟩
    · rintro status attributes rfl
      rfl

/-! ## A walk

A directory with two files, which one `READDIR` lists. -/

def sampleListing : List DirectoryEntry :=
  [⟨⟨2, 1⟩, 2, ⟨[0x61], by decide, by decide, by decide, by decide⟩, 10, none⟩,
    ⟨⟨3, 1⟩, 3, ⟨[0x62], by decide, by decide, by decide, by decide⟩, 20, none⟩]

def sampleVerifier : Fixed 8 := sampleState.handles.instanceId

def sampleContext : RequestContext := ⟨.anonymous, .v4 0 700, ⟨7⟩⟩

def sampleListArgs : Bytes := opaqueBytes (sampleState.handles.encode ⟨7⟩ ⟨1, 1⟩) ++ words [0, 0, 0, 0, 4096]

/-- The backend returns all entries, and no attributes of the directory. -/
def sampleListDialogue : Dialogue :=
  [⟨.vfs sampleExport sampleContext (.readdir ⟨1, 1⟩ 0 sampleVerifier 128),
      .ok ⟨sampleVerifier, sampleListing, true⟩⟩,
    ⟨.vfs sampleExport sampleContext (.getattr ⟨1, 1⟩), .error .io⟩]

def sampleListReply : Bytes :=
  words [1, RPC_REPLY, MSG_ACCEPTED, AUTH_NONE, 0, SUCCESS, 0, 0, 0, 0, 1, 0, 2, 1, 0x61000000, 0, 10,
    1, 0, 3, 1, 0x62000000, 0, 20, 0, 1]

-- the dialogue is followed by evaluating the decoders and encoders
set_option maxRecDepth 20000

theorem sampleStep : WalkStep sampleState ⟨7⟩ ⟨1, 1⟩ false sampleListing .start
    (deliveredAs (readDir false) 1 (.ok (sampleState.reply sampleListReply)))
    (Walk.start.receive (deliveredAs (readDir false) 1 (.ok (sampleState.reply sampleListReply)))) := by
  refine WalkStep.request .start 1 sampleContext sampleVerifier 0 4096 sampleListArgs sampleListDialogue _ rfl ?_ ?_ ?_
  · decide
  · exact .ask (.ask (.done _))
  · intro exchange hexchange
    simp only [sampleListDialogue, List.mem_cons, List.not_mem_nil, or_false] at hexchange
    obtain rfl | rfl := hexchange
    · rintro - page ⟨⟩
      exact ⟨List.prefix_refl _, fun _ => by decide, fun _ => rfl⟩
    · trivial

theorem sampleWalk_reachable : (walkMachine sampleState ⟨7⟩ ⟨1, 1⟩ false sampleListing).Reachable
    (Walk.start.receive (deliveredAs (readDir false) 1 (.ok (sampleState.reply sampleListReply)))) :=
  ⟨.start, _, rfl, Machine.Run.nil.snoc sampleStep⟩

theorem readdir_walk_complete_two_files :
    (Walk.start.receive (deliveredAs (readDir false) 1 (.ok (sampleState.reply sampleListReply)))).received =
      sampleListing.map (wireEntry sampleState ⟨7⟩ false) :=
  (readdir_walk_complete sampleState ⟨7⟩ ⟨1, 1⟩ false sampleListing (by decide) (by decide) _
    sampleWalk_reachable).2.1 (by decide)

end NfsEmbed.Client
