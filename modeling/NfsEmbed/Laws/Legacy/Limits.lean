import NfsEmbed.Laws.Legacy.Arguments
import NfsEmbed.Laws.Legacy.Arms
import NfsEmbed.Laws.Legacy.Guard

/-!
# The byte limit of a listing

A listing subtracts a fixed allowance from the count a client sent, and writes entries below that. For a count that
covers the allowance the success arm fits the count (`LimitRespected.of_listed`). For a smaller one the subtraction
leaves its range, unless the handle of the directory is refused before it. `listing_limit_iff` puts both together.

The limit concerns replies in which a client finds an entry. Which entries are left out is the subject of another module.
-/

namespace NfsEmbed.Legacy

open Lib Rpc Client

variable {η ρ ε : Type} {lister : Lister ρ ε η} {stat : Nfsstat3}

/-! ## Lengths -/

/-- What stands before the first entry. -/
theorem length_pageHead_le (dirAttr : PostOpAttr) (version : Cookieverf3) : (pageHead dirAttr version).length ≤ 96 := by
  have hversion : (spell version).length = 8 := version.length_eq
  have hattr : (spell dirAttr).length ≤ 88 := by
    cases dirAttr with
    | none => decide
    | some attr =>
      show (boolBytes true ++ spell attr).length ≤ 88
      rw [List.length_append, length_boolBytes, length_spell_fattr3]
  rw [pageHead, List.length_append, hversion]
  omega

theorem length_pageBytes [Xdr η] [LawfulXdr η] (dirAttr : PostOpAttr) (version : Cookieverf3) (written : List η)
    (eof : Bool) : (pageBytes dirAttr version written eof).length =
      (pageHead dirAttr version).length + (written.flatMap entryBytes).length + 8 := by
  rw [pageBytes, pageTail, List.length_append, List.length_append, List.length_append, length_boolBytes,
    length_boolBytes, Nat.add_assoc]

/-- With a limit below the count, the arm of a page is within the count. -/
theorem length_pageBytes_le [Xdr η] [LawfulXdr η] {xid : UInt32} {attributes : Except Nfsstat3 Fattr3} {result : ρ}
    {trace : Dialogue} {written : List η} {counter : WriteCounter} {all : Bool} {count : Nat} (eof : Bool)
    (hcount : 128 ≤ count)
    (hallows : ∀ maxBytes bytes dircount, lister.allows maxBytes bytes dircount = true → bytes < maxBytes)
    (hfills : lister.Fills xid attributes (count - 128) result trace written counter all) :
    (pageBytes (postOpAttr attributes) (dirversion attributes) written eof).length ≤ count := by
  have hhead := length_pageHead_le (postOpAttr attributes) (dirversion attributes)
  rw [length_pageBytes]
  by_cases hnil : written = []
  · subst hnil
    rw [List.flatMap_nil, List.length_nil]
    omega
  · obtain ⟨dircount, hallowed⟩ := Filled.allowed hfills hnil
    have hlt := hallows _ _ _ hallowed
    have hcounted : counter.count = 28 + (pageHead (postOpAttr attributes) (dirversion attributes)).length +
        (written.flatMap entryBytes).length := by
      rw [Filled.counter_eq hfills, WriteCounter.write, count_pageCounter]
    omega

/-! ## Limits -/

/-- The directory that a listing lists, and the count that limits it. -/
def Arguments.listing : Arguments → Option (NfsFh3 × Count3)
  | .readdir args => some (args.dir, args.dircount)
  | .readdirplus args => some (args.dir, args.maxcount)
  | _ => none

/-- The start of a listing runs on a front part of the dialogue, and the limit it computes there, if it comes to that,
is what is left of the count without the allowance. -/
def LimitComputed (overflow : Overflow) (xid : UInt32) (dir : NfsFh3) (count : Count3) (rest : Bytes) (dialogue : Dialogue) :
    Prop :=
  ∃ front opened streams, front <+: dialogue ∧
    ((openListing overflow xid dir count).run ⟨rest, []⟩).Ends front (.ok (opened, streams)) ∧
    ∀ listing ∈ opened, listing.maxBytes + 128 = count.toNat

/-- The entries of a listing. -/
def listedEntries : NfsResult → List Nfs3.ReadDirEntry
  | .readDir (.ok _ _ entries _) _ => entries
  | .readDirPlus (.ok _ _ entries _) _ => entries
  | _ => []

/-- A success arm in which a client finds an entry is at most as long as the count. -/
def LimitRespected (xid : UInt32) (arguments : Arguments) (count : Count3) (outcome : Outcome) : Prop :=
  ∀ streams arm result, outcome = .ok ((), streams) → streams.output = resultBytes xid .ok arm →
    readReply (NfsResult.parser arguments.procedure) xid streams.output = some result → listedEntries result ≠ [] →
    arm.length ≤ count.toNat

/-- A failure lists nothing. -/
theorem listedEntries_failure {procedure : UInt32} (hproc : procedure ∈ [16, 17]) {attr : PostOpAttr}
    {result : NfsResult} (h : (NfsResult.parser procedure).run (spell stat ++ spell attr) = some (result, [])) :
    listedEntries result = [] := by
  have hsubset : ([16, 17] : List UInt32) ⊆ [3, 5, 6, 16, 17] := by decide
  by_cases hstat : stat = .ok
  · subst hstat
    cases (attrFailure_run_none (hsubset hproc) attr).symm.trans h
  · have hfailure : ∀ plus, (Client.readDir plus).run (spell stat ++ spell attr) =
        some (.err stat.received (attr.map Fattr3.received), []) := by
      intro plus
      have hparses : Parses (Client.readDir plus) (spell stat ++ spell attr)
          (.err stat.received (attr.map Fattr3.received)) := union_parses_err hstat ((postOpAttr_parses attr).map _)
      have hrun := hparses []
      rwa [List.append_nil] at hrun
    simp only [List.mem_cons, List.not_mem_nil, or_false] at hproc
    obtain rfl | rfl := hproc
    · have hbind : (NfsResult.parser 16).run (spell stat ++ spell attr) = ((Client.readDir false).run _ >>= _) := rfl
      rw [hbind, hfailure] at h
      cases h
      rfl
    · have hbind : (NfsResult.parser 17).run (spell stat ++ spell attr) = ((Client.readDir true).run _ >>= _) := rfl
      rw [hbind, hfailure] at h
      cases h
      rfl

section Computed

variable {overflow : Overflow} {xid : UInt32} {dir : NfsFh3} {count : Count3} {rest : Bytes} {dialogue : Dialogue}

/-- A limit that is computed needs a count that covers the allowance. -/
theorem LimitComputed.covers (h : LimitComputed overflow xid dir count rest dialogue) :
    128 ≤ count.toNat ∨ HandleRefused dir dialogue := by
  obtain ⟨front, opened, streams, ⟨behind, rfl⟩, hends, hlimit⟩ := h
  have hopens := (openListing_ensures overflow xid dir count rest).ends hends fun _ _ => trivial
  cases hopens with
  | refused stat => exact .inr ⟨stat, rfl⟩
  | opened =>
    left
    have hsum := hlimit _ rfl
    omega

/-- In every way a listing can end, such a count is enough. -/
theorem LimitComputed.of_listed [Xdr η] [LawfulXdr η] {outcome : Outcome}
    (hcovers : 128 ≤ count.toNat ∨ HandleRefused dir dialogue)
    (h : Listed lister overflow xid dir count rest dialogue outcome) :
    LimitComputed overflow xid dir count rest dialogue := by
  have hopened : ∀ {dirid attributes behind maxBytes}, 128 ≤ count.toNat → maxBytesAllowed overflow count = .ok maxBytes →
      LimitComputed overflow xid dir count rest
        (⟨.fhToId dir, .ok dirid⟩ :: ⟨.getattr dirid, attributes⟩ :: behind) := by
    intro dirid attributes behind maxBytes hle hlimit
    refine ⟨_, _, _, ⟨behind, rfl⟩, (Opens.opened dirid attributes hlimit).ends, fun listing hlisting => ?_⟩
    obtain rfl := Option.some.inj hlisting
    obtain rfl := Except.ok.inj ((maxBytesAllowed_of_le hle).symm.trans hlimit)
    exact Nat.sub_add_cancel hle
  cases h with
  | refused stat => exact ⟨_, _, _, List.prefix_rfl, (Opens.refused stat).ends, nofun⟩
  | underflow _ _ hlimit =>
    have hle := hcovers.resolve_right not_handleRefused
    cases (maxBytesAllowed_of_le hle).symm.trans hlimit
  | failed _ _ _ hlimit | page hlimit | long hlimit => exact hopened (hcovers.resolve_right not_handleRefused) hlimit

end Computed

section Respected

variable {overflow : Overflow} {xid : UInt32} {arguments : Arguments} {count : Count3}

theorem LimitRespected.of_length {streams : Streams} {arm : Bytes}
    (houtput : streams.output = resultBytes xid stat arm) (hlength : arm.length ≤ count.toNat) :
    LimitRespected xid arguments count (.ok ((), streams)) := by
  intro streams arm' result heq harm _ _
  cases heq
  have hequal := congrArg List.length (houtput.symm.trans harm)
  rw [length_resultBytes, length_resultBytes] at hequal
  omega

theorem LimitRespected.of_fault {fault : Fault} : LimitRespected xid arguments count (.error fault) := by
  intro streams arm result heq
  cases heq

/-- A failure has no entries. -/
theorem LimitRespected.of_failure (hproc : arguments.procedure ∈ [16, 17]) {streams : Streams} {attr : PostOpAttr}
    (houtput : streams.output = resultBytes xid stat (spell attr)) :
    LimitRespected xid arguments count (.ok ((), streams)) := by
  intro streams arm result heq _ hread hne
  cases heq
  rw [houtput, resultBytes, readReply_header_iff] at hread
  exact absurd (listedEntries_failure hproc hread) hne

/-- Every way a listing can end respects the limit. -/
theorem LimitRespected.of_listed [Xdr η] [LawfulXdr η] {dir : NfsFh3} {rest : Bytes} {dialogue : Dialogue}
    {outcome : Outcome} (hproc : arguments.procedure ∈ [16, 17])
    (hallows : ∀ maxBytes bytes dircount, lister.allows maxBytes bytes dircount = true → bytes < maxBytes)
    (hcovers : 128 ≤ count.toNat ∨ HandleRefused dir dialogue)
    (h : Listed lister overflow xid dir count rest dialogue outcome) :
    LimitRespected xid arguments count outcome := by
  cases h with
  | refused | failed => exact .of_failure hproc rfl
  | underflow | long => exact .of_fault
  | page hlimit hfills =>
    have hle := hcovers.resolve_right not_handleRefused
    obtain rfl := Except.ok.inj ((maxBytesAllowed_of_le hle).symm.trans hlimit)
    exact .of_length rfl (length_pageBytes_le _ hle hallows hfills)

end Respected

/-- In every dialogue, the limit is computed and respected if and only if the count covers the allowance, or the
handle is refused before it comes to that. -/
theorem listing_limit_iff {overflow : Overflow} {xid : UInt32} {arguments : Arguments} {dir : NfsFh3} {count : Count3}
    (hlisting : arguments.listing = some (dir, count)) (hwellFormed : arguments.WellFormed) (rest : Bytes)
    {dialogue : Dialogue} {outcome : Outcome}
    (hends : ((handleNfs overflow xid ⟨Nfs.VERSION, arguments.procedure⟩).run ⟨arguments.spell ++ rest, []⟩).Ends
      dialogue outcome) :
    LimitComputed overflow xid dir count rest dialogue ∧ LimitRespected xid arguments count outcome ↔
      128 ≤ count.toNat ∨ HandleRefused dir dialogue := by
  refine ⟨fun h => h.1.covers, fun hcovers => ?_⟩
  cases arguments with
  | readdir =>
    cases hlisting
    have hlisted := (Handles.readdir hwellFormed rest).ensures.ends hends fun _ _ => trivial
    exact ⟨.of_listed hcovers hlisted, .of_listed (by simp [Arguments.procedure])
      (fun _ _ _ hallows => of_decide_eq_true hallows) hcovers hlisted⟩
  | readdirplus =>
    cases hlisting
    have hlisted := (Handles.readdirplus hwellFormed rest).ensures.ends hends fun _ _ => trivial
    exact ⟨.of_listed hcovers hlisted, .of_listed (by simp [Arguments.procedure])
      (fun _ _ _ hallows => (of_decide_eq_true hallows).1) hcovers hlisted⟩
  | setattr | lookup | readlink | read | write | create | mkdir | symlink | remove | rmdir | rename => cases hlisting

/-! ## A directory with one file -/

/-- A listing of directory 1 from the start. -/
def listFromStart (count : Count3) : READDIRPLUS3args := ⟨⟨[1]⟩, 0, zeroVerifier, 512, count⟩

/-- The entry of the file, as it is sent. -/
def sentFile : Entryplus3 := ⟨2, [97], 2, some (fileChangedAt ⟨0, 0⟩), some ⟨[2]⟩⟩

def oneFileDialogue : Dialogue :=
  [⟨.fhToId ⟨[1]⟩, .ok 1⟩, ⟨.getattr 1, .error .io⟩, ⟨.readdir 1 0 32, .ok ⟨[⟨2, [97], fileChangedAt ⟨0, 0⟩⟩], true⟩⟩,
    ⟨.idToFh 2, ⟨[2]⟩⟩]

def oneFilePage : Outcome := .ok ((), ⟨[], resultBytes 7 .ok (pageBytes none zeroVerifier [sentFile] true)⟩)

theorem sentFile_read :
    readReply (NfsResult.parser 17) 7 (resultBytes 7 .ok (pageBytes none zeroVerifier [sentFile] true)) =
      some (.readDirPlus (.ok none zeroVerifier [sentFile.received] true) (by decide)) := by
  have hfits : Fits (2 ^ 32 - 1) sentFile :=
    ⟨trivial, show 1 < 2 ^ 32 - 1 by decide, trivial, VectorFree.fits _ (fileChangedAt ⟨0, 0⟩), show 1 < 2 ^ 32 - 1 by decide⟩
  have hpage : Parses (Client.readDir true) (spell Nfsstat3.ok ++ pageBytes none zeroVerifier [sentFile] true)
      (.ok none zeroVerifier [sentFile.received] true) :=
    page_parses (List.forall_mem_singleton.mpr (entryplus3_parses hfits))
  apply readReply_of_parses_spell
  apply hpage.bind_nil
  rw [dif_pos (by decide)]
  exact Parses.pure _

set_option maxRecDepth 2000 in
/-- With a count of 400 bytes the entry is sent, below a limit of 272. -/
theorem listing_limit_page :
    ((handleNfs .panics 7 ⟨Nfs.VERSION, 17⟩).run ⟨spell (listFromStart 400) ++ [], []⟩).Ends oneFileDialogue oneFilePage ∧
      LimitComputed .panics 7 ⟨[1]⟩ 400 [] oneFileDialogue ∧
      LimitRespected 7 (.readdirplus (listFromStart 400)) 400 oneFilePage := by
  have hwellFormed : (Arguments.readdirplus (listFromStart 400)).WellFormed :=
    ⟨show 1 < 2 ^ 32 by decide, trivial, trivial, trivial, trivial⟩
  have hends : ((handleNfs .panics 7 ⟨Nfs.VERSION, (Arguments.readdirplus (listFromStart 400)).procedure⟩).run
      ⟨(Arguments.readdirplus (listFromStart 400)).spell ++ [], []⟩).Ends oneFileDialogue oneFilePage :=
    .ask (.ask (.ask (.ask (.done _))))
  exact ⟨hends, (listing_limit_iff rfl hwellFormed [] hends).mpr (.inl (by decide))⟩

set_option maxRecDepth 2000 in
/-- With a smaller count, a build with overflow checks panics before it replies, and one without sends an entry that
is longer than the count. -/
theorem listing_limit_underflows :
    ((handleNfs .panics 7 ⟨Nfs.VERSION, 17⟩).run ⟨spell (listFromStart 100), []⟩).Ends
        [⟨.fhToId ⟨[1]⟩, .ok 1⟩, ⟨.getattr 1, .error .io⟩]
        (.error (.panic ⟨"attempt to subtract with overflow"⟩)) ∧
      ¬ LimitComputed .panics 7 ⟨[1]⟩ 100 [] [⟨.fhToId ⟨[1]⟩, .ok 1⟩, ⟨.getattr 1, .error .io⟩] ∧
      ((handleNfs .wraps 7 ⟨Nfs.VERSION, 17⟩).run ⟨spell (listFromStart 100), []⟩).Ends oneFileDialogue oneFilePage ∧
      ¬ LimitComputed .wraps 7 ⟨[1]⟩ 100 [] oneFileDialogue ∧
      ¬ LimitRespected 7 (.readdirplus (listFromStart 100)) 100 oneFilePage := by
  have hsmall : ∀ {overflow dialogue}, ¬ LimitComputed overflow 7 ⟨[1]⟩ 100 [] (⟨.fhToId ⟨[1]⟩, .ok 1⟩ :: dialogue) := by
    intro overflow dialogue hcomputed
    exact absurd (hcomputed.covers.resolve_right not_handleRefused) (by decide)
  refine ⟨.ask (.ask (.fail _)), hsmall, .ask (.ask (.ask (.ask (.done _)))), hsmall, fun hrespected => ?_⟩
  have hlength := hrespected _ _ _ rfl rfl sentFile_read (List.cons_ne_nil _ _)
  exact absurd hlength (by decide)

end NfsEmbed.Legacy
