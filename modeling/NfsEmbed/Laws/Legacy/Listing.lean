import NfsEmbed.Laws.Legacy.Arguments
import NfsEmbed.Laws.Legacy.Guard
import NfsEmbed.Laws.Legacy.Pages
import NfsEmbed.Lib.Paging

/-!
# Listing a directory with the pre-1.0 implementation

A client starts at cookie 0 and repeats the request with the cookie of the last entry it received, until a reply
says `eof`. The file system serves a fixed directory, and its `readdir_simple` is the default one. With
`READDIRPLUS` the client ends with the directory. `READDIR` does not pass the cookie on, so every reply is a page
from the start: the client ends with the directory just when the first reply has all of it.

`listing_complete_iff` is the law for both procedures.
-/

namespace NfsEmbed.Legacy

open Lib Rpc Client

variable {directory sent rest page : List DirEntry} {count : Nat} {ε η : Type} {counter counter' : WriteCounter}
  {trace piece : Dialogue} {all : Bool} {entry : DirEntry} {entries : List Nfs3.ReadDirEntry}

/-! ## The file system -/

/-- The entries after an id; id 0 stands before the first. -/
def follows (start : Fileid3) (directory : List DirEntry) : List DirEntry :=
  if start = 0 then directory else (directory.dropWhile fun entry => entry.fileid ≠ start).tail

/-- The next entries after an id, at most `maxEntries` of them. Its end is set exactly when nothing follows. -/
def PageAfter (directory : List DirEntry) (start : Fileid3) (maxEntries : Nat) (answer : Except Nfsstat3 ReadDirResult) :
    Prop :=
  ∃ page rest isEnd, follows start directory = page ++ rest ∧ page.length ≤ maxEntries ∧ answer = .ok ⟨page, isEnd⟩ ∧
    (isEnd = true ↔ rest = [])

/-- `readdir` pages through the directory. -/
def ServesReaddir (dirid : Fileid3) (directory : List DirEntry) : Exchange fileSystemSignature → Prop
  | ⟨.readdir dirid' start maxEntries, answer⟩ => dirid' = dirid → PageAfter directory start maxEntries answer
  | _ => True

/-- A file system with the directory, and the default of `readdir_simple`. -/
def Serves (handle : NfsFh3) (dirid : Fileid3) (directory : List DirEntry) : Exchange fileSystemSignature → Prop
  | ⟨.fhToId handle', answer⟩ => handle' = handle → answer = .ok dirid
  | ⟨.readdir dirid' start maxEntries, answer⟩ => ServesReaddir dirid directory ⟨.readdir dirid' start maxEntries, answer⟩
  | ⟨.readdirSimple dirid' count, answer⟩ =>
    ∃ inner, (readdirSimpleDefault dirid' count).Ends inner answer ∧ ∀ exchange ∈ inner, ServesReaddir dirid directory exchange
  | _ => True

/-- The default of `readdir_simple` is a page from the start. -/
theorem Serves.readdirSimple {handle : NfsFh3} {dirid : Fileid3} {answer : Except Nfsstat3 ReadDirSimpleResult}
    (h : Serves handle dirid directory ⟨.readdirSimple dirid count, answer⟩) :
    ∃ page rest isEnd, directory = page ++ rest ∧ answer = .ok ⟨page.map DirEntry.simple, isEnd⟩ ∧
      (isEnd = true ↔ rest = []) := by
  obtain ⟨inner, hends, hserves⟩ := h
  cases hends with
  | @ask _ _ _ _ _ hrest =>
    have hpage := hserves _ List.mem_cons_self rfl
    obtain ⟨page, rest, isEnd, hfollows, -, rfl, hend⟩ := hpage
    cases hrest
    exact ⟨page, rest, isEnd, hfollows, rfl, hend⟩

/-- Behind the last entry that was sent is what was not. -/
theorem follows_getLast {last : DirEntry} (hdistinct : (directory.map DirEntry.fileid).Nodup)
    (hnonzero : last.fileid ≠ 0) (hdirectory : directory = sent ++ last :: rest) :
    follows last.fileid directory = rest := by
  subst hdirectory
  rw [follows, if_neg hnonzero]
  exact tail_dropWhile_of_nodup hdistinct

/-! ## The client -/

/-- A request for a page, the dialogue of its handler with the file system, and what the client reads of the reply. -/
structure Turn where
  xid : UInt32
  cookie : Cookie3
  verifier : Cookieverf3
  dircount : Count3
  maxcount : Count3
  dialogue : Dialogue
  streams : Streams
  dirAttributes : Option Vfs.FileAttributes
  version : Cookieverf3
  entries : List Nfs3.ReadDirEntry
  eof : Bool

def Turn.arguments (plus : Bool) (handle : NfsFh3) (turn : Turn) : Arguments :=
  if plus then .readdirplus ⟨handle, turn.cookie, turn.verifier, turn.dircount, turn.maxcount⟩
  else .readdir ⟨handle, turn.cookie, turn.verifier, turn.dircount⟩

structure Turn.Valid (overflow : Overflow) (plus : Bool) (handle : NfsFh3) (dirid : Fileid3) (directory : List DirEntry)
    (turn : Turn) : Prop where
  ends : ((handleNfs overflow turn.xid ⟨Nfs.VERSION, (turn.arguments plus handle).procedure⟩).run
    ⟨(turn.arguments plus handle).spell, []⟩).Ends turn.dialogue (.ok ((), turn.streams))
  serves : ∀ exchange ∈ turn.dialogue, Serves handle dirid directory exchange
  reads : readReply (readDir plus) turn.xid turn.streams.output =
    some (.ok turn.dirAttributes turn.version turn.entries turn.eof)

/-- The turns of a client up to the first `eof`. Each reply has an entry, as long as some remain. -/
structure Session (overflow : Overflow) (plus : Bool) (handle : NfsFh3) (dirid : Fileid3) (directory : List DirEntry)
    (turns : Nat → Turn) : Prop where
  start : (turns 0).cookie = 0
  valid : ∀ i, (∀ j < i, (turns j).eof = false) → (turns i).Valid overflow plus handle dirid directory
  resume : ∀ i, (turns i).eof = false → ∀ last ∈ (turns i).entries.getLast?, (turns (i + 1)).cookie = last.cookie
  progress : ∀ i, (∀ j < i, (turns j).eof = false) → follows (turns i).cookie directory ≠ [] → (turns i).entries ≠ []

/-- An entry of the directory as the client reads it. -/
structure Shows (plus : Bool) (entry : DirEntry) (read : Nfs3.ReadDirEntry) : Prop where
  fileId : read.fileId = entry.fileid
  name : read.name = entry.name
  cookie : read.cookie = entry.fileid
  extension : if plus then ∃ handle, read.extension = .plus (some entry.attr.received) (some handle)
    else read.extension = .basic

/-- The client comes to an end, and has each entry of the directory once and in order. -/
def ListsAll (plus : Bool) (directory : List DirEntry) (turns : Nat → Turn) : Prop :=
  ∃ k, (turns k).eof = true ∧ (∀ j < k, (turns j).eof = false) ∧
    List.Forall₂ (Shows plus) directory ((List.range (k + 1)).flatMap fun i => (turns i).entries)

/-! ## One turn -/

/-- The reply has a front part of what is left, and says `eof` exactly if that is all. -/
def Turn.Delivers (plus : Bool) (left : List DirEntry) (turn : Turn) : Prop :=
  ∃ sent rest, left = sent ++ rest ∧ List.Forall₂ (Shows plus) sent turn.entries ∧ (turn.eof = true ↔ rest = [])

section Turn

variable {overflow : Overflow} {plus : Bool} {handle : NfsFh3} {dirid : Fileid3} {directory left : List DirEntry}
  {turn : Turn}

/-- What a client reads of a page. -/
theorem Turn.Delivers.of_page [Xdr η] [LawfulXdr η] {Made : ε → Dialogue → η → Prop} {name : η → Filename3}
    {allows : Nat → Nat → Bool} {listed : DirEntry → ε} {received : η → Nfs3.ReadDirEntry} {dirAttr : PostOpAttr}
    {version : Cookieverf3} {written : List η} {isEnd : Bool} (hleft : left = page ++ rest)
    (hend : isEnd = true ↔ rest = [])
    (hfilled : Filled Made name allows (page.map listed) counter count trace written counter' all)
    (hparses : ∀ made, Fits (2 ^ 32 - 1) made → Parses (nextReaddirEntry plus) (entryBytes made) (some (received made)))
    (hshows : ∀ entry piece made, Made (listed entry) piece made → Shows plus entry (received made))
    (hreads : readReply (readDir plus) turn.xid
        (resultBytes turn.xid .ok (pageBytes dirAttr version written (all && isEnd))) =
      some (.ok turn.dirAttributes turn.version turn.entries turn.eof)) :
    turn.Delivers plus left ∧ turn.eof = (all && isEnd) := by
  have hpage : readReply (readDir plus) turn.xid
      (resultBytes turn.xid .ok (pageBytes dirAttr version written (all && isEnd))) =
      some (.ok (dirAttr.map Fattr3.received) version (written.map received) (all && isEnd)) :=
    readReply_of_parses_spell (page_parses fun made hmem => hparses made (hfilled.fits made hmem))
  rw [hreads, Option.some.injEq, Nfs3.ReadDirResult.ok.injEq] at hpage
  obtain ⟨_, _, hentries, heof⟩ := hpage
  obtain ⟨_, _, hfront, hsent, hall⟩ := hfilled.front
  obtain ⟨sent, unsent, rfl, rfl, rfl⟩ := List.map_eq_append_iff.mp hfront
  refine ⟨⟨sent, unsent ++ rest, ?_, ?_, ?_⟩, heof⟩
  · rw [hleft, List.append_assoc]
  · rw [hentries, List.forall₂_map_right_iff]
    exact (List.forall₂_map_left_iff.mp hsent).imp fun entry made ⟨piece, hmade⟩ => hshows entry piece made hmade
  · rw [heof, Bool.and_eq_true, hall, hend, List.map_eq_nil_iff, List.append_eq_nil_iff]

/-- An entry of `READDIR` shows the file. -/
theorem shows_entry3 {made : Entry3} (h : Sends entry.simple piece made) : Shows false entry made.received := by
  obtain ⟨-, rfl⟩ := h
  exact ⟨rfl, rfl, rfl, rfl⟩

/-- An entry of `READDIRPLUS` shows the file. -/
theorem shows_entryplus3 {made : Entryplus3} (h : SendsPlus entry piece made) : Shows true entry made.received := by
  obtain ⟨handle, -, rfl⟩ := h
  exact ⟨rfl, rfl, rfl, _, rfl⟩

/-- With this file system, a listing that returns is a page of what the file system answered. -/
theorem Listed.page_of_serves {ρ : Type} [Xdr η] [LawfulXdr η] {lister : Lister ρ ε η} {xid : UInt32} {count : Count3}
    {rest : Bytes} {dialogue : Dialogue} {streams : Streams}
    (h : Listed lister overflow xid handle count rest dialogue (.ok ((), streams)))
    (hserves : ∀ exchange ∈ dialogue, Serves handle dirid directory exchange)
    (hanswers : ∀ stat, ¬ Serves handle dirid directory (lister.request dirid (.error stat))) :
    ∃ attributes maxBytes result trace written counter all, maxBytesAllowed overflow count = .ok maxBytes ∧
      lister.asked handle dirid attributes (.ok result) <+: dialogue ∧
      Serves handle dirid directory (lister.request dirid (.ok result)) ∧
      lister.Fills xid attributes maxBytes result trace written counter all ∧
      streams.output = resultBytes xid .ok
        (pageBytes (postOpAttr attributes) (dirversion attributes) written (all && lister.isEnd result)) := by
  cases h with
  | refused => cases hserves _ List.mem_cons_self rfl
  | failed _ _ stat =>
    cases hserves _ List.mem_cons_self rfl
    exact absurd (hserves _ (List.mem_cons_of_mem _ (List.mem_cons_of_mem _ List.mem_cons_self))) (hanswers stat)
  | page hlimit hfills =>
    cases hserves _ List.mem_cons_self rfl
    have hpage := hserves _ (List.mem_cons_of_mem _ (List.mem_cons_of_mem _ List.mem_cons_self))
    exact ⟨_, _, _, _, _, _, _, hlimit, List.prefix_append _ _, hpage, hfills, rfl⟩

/-- A reply of `READDIRPLUS` goes on from the cookie. -/
theorem Turn.Valid.readdirplus (hhandle : Fits (2 ^ 32) handle) (h : turn.Valid overflow true handle dirid directory) :
    turn.Delivers true (follows turn.cookie directory) := by
  have hends := h.ends
  rw [Turn.arguments, if_pos rfl, Arguments.spell, ← List.append_nil (spell _)] at hends
  have hfits : Fits (2 ^ 32) (READDIRPLUS3args.mk handle turn.cookie turn.verifier turn.dircount turn.maxcount) :=
    ⟨hhandle, trivial, trivial, trivial, trivial⟩
  have hlisted := (Handles.readdirplus hfits []).ensures.ends hends fun _ _ => trivial
  obtain ⟨attributes, maxBytes, result, trace, written, counter, all, _, _, hpage, hfills, houtput⟩ :=
    hlisted.page_of_serves h.serves (by
      intro stat hserves
      obtain ⟨_, _, _, _, _, heq, _⟩ := hserves rfl
      cases heq)
  obtain ⟨page, rest, isEnd, hfollows, _, heq, hend⟩ := hpage rfl
  cases heq
  have hreads := h.reads
  rw [houtput] at hreads
  rw [Lister.Fills, ← List.map_id ((readdirplusLister _).entries _)] at hfills
  exact (Turn.Delivers.of_page hfollows hend hfills (fun _ => entryplus3_parses) (fun _ _ _ => shows_entryplus3) hreads).1

/-- An entry of a simple listing as it is sent. -/
def sentEntry (entry : DirEntry) : Entry3 := ⟨entry.fileid, entry.name, entry.fileid⟩

/-- The directory is listed at once: the file system's answer has its end, and all of it is below the byte limit. -/
def ListsAtOnce (overflow : Overflow) (handle : NfsFh3) (directory : List DirEntry) (turn : Turn) : Prop :=
  ∃ dirid attributes count result limit,
    [⟨.fhToId handle, .ok dirid⟩, ⟨.getattr dirid, attributes⟩, ⟨.readdirSimple dirid count, .ok result⟩] <+:
      turn.dialogue ∧
    result.isEnd = true ∧ maxBytesAllowed overflow turn.dircount = .ok limit ∧
    (directory = [] ∨ 28 + (pageHead (postOpAttr attributes) (dirversion attributes)).length +
      (directory.flatMap fun entry => entryBytes (sentEntry entry)).length < limit)

/-- A page of `READDIR` is written to the end just when it is below the limit. -/
theorem Filled.all_iff {limit : Nat} {dircount : Nat} {written : List Entry3}
    (h : Filled Sends Entry3.name (fun bytes _ => bytes < limit) (page.map DirEntry.simple) counter dircount trace written
      counter' all) :
    all = true ↔ page = [] ∨ counter.count + (page.flatMap fun entry => entryBytes (sentEntry entry)).length < limit := by
  induction page generalizing counter dircount trace written with
  | nil =>
    cases h
    simp
  | cons entry _ ih =>
    rw [List.flatMap_cons, List.length_append]
    cases h with
    | stop hmade _ hfull =>
      obtain ⟨-, rfl⟩ := hmade
      have hge : ¬ (entryBytes (sentEntry entry)).length + counter'.count < limit := of_decide_eq_false hfull
      refine iff_of_false Bool.false_ne_true fun hfits => ?_
      rcases hfits with hnil | hlt
      · cases hnil
      · omega
    | next hmade _ hallows hrest =>
      obtain ⟨-, rfl⟩ := hmade
      have hlt : (entryBytes (sentEntry entry)).length + counter.count < limit := of_decide_eq_true hallows
      have hcount : (counter.write (entryBytes (sentEntry entry))).count =
          counter.count + (entryBytes (sentEntry entry)).length := rfl
      rw [ih hrest]
      constructor
      · rintro (rfl | hrest)
        · right
          rw [List.flatMap_nil, List.length_nil]
          omega
        · right
          rw [← Nat.add_assoc]
          exact hrest
      · rintro (hnil | hrest)
        · cases hnil
        · right
          rw [← Nat.add_assoc] at hrest
          exact hrest

/-- A reply of `READDIR` starts from the beginning, whatever the cookie. -/
theorem Turn.Valid.readdir (hhandle : Fits (2 ^ 32) handle) (h : turn.Valid overflow false handle dirid directory) :
    turn.Delivers false directory ∧ (turn.eof = true ↔ ListsAtOnce overflow handle directory turn) := by
  have hends := h.ends
  rw [Turn.arguments, if_neg Bool.false_ne_true, Arguments.spell, ← List.append_nil (spell _)] at hends
  have hfits : Fits (2 ^ 32) (READDIR3args.mk handle turn.cookie turn.verifier turn.dircount) :=
    ⟨hhandle, trivial, trivial, trivial⟩
  have hlisted := (Handles.readdir hfits []).ensures.ends hends fun _ _ => trivial
  obtain ⟨attributes, maxBytes, result, trace, written, counter, all, hlimit, hasked, hpage, hfills, houtput⟩ :=
    hlisted.page_of_serves h.serves (by
      intro stat hserves
      obtain ⟨_, _, _, _, heq, _⟩ := Serves.readdirSimple hserves
      cases heq)
  obtain ⟨page, rest, isEnd, hdirectory, heq, hend⟩ := Serves.readdirSimple hpage
  cases heq
  have hreads := h.reads
  rw [houtput] at hreads
  have hfilled : Filled Sends Entry3.name (fun bytes _ => bytes < maxBytes) (page.map DirEntry.simple)
      (pageCounter turn.xid [] (postOpAttr attributes) (dirversion attributes)) 0 trace written counter all := hfills
  obtain ⟨hdelivers, heof⟩ := Turn.Delivers.of_page hdirectory hend hfilled (fun _ => entry3_parses)
    (fun _ _ _ => shows_entry3) hreads
  have hwhole : isEnd = true → directory = page := fun hisEnd => by rw [hdirectory, hend.mp hisEnd, List.append_nil]
  refine ⟨hdelivers, ?_⟩
  rw [heof, Bool.and_eq_true, hfilled.all_iff, count_pageCounter]
  constructor
  · rintro ⟨hbelow, hisEnd⟩
    rw [← hwhole hisEnd] at hbelow
    exact ⟨dirid, attributes, _, _, maxBytes, hasked, hisEnd, hlimit, hbelow⟩
  · rintro ⟨dirid', attributes', count, result, limit, hasked', hisEnd, hlimit', hbelow⟩
    have hequal := (List.prefix_of_prefix_length_le hasked hasked' (Nat.le_refl 3)).eq_of_length rfl
    simp only [Lister.asked, readdirLister, List.cons.injEq] at hequal
    obtain ⟨hid, hattributes, hresult, _⟩ := hequal
    cases hid
    cases hattributes
    cases hresult
    cases hlimit.symm.trans hlimit'
    rw [hwhole hisEnd] at hbelow
    exact ⟨hbelow, hisEnd⟩

end Turn

/-! ## All turns -/

section Session

variable {overflow : Overflow} {plus : Bool} {handle : NfsFh3} {dirid : Fileid3} {directory : List DirEntry}
  {turns : Nat → Turn}

theorem follows_suffix (start : Fileid3) (directory : List DirEntry) : follows start directory <:+ directory := by
  unfold follows
  split
  · exact List.suffix_rfl
  · exact (List.tail_suffix _).trans (List.dropWhile_suffix _)

/-- What is the same of related lists, element by element, is the same of the lists. -/
theorem map_eq_of_shows {κ : Type} {f : DirEntry → κ} {g : Nfs3.ReadDirEntry → κ}
    (h : ∀ entry read, Shows plus entry read → f entry = g read) (hsent : List.Forall₂ (Shows plus) sent entries) :
    sent.map f = entries.map g := by
  rw [← List.forall₂_eq_eq_eq, List.forall₂_map_left_iff, List.forall₂_map_right_iff]
  exact hsent.imp h

theorem ne_nil_of_shows (hsent : List.Forall₂ (Shows plus) sent entries) (hne : entries ≠ []) : sent ≠ [] := by
  rintro rfl
  cases hsent
  exact hne rfl

/-- The client resumes where the reply ended. -/
theorem Session.resumes (hsession : Session overflow plus handle dirid directory turns)
    (hdistinct : (directory.map DirEntry.fileid).Nodup) (hnonzero : ∀ entry ∈ directory, entry.fileid ≠ 0) {i : Nat}
    (hbefore : ∀ j < i, (turns j).eof = false) (hfollows : follows (turns i).cookie directory = sent ++ rest)
    (hsent : List.Forall₂ (Shows plus) sent (turns i).entries) (heof : (turns i).eof = false) (hrest : rest ≠ []) :
    follows (turns (i + 1)).cookie directory = rest ∧ sent ≠ [] := by
  have hleft : follows (turns i).cookie directory ≠ [] := by
    rw [hfollows]
    exact List.append_ne_nil_of_right_ne_nil sent hrest
  have hne := ne_nil_of_shows hsent (hsession.progress i hbefore hleft)
  refine ⟨?_, hne⟩
  obtain ⟨front, last, rfl⟩ := (List.eq_nil_or_concat sent).resolve_left hne
  have hcookies := congrArg List.getLast? (map_eq_of_shows (fun _ _ h => h.cookie.symm) hsent)
  rw [List.concat_eq_append] at hfollows hcookies
  rw [List.map_append, List.map_singleton, List.getLast?_concat, List.getLast?_map] at hcookies
  obtain ⟨read, hread, hcookie⟩ := Option.map_eq_some_iff.mp hcookies.symm
  rw [hsession.resume i heof read hread, hcookie]
  obtain ⟨before, hsuffix⟩ := follows_suffix (turns i).cookie directory
  have hdirectory : directory = (before ++ front) ++ last :: rest := by
    rw [← hsuffix, hfollows]
    simp only [List.append_assoc, List.singleton_append]
  refine follows_getLast hdistinct (hnonzero last ?_) hdirectory
  rw [hdirectory]
  exact List.mem_append_right _ List.mem_cons_self

/-- With `READDIRPLUS` the client ends with the directory. -/
theorem Session.readdirplus_complete (hhandle : Fits (2 ^ 32) handle)
    (hdistinct : (directory.map DirEntry.fileid).Nodup) (hnonzero : ∀ entry ∈ directory, entry.fileid ≠ 0)
    (hsession : Session overflow true handle dirid directory turns) : ListsAll true directory turns := by
  have hleft : follows (turns 0).cookie directory = directory := by rw [hsession.start, follows, if_pos rfl]
  have hpages : ∀ i, (∀ j < i, (turns j).eof = false) → ∃ sent rest, follows (turns i).cookie directory = sent ++ rest ∧
      List.Forall₂ (Shows true) sent (turns i).entries ∧ ((turns i).eof = true ↔ rest = []) ∧
      ((turns i).eof = false → follows (turns (i + 1)).cookie directory = rest ∧ sent ≠ []) := by
    intro i hbefore
    obtain ⟨sent, rest, hfollows, hsent, heof⟩ := (hsession.valid i hbefore).readdirplus hhandle
    refine ⟨sent, rest, hfollows, hsent, heof, fun hmore => ?_⟩
    have hrest : rest ≠ [] := fun hnil => Bool.false_ne_true (hmore.symm.trans (heof.mpr hnil))
    exact hsession.resumes hdistinct hnonzero hbefore hfollows hsent hmore hrest
  have hcomplete := pages_complete hpages
  rw [hleft] at hcomplete
  exact hcomplete

/-- With `READDIR` it does not, if the first reply does not have all of it: the second one starts over. -/
theorem Session.readdir_incomplete (hhandle : Fits (2 ^ 32) handle)
    (hdistinct : (directory.map DirEntry.fileid).Nodup) (hnonzero : ∀ entry ∈ directory, entry.fileid ≠ 0)
    (hsession : Session overflow false handle dirid directory turns) (heof : (turns 0).eof = false) :
    ¬ ListsAll false directory turns := by
  rintro ⟨k, hk, -, hall⟩
  have hnone : ∀ j < 0, (turns j).eof = false := fun _ hlt => absurd hlt (Nat.not_lt_zero _)
  have hone : ∀ j < 1, (turns j).eof = false := fun j hlt => Nat.lt_one_iff.mp hlt ▸ heof
  have hleft : follows (turns 0).cookie directory = directory := by rw [hsession.start, follows, if_pos rfl]
  obtain ⟨⟨sent, rest, hdirectory, hsent, hend⟩, -⟩ := (hsession.valid 0 hnone).readdir hhandle
  have hrest : rest ≠ [] := fun hnil => Bool.false_ne_true (heof.symm.trans (hend.mpr hnil))
  obtain ⟨hnext, hne⟩ := hsession.resumes hdistinct hnonzero hnone (hleft.trans hdirectory) hsent heof hrest
  obtain ⟨⟨sent', rest', hdirectory', hsent', -⟩, -⟩ := (hsession.valid 1 hone).readdir hhandle
  have hne' := ne_nil_of_shows hsent' (hsession.progress 1 hone (by rwa [hnext]))
  -- both replies start with the first entry of the directory
  obtain ⟨entry, sent, rfl⟩ := List.exists_cons_of_ne_nil hne
  obtain ⟨entry', sent', rfl⟩ := List.exists_cons_of_ne_nil hne'
  obtain ⟨rfl, -⟩ := List.cons_eq_cons.mp (hdirectory.symm.trans hdirectory')
  obtain ⟨k, rfl⟩ := Nat.exists_eq_succ_of_ne_zero fun hzero => Bool.false_ne_true (heof.symm.trans (hzero ▸ hk))
  have hids := map_eq_of_shows (fun _ _ h => h.fileId.symm) hall
  have hfirst := map_eq_of_shows (fun _ _ h => h.fileId.symm) hsent
  have hsecond := map_eq_of_shows (fun _ _ h => h.fileId.symm) hsent'
  rw [hids, List.range_succ_eq_map, List.range_succ_eq_map, List.flatMap_cons, List.map_cons, List.flatMap_cons,
    List.map_append, List.map_append, ← hfirst, ← hsecond, List.map_cons, List.map_cons, List.nodup_append] at hdistinct
  exact hdistinct.2.2 _ List.mem_cons_self _ (List.mem_append_left _ List.mem_cons_self) rfl

end Session

/-- The client ends with the directory, if it lists with `READDIRPLUS` or the first reply has all of it, and only
then. -/
theorem listing_complete_iff {overflow : Overflow} {plus : Bool} {handle : NfsFh3} {dirid : Fileid3}
    {directory : List DirEntry} {turns : Nat → Turn} (hhandle : Fits (2 ^ 32) handle)
    (hdistinct : (directory.map DirEntry.fileid).Nodup) (hnonzero : ∀ entry ∈ directory, entry.fileid ≠ 0)
    (hsession : Session overflow plus handle dirid directory turns) :
    ListsAll plus directory turns ↔ plus = true ∨ ListsAtOnce overflow handle directory (turns 0) := by
  cases plus with
  | true => exact iff_of_true (hsession.readdirplus_complete hhandle hdistinct hnonzero) (.inl rfl)
  | false =>
    have hfirst := (hsession.valid 0 fun _ hlt => absurd hlt (Nat.not_lt_zero _)).readdir hhandle
    rw [or_iff_right Bool.false_ne_true, ← hfirst.2]
    constructor
    · intro hall
      by_contra hmore
      exact hsession.readdir_incomplete hhandle hdistinct hnonzero (Bool.eq_false_iff.mpr hmore) hall
    · intro heof
      obtain ⟨sent, rest, hdirectory, hsent, hend⟩ := hfirst.1
      refine ⟨0, heof, fun _ hlt => absurd hlt (Nat.not_lt_zero _), ?_⟩
      rw [hdirectory, hend.mp heof, List.append_nil]
      simpa using hsent

/-! ## Two files

A directory with two files, listed with `READDIR`. The file system answers with both. -/

def twoFiles : List DirEntry := [⟨2, [97], fileChangedAt ⟨0, 0⟩⟩, ⟨3, [98], fileChangedAt ⟨0, 0⟩⟩]

/-- A request whose reply has the given entries. -/
def twoFilesTurn (cookie : Cookie3) (dircount : Count3) (listed : List DirEntry) (eof : Bool) : Turn where
  xid := 7
  cookie := cookie
  verifier := zeroVerifier
  dircount := dircount
  maxcount := 0
  dialogue := [⟨.fhToId ⟨[1]⟩, .ok 1⟩, ⟨.getattr 1, .error .io⟩,
    ⟨.readdirSimple 1 (dircount / 16).toNat, .ok ⟨twoFiles.map DirEntry.simple, true⟩⟩]
  streams := ⟨[], resultBytes 7 .ok (pageBytes none zeroVerifier (listed.map sentEntry) eof)⟩
  dirAttributes := none
  version := zeroVerifier
  entries := listed.map fun entry => (sentEntry entry).received
  eof := eof

theorem twoFilesTurn_valid {cookie : Cookie3} {dircount : Count3} {listed : List DirEntry} {eof : Bool}
    (hcount : 2 ≤ (dircount / 16).toNat) (hshort : ∀ entry ∈ listed, entry.name.length < 2 ^ 32 - 1)
    (hends : ((nfsproc3Readdir .panics 7).run ⟨spell (READDIR3args.mk ⟨[1]⟩ cookie zeroVerifier dircount), []⟩).Ends
      (twoFilesTurn cookie dircount listed eof).dialogue (.ok ((), (twoFilesTurn cookie dircount listed eof).streams))) :
    (twoFilesTurn cookie dircount listed eof).Valid .panics false ⟨[1]⟩ 1 twoFiles where
  ends := hends
  serves := by
    intro exchange hmem
    simp only [twoFilesTurn, List.mem_cons, List.not_mem_nil, or_false] at hmem
    obtain rfl | rfl | rfl := hmem
    · exact fun _ => rfl
    · trivial
    · refine ⟨[⟨.readdir 1 0 (dircount / 16).toNat, .ok ⟨twoFiles, true⟩⟩], .ask (.done _), ?_⟩
      intro exchange hmem
      cases List.mem_singleton.mp hmem
      exact fun _ => ⟨twoFiles, [], true, rfl, hcount, rfl, by simp⟩
  reads := by
    have hpage : Parses (readDir false)
        (spell Nfsstat3.ok ++ pageBytes none zeroVerifier (listed.map sentEntry) eof)
        (.ok none zeroVerifier ((listed.map sentEntry).map Entry3.received) eof) := by
      apply page_parses
      intro made hmem
      obtain ⟨entry, hentry, rfl⟩ := List.mem_map.mp hmem
      exact entry3_parses ⟨trivial, hshort entry hentry, trivial⟩
    rw [List.map_map] at hpage
    exact readReply_of_parses_spell hpage

-- the dialogues are followed by evaluating the handler
set_option maxRecDepth 2000

theorem listing_complete_at_once : ListsAll false twoFiles fun _ => twoFilesTurn 0 4096 twoFiles true := by
  have hvalid : (twoFilesTurn 0 4096 twoFiles true).Valid .panics false ⟨[1]⟩ 1 twoFiles :=
    twoFilesTurn_valid (by decide) (by decide) (.ask (.ask (.ask (.done _))))
  have hsession : Session .panics false ⟨[1]⟩ 1 twoFiles fun _ => twoFilesTurn 0 4096 twoFiles true :=
    ⟨rfl, fun _ _ => hvalid, fun _ heof => (by cases heof), fun _ _ _ => List.cons_ne_nil _ _⟩
  have hhandle : Fits (2 ^ 32) (NfsFh3.mk [1]) := show 1 < 2 ^ 32 by decide
  refine (listing_complete_iff hhandle (by decide) (by decide) hsession).mpr (.inr ?_)
  exact ⟨1, .error .io, 256, _, 3968, List.prefix_rfl, rfl, rfl, .inr (by decide)⟩

/-- The first reply has room for one file, the second for both: the first file is listed twice. -/
def restarting : Nat → Turn
  | 0 => twoFilesTurn 0 200 [⟨2, [97], fileChangedAt ⟨0, 0⟩⟩] false
  | _ + 1 => twoFilesTurn 2 4096 twoFiles true

/-- A directory that takes two pages: the second `READDIR` starts over, and entries come twice. -/
theorem readdir_lists_twice : Session .panics false ⟨[1]⟩ 1 twoFiles restarting ∧ ¬ ListsAll false twoFiles restarting := by
  constructor
  · refine ⟨rfl, fun i _ => ?_, fun i heof last hlast => ?_, fun i _ _ => ?_⟩
    · cases i with
      | zero | succ => exact twoFilesTurn_valid (by decide) (by decide) (.ask (.ask (.ask (.done _))))
    · cases i with
      | zero =>
        cases hlast
        rfl
      | succ => cases heof
    · cases i with
      | zero | succ => exact List.cons_ne_nil _ _
  · rintro ⟨k, hk, hbefore, hall⟩
    rcases k with _ | _ | k
    · cases hk
    · exact absurd hall.length_eq (by decide)
    · cases hbefore 1 (by omega)

end NfsEmbed.Legacy
