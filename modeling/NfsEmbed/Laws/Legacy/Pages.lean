import NfsEmbed.Laws.Legacy.Handlers

/-!
# Pages of a directory listing

The loop over a page writes entries until one does not fit. `Filled` says what it wrote and where it
stopped; everything else about a page follows from that. The listing around the loop adds the header of the
reply, the attributes of the directory, the verifier, and the two flags at the end.
-/

namespace NfsEmbed.Legacy

open Lib Rpc Client
open Prog (Ensures)

variable {count : Count3} {dir : NfsFh3} {dirid : Fileid3} {attributes : Except Nfsstat3 Fattr3}

variable {allows : Nat → Nat → Bool} {xid : UInt32} {dirAttr : PostOpAttr} {version : Cookieverf3} {input : Bytes}
  {overflow : Overflow} {dialogue : Dialogue} {maxBytes : Nat}

/-! ## The counter -/

namespace WriteCounter

theorem emit_eq {writer : Writer Unit} {w : Bytes} (h : Writes writer True w) (counter : WriteCounter) :
    counter.emit writer = .ok (counter.write w) := by
  unfold emit
  rw [h.run_nil trivial]
  rfl

theorem write_nil (counter : WriteCounter) : counter.write [] = counter := by
  unfold write
  rw [List.append_nil, List.length_nil, Nat.add_zero]

theorem write_write (counter : WriteCounter) (first second : Bytes) :
    (counter.write first).write second = counter.write (first ++ second) := by
  simp [write, Nat.add_assoc]

end WriteCounter

/-! ## Entries -/

section Entries

variable {ε η : Type} [Xdr η] [LawfulXdr η]

/-- An entry behind the flag that it follows. -/
def entryBytes (entry : η) : Bytes := boolBytes true ++ spell entry

theorem entryBuffer_of_fits {entry : η} (h : Fits (2 ^ 32 - 1) entry) : entryBuffer entry = .ok (entryBytes entry) := by
  have hwrites := (serialize_writes true).seq (serialize_writes entry)
  unfold entryBuffer
  rw [hwrites.run_nil ⟨trivial, h⟩]
  rfl

theorem entryBuffer_of_not_fits {entry : η} (h : ¬ Fits (2 ^ 32 - 1) entry) : ∃ panic, entryBuffer entry = .error panic := by
  have hwrites := (serialize_writes true).seq (serialize_writes entry)
  obtain ⟨panic, hrun⟩ := (hwrites []).2 fun hboth => h hboth.2
  refine ⟨panic, ?_⟩
  unfold entryBuffer
  rw [hrun]
  rfl

/-- The loop over a page: what it asks for, the entries it writes, and whether these are all. `Made` relates an entry
and what was asked for it to the entry as it is sent. -/
inductive Filled (Made : ε → Dialogue → η → Prop) (name : η → Filename3) (allows : Nat → Nat → Bool) :
    List ε → WriteCounter → Nat → Dialogue → List η → WriteCounter → Bool → Prop
  | finish {counter : WriteCounter} {dircount : Nat} : Filled Made name allows [] counter dircount [] [] counter true
  | stop {entry : ε} {entries : List ε} {counter : WriteCounter} {dircount : Nat} {piece : Dialogue} {made : η}
      (hmade : Made entry piece made) (hfits : Fits (2 ^ 32 - 1) made)
      (hfull : allows ((entryBytes made).length + counter.count) (addedDircount (name made) + dircount) = false) :
    Filled Made name allows (entry :: entries) counter dircount piece [] counter false
  | next {entry : ε} {entries : List ε} {counter counter' : WriteCounter} {dircount : Nat} {piece trace : Dialogue}
      {made : η} {written : List η} {all : Bool} (hmade : Made entry piece made) (hfits : Fits (2 ^ 32 - 1) made)
      (hallows : allows ((entryBytes made).length + counter.count) (addedDircount (name made) + dircount) = true)
      (hrest : Filled Made name allows entries (counter.write (entryBytes made)) (dircount + addedDircount (name made))
        trace written counter' all) :
    Filled Made name allows (entry :: entries) counter dircount (piece ++ trace) (made :: written) counter' all

/-- The loop comes to an entry that cannot be serialised. -/
inductive Broken (Made : ε → Dialogue → η → Prop) (name : η → Filename3) (allows : Nat → Nat → Bool) :
    List ε → WriteCounter → Nat → Dialogue → Prop
  | here {entry : ε} {entries : List ε} {counter : WriteCounter} {dircount : Nat} {piece : Dialogue} {made : η}
      (hmade : Made entry piece made) (hlong : ¬ Fits (2 ^ 32 - 1) made) :
    Broken Made name allows (entry :: entries) counter dircount piece
  | next {entry : ε} {entries : List ε} {counter : WriteCounter} {dircount : Nat} {piece trace : Dialogue} {made : η}
      (hmade : Made entry piece made)
      (hallows : allows ((entryBytes made).length + counter.count) (addedDircount (name made) + dircount) = true)
      (hrest : Broken Made name allows entries (counter.write (entryBytes made)) (dircount + addedDircount (name made))
        trace) :
    Broken Made name allows (entry :: entries) counter dircount (piece ++ trace)

/-- Of the entries that are ready to be sent, those that fit, and with `more` the first that does not. -/
def fitting (name : η → Filename3) (allows : Nat → Nat → Bool) (more : Bool) : List η → Nat → Nat → List η
  | [], _, _ => []
  | made :: rest, bytes, dircount =>
    if allows ((entryBytes made).length + bytes) (addedDircount (name made) + dircount) then
      made :: fitting name allows more rest (bytes + (entryBytes made).length) (dircount + addedDircount (name made))
    else if more then [made] else []

section Loop

variable {Made : ε → Dialogue → η → Prop} {name : η → Filename3} {allows : Nat → Nat → Bool} {entries : List ε}
  {counter counter' : WriteCounter} {dircount : Nat} {trace : Dialogue} {written : List η} {all : Bool}

namespace Filled

/-- The counter has counted what was written. -/
theorem counter_eq (h : Filled Made name allows entries counter dircount trace written counter' all) :
    counter' = counter.write (written.flatMap entryBytes) := by
  induction h with
  | finish | stop => exact (WriteCounter.write_nil _).symm
  | next _ _ _ _ ih => rw [ih, WriteCounter.write_write, List.flatMap_cons]

/-- Everything that was written can be serialised. -/
theorem fits (h : Filled Made name allows entries counter dircount trace written counter' all) :
    ∀ made ∈ written, Fits (2 ^ 32 - 1) made := by
  induction h with
  | finish | stop => exact fun _ hmem => absurd hmem List.not_mem_nil
  | next _ hfits _ _ ih => exact List.forall_mem_cons.mpr ⟨hfits, ih⟩

/-- A front part of the page is written, and all of it if the loop says so. -/
theorem front (h : Filled Made name allows entries counter dircount trace written counter' all) :
    ∃ sent rest, entries = sent ++ rest ∧ List.Forall₂ (fun entry made => ∃ piece, Made entry piece made) sent written ∧
      (all = true ↔ rest = []) := by
  induction h with
  | finish => exact ⟨[], [], rfl, .nil, by simp⟩
  | @stop entry entries => exact ⟨[], entry :: entries, rfl, .nil, by simp⟩
  | @next entry _ _ _ _ _ _ _ _ _ hmade _ _ _ ih =>
    obtain ⟨sent, rest, rfl, hsent, hall⟩ := ih
    exact ⟨entry :: sent, rest, rfl, .cons ⟨_, hmade⟩ hsent, hall⟩

/-- What is asked is asked for an entry. -/
theorem forall_trace {P : Exchange fileSystemSignature → Prop}
    (hmade : ∀ entry piece made, Made entry piece made → ∀ exchange ∈ piece, P exchange)
    (h : Filled Made name allows entries counter dircount trace written counter' all) : ∀ exchange ∈ trace, P exchange := by
  induction h with
  | finish => exact List.forall_mem_nil _
  | stop hpiece => exact hmade _ _ _ hpiece
  | next hpiece _ _ _ ih => exact List.forall_mem_append.mpr ⟨hmade _ _ _ hpiece, ih⟩

/-- The last entry that is written was allowed with everything up to it. -/
theorem allowed (h : Filled Made name allows entries counter dircount trace written counter' all) (hne : written ≠ []) :
    ∃ count, allows counter'.count count = true := by
  induction h with
  | finish | stop => exact absurd rfl hne
  | @next _ _ _ _ _ _ _ _ written _ _ _ hallows hrest ih =>
    cases written with
    | nil =>
      have heq := hrest.counter_eq
      rw [List.flatMap_nil, WriteCounter.write_nil] at heq
      rw [Nat.add_comm] at hallows
      subst heq
      exact ⟨_, hallows⟩
    | cons => exact ih (List.cons_ne_nil _ _)

end Filled

/-- The entries as they are sent, from what was asked for them. -/
structure Makes (Made : ε → Dialogue → η → Prop) (makes : List ε → Dialogue → List η) : Prop where
  nil : makes [] [] = []
  cons : ∀ {entry piece made}, Made entry piece made → ∀ entries trace,
    makes (entry :: entries) (piece ++ trace) = made :: makes entries trace

variable {makes : List ε → Dialogue → List η}

/-- What is written is what fits, and no entry up to the first that does not is too long. -/
theorem Filled.fitting_eq (hmakes : Makes Made makes)
    (h : Filled Made name allows entries counter dircount trace written counter' all) :
    fitting name allows false (makes entries trace) counter.count dircount = written ∧
      ∀ made ∈ fitting name allows true (makes entries trace) counter.count dircount, Fits (2 ^ 32 - 1) made := by
  induction h with
  | finish =>
    rw [hmakes.nil]
    exact ⟨rfl, List.forall_mem_nil _⟩
  | @stop _ entries _ _ _ _ hmade hfits hfull =>
    have hcons := hmakes.cons hmade entries []
    rw [List.append_nil] at hcons
    rw [hcons]
    simp only [fitting, hfull, Bool.false_eq_true, if_false, if_true]
    exact ⟨trivial, List.forall_mem_singleton.mpr hfits⟩
  | next hmade hfits hallows _ ih =>
    rw [hmakes.cons hmade]
    simp only [fitting, hallows, if_true]
    exact ⟨congrArg _ ih.1, List.forall_mem_cons.mpr ⟨hfits, ih.2⟩⟩

theorem Broken.fitting_long (hmakes : Makes Made makes) (h : Broken Made name allows entries counter dircount trace) :
    ∃ made ∈ fitting name allows true (makes entries trace) counter.count dircount, ¬ Fits (2 ^ 32 - 1) made := by
  induction h with
  | @here _ entries _ _ _ made hmade hlong =>
    have hcons := hmakes.cons hmade entries []
    rw [List.append_nil] at hcons
    rw [hcons, fitting]
    refine ⟨made, ?_, hlong⟩
    split <;> exact List.mem_cons_self
  | @next _ _ _ _ _ _ _ hmade hallows _ ih =>
    obtain ⟨made', hmem, hlong⟩ := ih
    rw [hmakes.cons hmade, fitting, if_pos hallows]
    exact ⟨made', List.mem_cons_of_mem _ hmem, hlong⟩

end Loop

/-- Preparing an entry succeeds, whatever the file system answers. -/
def Prepares (prepare : ε → FileSystemM η) (Made : ε → Dialogue → η → Prop) : Prop :=
  ∀ entry history, Ensures (fun _ _ => True) (fun _ _ => True)
    (fun dialogue result => ∃ piece made, dialogue = history ++ piece ∧ result = .ok made ∧ Made entry piece made) history
    (prepare entry)

/-- What the loop ends with: a page, or a panic over an entry that cannot be serialised. -/
theorem writeEntries_ensures {prepare : ε → FileSystemM η} {Made : ε → Dialogue → η → Prop} {name : η → Filename3}
    (hprepare : Prepares prepare Made) (entries : List ε) :
    ∀ (history : Dialogue) (counter : WriteCounter) (dircount : Nat), Ensures (fun _ _ => True) (fun _ _ => True)
      (fun dialogue result => ∃ trace, dialogue = history ++ trace ∧
        ((∃ written counter' all, result = .ok (counter', all) ∧
          Filled Made name allows entries counter dircount trace written counter' all) ∨
        (∃ fault, result = .error fault) ∧ Broken Made name allows entries counter dircount trace))
      history (writeEntries prepare name allows entries counter dircount) := by
  induction entries with
  | nil => exact fun history counter dircount => ⟨[], (List.append_nil _).symm, .inl ⟨[], counter, true, rfl, .finish⟩⟩
  | cons entry _ ih =>
    intro history counter dircount
    refine (hprepare entry history).bind ?_ ?_
    · rintro _ made ⟨piece, _, rfl, heq, hmade⟩
      cases heq
      by_cases hfits : Fits (2 ^ 32 - 1) made
      · rw [entryBuffer_of_fits hfits]
        show Ensures _ _ _ _ (if _ then _ else _)
        split
        next hallows =>
          refine (ih (history ++ piece) _ _).mono (fun _ _ => id) (fun _ _ => id) ?_
          rintro _ result ⟨trace, rfl, hends⟩
          refine ⟨piece ++ trace, List.append_assoc _ _ _, ?_⟩
          obtain ⟨written, counter', all, rfl, hfilled⟩ | ⟨hfault, hbroken⟩ := hends
          · exact .inl ⟨_, _, _, rfl, .next hmade hfits hallows hfilled⟩
          · exact .inr ⟨hfault, .next hmade hallows hbroken⟩
        next hfull => exact ⟨piece, rfl, .inl ⟨[], _, _, rfl, .stop hmade hfits (Bool.eq_false_iff.mpr hfull)⟩⟩
      · obtain ⟨panic, hpanic⟩ := entryBuffer_of_not_fits hfits
        rw [hpanic]
        exact ⟨piece, rfl, .inr ⟨⟨_, rfl⟩, .here hmade hfits⟩⟩
    · rintro dialogue fault ⟨_, _, _, heq, _⟩
      cases heq

/-! ## Listings -/

/-- What a page starts with. -/
def pageHead (dirAttr : PostOpAttr) (version : Cookieverf3) : Bytes := spell dirAttr ++ spell version

/-- What it ends with: no entry follows, and whether this is the end of the directory. -/
def pageTail (eof : Bool) : Bytes := boolBytes false ++ boolBytes eof

/-- The success arm of a listing. -/
def pageBytes (dirAttr : PostOpAttr) (version : Cookieverf3) (written : List η) (eof : Bool) : Bytes :=
  pageHead dirAttr version ++ (written.flatMap entryBytes ++ pageTail eof)

/-- The counter when the loop starts. -/
def pageCounter (xid : UInt32) (output : Bytes) (dirAttr : PostOpAttr) (version : Cookieverf3) : WriteCounter :=
  (WriteCounter.new output).write (resultBytes xid .ok (pageHead dirAttr version))

theorem count_pageCounter (xid : UInt32) (output : Bytes) (dirAttr : PostOpAttr) (version : Cookieverf3) :
    (pageCounter xid output dirAttr version).count = 28 + (pageHead dirAttr version).length := by
  simp only [pageCounter, WriteCounter.new, WriteCounter.write, length_resultBytes, Nat.zero_add]

/-- A page is the header, the entries that fit, and two flags. -/
theorem Handles.listing {Q : Dialogue → Outcome → Prop} {history : Dialogue} {prepare : ε → FileSystemM η}
    {Made : ε → Dialogue → η → Prop} {name : η → Filename3} {entries : List ε} {isEnd : Bool} {output : Bytes}
    (hprepare : Prepares prepare Made) (hok : ∀ trace written counter all,
      Filled Made name allows entries (pageCounter xid output dirAttr version) 0 trace written counter all →
      Q (history ++ trace)
        (.ok ((), ⟨input, output ++ resultBytes xid .ok (pageBytes dirAttr version written (all && isEnd))⟩)))
    (hpanic : ∀ trace fault, Broken Made name allows entries (pageCounter xid output dirAttr version) 0 trace →
      Q (history ++ trace) (.error fault)) :
    Handles Q history (Legacy.listing xid prepare name allows dirAttr version entries isEnd) ⟨input, output⟩ := by
  have hhead := reply_writes xid .ok ((serialize_writes_total dirAttr).seq (serialize_writes_total version))
  rw [and_self] at hhead
  constructor
  unfold Legacy.listing
  simp only [StateT.run]
  rw [WriteCounter.emit_eq hhead]
  refine (writeEntries_ensures hprepare entries history _ 0).bind ?_ ?_
  · rintro _ _ ⟨trace, rfl, ⟨written, counter, all, heq, hfilled⟩ | ⟨⟨fault, heq⟩, -⟩⟩
    · cases heq
      have htail := (serialize_writes_total false).seq (serialize_writes_total (if all then isEnd else false))
      rw [and_self] at htail
      dsimp only
      rw [WriteCounter.emit_eq htail]
      have hinner : (counter.write (spell false ++ spell (if all then isEnd else false))).inner =
          output ++ resultBytes xid .ok (pageBytes dirAttr version written (all && isEnd)) := by
        rw [hfilled.counter_eq]
        simp only [WriteCounter.new, resultBytes, WriteCounter.write, pageBytes, pageHead, pageTail, List.append_assoc]
        cases all <;> rfl
      have hdone := hok trace written counter all hfilled
      rw [← hinner] at hdone
      exact hdone
    · cases heq
  · rintro _ fault ⟨trace, rfl, ⟨written, counter, all, heq, -⟩ | ⟨-, hbroken⟩⟩
    · cases heq
    · exact hpanic trace fault hbroken

/-- A client reads the page back. -/
theorem page_parses {plus : Bool} {received : η → Nfs3.ReadDirEntry} {written : List η} {eof : Bool}
    (h : ∀ made ∈ written, Parses (nextReaddirEntry plus) (entryBytes made) (some (received made))) :
    Parses (Client.readDir plus) (spell Nfsstat3.ok ++ pageBytes dirAttr version written eof)
      (.ok (dirAttr.map Fattr3.received) version (written.map received) eof) := by
  have hstop : Parses (nextReaddirEntry plus) (spell false) none :=
    (boolean_parses_spell false).bind_nil (Parses.pure none)
  have hpos : ∀ made ∈ written, entryBytes made ≠ [] := by
    intro made _ hnil
    have hlength : (boolBytes true).length = 4 := length_boolBytes true
    rw [(List.append_eq_nil_iff.mp hnil).1] at hlength
    exact absurd hlength (by decide)
  have hentries := Parser.chainAll_parses hstop h hpos
  apply union_parses_ok
  have hassoc : pageBytes dirAttr version written eof =
      spell dirAttr ++ (spell version ++ ((written.flatMap entryBytes ++ spell false) ++ spell eof)) := by
    simp only [pageBytes, pageHead, pageTail, List.append_assoc]
    rfl
  rw [hassoc]
  exact (postOpAttr_parses dirAttr).bind <| (verifier_parses_spell version).bind <| hentries.bind <|
    (boolean_parses_spell eof).map _

end Entries

/-! ## The two kinds of entries -/

def Entry3.received (entry : Entry3) : Nfs3.ReadDirEntry := ⟨entry.fileid, entry.name, entry.cookie, .basic⟩

def Entryplus3.received (entry : Entryplus3) : Nfs3.ReadDirEntry :=
  ⟨entry.fileid, entry.name, entry.cookie,
    .plus (entry.nameAttributes.map Fattr3.received) (entry.nameHandle.map NfsFh3.data)⟩

theorem entry3_parses {entry : Entry3} (h : Fits (2 ^ 32 - 1) entry) :
    Parses (nextReaddirEntry false) (entryBytes entry) (some entry.received) := by
  refine (boolean_parses_spell true).bind (Parses.map ?_ some)
  exact (u64_parses_spell _).bind <| (payload_parses_spell h.2.1).bind <| (u64_parses_spell _).map _

theorem entryplus3_parses {entry : Entryplus3} (h : Fits (2 ^ 32 - 1) entry) :
    Parses (nextReaddirEntry true) (entryBytes entry) (some entry.received) := by
  have hextension : Parses (readdirExtension true) (spell entry.nameAttributes ++ spell entry.nameHandle)
      (.plus (entry.nameAttributes.map Fattr3.received) (entry.nameHandle.map NfsFh3.data)) :=
    (postOpAttr_parses _).bind ((postOpFh_parses h.2.2.2.2).map _)
  refine (boolean_parses_spell true).bind (Parses.map ?_ some)
  exact (u64_parses_spell _).bind <| (payload_parses_spell h.2.1).bind <| (u64_parses_spell _).bind <|
    hextension.map _

/-- An entry is sent under its file id. Nothing is asked for it. -/
def Sends (entry : DirEntrySimple) (piece : Dialogue) (made : Entry3) : Prop :=
  piece = [] ∧ made = ⟨entry.fileid, entry.name, entry.fileid⟩

/-- With the handle the file system gives for it. -/
def SendsPlus (entry : DirEntry) (piece : Dialogue) (made : Entryplus3) : Prop :=
  ∃ handle, piece = [⟨.idToFh entry.fileid, handle⟩] ∧
    made = ⟨entry.fileid, entry.name, entry.fileid, some entry.attr, some handle⟩

/-- The entries of a simple listing as they are sent. -/
def made (entries : List DirEntrySimple) (_ : Dialogue) : List Entry3 :=
  entries.map fun entry => ⟨entry.fileid, entry.name, entry.fileid⟩

/-- The entries whose handles were asked for. -/
def madePlus : List DirEntry → Dialogue → List Entryplus3
  | entry :: entries, ⟨.idToFh _, handle⟩ :: trace =>
    ⟨entry.fileid, entry.name, entry.fileid, some entry.attr, some handle⟩ :: madePlus entries trace
  | _, _ => []

theorem made_makes : Makes Sends made where
  nil := rfl
  cons := by
    rintro entry _ _ ⟨rfl, rfl⟩ entries trace
    rfl

theorem madePlus_makes : Makes SendsPlus madePlus where
  nil := rfl
  cons := by
    rintro entry _ _ ⟨handle, rfl, rfl⟩ entries trace
    rfl

/-! ## The byte limit -/

/-- A count that covers the allowance. -/
theorem maxBytesAllowed_of_le (h : 128 ≤ count.toNat) : maxBytesAllowed overflow count = .ok (count.toNat - 128) := by
  unfold maxBytesAllowed usizeSub
  rw [if_pos h]

theorem maxBytesAllowed_panics (h : ¬ 128 ≤ count.toNat) : ∃ panic, maxBytesAllowed .panics count = .error panic := by
  unfold maxBytesAllowed usizeSub
  rw [if_neg h]
  exact ⟨_, rfl⟩

/-- A smaller one, where arithmetic wraps. -/
theorem maxBytesAllowed_wraps (h : ¬ 128 ≤ count.toNat) :
    maxBytesAllowed .wraps count = .ok (count.toNat + usizeBound - 128) := by
  unfold maxBytesAllowed usizeSub
  rw [if_neg h]

/-- The file system does not know the handle of the directory, which it is asked for first. -/
def HandleRefused (dir : NfsFh3) (dialogue : Dialogue) : Prop :=
  ∃ stat, dialogue.head? = some ⟨.fhToId dir, .error stat⟩

theorem not_handleRefused : ¬ HandleRefused dir (⟨.fhToId dir, .ok dirid⟩ :: dialogue) := by
  rintro ⟨stat, heq⟩
  cases heq

/-- How the start of a listing ends. -/
inductive Opens (overflow : Overflow) (xid : UInt32) (dir : NfsFh3) (count : Count3) (input : Bytes) :
    Dialogue → Except Fault (Option Opened × Streams) → Prop
  | refused (stat : Nfsstat3) : Opens overflow xid dir count input [⟨.fhToId dir, .error stat⟩]
      (.ok (none, ⟨input, resultBytes xid stat (spell (none : PostOpAttr))⟩))
  | underflow (dirid : Fileid3) (attributes : Except Nfsstat3 Fattr3) {panic : Panic}
      (hlimit : maxBytesAllowed overflow count = .error panic) :
    Opens overflow xid dir count input [⟨.fhToId dir, .ok dirid⟩, ⟨.getattr dirid, attributes⟩] (.error (.panic panic))
  | opened (dirid : Fileid3) (attributes : Except Nfsstat3 Fattr3) {maxBytes : Nat}
      (hlimit : maxBytesAllowed overflow count = .ok maxBytes) :
    Opens overflow xid dir count input [⟨.fhToId dir, .ok dirid⟩, ⟨.getattr dirid, attributes⟩]
      (.ok (some ⟨dirid, attributes, maxBytes⟩, ⟨input, []⟩))

/-- How a listing starts. -/
theorem openListing_ensures (overflow : Overflow) (xid : UInt32) (dir : NfsFh3) (count : Count3) (input : Bytes) :
    Ensures (fun _ _ => True) (fun _ _ => True) (Opens overflow xid dir count input) []
      ((openListing overflow xid dir count).run ⟨input, []⟩) := by
  refine ⟨trivial, fun dirid _ => ?_⟩
  cases dirid with
  | error stat =>
    show Ensures _ _ _ _ ((Legacy.write (reply xid stat (serialize (none : PostOpAttr))) >>= fun _ => pure none).run _)
    rw [StateT.run_bind, write_run (reply_writes xid stat (serialize_writes_total _))]
    exact .refused stat
  | ok dirid =>
    refine ⟨trivial, fun attributes _ => ?_⟩
    show Ensures _ _ _ _ ((StateT.lift (orPanic (maxBytesAllowed overflow count)) >>= fun maxBytes =>
      pure (some (Opened.mk dirid attributes maxBytes)) : HandlerM (Option Opened)).run _)
    cases hlimit : maxBytesAllowed overflow count with
    | ok => exact .opened dirid attributes hlimit
    | error => exact .underflow dirid attributes hlimit

/-- Each of these is a way it can end. -/
theorem Opens.ends {result : Except Fault (Option Opened × Streams)}
    (h : Opens overflow xid dir count input dialogue result) :
    ((openListing overflow xid dir count).run ⟨input, []⟩).Ends dialogue result := by
  cases h with
  | refused stat =>
    refine .ask ?_
    show ((Legacy.write (reply xid stat (serialize (none : PostOpAttr))) >>= fun _ => pure none).run _ |>.Ends [] _)
    rw [StateT.run_bind, write_run (reply_writes xid stat (serialize_writes_total _))]
    exact .done _
  | underflow dirid attributes hlimit =>
    refine .ask (.ask ?_)
    show ((StateT.lift (orPanic (maxBytesAllowed overflow count)) >>= fun maxBytes =>
      pure (some (Opened.mk dirid attributes maxBytes)) : HandlerM (Option Opened)).run _).Ends [] _
    rw [hlimit]
    exact .fail _
  | opened dirid attributes hlimit =>
    refine .ask (.ask ?_)
    show ((StateT.lift (orPanic (maxBytesAllowed overflow count)) >>= fun maxBytes =>
      pure (some (Opened.mk dirid attributes maxBytes)) : HandlerM (Option Opened)).run _).Ends [] _
    rw [hlimit]
    exact .done _

/-! ## The two procedures -/

/-- What the two listings differ in: what the file system is asked, how its entries are sent, and which ones fit. -/
structure Lister (ρ ε η : Type) where
  request : Fileid3 → Except Nfsstat3 ρ → Exchange fileSystemSignature
  answer_eq : ∀ {dirid dirid' answer answer'}, request dirid answer = request dirid' answer' → answer = answer'
  entries : ρ → List ε
  isEnd : ρ → Bool
  Sent : ε → Dialogue → η → Prop
  makes : List ε → Dialogue → List η
  lawful : Makes Sent makes
  name : η → Filename3
  handle : η → PostOpFh3
  allows : Nat → Nat → Nat → Bool

def readdirLister (args : READDIR3args) : Lister ReadDirSimpleResult DirEntrySimple Entry3 where
  request dirid answer := ⟨.readdirSimple dirid (args.dircount / 16).toNat, answer⟩
  answer_eq h := by
    cases h
    rfl
  entries := ReadDirSimpleResult.entries
  isEnd := ReadDirSimpleResult.isEnd
  Sent := Sends
  makes := made
  lawful := made_makes
  name := Entry3.name
  handle _ := none
  allows maxBytes bytes _ := bytes < maxBytes

def readdirplusLister (args : READDIRPLUS3args) : Lister ReadDirResult DirEntry Entryplus3 where
  request dirid answer := ⟨.readdir dirid args.cookie (args.dircount / 16).toNat, answer⟩
  answer_eq h := by
    cases h
    rfl
  entries := ReadDirResult.entries
  isEnd := ReadDirResult.isEnd
  Sent := SendsPlus
  makes := madePlus
  lawful := madePlus_makes
  name := Entryplus3.name
  handle := Entryplus3.nameHandle
  allows maxBytes bytes dircount := bytes < maxBytes ∧ dircount < args.dircount.toNat

theorem entry3_prepares : Prepares entry3 Sends := fun _ _ => ⟨[], _, (List.append_nil _).symm, rfl, rfl, rfl⟩

theorem entryplus3_prepares : Prepares entryplus3 SendsPlus := fun _ _ =>
  ⟨trivial, fun handle _ => ⟨_, _, rfl, rfl, handle, rfl, rfl⟩⟩

section Procedures

variable {ρ ε η : Type}

/-- The dialogue of a listing up to the answer with the entries. -/
def Lister.asked (lister : Lister ρ ε η) (dir : NfsFh3) (dirid : Fileid3) (attributes : Except Nfsstat3 Fattr3)
    (answer : Except Nfsstat3 ρ) : Dialogue :=
  [⟨.fhToId dir, .ok dirid⟩, ⟨.getattr dirid, attributes⟩, lister.request dirid answer]

theorem Lister.asked_append_inj {lister : Lister ρ ε η} {dirid' : Fileid3} {attributes' : Except Nfsstat3 Fattr3}
    {answer answer' : Except Nfsstat3 ρ} {trace trace' : Dialogue}
    (h : lister.asked dir dirid attributes answer ++ trace = lister.asked dir dirid' attributes' answer' ++ trace') :
    attributes = attributes' ∧ answer = answer' ∧ trace = trace' := by
  obtain ⟨-, hrest⟩ := List.cons.inj h
  obtain ⟨hgetattr, hrest⟩ := List.cons.inj hrest
  obtain ⟨hrequest, htrace⟩ := List.cons.inj hrest
  cases hgetattr
  exact ⟨rfl, lister.answer_eq hrequest, htrace⟩

variable [Xdr η] [LawfulXdr η]

/-- A page that is sent, with the attributes of the directory. -/
def Lister.Fills (lister : Lister ρ ε η) (xid : UInt32) (attributes : Except Nfsstat3 Fattr3) (maxBytes : Nat)
    (result : ρ) : Dialogue → List η → WriteCounter → Bool → Prop :=
  Filled lister.Sent lister.name (lister.allows maxBytes) (lister.entries result)
    (pageCounter xid [] (postOpAttr attributes) (dirversion attributes)) 0

/-- A page that is not. -/
def Lister.Breaks (lister : Lister ρ ε η) (xid : UInt32) (attributes : Except Nfsstat3 Fattr3) (maxBytes : Nat)
    (result : ρ) : Dialogue → Prop :=
  Broken lister.Sent lister.name (lister.allows maxBytes) (lister.entries result)
    (pageCounter xid [] (postOpAttr attributes) (dirversion attributes)) 0

/-- Everything a listing can do. -/
inductive Listed (lister : Lister ρ ε η) (overflow : Overflow) (xid : UInt32) (dir : NfsFh3) (count : Count3)
    (rest : Bytes) : Dialogue → Outcome → Prop
  | refused (stat : Nfsstat3) :
    Listed lister overflow xid dir count rest [⟨.fhToId dir, .error stat⟩]
      (.ok ((), ⟨rest, resultBytes xid stat (spell (none : PostOpAttr))⟩))
  | underflow (dirid : Fileid3) (attributes : Except Nfsstat3 Fattr3) {panic : Panic}
      (hlimit : maxBytesAllowed overflow count = .error panic) :
    Listed lister overflow xid dir count rest [⟨.fhToId dir, .ok dirid⟩, ⟨.getattr dirid, attributes⟩]
      (.error (.panic panic))
  | failed (dirid : Fileid3) (attributes : Except Nfsstat3 Fattr3) (stat : Nfsstat3) {maxBytes : Nat}
      (hlimit : maxBytesAllowed overflow count = .ok maxBytes) :
    Listed lister overflow xid dir count rest (lister.asked dir dirid attributes (.error stat))
      (.ok ((), ⟨rest, resultBytes xid stat (spell (postOpAttr attributes))⟩))
  | page {dirid : Fileid3} {attributes : Except Nfsstat3 Fattr3} {maxBytes : Nat} {result : ρ} {trace : Dialogue}
      {written : List η} {counter : WriteCounter} {all : Bool} (hlimit : maxBytesAllowed overflow count = .ok maxBytes)
      (hfills : lister.Fills xid attributes maxBytes result trace written counter all) :
    Listed lister overflow xid dir count rest (lister.asked dir dirid attributes (.ok result) ++ trace)
      (.ok ((), ⟨rest, resultBytes xid .ok (pageBytes (postOpAttr attributes) (dirversion attributes) written
        (all && lister.isEnd result))⟩))
  | long {dirid : Fileid3} {attributes : Except Nfsstat3 Fattr3} {maxBytes : Nat} {result : ρ} {trace : Dialogue}
      {fault : Fault} (hlimit : maxBytesAllowed overflow count = .ok maxBytes)
      (hbreaks : lister.Breaks xid attributes maxBytes result trace) :
    Listed lister overflow xid dir count rest (lister.asked dir dirid attributes (.ok result) ++ trace) (.error fault)

variable {lister : Lister ρ ε η} {overflow : Overflow} {xid : UInt32} {dir : NfsFh3} {count : Count3} {rest : Bytes}

/-- A listing goes on with the entries if its start gives the directory and the limit. -/
theorem Handles.opened {next : Option Opened → HandlerM Unit} (hnone : next none = pure ())
    (hopened : ∀ dirid attributes maxBytes, maxBytesAllowed overflow count = .ok maxBytes →
      Handles (Listed lister overflow xid dir count rest) [⟨.fhToId dir, .ok dirid⟩, ⟨.getattr dirid, attributes⟩]
        (next (some ⟨dirid, attributes, maxBytes⟩)) ⟨rest, []⟩) :
    Handles (Listed lister overflow xid dir count rest) [] (openListing overflow xid dir count >>= next) ⟨rest, []⟩ := by
  constructor
  rw [StateT.run_bind]
  refine (openListing_ensures overflow xid dir count rest).bind (fun dialogue result h => ?_) fun dialogue fault h => ?_
  · cases h with
    | refused stat =>
      simp only [hnone]
      exact .refused stat
    | opened dirid attributes hlimit => exact (hopened dirid attributes _ hlimit).ensures
  · cases h with
    | underflow dirid attributes hlimit => exact .underflow dirid attributes hlimit

theorem Handles.failed (hlimit : maxBytesAllowed overflow count = .ok maxBytes) (stat : Nfsstat3) :
    Handles (Listed lister overflow xid dir count rest) (lister.asked dir dirid attributes (.error stat))
      (Legacy.write (reply xid stat (serialize (postOpAttr attributes)))) ⟨rest, []⟩ :=
  Handles.write_total (reply_writes xid stat (serialize_writes_total _)) (.failed dirid attributes stat hlimit)

theorem Handles.paged {prepare : ε → FileSystemM η} (hprepare : Prepares prepare lister.Sent)
    (hlimit : maxBytesAllowed overflow count = .ok maxBytes) (result : ρ) :
    Handles (Listed lister overflow xid dir count rest) (lister.asked dir dirid attributes (.ok result))
      (Legacy.listing xid prepare lister.name (lister.allows maxBytes) (postOpAttr attributes) (dirversion attributes)
        (lister.entries result) (lister.isEnd result)) ⟨rest, []⟩ := by
  apply Handles.listing hprepare
  · exact fun trace written counter all hfills => .page hlimit hfills
  · exact fun trace fault hbreaks => .long hlimit hbreaks

/-- Every way `READDIR` ends. -/
theorem Handles.readdir {args : READDIR3args} (hfits : Fits (2 ^ 32) args) (rest : Bytes) :
    Handles (Listed (readdirLister args) overflow xid args.dir args.dircount rest) [] (nfsproc3Readdir overflow xid)
      ⟨spell args ++ rest, []⟩ := by
  apply Handles.read hfits
  apply Handles.opened rfl
  intro dirid attributes maxBytes hlimit
  apply Handles.call
  intro result
  cases result with
  | error stat => exact Handles.failed hlimit stat
  | ok result => exact Handles.paged entry3_prepares hlimit result

/-- Every way `READDIRPLUS` ends. -/
theorem Handles.readdirplus {args : READDIRPLUS3args} (hfits : Fits (2 ^ 32) args) (rest : Bytes) :
    Handles (Listed (readdirplusLister args) overflow xid args.dir args.maxcount rest) []
      (nfsproc3Readdirplus overflow xid) ⟨spell args ++ rest, []⟩ := by
  apply Handles.read hfits
  apply Handles.opened rfl
  intro dirid attributes maxBytes hlimit
  apply Handles.call
  intro result
  cases result with
  | error stat => exact Handles.failed hlimit stat
  | ok result => exact Handles.paged entryplus3_prepares hlimit result

end Procedures

end NfsEmbed.Legacy
