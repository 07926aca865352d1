import NfsEmbed.Laws.Nfs3.Truncation
import NfsEmbed.Laws.Server.Transfers

/-!
# How much of a page a listing has

The entry loop of `readdir_reply` keeps two running sizes: what the entries take in the reply, and what
they would take without attributes and handles. It stops at the first entry that has no room in one of
them, so what it keeps is the longest front part of the page that has room in both. An empty listing is
sent whatever the limit on names and cookies is.

The laws are `listing_exact_and_maximal` and `listing_is_truncation`.
-/

namespace NfsEmbed.Server

open Lib Rpc Vfs Nfs3

/-! ## Entries of a page can be encoded -/

theorem basicEntry_encodable (listed : DirectoryEntry) :
    ∀ field ∈ readdirEntryFields (basicEntry listed), field.Encodable := by
  have hname : (Field.payload listed.name.bytes).Encodable := Nat.lt_of_le_of_lt listed.name.length_le (by decide)
  simp only [readdirEntryFields, basicEntry, extensionFields, List.forall_mem_cons]
  exact ⟨trivial, trivial, hname, trivial, by simp⟩

/-- The times of an entry are all that may not be encodable. -/
def Expressible (listed : DirectoryEntry) : Prop :=
  ∀ time ∈ optionalTimes FileAttributes.times listed.attributes, time.Valid

section Entries

variable {state : ConnectionState} {exportId : ExportId} {plus : Bool}

theorem typedEntry_encodable {listed : DirectoryEntry} (h : Expressible listed) :
    ∀ field ∈ readdirEntryFields (typedEntry state exportId plus listed), field.Encodable := by
  cases plus with
  | false => exact basicEntry_encodable listed
  | true =>
    intro field hfield
    have hhandle : (Field.payload (state.handles.encode exportId listed.object)).Encodable := by
      show (state.handles.encode exportId listed.object).length < 2 ^ 32
      rw [state.handles.length_encode]
      decide
    have hbasic := basicEntry_encodable listed
    have hattributes := (postAttributesFields_fits h).1
    simp only [readdirEntryFields, basicEntry, extensionFields, List.forall_mem_cons] at hbasic
    simp only [typedEntry, readdirEntryFields, basicEntry, extensionFields, if_true, List.mem_cons, List.mem_append,
      Field.optional, List.not_mem_nil, or_false] at hfield
    obtain rfl | rfl | rfl | rfl | hfield | rfl | rfl := hfield
    · exact hbasic.1
    · exact hbasic.2.1
    · exact hbasic.2.2.1
    · exact hbasic.2.2.2.1
    · exact hattributes field hfield
    · trivial
    · exact hhandle

theorem map_typedEntry_encodable {front : List DirectoryEntry} (h : ∀ listed ∈ front, Expressible listed) :
    ∀ entry ∈ front.map (typedEntry state exportId plus), ∀ field ∈ readdirEntryFields entry, field.Encodable := by
  intro entry hentry
  obtain ⟨listed, hlisted, rfl⟩ := List.mem_map.mp hentry
  exact typedEntry_encodable (h listed hlisted)

end Entries

/-! ## The two budgets -/

section Budgets

variable (state : ConnectionState) (exportId : ExportId) (plus : Bool) (directoryLimit : Option Nat) (wireLimit : Nat)

/-- What the entries take in the reply. -/
def wireBytes (front : List DirectoryEntry) : Nat :=
  ((front.map (typedEntry state exportId plus)).flatMap entryBytes).length

/-- What the entries take without attributes and handles. -/
def nameBytes (front : List DirectoryEntry) : Nat :=
  ((front.map basicEntry).flatMap entryBytes).length

/-- With what was there before, the entries stay within both limits. -/
@[mk_iff]
structure HasRoom (taken names : Nat) (front : List DirectoryEntry) : Prop where
  wire : taken + wireBytes state exportId plus front ≤ wireLimit
  names : ∀ limit ∈ directoryLimit, names + nameBytes front + 4 ≤ limit

/-- No sum over these entries goes past `usize::MAX`, or no limit is as large. The first is so for every
page in memory, the second for every limit that comes off the wire. -/
@[mk_iff]
structure Countable (taken names : Nat) (page : List DirectoryEntry) : Prop where
  wire : wireLimit < usizeMax ∨ taken + wireBytes state exportId plus page ≤ usizeMax
  names : ∀ limit ∈ directoryLimit, limit < usizeMax ∨ names + nameBytes page + 4 ≤ usizeMax

end Budgets

section Selection

variable {state : ConnectionState} {exportId : ExportId} {plus : Bool} {directoryLimit : Option Nat} {wireLimit : Nat}

theorem wireBytes_append (front rest : List DirectoryEntry) : wireBytes state exportId plus (front ++ rest) =
    wireBytes state exportId plus front + wireBytes state exportId plus rest := by
  simp [wireBytes]

theorem nameBytes_append (front rest : List DirectoryEntry) :
    nameBytes (front ++ rest) = nameBytes front + nameBytes rest := by
  simp [nameBytes]

theorem wireBytes_singleton (listed : DirectoryEntry) : wireBytes state exportId plus [listed] =
    (entryBytes (typedEntry state exportId plus listed)).length := by
  simp [wireBytes]

theorem nameBytes_singleton (listed : DirectoryEntry) :
    nameBytes [listed] = (entryBytes (basicEntry listed)).length := by
  simp [nameBytes]

/-- Entries after the first ones are counted from where those end. -/
theorem hasRoom_append {taken names : Nat} {front rest : List DirectoryEntry} :
    HasRoom state exportId plus directoryLimit wireLimit taken names (front ++ rest) ↔
      HasRoom state exportId plus directoryLimit wireLimit (taken + wireBytes state exportId plus front)
        (names + nameBytes front) rest := by
  simp only [hasRoom_iff, wireBytes_append, nameBytes_append, Nat.add_assoc]

theorem countable_append {taken names : Nat} {front rest : List DirectoryEntry} :
    Countable state exportId plus directoryLimit wireLimit taken names (front ++ rest) ↔
      Countable state exportId plus directoryLimit wireLimit (taken + wireBytes state exportId plus front)
        (names + nameBytes front) rest := by
  simp only [countable_iff, wireBytes_append, nameBytes_append, Nat.add_assoc]

theorem HasRoom.front {taken names : Nat} {front rest : List DirectoryEntry}
    (h : HasRoom state exportId plus directoryLimit wireLimit taken names (front ++ rest)) :
    HasRoom state exportId plus directoryLimit wireLimit taken names front := by
  have hrest := hasRoom_append.mp h
  refine ⟨Nat.le_trans (Nat.le_add_right _ _) hrest.wire, fun limit hlimit => ?_⟩
  have hnames := hrest.names limit hlimit
  omega

theorem Countable.front {taken names : Nat} {front rest : List DirectoryEntry}
    (h : Countable state exportId plus directoryLimit wireLimit taken names (front ++ rest)) :
    Countable state exportId plus directoryLimit wireLimit taken names front := by
  have hrest := countable_append.mp h
  refine ⟨hrest.wire.imp_right (Nat.le_trans (Nat.le_add_right _ _)), fun limit hlimit => ?_⟩
  refine (hrest.names limit hlimit).imp_right fun hnames => ?_
  omega

/-! ## The entry loop -/

section Step

variable {size encodedEntries directoryBytes : Nat} {listed : DirectoryEntry} {rest : List DirectoryEntry}

/-- The first check of the loop is the limit on names and cookies. -/
theorem names_checked (hcount : Countable state exportId plus directoryLimit wireLimit (size + encodedEntries)
      directoryBytes [listed]) :
    (directoryLimit.any fun limit =>
      saturatingAdd (saturatingAdd directoryBytes (entryBytes (basicEntry listed)).length) 4 > limit) = false ↔
    ∀ limit ∈ directoryLimit, directoryBytes + nameBytes [listed] + 4 ≤ limit := by
  rw [nameBytes_singleton]
  have hcheck : ∀ limit ∈ directoryLimit,
      (saturatingAdd (saturatingAdd directoryBytes (entryBytes (basicEntry listed)).length) 4 ≤ limit ↔
        directoryBytes + (entryBytes (basicEntry listed)).length + 4 ≤ limit) := fun limit hlimit =>
    saturatingAdd_add_le_iff (by simpa only [nameBytes_singleton] using hcount.names limit hlimit)
  cases directoryLimit with
  | none => simp
  | some limit => simpa using hcheck limit rfl

/-- The second is the limit on the reply. -/
theorem wire_checked (hcount : Countable state exportId plus directoryLimit wireLimit (size + encodedEntries)
      directoryBytes [listed]) :
    saturatingAdd (saturatingAdd size encodedEntries)
        (entryBytes (typedEntry state exportId plus listed)).length ≤ wireLimit ↔
    size + encodedEntries + wireBytes state exportId plus [listed] ≤ wireLimit := by
  rw [wireBytes_singleton]
  exact saturatingAdd_add_le_iff (by simpa only [wireBytes_singleton] using hcount.wire)

/-- The loop stops where there is none. -/
theorem selectEntries_of_not_hasRoom (hlisted : Expressible listed)
    (hcount : Countable state exportId plus directoryLimit wireLimit (size + encodedEntries) directoryBytes [listed])
    (h : ¬ HasRoom state exportId plus directoryLimit wireLimit (size + encodedEntries) directoryBytes [listed]) :
    selectEntries state exportId plus directoryLimit wireLimit size encodedEntries directoryBytes (listed :: rest) =
      .ok ([], true) := by
  simp only [selectEntries, run_entry (basicEntry_encodable listed), run_entry (typedEntry_encodable hlisted), bind,
    Except.bind]
  split
  next => rfl
  next hnames =>
    have hwire : ¬ saturatingAdd (saturatingAdd size encodedEntries)
        (entryBytes (typedEntry state exportId plus listed)).length ≤ wireLimit := by
      intro hwire
      exact h ⟨(wire_checked hcount).mp hwire, (names_checked hcount).mp (Bool.not_eq_true _ ▸ hnames)⟩
    rw [if_pos (Nat.lt_of_not_le hwire)]
    rfl

/-- An entry is taken if there is room. -/
theorem selectEntries_of_hasRoom (hlisted : Expressible listed)
    (hcount : Countable state exportId plus directoryLimit wireLimit (size + encodedEntries) directoryBytes [listed])
    (h : HasRoom state exportId plus directoryLimit wireLimit (size + encodedEntries) directoryBytes [listed])
    {entries : List ReadDirEntry} {truncated : Bool}
    (hrest : selectEntries state exportId plus directoryLimit wireLimit size
      (encodedEntries + wireBytes state exportId plus [listed]) (saturatingAdd directoryBytes (nameBytes [listed])) rest =
        .ok (entries, truncated)) :
    selectEntries state exportId plus directoryLimit wireLimit size encodedEntries directoryBytes (listed :: rest) =
      .ok (typedEntry state exportId plus listed :: entries, truncated) := by
  have hnames := (names_checked hcount).mpr h.names
  have hwire := (wire_checked hcount).mpr h.wire
  have hreal : saturatingAdd encodedEntries (entryBytes (typedEntry state exportId plus listed)).length =
      encodedEntries + wireBytes state exportId plus [listed] := by
    have hlimit := h.wire
    have htop := hcount.wire
    rw [wireBytes_singleton] at hlimit htop ⊢
    refine saturatingAdd_of_lt ?_
    unfold usizeMax usizeBound at htop
    unfold usizeBound
    omega
  rw [nameBytes_singleton] at hrest
  simp only [selectEntries, run_entry (basicEntry_encodable listed), run_entry (typedEntry_encodable hlisted), bind,
    Except.bind, hnames, if_neg (Nat.not_lt.mpr hwire), hreal, hrest]
  rfl

end Step

/-- The loop takes a front part with room, and stops at an entry without. The name bytes that it counts
are the real ones if there is a limit on them. -/
theorem selectEntries_spec {size encodedEntries directoryBytes names : Nat} {page : List DirectoryEntry}
    (hpage : ∀ listed ∈ page, Expressible listed)
    (hcount : Countable state exportId plus directoryLimit wireLimit (size + encodedEntries) names page)
    (hnames : ∀ limit ∈ directoryLimit, directoryBytes = names) :
    ∃ front rest, page = front ++ rest ∧
      (front = [] ∨ HasRoom state exportId plus directoryLimit wireLimit (size + encodedEntries) names front) ∧
      (∀ next ∈ rest.head?, ¬ HasRoom state exportId plus directoryLimit wireLimit (size + encodedEntries) names
        (front ++ [next])) ∧
      selectEntries state exportId plus directoryLimit wireLimit size encodedEntries directoryBytes page =
        .ok (front.map (typedEntry state exportId plus), !rest.isEmpty) := by
  induction page generalizing encodedEntries directoryBytes names with
  | nil => exact ⟨[], [], rfl, .inl rfl, by simp, rfl⟩
  | cons listed page ih =>
    obtain ⟨hlisted, hpage⟩ := List.forall_mem_cons.mp hpage
    have hcount' : Countable state exportId plus directoryLimit wireLimit (size + encodedEntries) names
        ([listed] ++ page) := hcount
    -- where there is no limit on names, what was counted does not matter
    have hfirst : Countable state exportId plus directoryLimit wireLimit (size + encodedEntries) directoryBytes [listed] := by
      refine ⟨hcount'.front.wire, fun limit hlimit => ?_⟩
      rw [hnames limit hlimit]
      exact hcount'.front.names limit hlimit
    have hroom : HasRoom state exportId plus directoryLimit wireLimit (size + encodedEntries) directoryBytes [listed] ↔
        HasRoom state exportId plus directoryLimit wireLimit (size + encodedEntries) names [listed] := by
      rw [hasRoom_iff, hasRoom_iff]
      refine and_congr_right fun _ => forall₂_congr fun limit hlimit => ?_
      rw [hnames limit hlimit]
    by_cases h : HasRoom state exportId plus directoryLimit wireLimit (size + encodedEntries) names [listed]
    · have hnext : ∀ limit ∈ directoryLimit, saturatingAdd directoryBytes (nameBytes [listed]) = names + nameBytes [listed] := by
        intro limit hlimit
        have hwithin := h.names limit hlimit
        have htop := hcount'.front.names limit hlimit
        rw [hnames limit hlimit]
        refine saturatingAdd_of_lt ?_
        unfold usizeMax usizeBound at htop
        unfold usizeBound
        omega
      have hrest := countable_append.mp hcount'
      rw [Nat.add_assoc] at hrest
      obtain ⟨front, rest, rfl, hfront, hstop, hselect⟩ := ih hpage hrest hnext
      have hshift : ∀ front, HasRoom state exportId plus directoryLimit wireLimit (size + encodedEntries) names
          (listed :: front) ↔ HasRoom state exportId plus directoryLimit wireLimit
            (size + (encodedEntries + wireBytes state exportId plus [listed])) (names + nameBytes [listed]) front := by
        intro front
        rw [← Nat.add_assoc]
        exact @hasRoom_append state exportId plus directoryLimit wireLimit _ _ [listed] front
      refine ⟨listed :: front, rest, rfl, .inr ?_, fun next hhead hlonger => ?_,
        selectEntries_of_hasRoom hlisted hfirst (hroom.mpr h) hselect⟩
      · obtain rfl | hfront := hfront
        · exact h
        · exact (hshift front).mpr hfront
      · exact hstop next hhead ((hshift _).mp hlonger)
    · refine ⟨[], listed :: page, rfl, .inl rfl, fun next hhead => ?_,
        selectEntries_of_not_hasRoom hlisted hfirst (mt hroom.mp h)⟩
      obtain rfl : listed = next := by simpa using hhead
      exact h

end Selection

/-! ## The whole result -/

section Result

variable {state : ConnectionState} {exportId : ExportId} {plus : Bool} {directoryLimit : Option Nat} {wireLimit : Nat}

/-- The directory attributes, if the reply without entries has room for them. -/
def keptAttributes (directoryAttributes : Option FileAttributes) (wireLimit : Nat) : Option FileAttributes :=
  if armSize directoryAttributes [] ≤ wireLimit then directoryAttributes else none

theorem armSize_keptAttributes_le (directoryAttributes : Option FileAttributes) {wireLimit : Nat}
    (hwire : 20 ≤ wireLimit) : armSize (keptAttributes directoryAttributes wireLimit) [] ≤ wireLimit := by
  unfold keptAttributes
  split
  next h => exact h
  next => exact hwire

theorem keptAttributes_encodable {directoryAttributes : Option FileAttributes}
    (h : ∀ field ∈ postAttributesFields directoryAttributes, field.Encodable) (wireLimit : Nat) :
    ∀ field ∈ postAttributesFields (keptAttributes directoryAttributes wireLimit), field.Encodable := by
  unfold keptAttributes
  split
  next => exact h
  next => exact postAttributesFields_none_fits.1

theorem Countable.kept {directoryAttributes : Option FileAttributes} {entries : List DirectoryEntry}
    (hwire : 20 ≤ wireLimit)
    (h : Countable state exportId plus directoryLimit wireLimit (armSize directoryAttributes []) 0 entries) :
    Countable state exportId plus directoryLimit wireLimit
      (armSize (keptAttributes directoryAttributes wireLimit) []) 0 entries := by
  refine ⟨h.wire.imp_right (Nat.le_trans (Nat.add_le_add_right ?_ _)), h.names⟩
  unfold keptAttributes
  split
  next => exact Nat.le_refl _
  next hlong => exact Nat.le_of_lt (Nat.lt_of_le_of_lt hwire (Nat.lt_of_not_le hlong))

theorem emptySize_eq {attributes : Option FileAttributes}
    (h : ∀ field ∈ postAttributesFields attributes, field.Encodable) (verifier : Fixed 8) :
    emptySize attributes verifier = .ok (armSize attributes []) := by
  obtain ⟨encoded, hrun, hlength⟩ := @run_listing [] attributes h (by simp) verifier false
  simp [emptySize, hrun, hlength, bind, Except.bind, pure, Except.pure]

theorem selectAttributes_eq {directoryAttributes : Option FileAttributes}
    (h : ∀ field ∈ postAttributesFields directoryAttributes, field.Encodable) (verifier : Fixed 8) (wireLimit : Nat) :
    selectAttributes directoryAttributes verifier wireLimit =
      .ok (keptAttributes directoryAttributes wireLimit, armSize (keptAttributes directoryAttributes wireLimit) []) := by
  simp only [selectAttributes, emptySize_eq h, emptySize_eq postAttributesFields_none_fits.1, bind, Except.bind,
    keptAttributes]
  split
  next hlong => rw [if_neg (Nat.not_le.mpr hlong)]; rfl
  next hfits => rw [if_pos (Nat.le_of_not_lt hfits)]; rfl

/-- The result has the front part that the loop took, unless that is empty and the page is not. -/
theorem readdirResult_spec {directoryAttributes : Option FileAttributes} {page : ReadDirectoryPage}
    (hwire : 20 ≤ wireLimit) (hattributes : ∀ field ∈ postAttributesFields directoryAttributes, field.Encodable)
    (hpage : ∀ listed ∈ page.entries, Expressible listed)
    (hcount : Countable state exportId plus directoryLimit wireLimit
      (armSize (keptAttributes directoryAttributes wireLimit) []) 0 page.entries) :
    ∃ front rest, page.entries = front ++ rest ∧
      (front = [] ∨ HasRoom state exportId plus directoryLimit wireLimit
        (armSize (keptAttributes directoryAttributes wireLimit) []) 0 front) ∧
      (∀ next ∈ rest.head?, ¬ HasRoom state exportId plus directoryLimit wireLimit
        (armSize (keptAttributes directoryAttributes wireLimit) []) 0 (front ++ [next])) ∧
      readdirResult state exportId plus directoryAttributes page directoryLimit wireLimit =
        .ok (if front = [] ∧ rest ≠ [] then .err .tooSmall directoryAttributes
          else .ok (keptAttributes directoryAttributes wireLimit) page.verifier
            (front.map (typedEntry state exportId plus)) (page.eof && rest.isEmpty)) := by
  obtain ⟨front, rest, hsplit, hfront, hstop, hselect⟩ :=
    @selectEntries_spec state exportId plus directoryLimit wireLimit
      (armSize (keptAttributes directoryAttributes wireLimit) []) 0 0 0 page.entries hpage hcount (fun _ _ => rfl)
  refine ⟨front, rest, hsplit, hfront, hstop, ?_⟩
  have hsize := Nat.not_lt.mpr (armSize_keptAttributes_le directoryAttributes hwire)
  simp only [readdirResult, selectAttributes_eq hattributes, bind, Except.bind, if_neg hsize, hselect]
  cases front with
  | nil =>
    cases rest with
    | nil | cons => simp [hsplit, pure, Except.pure]
  | cons => simp [pure, Except.pure]

end Result

/-! ## In terms of the encoders -/

section Encoded

variable (state : ConnectionState) (exportId : ExportId) (plus : Bool) (directoryLimit : Option Nat) (wireLimit : Nat)

/-- The encoded success arm, which is what follows the status word, is within the limit. -/
def ArmWithin (attributes : Option FileAttributes) (verifier : Fixed 8) (entries : List ReadDirEntry) : Prop :=
  ∀ eof, ∃ arm, Encoder.run (encodeResult (ReadDirResult.ok attributes verifier entries eof)) =
    .ok (NfsStatus.ok.code.toBeBytes ++ arm) ∧ arm.length ≤ wireLimit

/-- The size of the entry's encoding in a `READDIR` result. -/
def basicSize (listed : DirectoryEntry) : Nat :=
  ((Encoder.run (encodeReaddirEntry (basicEntry listed))).toOption.getD []).length

/-- A listing with these entries is within both limits. -/
structure ListingWithin (attributes : Option FileAttributes) (verifier : Fixed 8) (front : List DirectoryEntry) :
    Prop where
  wire : ArmWithin wireLimit attributes verifier (front.map (typedEntry state exportId plus))
  names : ∀ limit ∈ directoryLimit, (front.map basicSize).sum + 4 ≤ limit

end Encoded

section Listing

variable {state : ConnectionState} {exportId : ExportId} {plus : Bool} {directoryLimit : Option Nat} {wireLimit : Nat}
  {attributes : Option FileAttributes} {verifier : Fixed 8}

theorem armWithin_iff (hattributes : ∀ field ∈ postAttributesFields attributes, field.Encodable)
    {entries : List ReadDirEntry}
    (hentries : ∀ listed ∈ entries, ∀ field ∈ readdirEntryFields listed, field.Encodable) :
    ArmWithin wireLimit attributes verifier entries ↔ armSize attributes entries ≤ wireLimit := by
  have hencodable := fun eof => (@ReadDirResult.encodable_iff attributes verifier entries eof).mpr ⟨hattributes, hentries⟩
  have hrun := fun eof => (Encoder.run_ok_iff (ReadDirResult.encodeResult_writes
    (.ok attributes verifier entries eof))).mpr ⟨hencodable eof, rfl⟩
  have hlength := fun eof => ReadDirResult.length_bytes attributes verifier entries eof
  constructor
  · intro h
    obtain ⟨arm, harm, hle⟩ := h false
    rw [hrun] at harm
    have harm := congrArg List.length (Except.ok.inj harm)
    rw [hlength, List.length_append, UInt32.length_toBeBytes] at harm
    omega
  · intro h eof
    refine ⟨(postAttributesFields attributes ++ Field.verifier verifier :: (entries.flatMap readdirEntryFields ++
      [Field.flag false, Field.flag eof])).flatMap Field.bytes, hrun eof, ?_⟩
    have hlength := hlength eof
    rw [ReadDirResult.fields, List.flatMap_cons, List.length_append] at hlength
    have hstatus : (Field.word NfsStatus.ok.code).bytes.length = 4 := UInt32.length_toBeBytes _
    omega

theorem sum_basicSize (front : List DirectoryEntry) : (front.map basicSize).sum = nameBytes front := by
  induction front with
  | nil => rfl
  | cons listed _ ih =>
    have hsize : basicSize listed = (entryBytes (basicEntry listed)).length := by
      rw [basicSize, run_entry (basicEntry_encodable listed)]
      rfl
    rw [List.map_cons, List.sum_cons, ih, hsize, ← List.singleton_append, nameBytes_append, nameBytes_singleton]

/-- The two running sizes are the sizes of the encodings. -/
theorem listingWithin_iff (hattributes : ∀ field ∈ postAttributesFields attributes, field.Encodable)
    {front : List DirectoryEntry} (hfront : ∀ listed ∈ front, Expressible listed) :
    ListingWithin state exportId plus directoryLimit wireLimit attributes verifier front ↔
      HasRoom state exportId plus directoryLimit wireLimit (armSize attributes []) 0 front := by
  have hwire := @armWithin_iff wireLimit attributes verifier hattributes _
    (@map_typedEntry_encodable state exportId plus _ hfront)
  rw [← List.nil_append (front.map (typedEntry state exportId plus)), armSize_append] at hwire
  constructor
  · intro h
    refine ⟨hwire.mp h.wire, fun limit hlimit => ?_⟩
    rw [Nat.zero_add, ← sum_basicSize]
    exact h.names limit hlimit
  · intro h
    refine ⟨hwire.mpr h.wire, fun limit hlimit => ?_⟩
    have hnames := h.names limit hlimit
    rw [Nat.zero_add, ← sum_basicSize] at hnames
    exact hnames

/-- The front part that the loop took, as the longest one. An empty one needs no room. -/
theorem longest_of_stop {page front rest : List DirectoryEntry}
    (hattributes : ∀ field ∈ postAttributesFields attributes, field.Encodable)
    (hpage : ∀ listed ∈ page, Expressible listed) (hsplit : page = front ++ rest)
    (hfront : front = [] ∨ HasRoom state exportId plus directoryLimit wireLimit (armSize attributes []) 0 front)
    (hstop : ∀ next ∈ rest.head?, ¬ HasRoom state exportId plus directoryLimit wireLimit (armSize attributes []) 0
      (front ++ [next])) :
    LongestFront (fun front => front = [] ∨
      ListingWithin state exportId plus directoryLimit wireLimit attributes verifier front) page front := by
  have hlongest : LongestFront (fun front => front = [] ∨
      HasRoom state exportId plus directoryLimit wireLimit (armSize attributes []) 0 front) page front := by
    rw [hsplit]
    refine LongestFront.of_stop (fun front next h => ?_) hfront fun next hhead h => ?_
    · obtain hnil | hroom := h
      · exact .inl (List.append_eq_nil_iff.mp hnil).1
      · exact .inr hroom.front
    · exact hstop next hhead (h.resolve_left (by simp))
  refine hlongest.congr fun other hother => or_congr_right (listingWithin_iff hattributes ?_).symm
  intro listed hlisted
  exact hpage listed (hother.subset hlisted)

/-- A listing that cannot be encoded without entries is not sent. -/
theorem readdirReply_error {xid : UInt32} {directoryAttributes : Option FileAttributes} {page : ReadDirectoryPage}
    (h : ¬ ∀ field ∈ postAttributesFields directoryAttributes, field.Encodable) :
    ∃ error, readdirReply state xid exportId plus directoryAttributes page directoryLimit wireLimit = .error error := by
  have hencodable : ¬ ∀ field ∈ (ReadDirResult.ok directoryAttributes page.verifier [] false).fields, field.Encodable :=
    fun hall => h (ReadDirResult.encodable_iff.mp hall).1
  obtain ⟨error, hrun⟩ := (Encoder.run_error_iff (ReadDirResult.encodeResult_writes _)).mpr hencodable
  refine ⟨error, ?_⟩
  simp [readdirReply, readdirResult, selectAttributes, emptySize, hrun, bind, Except.bind]

end Listing

/-- The attributes are kept if the arm has room for them without entries. -/
theorem keptAttributes_cases {directoryAttributes : Option FileAttributes}
    (h : ∀ field ∈ postAttributesFields directoryAttributes, field.Encodable) (verifier : Fixed 8) (wireLimit : Nat) :
    keptAttributes directoryAttributes wireLimit = directoryAttributes ∧
        ArmWithin wireLimit directoryAttributes verifier [] ∨
      keptAttributes directoryAttributes wireLimit = none ∧ ¬ ArmWithin wireLimit directoryAttributes verifier [] := by
  rw [armWithin_iff h (by simp), keptAttributes]
  split
  next hfits => exact .inl ⟨rfl, hfits⟩
  next hlong => exact .inr ⟨rfl, hlong⟩

/-- What `readdir_reply` sends for a page whose entries can be encoded. An error is returned if the
directory attributes cannot be encoded. Otherwise they are in the reply if it has room for them without
entries. Its entries are the longest front part of the page that is empty or within both limits, its
success arm is within the limit, and it has `eof` if the page has and nothing was dropped. It is
`NFS3ERR_TOOSMALL` if there is a first entry that is not within the limits. -/
theorem listing_exact_and_maximal (state : ConnectionState) (xid : UInt32) (exportId : ExportId) (plus : Bool)
    (directoryAttributes : Option FileAttributes) (page : ReadDirectoryPage) (directoryLimit : Option Nat)
    (wireLimit : Nat) (hwire : 20 ≤ wireLimit) (hpage : ∀ listed ∈ page.entries, Expressible listed)
    (hcount : Countable state exportId plus directoryLimit wireLimit (armSize directoryAttributes []) 0 page.entries) :
    ((∃ error, Encoder.run (encodePostAttributes directoryAttributes) = .error error) →
      ∃ error, readdirReply state xid exportId plus directoryAttributes page directoryLimit wireLimit = .error error) ∧
    ((∃ encoded, Encoder.run (encodePostAttributes directoryAttributes) = .ok encoded) →
      ∃ (attributes : Option FileAttributes) (result : ReadDirResult) (bytes : Bytes),
        readdirReply state xid exportId plus directoryAttributes page directoryLimit wireLimit = typedNfsReply xid result ∧
        typedNfsReply xid result = .ok bytes ∧
        (attributes = directoryAttributes ∧ ArmWithin wireLimit directoryAttributes page.verifier [] ∨
          attributes = none ∧ ¬ ArmWithin wireLimit directoryAttributes page.verifier []) ∧
        ((∃ front,
            LongestFront (fun front => front = [] ∨
              ListingWithin state exportId plus directoryLimit wireLimit attributes page.verifier front) page.entries front ∧
            ArmWithin wireLimit attributes page.verifier (front.map (typedEntry state exportId plus)) ∧
            result = .ok attributes page.verifier (front.map (typedEntry state exportId plus))
              (page.eof && decide (front = page.entries))) ∨
          result = .err .tooSmall directoryAttributes) ∧
        (result = .err .tooSmall directoryAttributes ↔ ∃ first rest, page.entries = first :: rest ∧
          ¬ ListingWithin state exportId plus directoryLimit wireLimit attributes page.verifier [first])) := by
  refine ⟨fun ⟨error, herror⟩ => ?_, fun ⟨encoded, hencoded⟩ => ?_⟩
  · exact readdirReply_error ((Encoder.run_error_iff (encodePostAttributes_writes _)).mp ⟨error, herror⟩)
  have hattributes := ((Encoder.run_ok_iff (encodePostAttributes_writes _)).mp hencoded).1
  have hkept := keptAttributes_encodable hattributes wireLimit
  obtain ⟨front, rest, hsplit, hfront, hstop, hresult⟩ := readdirResult_spec hwire hattributes hpage (hcount.kept hwire)
  have hreply : ∀ {result}, readdirResult state exportId plus directoryAttributes page directoryLimit wireLimit = .ok result →
      readdirReply state xid exportId plus directoryAttributes page directoryLimit wireLimit = typedNfsReply xid result := by
    intro result hresult
    rw [readdirReply, hresult]
    rfl
  have hselected := keptAttributes_cases hattributes page.verifier wireLimit
  have hexpressible : ∀ listed ∈ front, Expressible listed := fun listed hlisted =>
    hpage listed (hsplit ▸ List.mem_append_left rest hlisted)
  by_cases hnone : front = [] ∧ rest ≠ []
  · -- the loop stopped at the first entry
    rw [if_pos hnone] at hresult
    obtain ⟨rfl, hrest⟩ := hnone
    have hfields : ∀ field ∈ (ReadDirResult.err .tooSmall directoryAttributes).fields, field.Encodable :=
      List.forall_mem_cons.mpr ⟨trivial, hattributes⟩
    refine ⟨_, _, _, hreply hresult, (typedReply_ok_iff (ReadDirResult.encodeResult_writes _)).mpr ⟨hfields, rfl⟩,
      hselected, .inr rfl, fun _ => ?_, fun _ => rfl⟩
    obtain ⟨first, rest, rfl⟩ := List.exists_cons_of_ne_nil hrest
    refine ⟨first, rest, hsplit, fun hwithin => hstop first rfl ?_⟩
    refine (listingWithin_iff hkept fun listed hlisted => hpage listed ?_).mp hwithin
    rw [hsplit, List.mem_singleton.mp hlisted]
    exact List.mem_cons_self
  · rw [if_neg hnone] at hresult
    have hentries := @map_typedEntry_encodable state exportId plus _ hexpressible
    have harm : ArmWithin wireLimit (keptAttributes directoryAttributes wireLimit) page.verifier
        (front.map (typedEntry state exportId plus)) := by
      obtain rfl | hroom := hfront
      · exact (armWithin_iff hkept (by simp)).mpr (armSize_keptAttributes_le directoryAttributes hwire)
      · exact ((listingWithin_iff hkept hexpressible).mpr hroom).wire
    have heof : rest.isEmpty = decide (front = page.entries) := by
      rw [hsplit]
      cases rest <;> simp
    rw [heof] at hresult
    refine ⟨_, _, _, hreply hresult, (typedReply_ok_iff (ReadDirResult.encodeResult_writes _)).mpr
      ⟨ReadDirResult.encodable_iff.mpr ⟨hkept, hentries⟩, rfl⟩, hselected,
      .inl ⟨front, longest_of_stop hkept hpage hsplit hfront hstop, harm, rfl⟩, fun h => ?_, fun ⟨first, rest', hfirst, hlimits⟩ => ?_⟩
    · cases h
    · -- the first entry was taken, so it is within the limits
      exfalso
      cases front with
      | nil =>
        refine hnone ⟨rfl, fun hrest => ?_⟩
        rw [hfirst, hrest] at hsplit
        cases hsplit
      | cons taken front =>
        rw [hfirst] at hsplit
        obtain rfl : first = taken := (List.cons.inj hsplit).1
        have hroom : HasRoom state exportId plus directoryLimit wireLimit
            (armSize (keptAttributes directoryAttributes wireLimit) []) 0 ([first] ++ front) :=
          hfront.resolve_left (by simp)
        refine hlimits ((listingWithin_iff hkept fun listed hlisted => ?_).mpr hroom.front)
        rw [List.mem_singleton.mp hlisted]
        exact hexpressible first List.mem_cons_self

/-- A page with two entries of one letter each. -/
def samplePage : ReadDirectoryPage where
  verifier := sampleState.handles.instanceId
  entries := [(97, 1), (98, 2)].filterMap fun (letter, cookie) =>
    (NfsName.new [letter]).toOption.map fun name => ⟨⟨cookie, 1⟩, cookie, name, cookie, none⟩
  eof := true

theorem samplePage_expressible : ∀ listed ∈ samplePage.entries, Expressible listed := by
  intro listed hlisted time htime
  have hnone : ∀ listed ∈ samplePage.entries, listed.attributes = none := by decide
  rw [hnone listed hlisted] at htime
  cases htime

/-- Of the two entries one has room in 48 bytes. -/
theorem listing_exact_and_maximal_first :
    readdirReply sampleState 1 ⟨7⟩ false none samplePage none 48 =
      typedNfsReply 1 (ReadDirResult.ok none samplePage.verifier [⟨1, [97], 1, .basic⟩] false) ∧
    ∃ result : ReadDirResult, readdirReply sampleState 1 ⟨7⟩ false none samplePage none 48 = typedNfsReply 1 result ∧
      ∃ front, LongestFront (fun front => front = [] ∨
        ListingWithin sampleState ⟨7⟩ false none 48 none samplePage.verifier front) samplePage.entries front ∧
        result = .ok none samplePage.verifier (front.map (typedEntry sampleState ⟨7⟩ false))
          (samplePage.eof && decide (front = samplePage.entries)) := by
  refine ⟨rfl, ?_⟩
  obtain ⟨-, hsent⟩ := listing_exact_and_maximal sampleState 1 ⟨7⟩ false none samplePage none 48 (by decide)
    samplePage_expressible ⟨.inl (by decide), fun limit hlimit => by cases hlimit⟩
  obtain ⟨attributes, result, bytes, hreply, -, hattributes, hresult, htoo⟩ := hsent ⟨_, rfl⟩
  obtain rfl : attributes = none := by
    obtain ⟨rfl, -⟩ | ⟨rfl, -⟩ := hattributes <;> rfl
  refine ⟨result, hreply, ?_⟩
  obtain ⟨front, hlongest, -, hresult⟩ | htooSmall := hresult
  · exact ⟨front, hlongest, hresult⟩
  · -- the first entry alone is within the limit
    obtain ⟨first, rest, hfirst, hlimits⟩ := htoo.mp htooSmall
    cases hfirst
    refine absurd ⟨fun eof => ?_, fun limit hlimit => by cases hlimit⟩ hlimits
    cases eof <;> exact ⟨_, rfl, by decide⟩

/-- Without entries the limit on names and cookies is not looked at. The terminator alone is above a limit
of zero, and the listing is sent all the same. -/
theorem empty_listing_ignores_names_limit :
    readdirReply sampleState 1 ⟨7⟩ true none ⟨⟨[0, 0, 0, 0, 0, 0, 0, 1], rfl⟩, [], true⟩ (some 0) 20 =
      typedNfsReply 1 (ReadDirResult.ok none ⟨[0, 0, 0, 0, 0, 0, 0, 1], rfl⟩ [] true) ∧
    (typedNfsReply 1 (ReadDirResult.ok none ⟨[0, 0, 0, 0, 0, 0, 0, 1], rfl⟩ [] true)).isOk = true ∧
    ¬ LongestFront (ListingWithin sampleState ⟨7⟩ true (some 0) 20 none ⟨[0, 0, 0, 0, 0, 0, 0, 1], rfl⟩) [] [] := by
  refine ⟨rfl, rfl, fun h => ?_⟩
  exact absurd (h.holds.names 0 rfl) (by decide)

/-! ## The truncation helper -/

/-- The limit on names and cookies never decides: what fits the reply is within it. -/
def Ineffective (state : ConnectionState) (exportId : ExportId) (plus : Bool) (directoryLimit : Option Nat)
    (wireLimit : Nat) (attributes : Option FileAttributes) (page : ReadDirectoryPage) : Prop :=
  ∀ limit ∈ directoryLimit, ∀ front, front <+: page.entries → front ≠ [] →
    ArmWithin wireLimit attributes page.verifier (front.map (typedEntry state exportId plus)) →
    (front.map basicSize).sum + 4 ≤ limit

theorem le_armSize (attributes : Option FileAttributes) (entries : List ReadDirEntry) : 20 ≤ armSize attributes entries := by
  have hflag : 4 ≤ ((postAttributesFields attributes).flatMap Field.bytes).length := by
    cases attributes with
    | none => exact Nat.le_refl _
    | some =>
      rw [postAttributesFields, Field.optional, List.flatMap_cons, List.length_append]
      exact Nat.le_trans (Nat.le_of_eq (length_boolBytes true).symm) (Nat.le_add_right _ _)
  unfold armSize
  omega

theorem encodable_of_armWithin {wireLimit : Nat} {attributes : Option FileAttributes} {verifier : Fixed 8}
    {entries : List ReadDirEntry} (h : ArmWithin wireLimit attributes verifier entries) :
    ∀ field ∈ postAttributesFields attributes, field.Encodable := by
  obtain ⟨arm, hrun, -⟩ := h false
  have hfields := ((Encoder.run_ok_iff (ReadDirResult.encodeResult_writes _)).mp hrun).1
  exact (ReadDirResult.encodable_iff.mp hfields).1

/-- The public helper and the server cut a page in the same way. If the listing has room for the directory
attributes without entries, the helper succeeds on the complete listing, and the reply is the listing that
it leaves, or `NFS3ERR_TOOSMALL` if it drops everything. -/
theorem listing_is_truncation (state : ConnectionState) (xid : UInt32) (exportId : ExportId) (plus : Bool)
    (attributes : Option FileAttributes) (page : ReadDirectoryPage) (directoryLimit : Option Nat) (wireLimit : Nat)
    (hpage : ∀ listed ∈ page.entries, Expressible listed)
    (hempty : ArmWithin wireLimit attributes page.verifier [])
    (hnames : Ineffective state exportId plus directoryLimit wireLimit attributes page)
    (hcount : Countable state exportId plus directoryLimit wireLimit (armSize attributes []) 0 page.entries) :
    ∃ truncated : ReadDirResult,
      truncateReaddirResult (.ok attributes page.verifier (page.entries.map (typedEntry state exportId plus)) page.eof)
        wireLimit = (.ok true, truncated) ∧
      readdirReply state xid exportId plus attributes page directoryLimit wireLimit =
        if truncated.entries ≠ [] ∨ page.entries = [] then typedNfsReply xid truncated
        else typedNfsReply xid (ReadDirResult.err .tooSmall attributes) := by
  have hattributes := encodable_of_armWithin hempty
  have hfits := (@armWithin_iff wireLimit attributes page.verifier hattributes [] (by simp)).mp hempty
  have hkept : keptAttributes attributes wireLimit = attributes := if_pos hfits
  have hwire : 20 ≤ wireLimit := Nat.le_trans (le_armSize attributes []) hfits
  obtain ⟨front, rest, hsplit, hfront, hstop, hresult⟩ :=
    readdirResult_spec hwire hattributes hpage (hkept.symm ▸ hcount)
  rw [hkept] at hfront hstop hresult
  have hsub : ∀ front, front <+: page.entries → ∀ listed ∈ front, Expressible listed :=
    fun front hfront listed hlisted => hpage listed (hfront.subset hlisted)
  -- both have the longest front part whose listing has room
  have hlongest : LongestFront (fun front => armSize attributes (front.map (typedEntry state exportId plus)) ≤ wireLimit)
      page.entries front := by
    refine (@longest_of_stop state exportId plus directoryLimit wireLimit attributes page.verifier _ _ _ hattributes hpage
      hsplit hfront hstop).congr fun other hother => ?_
    have harm := @armWithin_iff wireLimit attributes page.verifier hattributes _
      (@map_typedEntry_encodable state exportId plus _ (hsub other hother))
    rw [← harm]
    constructor
    · rintro (rfl | hwithin)
      · exact hempty
      · exact hwithin.wire
    · intro hwithin
      by_cases hnil : other = []
      · exact .inl hnil
      · exact .inr ⟨hwithin, fun limit hlimit => hnames limit hlimit other hother hnil hwithin⟩
  obtain ⟨kept, hkeptLongest, htruncate⟩ := truncateReaddirResult_longest hattributes
    (@map_typedEntry_encodable state exportId plus _ hpage) hfits page.verifier page.eof
  obtain rfl : kept = front.map (typedEntry state exportId plus) := hkeptLongest.unique hlongest.map
  refine ⟨_, htruncate, ?_⟩
  have heof : decide (front.map (typedEntry state exportId plus) = page.entries.map (typedEntry state exportId plus)) =
      rest.isEmpty := by
    rw [hsplit]
    cases rest <;> simp
  rw [readdirReply, hresult, heof]
  cases front with
  | nil => cases rest <;> simp [ReadDirResult.entries, hsplit, bind, Except.bind]
  | cons => simp [ReadDirResult.entries, bind, Except.bind]

/-- The same page in 48 bytes, by the helper. -/
theorem listing_is_truncation_first :
    ∃ truncated : ReadDirResult,
      truncateReaddirResult (.ok none samplePage.verifier (samplePage.entries.map (typedEntry sampleState ⟨7⟩ false)) true)
        48 = (.ok true, truncated) ∧
      truncated.entries.length = 1 ∧
      readdirReply sampleState 1 ⟨7⟩ false none samplePage none 48 = typedNfsReply 1 truncated := by
  obtain ⟨truncated, htruncate, hreply⟩ := listing_is_truncation sampleState 1 ⟨7⟩ false none samplePage none 48
    samplePage_expressible (fun eof => by cases eof <;> exact ⟨_, rfl, by decide⟩)
    (fun limit hlimit => by cases hlimit) ⟨.inl (by decide), fun limit hlimit => by cases hlimit⟩
  refine ⟨truncated, htruncate, ?_⟩
  have hone : truncated.entries.length = 1 := by
    have hleft := congrArg (fun left => left.2.entries.length) htruncate
    exact hleft.symm
  have hne : truncated.entries ≠ [] := List.ne_nil_of_length_eq_add_one hone
  exact ⟨hone, by rw [hreply, if_pos (.inl hne)]⟩

end NfsEmbed.Server
