import NfsEmbed.Laws.Client.Results
import NfsEmbed.Laws.Server.Isolation

/-!
# What a directory listing returns

A successful reply has a front part of the page that the backend returned, in the form the procedure
asks for. It is empty only if the page is, and it says `eof` only if the page did and all of it fitted.
-/

namespace NfsEmbed.Server

open Lib Rpc Vfs Nfs3

variable {size encodedEntries directoryBytes : Nat} {listed : List DirectoryEntry} {entries : List ReadDirEntry}
  {truncated : Bool} {directoryAttributes : Option FileAttributes} {page : ReadDirectoryPage} {result : ReadDirResult}

section Selection

variable {state : ConnectionState} {exportId : ExportId} {plus : Bool} {directoryLimit : Option Nat}
  {wireLimit : Nat}

/-- The loop stops at an entry that has no room, or takes it. -/
theorem selectEntries_cons_ok {entry : DirectoryEntry}
    (h : selectEntries state exportId plus directoryLimit wireLimit size encodedEntries directoryBytes
      (entry :: listed) = .ok (entries, truncated)) : (entries = [] ∧ truncated = true) ∨
    ∃ encoded directoryBytes' taken,
      Encoder.run (encodeReaddirEntry (typedEntry state exportId plus entry)) = .ok encoded ∧
      saturatingAdd (saturatingAdd size encodedEntries) encoded.length ≤ wireLimit ∧
      selectEntries state exportId plus directoryLimit wireLimit size (saturatingAdd encodedEntries encoded.length)
        directoryBytes' listed = .ok (taken, truncated) ∧
      entries = typedEntry state exportId plus entry :: taken := by
  simp only [selectEntries, bind, Except.bind] at h
  split at h
  next => cases h
  next =>
  split at h
  next => cases h; exact .inl ⟨rfl, rfl⟩
  next =>
  split at h
  next => cases h
  next encoded hencoded =>
  split at h
  next => cases h; exact .inl ⟨rfl, rfl⟩
  next hroom =>
  split at h
  next => cases h
  next selected hselected =>
    cases h
    exact .inr ⟨encoded, _, _, hencoded, Nat.le_of_not_lt hroom, hselected, rfl⟩

/-- The entry loop keeps a front part, and all of the page unless it stops early. -/
theorem selectEntries_ok
    (h : selectEntries state exportId plus directoryLimit wireLimit size encodedEntries directoryBytes listed =
      .ok (entries, truncated)) :
    ∃ sent rest, listed = sent ++ rest ∧ entries = sent.map (typedEntry state exportId plus) ∧
      (truncated = false → rest = []) := by
  induction listed generalizing encodedEntries directoryBytes entries truncated with
  | nil =>
    cases h
    exact ⟨[], [], rfl, rfl, fun _ => rfl⟩
  | cons entry listed ih =>
    obtain ⟨rfl, rfl⟩ | ⟨_, _, taken, -, -, htaken, rfl⟩ := selectEntries_cons_ok h
    · exact ⟨[], entry :: listed, rfl, rfl, by simp⟩
    · obtain ⟨sent, rest, rfl, rfl, hrest⟩ := ih htaken
      exact ⟨entry :: sent, rest, rfl, rfl, hrest⟩

/-- The result says that the limit is too small, or has what the entry loop kept. -/
theorem readdirResult_cases
    (h : readdirResult state exportId plus directoryAttributes page directoryLimit wireLimit = .ok result) :
    result = .err .tooSmall directoryAttributes ∨
    ∃ attributes size entries truncated,
      selectAttributes directoryAttributes page.verifier wireLimit = .ok (attributes, size) ∧ size ≤ wireLimit ∧
      selectEntries state exportId plus directoryLimit wireLimit size 0 0 page.entries = .ok (entries, truncated) ∧
      ¬ (page.entries ≠ [] ∧ truncated ∧ entries = []) ∧
      result = .ok attributes page.verifier entries (page.eof && !truncated) := by
  simp only [readdirResult, bind, Except.bind] at h
  split at h
  next => cases h
  next selected hselected =>
  split at h
  next => cases h; exact .inl rfl
  next hsize =>
  split at h
  next => cases h
  next selection hselection =>
  split at h
  next => cases h; exact .inl rfl
  next hsome =>
    cases h
    exact .inr ⟨_, _, _, _, hselected, Nat.le_of_not_lt hsize, hselection, hsome, rfl⟩

/-- The result is an error, or has a front part of the page. -/
theorem readdirResult_ok
    (h : readdirResult state exportId plus directoryAttributes page directoryLimit wireLimit = .ok result) :
    (∃ status attributes, result = .err status attributes ∧ status ≠ .ok) ∨
    ∃ attributes sent rest eof, result = .ok attributes page.verifier (sent.map (typedEntry state exportId plus)) eof ∧
      page.entries = sent ++ rest ∧ (sent = [] → page.entries = []) ∧
      (eof = true → page.eof = true ∧ rest = []) := by
  obtain rfl | ⟨attributes, _, entries, truncated, -, -, hselect, hsome, rfl⟩ := readdirResult_cases h
  · exact .inl ⟨_, _, rfl, by decide⟩
  · obtain ⟨sent, rest, hpage, rfl, hrest⟩ := selectEntries_ok hselect
    refine .inr ⟨_, sent, rest, _, rfl, hpage, fun hsent => ?_, fun heof => ?_⟩
    · subst hsent
      by_contra hne
      have htruncated : truncated = false := by simpa [hne] using hsome
      exact hne (by rw [hpage, hrest htruncated, List.append_nil])
    · simp only [Bool.and_eq_true, Bool.not_eq_true'] at heof
      exact ⟨heof.1, hrest heof.2⟩

end Selection

end NfsEmbed.Server
