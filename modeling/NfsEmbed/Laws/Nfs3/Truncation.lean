import NfsEmbed.Lib.Fronts
import NfsEmbed.Laws.Nfs3.Sizes

/-!
# Cutting a listing to a size

`truncate_readdir_result` encodes the listing once and subtracts what each dropped entry takes. This
is the size of what is left, since the size of a listing is the sum of its parts. So it does the same
as the loop that encodes again after each entry, and what it leaves is the longest front part that fits.

The law is `truncation_matches_reference`.
-/

namespace NfsEmbed.Nfs3

open Lib Rpc Vfs

variable {entries : List ReadDirEntry} {attributes : Option FileAttributes} {maxSize : Nat}

/-! ## The linear loop and the reference -/

section Loop

variable {attributes : Option FileAttributes} {verifier : Fixed 8} {maxSize : Nat}

/-- A listing that can be encoded is, and its size is that of its parts. -/
theorem run_listing (hattributes : ∀ field ∈ postAttributesFields attributes, field.Encodable)
    (hentries : ∀ listed ∈ entries, ∀ field ∈ readdirEntryFields listed, field.Encodable) (verifier : Fixed 8)
    (eof : Bool) :
    ∃ encoded, Encoder.run (encodeResult (ReadDirResult.ok attributes verifier entries eof)) = .ok encoded ∧
      encoded.length = 4 + armSize attributes entries :=
  ⟨_, (Encoder.run_ok_iff (ReadDirResult.encodeResult_writes _)).mpr
    ⟨ReadDirResult.encodable_iff.mpr ⟨hattributes, hentries⟩, rfl⟩, ReadDirResult.length_bytes _ _ _ _⟩

theorem run_entry {listed : ReadDirEntry} (h : ∀ field ∈ readdirEntryFields listed, field.Encodable) :
    Encoder.run (encodeReaddirEntry listed) = .ok (entryBytes listed) :=
  (Encoder.run_ok_iff (encodeReaddirEntry_writes listed)).mpr ⟨h, rfl⟩

theorem armSize_concat (attributes : Option FileAttributes) (entries : List ReadDirEntry) (last : ReadDirEntry) :
    armSize attributes (entries ++ [last]) = armSize attributes entries + (entryBytes last).length := by
  rw [armSize_append, List.flatMap_cons, List.flatMap_nil, List.append_nil]

/-- The size that the linear loop keeps is what the reference would find by encoding again. -/
theorem truncateReaddirResultReference_eq_loop
    (hattributes : ∀ field ∈ postAttributesFields attributes, field.Encodable) (reversed : List ReadDirEntry)
    (hentries : ∀ listed ∈ reversed, ∀ field ∈ readdirEntryFields listed, field.Encodable) (eof : Bool) :
    truncateReaddirResultReference (.ok attributes verifier reversed.reverse eof) maxSize =
      let left := truncateLoop maxSize reversed eof (armSize attributes reversed.reverse)
      (left.1, .ok attributes verifier left.2.1.reverse left.2.2) := by
  induction reversed generalizing eof with
  | nil =>
    obtain ⟨encoded, hrun, hlength⟩ := run_listing hattributes hentries verifier eof
    rw [truncateReaddirResultReference]
    simp only [List.reverse_nil, hrun, hlength, Nat.add_sub_cancel_left, truncateLoop]
    split
    next h => simp [h]
    next h => simp [h, ReadDirResult.pop]
  | cons last earlier ih =>
    have hreversed : ∀ listed ∈ (last :: earlier).reverse, ∀ field ∈ readdirEntryFields listed, field.Encodable :=
      fun listed hlisted => hentries listed (List.mem_reverse.mp hlisted)
    obtain ⟨encoded, hrun, hlength⟩ := run_listing hattributes hreversed verifier eof
    obtain ⟨hlast, hearlier⟩ := List.forall_mem_cons.mp hentries
    rw [truncateReaddirResultReference]
    simp only [hrun, hlength, Nat.add_sub_cancel_left, truncateLoop, run_entry hlast]
    by_cases hfits : armSize attributes (last :: earlier).reverse ≤ maxSize
    · rw [if_pos hfits, if_neg (Nat.not_lt.mpr hfits)]
    · rw [if_neg hfits, if_pos (Nat.lt_of_not_le hfits)]
      -- the last entry is popped, and its size subtracted
      have hpop : (ReadDirResult.ok attributes verifier (last :: earlier).reverse eof).pop =
          some (.ok attributes verifier earlier.reverse false) := by
        rw [List.reverse_cons]
        cases hreverse : earlier.reverse <;> simp [ReadDirResult.pop, List.dropLast_cons_of_ne_nil]
      have hsize : armSize attributes (last :: earlier).reverse - (entryBytes last).length =
          armSize attributes earlier.reverse := by
        rw [List.reverse_cons, armSize_concat, Nat.add_sub_cancel]
      rw [hsize]
      refine Eq.trans ?_ (ih hearlier false)
      split
      next shorter hshorter =>
        rw [hpop] at hshorter
        cases hshorter
        rfl
      next hnone =>
        rw [hpop] at hnone
        cases hnone

end Loop

/-- What the linear version does to a listing that can be encoded. -/
theorem truncateReaddirResult_ok (hattributes : ∀ field ∈ postAttributesFields attributes, field.Encodable)
    (hentries : ∀ listed ∈ entries, ∀ field ∈ readdirEntryFields listed, field.Encodable) (verifier : Fixed 8)
    (eof : Bool) (maxSize : Nat) : truncateReaddirResult (.ok attributes verifier entries eof) maxSize =
      let left := truncateLoop maxSize entries.reverse eof (armSize attributes entries)
      (left.1, .ok attributes verifier left.2.1.reverse left.2.2) := by
  obtain ⟨encoded, hrun, hlength⟩ := run_listing hattributes hentries verifier eof
  simp only [truncateReaddirResult, hrun, hlength, Nat.add_sub_cancel_left]
  split
  next hfits =>
    -- the loop is not entered, which is what it does when nothing is to be dropped
    cases hreverse : entries.reverse with
    | nil =>
      obtain rfl : entries = [] := List.reverse_eq_nil_iff.mp hreverse
      simp [truncateLoop, hfits]
    | cons last earlier =>
      have hback : (last :: earlier).reverse = entries := by rw [← hreverse, List.reverse_reverse]
      rw [truncateLoop, if_neg (Nat.not_lt.mpr hfits)]
      simp only [hback]
  next => rfl

/-- Subtracting sizes comes to the same as encoding again. -/
theorem truncateReaddirResult_eq_reference (result : ReadDirResult) (maxSize : Nat) :
    truncateReaddirResult result maxSize = truncateReaddirResultReference result maxSize := by
  cases hrun : Encoder.run (encodeResult result) with
  | error => rw [truncateReaddirResult, truncateReaddirResultReference, hrun]
  | ok =>
    cases result with
    | err =>
      rw [truncateReaddirResult, truncateReaddirResultReference, hrun]
      rfl
    | ok attributes verifier entries eof =>
      obtain ⟨hencodable, -⟩ := (Encoder.run_ok_iff (ReadDirResult.encodeResult_writes _)).mp hrun
      obtain ⟨hattributes, hentries⟩ := ReadDirResult.encodable_iff.mp hencodable
      have hloop := @truncateReaddirResultReference_eq_loop attributes verifier maxSize hattributes entries.reverse
        (fun listed hlisted => hentries listed (List.mem_reverse.mp hlisted)) eof
      rw [List.reverse_reverse] at hloop
      rw [truncateReaddirResult_ok hattributes hentries, hloop]

/-- The reference says `true` after it has seen that the encoding fits. -/
theorem run_of_truncateReaddirResultReference {result : ReadDirResult}
    (h : (truncateReaddirResultReference result maxSize).1 = .ok true) :
    ∃ encoded, Encoder.run (encodeResult (truncateReaddirResultReference result maxSize).2) = .ok encoded ∧
      encoded.length - 4 ≤ maxSize := by
  induction result using truncateReaddirResultReference.induct maxSize with
  | case1 _ _ hrun =>
    rw [truncateReaddirResultReference, hrun] at h
    cases h
  | case2 _ encoded hrun hfits =>
    rw [truncateReaddirResultReference]
    simp only [hrun, if_pos hfits]
    exact ⟨encoded, rfl, hfits⟩
  | case3 result _ hrun hlong shorter hpop ih =>
    have hstep : truncateReaddirResultReference result maxSize = truncateReaddirResultReference shorter maxSize := by
      rw [truncateReaddirResultReference]
      simp only [hrun, if_neg hlong]
      split
      next other hother => cases hpop.symm.trans hother; rfl
      next hnone => cases hpop.symm.trans hnone
    rw [hstep] at h ⊢
    exact ih h
  | case4 _ _ hrun hlong hpop =>
    rw [truncateReaddirResultReference] at h
    simp only [hrun, if_neg hlong] at h
    split at h
    next other hother => cases hpop.symm.trans hother
    next => cases h

/-- Every result starts with its status word. -/
theorem ReadDirResult.run_status {result : ReadDirResult} {encoded : Bytes}
    (h : Encoder.run (encodeResult result) = .ok encoded) :
    ∃ (status : UInt32) (arm : Bytes), encoded = status.toBeBytes ++ arm ∧ arm.length = encoded.length - 4 := by
  obtain ⟨-, rfl⟩ := (Encoder.run_ok_iff (ReadDirResult.encodeResult_writes result)).mp h
  have hstatus : ∃ status rest, result.fields = .word status :: rest := by cases result <;> exact ⟨_, _, rfl⟩
  obtain ⟨status, rest, hfields⟩ := hstatus
  refine ⟨status, rest.flatMap Field.bytes, by rw [hfields]; rfl, ?_⟩
  rw [hfields, List.flatMap_cons, List.length_append]
  simp [Field.bytes]

/-- The linear version returns what the reference returns, errors included, and leaves the same result.
When it returns `true`, the result that it leaves has no more than the limit after the status word. -/
theorem truncation_matches_reference (result : ReadDirResult) (maxSize : Nat) :
    truncateReaddirResult result maxSize = truncateReaddirResultReference result maxSize ∧
    ((truncateReaddirResult result maxSize).1 = .ok true →
      ∃ (status : UInt32) (arm : Bytes),
        Encoder.run (encodeResult (truncateReaddirResult result maxSize).2) = .ok (status.toBeBytes ++ arm) ∧
        arm.length ≤ maxSize) := by
  have heq := truncateReaddirResult_eq_reference result maxSize
  refine ⟨heq, fun htrue => ?_⟩
  rw [heq] at htrue ⊢
  obtain ⟨encoded, hrun, hfits⟩ := run_of_truncateReaddirResultReference htrue
  obtain ⟨status, arm, rfl, harm⟩ := ReadDirResult.run_status hrun
  exact ⟨status, arm, hrun, harm ▸ hfits⟩

/-- One entry of two has room in 48 bytes. -/
theorem truncation_matches_reference_entry :
    (truncateReaddirResult (.ok none ⟨[0, 0, 0, 0, 0, 0, 0, 1], rfl⟩ [⟨5, [97], 1, .basic⟩, ⟨6, [98], 2, .basic⟩] true) 48) =
      (.ok true, .ok none ⟨[0, 0, 0, 0, 0, 0, 0, 1], rfl⟩ [⟨5, [97], 1, .basic⟩] false) ∧
    ∃ (status : UInt32) (arm : Bytes),
      Encoder.run (encodeResult (ReadDirResult.ok none ⟨[0, 0, 0, 0, 0, 0, 0, 1], rfl⟩ [⟨5, [97], 1, .basic⟩] false)) =
        .ok (status.toBeBytes ++ arm) ∧ arm.length ≤ 48 := by
  have hrun : (truncateReaddirResult (.ok none ⟨[0, 0, 0, 0, 0, 0, 0, 1], rfl⟩
      [⟨5, [97], 1, .basic⟩, ⟨6, [98], 2, .basic⟩] true) 48) =
      (.ok true, .ok none ⟨[0, 0, 0, 0, 0, 0, 0, 1], rfl⟩ [⟨5, [97], 1, .basic⟩] false) := by rfl
  obtain ⟨-, hfits⟩ := truncation_matches_reference (.ok none ⟨[0, 0, 0, 0, 0, 0, 0, 1], rfl⟩
    [⟨5, [97], 1, .basic⟩, ⟨6, [98], 2, .basic⟩] true) 48
  rw [hrun] at hfits
  exact ⟨hrun, hfits rfl⟩

/-! ## What is left -/

/-- Whatever was dropped, the entry that was dropped last had no room. -/
theorem truncateLoop_spec (hempty : armSize attributes [] ≤ maxSize) (reversed : List ReadDirEntry)
    (hentries : ∀ listed ∈ reversed, ∀ field ∈ readdirEntryFields listed, field.Encodable) (eof : Bool) :
    ∃ kept dropped, reversed.reverse = kept ++ dropped ∧ armSize attributes kept ≤ maxSize ∧
      (∀ next ∈ dropped.head?, maxSize < armSize attributes (kept ++ [next])) ∧
      truncateLoop maxSize reversed eof (armSize attributes reversed.reverse) =
        (.ok true, kept.reverse, eof && dropped.isEmpty) := by
  induction reversed generalizing eof with
  | nil => exact ⟨[], [], rfl, hempty, by simp, by simp [truncateLoop, hempty]⟩
  | cons last earlier ih =>
    obtain ⟨hlast, hearlier⟩ := List.forall_mem_cons.mp hentries
    by_cases hfits : armSize attributes (last :: earlier).reverse ≤ maxSize
    · refine ⟨(last :: earlier).reverse, [], (List.append_nil _).symm, hfits, by simp, ?_⟩
      rw [truncateLoop, if_neg (Nat.not_lt.mpr hfits)]
      simp
    · obtain ⟨kept, dropped, hsplit, hkept, hnext, hloop⟩ := ih hearlier false
      refine ⟨kept, dropped ++ [last], by rw [List.reverse_cons, hsplit, List.append_assoc], hkept, ?_, ?_⟩
      · intro next hhead
        cases dropped with
        | nil =>
          obtain rfl : last = next := by simpa using hhead
          rw [List.append_nil] at hsplit
          rw [List.reverse_cons, hsplit] at hfits
          exact Nat.lt_of_not_le hfits
        | cons => exact hnext next hhead
      · have hsize : armSize attributes (last :: earlier).reverse - (entryBytes last).length =
            armSize attributes earlier.reverse := by
          rw [List.reverse_cons, armSize_concat, Nat.add_sub_cancel]
        rw [truncateLoop, if_pos (Nat.lt_of_not_le hfits), run_entry hlast]
        simp only [hsize, hloop, Bool.false_and]
        simp

/-- A shorter listing is no longer. -/
theorem armSize_le_append (attributes : Option FileAttributes) (entries entries' : List ReadDirEntry) :
    armSize attributes entries ≤ armSize attributes (entries ++ entries') := by
  rw [armSize_append]
  exact Nat.le_add_right _ _

/-- The truncated listing has the longest front part that fits, and `eof` unless something was dropped. -/
theorem truncateReaddirResult_longest (hattributes : ∀ field ∈ postAttributesFields attributes, field.Encodable)
    (hentries : ∀ listed ∈ entries, ∀ field ∈ readdirEntryFields listed, field.Encodable)
    (hempty : armSize attributes [] ≤ maxSize) (verifier : Fixed 8) (eof : Bool) :
    ∃ kept, LongestFront (fun front => armSize attributes front ≤ maxSize) entries kept ∧
      truncateReaddirResult (.ok attributes verifier entries eof) maxSize =
        (.ok true, .ok attributes verifier kept (eof && decide (kept = entries))) := by
  obtain ⟨kept, dropped, hsplit, hkept, hnext, hloop⟩ := truncateLoop_spec hempty entries.reverse
    (fun listed hlisted => hentries listed (List.mem_reverse.mp hlisted)) eof
  rw [List.reverse_reverse] at hsplit hloop
  refine ⟨kept, ?_, ?_⟩
  · rw [hsplit]
    exact LongestFront.of_stop (fun front next => Nat.le_trans (armSize_le_append attributes front next)) hkept
      fun next hhead => Nat.not_le.mpr (hnext next hhead)
  · have hall : dropped.isEmpty = decide (kept = entries) := by
      rw [hsplit]
      cases dropped <;> simp
    rw [truncateReaddirResult_ok hattributes hentries, hloop]
    simp only [List.reverse_reverse, hall]

end NfsEmbed.Nfs3
