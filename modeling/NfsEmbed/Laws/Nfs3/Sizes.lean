import NfsEmbed.Laws.Nfs3.Results

/-!
# How long results are

Fields that can all be encoded, in no more than so many bytes. The bound of a result is the sum of the
bounds of its parts, so the largest one is read off its fields.
-/

namespace NfsEmbed.Vfs

/-! ## The times in what a backend returns -/

def FileAttributes.times (attributes : FileAttributes) : List NfsTime :=
  [attributes.accessTime, attributes.modifyTime, attributes.changeTime]

def WccAttributes.times (attributes : WccAttributes) : List NfsTime :=
  [attributes.modifyTime, attributes.changeTime]

def optionalTimes {α : Type} (times : α → List NfsTime) (value : Option α) : List NfsTime :=
  value.elim [] times

end NfsEmbed.Vfs

namespace NfsEmbed.Nfs3

open Lib Rpc Vfs

/-- The fields can be encoded, in this many bytes or fewer. -/
def Fits (size : Nat) (fields : List Field) : Prop :=
  (∀ field ∈ fields, field.Encodable) ∧ (fields.flatMap Field.bytes).length ≤ size

namespace Fits

variable {size size' : Nat} {fields fields' : List Field}

theorem nil : Fits 0 [] := ⟨by simp, by simp⟩

theorem cons {field : Field} (hfield : field.Encodable) (hbytes : field.bytes.length ≤ size')
    (h : Fits size fields) : Fits (size' + size) (field :: fields) := by
  refine ⟨List.forall_mem_cons.mpr ⟨hfield, h.1⟩, ?_⟩
  rw [List.flatMap_cons, List.length_append]
  exact Nat.add_le_add hbytes h.2

/-- The sizes of two lists of fields add up. -/
theorem append (h : Fits size fields) (h' : Fits size' fields') : Fits (size + size') (fields ++ fields') := by
  refine ⟨List.forall_mem_append.mpr ⟨h.1, h'.1⟩, ?_⟩
  rw [List.flatMap_append, List.length_append]
  exact Nat.add_le_add h.2 h'.2

theorem mono (h : Fits size fields) (hle : size ≤ size') : Fits size' fields := ⟨h.1, Nat.le_trans h.2 hle⟩

theorem word (value : UInt32) (h : Fits size fields) : Fits (4 + size) (.word value :: fields) :=
  .cons trivial (Nat.le_of_eq value.length_toBeBytes) h

theorem hyper (value : UInt64) (h : Fits size fields) : Fits (8 + size) (.hyper value :: fields) :=
  .cons trivial (Nat.le_of_eq value.length_toBeBytes) h

theorem flag (value : Bool) (h : Fits size fields) : Fits (4 + size) (.flag value :: fields) :=
  .cons trivial (Nat.le_of_eq (length_boolBytes value)) h

theorem verifier (value : Fixed 8) (h : Fits size fields) : Fits (8 + size) (.verifier value :: fields) :=
  .cons trivial (Nat.le_of_eq value.length_eq) h

theorem time {value : NfsTime} (hvalue : value.Valid) (h : Fits size fields) : Fits (8 + size) (.time value :: fields) :=
  .cons hvalue (Nat.le_of_eq (length_timeBytes value)) h

theorem payload {value : Bytes} (hvalue : value.length < 2 ^ 32) (h : Fits size fields) :
    Fits (value.length + 7 + size) (.payload value :: fields) :=
  .cons hvalue (length_opaqueBytes_le value) h

theorem optional {α : Type} {spell : α → List Field} {value : Option α}
    (h : ∀ a ∈ value, Fits size (spell a)) : Fits (4 + size) (Field.optional spell value) := by
  cases value with
  | none => exact (Fits.flag false nil).mono (Nat.add_le_add_left (Nat.zero_le _) _)
  | some a => exact (h a rfl).flag true

end Fits

/-! ## Attributes -/

/-- Attributes with valid times take at most 84 bytes. -/
theorem attributesFields_fits {attributes : FileAttributes} (h : ∀ time ∈ attributes.times, time.Valid) :
    Fits 84 (attributesFields attributes) := by
  simp only [FileAttributes.times, List.forall_mem_cons] at h
  obtain ⟨haccess, hmodify, hchange, -⟩ := h
  exact ((((((((((((((Fits.nil.time hchange).time hmodify).time haccess).hyper _).hyper _).word _).word _).hyper
    _).hyper _).word _).word _).word _).word _).word _)

theorem postAttributesFields_fits {attributes : Option FileAttributes}
    (h : ∀ time ∈ optionalTimes FileAttributes.times attributes, time.Valid) :
    Fits 88 (postAttributesFields attributes) := by
  refine Fits.optional fun a ha => attributesFields_fits ?_
  cases ha
  exact h

theorem postAttributesFields_fits_of_encodable {attributes : Option FileAttributes}
    (h : ∀ field ∈ postAttributesFields attributes, field.Encodable) : Fits 88 (postAttributesFields attributes) := by
  refine postAttributesFields_fits fun time htime => ?_
  cases attributes with
  | none => cases htime
  | some =>
    refine h (.time time) (List.mem_cons_of_mem _ ?_)
    simp only [optionalTimes, Option.elim_some, FileAttributes.times, List.mem_cons, List.not_mem_nil, or_false] at htime
    simp only [attributesFields, List.mem_cons, Field.time.injEq, reduceCtorEq, false_or, List.not_mem_nil, or_false]
    exact htime

theorem postAttributesFields_none_fits : Fits 88 (postAttributesFields none) :=
  postAttributesFields_fits (by simp [optionalTimes])

/-- The times of a `wcc_data`. -/
def WccData.times (wcc : WccData) : List NfsTime :=
  optionalTimes WccAttributes.times wcc.before ++ optionalTimes FileAttributes.times wcc.after

/-- Weak cache consistency data takes at most 116 bytes. -/
theorem wccFields_fits {wcc : WccData} (h : ∀ time ∈ wcc.times, time.Valid) : Fits 116 (wccFields wcc) := by
  obtain ⟨hbefore, hafter⟩ := List.forall_mem_append.mp h
  have hattributes : ∀ attributes ∈ wcc.before, Fits 24 [.hyper attributes.size, .time attributes.modifyTime,
      .time attributes.changeTime] := by
    intro attributes hattributes
    rw [Option.mem_def.mp hattributes] at hbefore
    simp only [optionalTimes, Option.elim_some, WccAttributes.times, List.forall_mem_cons] at hbefore
    exact ((Fits.nil.time hbefore.2.1).time hbefore.1).hyper _
  exact (Fits.optional hattributes).append (postAttributesFields_fits hafter)

theorem wccFields_empty_fits : Fits 116 (wccFields {}) := wccFields_fits (by simp [WccData.times, optionalTimes])

/-! ## Directory listings -/

/-- The bytes of an entry in a listing. -/
def entryBytes (listed : ReadDirEntry) : Bytes := (readdirEntryFields listed).flatMap Field.bytes

/-- The size of a listing without its status word. -/
def armSize (attributes : Option FileAttributes) (entries : List ReadDirEntry) : Nat :=
  ((postAttributesFields attributes).flatMap Field.bytes).length + 16 + (entries.flatMap entryBytes).length

/-- Each further entry adds its own bytes. -/
theorem armSize_append (attributes : Option FileAttributes) (entries entries' : List ReadDirEntry) :
    armSize attributes (entries ++ entries') = armSize attributes entries + (entries'.flatMap entryBytes).length := by
  unfold armSize
  rw [List.flatMap_append, List.length_append, Nat.add_assoc _ _ (List.length _)]

/-- `armSize` is the size of a listing without its status. -/
theorem ReadDirResult.length_bytes (attributes : Option FileAttributes) (verifier : Fixed 8)
    (entries : List ReadDirEntry) (eof : Bool) :
    ((ReadDirResult.ok attributes verifier entries eof).fields.flatMap Field.bytes).length =
      4 + armSize attributes entries := by
  have hentries : ((entries.flatMap readdirEntryFields).flatMap Field.bytes).length =
      (entries.flatMap entryBytes).length := by
    rw [List.flatMap_assoc]
    rfl
  have hstatus : (Field.word NfsStatus.ok.code).bytes.length = 4 := UInt32.length_toBeBytes _
  have hverifier : (Field.verifier verifier).bytes.length = 8 := verifier.length_eq
  have hflag : ∀ value, (Field.flag value).bytes.length = 4 := length_boolBytes
  simp only [armSize, hentries, ReadDirResult.fields, List.flatMap_cons, List.flatMap_append, List.length_append,
    List.flatMap_nil, List.length_nil, hstatus, hverifier, hflag]
  omega

/-- A listing is encodable if its parts are. -/
theorem ReadDirResult.encodable_iff {attributes : Option FileAttributes} {verifier : Fixed 8}
    {entries : List ReadDirEntry} {eof : Bool} :
    (∀ field ∈ (ReadDirResult.ok attributes verifier entries eof).fields, field.Encodable) ↔
      (∀ field ∈ postAttributesFields attributes, field.Encodable) ∧
      ∀ listed ∈ entries, ∀ field ∈ readdirEntryFields listed, field.Encodable := by
  have hrest : ∀ value, (Field.flag value).Encodable := fun _ => trivial
  have hstatus : (Field.word NfsStatus.ok.code).Encodable := trivial
  have hverifier : (Field.verifier verifier).Encodable := trivial
  simp only [ReadDirResult.fields, List.forall_mem_cons, List.forall_mem_append, List.mem_flatMap, hrest, hstatus,
    hverifier, true_and, and_true, List.not_mem_nil, false_imp_iff, implies_true]
  grind

end NfsEmbed.Nfs3
