import NfsEmbed.Laws.Rpc.Codec
import NfsEmbed.Legacy.Handlers

/-!
# What the XDR of the pre-1.0 implementation writes and reads

Each type has a spelling. Serialising a value writes its spelling, and panics if one of its vectors is too
long; deserialising reads it back.
-/

namespace NfsEmbed.Legacy

open Lib Rpc

class LawfulXdr (α : Type) [Xdr α] where
  spell : α → Bytes
  /-- The vectors in the value are shorter than the bound. -/
  Fits : Nat → α → Prop
  serialize_writes (value : α) : Writes (serialize value) (Fits (2 ^ 32 - 1) value) (spell value)
  deserialize_consumes (value : α) : Fits (2 ^ 32) value → Consumes deserialize (spell value) value

export LawfulXdr (spell Fits serialize_writes deserialize_consumes)

theorem readExact_consumes {count : Nat} {w : Bytes} (h : w.length = count) : Consumes (readExact count) w w := by
  intro rest
  subst h
  show (if w.length ≤ (w ++ rest).length then _ else _) = _
  rw [if_pos (by simp), List.take_left, List.drop_left]

/-! ## Primitives -/

instance : LawfulXdr UInt32 where
  spell value := value.toBeBytes
  Fits _ _ := True
  serialize_writes value := Writes.append value.toBeBytes
  deserialize_consumes value _ := by
    have h := (readExact_consumes value.length_toBeBytes).map UInt32.fromBeBytes
    rwa [UInt32.fromBeBytes_toBeBytes] at h

instance : LawfulXdr UInt64 where
  spell value := value.toBeBytes
  Fits _ _ := True
  serialize_writes value := Writes.append value.toBeBytes
  deserialize_consumes value _ := by
    have h := (readExact_consumes value.length_toBeBytes).map UInt64.fromBeBytes
    rwa [UInt64.fromBeBytes_toBeBytes] at h

instance : LawfulXdr Bool where
  spell value := boolBytes value
  Fits _ _ := True
  serialize_writes _ := Writes.append _
  deserialize_consumes value _ := by
    have h := (deserialize_consumes (if value then 1 else 0 : UInt32) trivial).map (fun n => decide (n > 0))
    cases value <;> exact h

instance (n : Nat) : LawfulXdr (Fixed n) where
  spell value := value.bytes
  Fits _ _ := True
  serialize_writes value := Writes.append value.bytes
  deserialize_consumes value _ := by
    apply (readExact_consumes value.length_eq).bind_nil
    rw [dif_pos value.length_eq]
    exact Consumes.pure value

instance : LawfulXdr Bytes where
  spell value := opaqueBytes value
  Fits bound value := value.length < bound
  serialize_writes value := by
    show Writes (if value.length < 2 ^ 32 - 1 then _ else _) _ _
    by_cases h : value.length < 2 ^ 32 - 1
    · have hlt : value.length < 2 ^ 32 := Nat.lt_trans h (by decide)
      have hlength : (UInt32.ofNat value.length).toNat = value.length := UInt32.toNat_ofNat_of_lt' hlt
      have hpadding : (4 - (UInt32.ofNat value.length).toNat % 4) % 4 = padding value.length := by rw [hlength, padding]
      rw [if_pos h]
      dsimp only
      rw [hpadding]
      refine ((serialize_writes (UInt32.ofNat value.length)).seq ((Writes.append value).seq (Writes.append _))).congr ?_
        fun _ => rfl
      exact ⟨fun _ => h, fun _ => ⟨trivial, trivial, trivial⟩⟩
    · rw [if_neg h]
      exact (Writes.throw _ (opaqueBytes value)).congr ⟨False.elim, h⟩ fun _ => rfl
  deserialize_consumes value hfits := by
    have hlength : (UInt32.ofNat value.length).toNat = value.length := UInt32.toNat_ofNat_of_lt' hfits
    refine (deserialize_consumes (UInt32.ofNat value.length) trivial).bind ?_
    rw [hlength]
    exact (readExact_consumes rfl).bind ((readExact_consumes List.length_replicate).map fun _ => value)

/-! ## The macros -/

section Macros

variable {α β : Type} [Xdr β] [LawfulXdr β]

instance [Xdr α] [LawfulXdr α] : LawfulXdr (α × β) where
  spell value := spell value.1 ++ spell value.2
  Fits bound value := Fits bound value.1 ∧ Fits bound value.2
  serialize_writes value := (serialize_writes value.1).seq (serialize_writes value.2)
  deserialize_consumes value hfits :=
    (deserialize_consumes value.1 hfits.1).bind ((deserialize_consumes value.2 hfits.2).map _)

instance : LawfulXdr (Option β) where
  spell
    | none => boolBytes false
    | some value => boolBytes true ++ spell value
  Fits bound
    | none => True
    | some value => Fits bound value
  serialize_writes value := by
    cases value with
    | none => exact serialize_writes false
    | some value =>
      exact ((serialize_writes true).seq (serialize_writes value)).congr (true_and _ ▸ Iff.rfl) fun _ => rfl
  deserialize_consumes value hfits := by
    cases value with
    | none => exact (deserialize_consumes false trivial).bind_nil (Consumes.pure none)
    | some value => exact (deserialize_consumes true trivial).bind ((deserialize_consumes value hfits).map some)

@[reducible] def LawfulXdr.struct (fields : α → β) (ofFields : β → α) (h : ∀ value, ofFields (fields value) = value) :
    @LawfulXdr α (xdrStruct fields ofFields) :=
  letI := xdrStruct fields ofFields
  { spell := fun value => spell (fields value)
    Fits := fun bound value => Fits bound (fields value)
    serialize_writes := fun value => serialize_writes (fields value)
    deserialize_consumes := fun value hfits => by
      have hconsumes := (deserialize_consumes (fields value) hfits).map ofFields
      rwa [h] at hconsumes }

@[reducible] def LawfulXdr.enum (name : String) (toU32 : α → UInt32) (fromU32 : UInt32 → Option α)
    (h : ∀ value, fromU32 (toU32 value) = some value) : @LawfulXdr α (xdrEnum name toU32 fromU32) :=
  letI := xdrEnum name toU32 fromU32
  { spell := fun value => (toU32 value).toBeBytes
    Fits := fun _ _ => True
    serialize_writes := fun value => serialize_writes (toU32 value)
    deserialize_consumes := fun value _ => by
      apply (deserialize_consumes (toU32 value) trivial).bind_nil
      rw [h]
      exact Consumes.pure value }

end Macros

/-! ## Types of the protocol -/

instance : LawfulXdr Nfsstat3 := .enum _ _ _ fun stat => by cases stat <;> rfl

instance : LawfulXdr Ftype3 := .enum _ _ _ fun ftype => by cases ftype <;> rfl

instance : LawfulXdr Createmode3 := .enum _ _ _ fun mode => by cases mode <;> rfl

instance : LawfulXdr StableHow := .enum _ _ _ fun stable => by cases stable <;> rfl

instance : LawfulXdr Specdata3 := .struct _ _ fun _ => rfl

instance : LawfulXdr NfsFh3 := .struct _ _ fun _ => rfl

instance : LawfulXdr Nfstime3 := .struct _ _ fun _ => rfl

instance : LawfulXdr Fattr3 := .struct _ _ fun _ => rfl

instance : LawfulXdr WccAttr := .struct _ _ fun _ => rfl

instance : LawfulXdr WccData := .struct _ _ fun _ => rfl

instance : LawfulXdr Diropargs3 := .struct _ _ fun _ => rfl

instance : LawfulXdr READ3args := .struct _ _ fun _ => rfl

instance : LawfulXdr READ3resok := .struct _ _ fun _ => rfl

instance : LawfulXdr WRITE3args := .struct _ _ fun _ => rfl

instance : LawfulXdr WRITE3resok := .struct _ _ fun _ => rfl

instance : LawfulXdr READDIR3args := .struct _ _ fun _ => rfl

instance : LawfulXdr READDIRPLUS3args := .struct _ _ fun _ => rfl

instance : LawfulXdr Entry3 := .struct _ _ fun _ => rfl

instance : LawfulXdr Entryplus3 := .struct _ _ fun _ => rfl

def SetTime.spell : SetTime → Bytes
  | dontChange => (0 : UInt32).toBeBytes
  | setToServerTime => (1 : UInt32).toBeBytes
  | setToClientTime time => (2 : UInt32).toBeBytes ++ LawfulXdr.spell time

theorem SetTime.serialize_writes : ∀ time : SetTime, Writes time.serialize True time.spell
  | dontChange => LawfulXdr.serialize_writes (0 : UInt32)
  | setToServerTime => LawfulXdr.serialize_writes (1 : UInt32)
  | setToClientTime time =>
    ((LawfulXdr.serialize_writes (2 : UInt32)).seq (LawfulXdr.serialize_writes time)).congr (by simp [Fits]) fun _ => rfl

theorem SetTime.deserialize_consumes (name : String) :
    ∀ time : SetTime, Consumes (SetTime.deserialize name) time.spell time
  | dontChange => (LawfulXdr.deserialize_consumes (0 : UInt32) trivial).bind_nil (Consumes.pure _)
  | setToServerTime => (LawfulXdr.deserialize_consumes (1 : UInt32) trivial).bind_nil (Consumes.pure _)
  | setToClientTime time =>
    (LawfulXdr.deserialize_consumes (2 : UInt32) trivial).bind
      ((LawfulXdr.deserialize_consumes time (And.intro trivial trivial)).map SetTime.setToClientTime)

instance : LawfulXdr Sattr3 where
  spell attributes :=
    spell attributes.mode ++ (spell attributes.uid ++ (spell attributes.gid ++ (spell attributes.size ++
      (attributes.atime.spell ++ attributes.mtime.spell))))
  Fits _ _ := True
  serialize_writes attributes := by
    refine ((serialize_writes attributes.mode).seq <| (serialize_writes attributes.uid).seq <|
      (serialize_writes attributes.gid).seq <| (serialize_writes attributes.size).seq <|
      attributes.atime.serialize_writes.seq attributes.mtime.serialize_writes).congr ?_ fun _ => rfl
    cases attributes.mode <;> cases attributes.uid <;> cases attributes.gid <;> cases attributes.size <;> simp [Fits]
  deserialize_consumes attributes _ := by
    have hword : ∀ value : Option UInt32, Fits (2 ^ 32) value := fun value => by cases value <;> trivial
    have hsize : Fits (2 ^ 32) attributes.size := by cases attributes.size <;> trivial
    exact (deserialize_consumes attributes.mode (hword _)).bind <| (deserialize_consumes attributes.uid (hword _)).bind <|
      (deserialize_consumes attributes.gid (hword _)).bind <| (deserialize_consumes attributes.size hsize).bind <|
      (SetTime.deserialize_consumes _ attributes.atime).bind ((SetTime.deserialize_consumes _ attributes.mtime).map _)

instance : LawfulXdr Symlinkdata3 := .struct _ _ fun _ => rfl

instance : LawfulXdr SETATTR3args := .struct _ _ fun _ => rfl

instance : LawfulXdr MKDIR3args := .struct _ _ fun _ => rfl

instance : LawfulXdr SYMLINK3args := .struct _ _ fun _ => rfl

/-! ## Types without vectors -/

/-- Values of the type can always be serialised. -/
class VectorFree (α : Type) [Xdr α] [LawfulXdr α] : Prop where
  fits (bound : Nat) (value : α) : Fits bound value

section VectorFree

variable {α β : Type} [Xdr β] [LawfulXdr β] [VectorFree β]

/-- A value without vectors is always written. -/
theorem serialize_writes_total (value : β) : Writes (serialize value) True (spell value) :=
  (serialize_writes value).congr (iff_true_intro (VectorFree.fits _ value)) fun _ => rfl

instance : VectorFree UInt32 := ⟨fun _ _ => trivial⟩

instance : VectorFree UInt64 := ⟨fun _ _ => trivial⟩

instance : VectorFree Bool := ⟨fun _ _ => trivial⟩

instance (n : Nat) : VectorFree (Fixed n) := ⟨fun _ _ => trivial⟩

instance : VectorFree Ftype3 := ⟨fun _ _ => trivial⟩

instance : VectorFree StableHow := ⟨fun _ _ => trivial⟩

instance [Xdr α] [LawfulXdr α] [VectorFree α] : VectorFree (α × β) :=
  ⟨fun bound value => ⟨VectorFree.fits bound value.1, VectorFree.fits bound value.2⟩⟩

instance : VectorFree (Option β) where
  fits bound value := by
    cases value with
    | none => trivial
    | some value => exact VectorFree.fits bound value

theorem VectorFree.struct (fields : α → β) (ofFields : β → α) (h : ∀ value, ofFields (fields value) = value) :
    @VectorFree α (xdrStruct fields ofFields) (LawfulXdr.struct fields ofFields h) :=
  letI := xdrStruct fields ofFields
  letI := LawfulXdr.struct fields ofFields h
  ⟨fun bound value => VectorFree.fits bound (fields value)⟩

end VectorFree

instance : VectorFree Specdata3 := .struct _ _ fun _ => rfl

instance : VectorFree Nfstime3 := .struct _ _ fun _ => rfl

instance : VectorFree Fattr3 := .struct _ _ fun _ => rfl

instance : VectorFree WccAttr := .struct _ _ fun _ => rfl

instance : VectorFree WccData := .struct _ _ fun _ => rfl

instance : VectorFree WRITE3resok := .struct _ _ fun _ => rfl

end NfsEmbed.Legacy
