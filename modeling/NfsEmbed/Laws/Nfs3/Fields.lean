import NfsEmbed.Client.Arguments
import NfsEmbed.Laws.Rpc.Codec

/-!
# The fields that arguments and results are made of

Each field has the bytes that spell it and, where not every value can be spelled, a condition. The
decoder of a field reads exactly those bytes; the encoder writes them when the condition holds and
fails when it does not.
-/

namespace NfsEmbed.Nfs3

open Lib Rpc Vfs

variable {α : Type} {spell : α → Bytes}

/-! ## Optional fields -/

def optionalBytes {α : Type} (spell : α → Bytes) : Option α → Bytes
  | none => boolBytes false
  | some value => boolBytes true ++ spell value

theorem length_optionalBytes_le {n : Nat} (h : ∀ a, (spell a).length ≤ n) (value : Option α) :
    (optionalBytes spell value).length ≤ 4 + n := by
  cases value with
  | none => simp [optionalBytes]
  | some a => simpa [optionalBytes] using h a

/-- An optional value is a flag, and what is behind it if the flag is set. -/
theorem readOptional_reads {decode : DecodeM α} {P : α → Prop}
    (h : Reads usizeBound decode (fun a w => P a ∧ w = spell a)) : Reads usizeBound (readOptional decode)
      (fun value w => (∀ a ∈ value, P a) ∧ w = optionalBytes spell value) := by
  refine (Decoder.readBool_reads.bind fun present => Reads.ite (present = true)
    (h.bind fun a => Reads.pure (some a)) (Reads.pure none)).congr fun value w => ?_
  cases value <;> simp [Format.bind, Format.pure, optionalBytes]

theorem readOptional_reads_total {decode : DecodeM α} (h : Reads usizeBound decode (fun a w => w = spell a)) :
    Reads usizeBound (readOptional decode) (fun value w => w = optionalBytes spell value) :=
  (readOptional_reads h.total).congr fun _ _ => by simp

theorem writeOptional_writes {encode : α → EncodeM Unit} {P : α → Prop} (h : ∀ a, Writes (encode a) (P a) (spell a))
    (value : Option α) : Writes (writeOptional encode value) (∀ a ∈ value, P a) (optionalBytes spell value) := by
  cases value with
  | none =>
    refine ((Encoder.writeBool_writes false).seq Writes.pure).congr (by simp) fun _ => ?_
    simp [optionalBytes]
  | some a => exact ((Encoder.writeBool_writes true).seq (h a)).congr (by simp) fun _ => rfl

/-! ## Times -/

def timeBytes (time : NfsTime) : Bytes :=
  time.seconds.toUInt32.toBeBytes ++ time.nanoseconds.toBeBytes

@[simp] theorem length_timeBytes (time : NfsTime) : (timeBytes time).length = 8 := by
  simp [timeBytes]

theorem length_optionalTime_le (time : Option NfsTime) : (optionalBytes timeBytes time).length ≤ 12 :=
  length_optionalBytes_le (fun time => Nat.le_of_eq (length_timeBytes time)) time

/-- The seconds that fit 32 bits are the widened 32-bit words. -/
theorem seconds_eq_toUInt64_iff (seconds : UInt64) (value : UInt32) :
    seconds = value.toUInt64 ↔ seconds.toNat < 2 ^ 32 ∧ value = seconds.toUInt32 := by
  constructor
  · intro h
    subst h
    exact ⟨by simpa using value.toNat_lt, by simp⟩
  · intro h
    obtain ⟨hlt, rfl⟩ := h
    apply UInt64.toNat_inj.mp
    simp only [UInt32.toNat_toUInt64, UInt64.toNat_toUInt32, Nat.mod_eq_of_lt hlt]

/-- A second or more of nanoseconds is not accepted. -/
theorem decodeTime_reads :
    Reads usizeBound decodeTime (fun time w => time.Valid ∧ w = timeBytes time) := by
  refine (Decoder.readU32_reads.bind fun seconds => Decoder.readU32_reads.bind fun nanoseconds =>
    (Reads.throw _).ite (nanoseconds > 999999999)
      (Reads.pure (NfsTime.mk seconds.toUInt64 nanoseconds))).congr fun time w => ?_
  cases time
  simp [Format.bind, Format.pure, timeBytes, NfsTime.Valid, seconds_eq_toUInt64_iff]
  exact fun _ => And.comm

/-- Nor is it written, or a time whose seconds have no word. -/
theorem encodeTime_writes (time : NfsTime) :
    Writes (encodeTime time) time.Valid (timeBytes time) := by
  unfold encodeTime
  by_cases hseconds : time.seconds.toNat ≥ 2 ^ 32
  · simp only [if_pos hseconds]
    exact (Writes.throw _ []).congr ⟨False.elim, fun h => absurd h.1 (by omega)⟩ False.elim
  by_cases hnanos : time.nanoseconds > 999999999
  · simp only [if_neg hseconds, if_pos hnanos]
    exact (Writes.throw _ []).congr ⟨False.elim, fun h => absurd h.2 (by simpa using hnanos)⟩ False.elim
  · simp only [if_neg hseconds, if_neg hnanos]
    refine ((Encoder.writeU32_writes _).seq (Encoder.writeU32_writes _)).congr ?_ fun _ => rfl
    simp only [NfsTime.Valid, and_self, true_iff]
    exact ⟨by omega, by simpa using hnanos⟩

/-! ## Write stability -/

theorem decodeStability_reads :
    Reads usizeBound decodeStability (fun stability w => w = (encodeStability stability).toBeBytes) := by
  refine (Decoder.readU32_reads.tagged encodeStability (fun _ => True) (fun _ => []) fun value => ?_).congr fun stability w => by simp
  split
  case h_4 =>
    refine (Reads.throw _).congr fun stability w => ?_
    cases stability <;> simp_all [encodeStability]
  all_goals
    refine (Reads.pure _).congr fun stability w => ?_
    cases stability <;> simp [Format.pure, encodeStability]

/-! ## Attributes to set -/

def setTimeTag : Option SetTime → UInt32
  | none => 0
  | some .serverTime => 1
  | some (.clientTime _) => 2

def setTimeBody : Option SetTime → Bytes
  | some (.clientTime time) => timeBytes time
  | _ => []

theorem decodeSetTime_reads :
    Reads usizeBound decodeSetTime
      (fun time w => SetTimeValid time ∧ w = (setTimeTag time).toBeBytes ++ setTimeBody time) := by
  refine Decoder.readU32_reads.tagged setTimeTag SetTimeValid setTimeBody fun value => ?_
  split
  case h_1 | h_2 =>
    refine (Reads.pure _).congr fun time w => ?_
    rcases time with _ | _ | _ <;> simp [Format.pure, setTimeTag, setTimeBody, SetTimeValid]
  case h_3 =>
    refine (decodeTime_reads.bind fun time => Reads.pure (some (SetTime.clientTime time))).congr fun time w => ?_
    rcases time with _ | _ | _ <;> simp [Format.bind, Format.pure, setTimeTag, setTimeBody, SetTimeValid]
  case h_4 =>
    refine (Reads.throw _).congr fun time w => ?_
    rcases time with _ | _ | _ <;> simp_all [setTimeTag]

theorem encodeSetTime_writes (time : Option SetTime) :
    Writes (encodeSetTime time) (SetTimeValid time) ((setTimeTag time).toBeBytes ++ setTimeBody time) := by
  rcases time with _ | _ | time
  case none | some.serverTime =>
    exact (Encoder.writeU32_writes _).congr Iff.rfl fun _ => (List.append_nil _).symm
  case some.clientTime =>
    exact ((Encoder.writeU32_writes 2).seq (encodeTime_writes time)).congr (by simp [SetTimeValid]) fun _ => rfl

def setAttributesBytes (attributes : SetAttributes) : Bytes :=
  optionalBytes UInt32.toBeBytes attributes.mode ++ (optionalBytes UInt32.toBeBytes attributes.uid ++
    (optionalBytes UInt32.toBeBytes attributes.gid ++ (optionalBytes UInt64.toBeBytes attributes.size ++
      ((setTimeTag attributes.accessTime).toBeBytes ++ (setTimeBody attributes.accessTime ++
        ((setTimeTag attributes.modifyTime).toBeBytes ++ setTimeBody attributes.modifyTime))))))

theorem length_setTimeBody_le (time : Option SetTime) : (setTimeBody time).length ≤ 8 := by
  rcases time with _ | _ | time <;> simp [setTimeBody]

theorem length_setAttributesBytes_le (attributes : SetAttributes) :
    (setAttributesBytes attributes).length ≤ 60 := by
  have word := length_optionalBytes_le fun value : UInt32 => Nat.le_of_eq value.length_toBeBytes
  have hyper := length_optionalBytes_le fun value : UInt64 => Nat.le_of_eq value.length_toBeBytes
  have hmode := word attributes.mode
  have huid := word attributes.uid
  have hgid := word attributes.gid
  have hsize := hyper attributes.size
  have haccess := length_setTimeBody_le attributes.accessTime
  have hmodify := length_setTimeBody_le attributes.modifyTime
  simp only [setAttributesBytes, List.length_append, UInt32.length_toBeBytes]
  omega

/-- All six optional attributes, in their order. -/
theorem decodeSetAttributes_reads : Reads usizeBound decodeSetAttributes
    (fun attributes w => SetAttributesValid attributes ∧ w = setAttributesBytes attributes) := by
  have word := readOptional_reads_total Decoder.readU32_reads
  refine (word.bind fun mode => word.bind fun uid => word.bind fun gid =>
    (readOptional_reads_total Decoder.readU64_reads).bind fun size =>
    decodeSetTime_reads.bind fun accessTime => decodeSetTime_reads.bind fun modifyTime =>
    Reads.pure (SetAttributes.mk mode uid gid size accessTime modifyTime)).congr fun attributes w => ?_
  cases attributes
  simp [Format.bind, Format.pure, SetAttributesValid, setAttributesBytes, and_assoc]

theorem encodeSetAttributes_writes (attributes : SetAttributes) :
    Writes (encodeSetAttributes attributes) (SetAttributesValid attributes)
      (setAttributesBytes attributes) := by
  refine ((writeOptional_writes Encoder.writeU32_writes _).seq
    ((writeOptional_writes Encoder.writeU32_writes _).seq
    ((writeOptional_writes Encoder.writeU32_writes _).seq
    ((writeOptional_writes Encoder.writeU64_writes _).seq
    ((encodeSetTime_writes _).seq (encodeSetTime_writes _)))))).congr ?_ fun _ => ?_
  · simp [SetAttributesValid]
  · simp [setAttributesBytes]

end NfsEmbed.Nfs3
