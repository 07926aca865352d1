import NfsEmbed.Laws.Rpc.Codec
import NfsEmbed.Rpc.Primitives
import NfsEmbed.Server.Mount

/-!
# The codec never panics and stays inside its input

Three things about the codec as it is down to the standard library. It is the codec of
`NfsEmbed.Rpc.Codec`, operation by operation, so what is known there holds here. Whatever its callers
do, an operation returns, and leaves the decoder further on in the same input or where it was. And an
opaque value is read back wherever it was written, with the three ways the source computes its
padding giving the same number.

The laws are `decoder_safe_and_opaque_roundtrip` and `readArray_eq`.
-/

namespace NfsEmbed.Rpc.Primitives

open Lib

variable {α β σ : Type}

/-! ## The codec it refines -/

/-- Code that cannot panic, as code that could. -/
def lift (m : DecodeM α) : ResultM α := ExceptT.mk fun decoder =>
  match m decoder with
  | .ok value decoder' => .ok (.ok value, decoder')
  | .error error decoder' => .ok (.error error, decoder')

section Lift

variable {m : DecodeM α} {decoder decoder' : Decoder}

theorem lift_ok {value : α} (h : m decoder = .ok value decoder') : (lift m).run decoder = .ok (.ok value, decoder') := by
  simp only [lift, ExceptT.run_mk, h]

theorem lift_error {error : DecodeError} (h : m decoder = .error error decoder') :
    (lift m).run decoder = .ok (.error error, decoder') := by
  simp only [lift, ExceptT.run_mk, h]

theorem lift_congr {m' : DecodeM α} (h : m decoder = m' decoder') : (lift m).run decoder = (lift m').run decoder' := by
  simp only [lift, ExceptT.run_mk, h]

end Lift

theorem PanicM.bind_ok {m : PanicM α} {k : α → PanicM β} {decoder decoder' : Decoder} {value : α}
    (h : m decoder = .ok (value, decoder')) : (m >>= k) decoder = k value decoder' := by
  change (m decoder >>= fun result => k result.1 result.2) = _
  rw [h]
  rfl

/-- Code that goes on only has to agree where the first part gets to. -/
theorem lift_bind_congr {m : DecodeM α} {k : α → ResultM β} {k' : α → DecodeM β} {decoder : Decoder}
    (h : ∀ value decoder', m decoder = .ok value decoder' → k value decoder' = lift (k' value) decoder') :
    (lift m >>= k) decoder = lift (m >>= k') decoder := by
  change ((lift m).run >>= ExceptT.bindCont k) decoder = (lift (m >>= k')).run decoder
  cases hm : m decoder with
  | ok value decoder' =>
    rw [PanicM.bind_ok (lift_ok hm)]
    exact (h value decoder' hm).trans (lift_congr (by rw [ReadM.bind_apply, hm]))
  | error =>
    rw [PanicM.bind_ok (lift_error hm), lift_error (by rw [ReadM.bind_apply, hm])]
    rfl

/-- Lifting goes through sequencing. -/
theorem lift_bind (m : DecodeM α) (k : α → DecodeM β) : lift (m >>= k) = lift m >>= fun value => lift (k value) :=
  funext fun _ => (lift_bind_congr fun _ _ _ => rfl).symm

theorem lift_ite (p : Prop) [Decidable p] (m m' : DecodeM α) :
    lift (if p then m else m') = if p then lift m else lift m' := apply_ite lift p m m'

@[simp] theorem okOr_some (error : DecodeError) (value : α) : okOr error (some value) = pure value := rfl

namespace Decoder

theorem getRange_of_le {slice : Bytes} {start count : Nat} (h : start + count ≤ slice.length) :
    getRange slice start (start + count) = some ((slice.drop start).take count) := by
  rw [getRange, if_pos ⟨Nat.le_add_right _ _, h⟩, List.extract_eq_take_drop, Nat.add_sub_cancel_left]

/-- Neither the addition nor the slice can panic. -/
theorem take_eq (count : Nat) : take count = lift (Rpc.Decoder.take count) := by
  unfold take Rpc.Decoder.take
  rw [lift_bind]
  refine bind_congr fun decoder => ?_
  cases hstop : checkedAdd decoder.position count with
  | none => rfl
  | some =>
    obtain ⟨_, rfl⟩ := checkedAdd_eq_some.mp hstop
    by_cases h : decoder.position + count ≤ decoder.input.length
    · simp only [okOr_some, pure_bind, getRange_of_le h, if_pos h]
      rfl
    · simp only [okOr_some, pure_bind, getRange, h, and_false, if_false]
      rfl

theorem readFixed_eq (n : Nat) : readFixed n = lift (Rpc.Decoder.readFixed n) := by
  unfold readFixed Rpc.Decoder.readFixed
  rw [lift_bind, take_eq]
  refine bind_congr fun value => ?_
  by_cases h : value.length = n
  · simp only [tryInto, dif_pos h]
    rfl
  · simp only [tryInto, dif_neg h]
    rfl

/-- A word is what a fixed array of its width is, since that is all `take` returns. -/
theorem readFixed_bind (n : Nat) (k : Bytes → DecodeM β) :
    (do k (← Rpc.Decoder.readFixed n).bytes) = Rpc.Decoder.take n >>= k := by
  unfold Rpc.Decoder.readFixed
  rw [bind_assoc]
  funext decoder
  refine ReadM.bind_congr fun value decoder' htake => ?_
  obtain ⟨_, ⟨hlength, -⟩, -⟩ := (Rpc.Decoder.take_reads n).exact htake
  rw [dif_pos hlength]
  rfl

theorem readU32_eq : readU32 = lift Rpc.Decoder.readU32 := by
  unfold readU32 Rpc.Decoder.readU32
  rw [← readFixed_bind, lift_bind, readFixed_eq]
  rfl

theorem readLength_eq (field : String) (limit : Nat) : readLength field limit = lift (Rpc.Decoder.readLength field limit) := by
  unfold readLength Rpc.Decoder.readLength
  rw [lift_bind, readU32_eq]
  refine bind_congr fun value => ?_
  have hrange : checked value.toNat = some value.toNat :=
    checked_of_lt (value.toNat_lt.trans (by decide))
  simp only [hrange, okOr_some, pure_bind, lift_ite]
  rfl

/-- The wrapping subtraction in the padding never wraps. -/
theorem wrappingSub_mask (length : Nat) : wrappingSub 4 (length &&& 3) = 4 - (length &&& 3) := by
  have hmask : length &&& 3 ≤ 3 := Nat.and_le_right
  exact wrappingSub_of_le (by omega) (by decide)

theorem readOpaqueSlice_eq (field : String) (limit : Nat) :
    readOpaqueSlice field limit = lift (Rpc.Decoder.readOpaqueSlice field limit) := by
  unfold readOpaqueSlice Rpc.Decoder.readOpaqueSlice
  rw [lift_bind, readLength_eq]
  refine bind_congr fun length => ?_
  rw [lift_bind, take_eq]
  refine bind_congr fun value => ?_
  simp only [lift_bind, take_eq, wrappingSub_mask, lift_ite]
  rfl

/-- An opaque value is never too long to be copied: its length is a 32-bit word. -/
theorem readOpaque_eq (field : String) (limit : Nat) :
    readOpaque field limit = lift (Rpc.Decoder.readOpaque field limit) := by
  funext decoder
  unfold readOpaque Rpc.Decoder.readOpaque
  rw [readOpaqueSlice_eq]
  refine Eq.trans (lift_bind_congr fun value decoder' h => ?_) (congrArg (lift · decoder) (bind_pure _))
  obtain ⟨_, ⟨-, hlength, -⟩, -⟩ := (Rpc.Decoder.readOpaqueSlice_reads field limit).exact h
  rw [Vec.copyOf_of_le (by simp only [isizeMax]; omega)]
  rfl

section ReadArray

variable {size : Nat} {captured : σ} {decoder decoder' : Decoder}

/-- Code for `read_array` that keeps nothing between its calls. -/
def stateless (m : DecodeM α) (captured : σ) : PanicM (Except DecodeError α × σ) := do
  return (← (lift m).run, captured)

theorem stateless_ok {m : DecodeM α} {value : α} (h : m decoder = .ok value decoder') :
    stateless m captured decoder = .ok ((.ok value, captured), decoder') := PanicM.bind_ok (lift_ok h)

theorem stateless_error {m : DecodeM α} {error : DecodeError} (h : m decoder = .error error decoder') :
    stateless m captured decoder = .ok ((.error error, captured), decoder') := PanicM.bind_ok (lift_error h)

theorem stateless_congr {m m' : DecodeM α} (h : m decoder = m' decoder') :
    stateless m captured decoder = stateless m' captured decoder' := by
  change ((lift m).run decoder >>= _) = ((lift m').run decoder' >>= _)
  rw [lift_congr h]

/-- With room for all that is to come, the loop reads its elements and appends them. -/
theorem pushMany_eq (decode : DecodeM α) (count : Nat) {result : Vec α}
    (hroom : result.items.length + count ≤ result.capacity) :
    (do
      let (result, captured) ← pushMany size (stateless decode) count result captured
      return (result.map Vec.items, captured)) decoder =
    stateless (do return result.items ++ (← readMany decode count)) captured decoder := by
  induction count generalizing result decoder with
  | zero =>
    rw [readMany, pure_bind, List.append_nil]
    rfl
  | succ _ ih =>
    simp only [readMany, bind_assoc, pure_bind]
    rw [pushMany, bind_assoc]
    cases hread : decode decoder with
    | error =>
      rw [PanicM.bind_ok (stateless_error hread), stateless_error (by rw [ReadM.bind_apply, hread])]
      rfl
    | ok item =>
      obtain ⟨result', hpush, hitems, hroom'⟩ := Vec.push_of_room size item hroom
      rw [PanicM.bind_ok (stateless_ok hread)]
      simp only [hpush]
      refine (ih hroom').trans (stateless_congr ?_)
      rw [ReadM.bind_apply decode, hread]
      simp only [hitems, List.append_assoc, List.singleton_append]

/-- A reservation that the allocator grants fits an allocation, for elements of any real size. -/
theorem readArray_eq (hsize : size ≤ 2 ^ 31) (decode : DecodeM α) (field : String) (limit : Nat) (captured : σ) :
    readArray size (stateless decode) field limit true captured =
      stateless (Rpc.Decoder.readArray field limit decode) captured := by
  funext decoder
  unfold readArray Rpc.Decoder.readArray
  rw [readLength_eq]
  cases hread : Rpc.Decoder.readLength field limit decoder with
  | error =>
    rw [PanicM.bind_ok (lift_error hread), stateless_error (by rw [ReadM.bind_apply, hread])]
    rfl
  | ok length =>
    obtain ⟨_, ⟨-, hlength, -⟩, -⟩ := (Rpc.Decoder.readLength_reads field limit).exact hread
    have hbytes : length * size ≤ isizeMax :=
      (Nat.mul_le_mul (Nat.le_sub_one_of_lt hlength) hsize).trans (by decide)
    obtain ⟨result, hreserve⟩ := Vec.tryReserveExact_new (α := α) (hlength.trans (by decide)) hbytes
    obtain ⟨hitems, hroom⟩ := Vec.tryReserveExact_eq_some hreserve
    rw [PanicM.bind_ok (lift_ok hread)]
    simp only [hreserve]
    refine (pushMany_eq decode length (by rwa [hitems])).trans (stateless_congr ?_)
    rw [ReadM.bind_apply (Rpc.Decoder.readLength field limit), hread, hitems]
    simp only [Vec.new, List.nil_append, bind_pure]

end ReadArray

theorem readArray_eq_groups :
    readArray 4 (stateless Rpc.Decoder.readU32) "AUTH_SYS groups" 16 true () =
      stateless (Rpc.Decoder.readArray "AUTH_SYS groups" 16 Rpc.Decoder.readU32) () :=
  readArray_eq (by decide) Rpc.Decoder.readU32 "AUTH_SYS groups" 16 ()

theorem finish_eq : finish = lift Rpc.Decoder.finish := by
  unfold finish Rpc.Decoder.finish
  rw [lift_bind]
  refine bind_congr fun decoder => ?_
  rw [lift_ite]
  rfl

end Decoder

/-! ## Staying inside the input -/

/-- `c'` is `c` moved on in its input, and not out of it. -/
structure Forward (c c' : Decoder) : Prop where
  input_eq : c'.input = c.input
  position_le : c.position ≤ c'.position
  inside : c'.position ≤ c.input.length

theorem Forward.trans {c c' c'' : Decoder} (h : Forward c c') (h' : Forward c' c'') : Forward c c'' where
  input_eq := h'.input_eq.trans h.input_eq
  position_le := h.position_le.trans h'.position_le
  inside := h.input_eq ▸ h'.inside

/-- From inside its input, code returns and moves the decoder forward. -/
def Safe (m : PanicM α) : Prop :=
  ∀ c : Decoder, c.position ≤ c.input.length → ∃ value c', m c = .ok (value, c') ∧ Forward c c'

namespace Safe

/-- Code that only looks at the decoder. -/
theorem gets (f : Decoder → α) : Safe (do return f (← get)) := fun c h => ⟨f c, c, rfl, rfl, Nat.le_refl _, h⟩

theorem pure (value : α) : Safe (Pure.pure value) := gets fun _ => value

/-- Safe operations in sequence are safe. -/
theorem bind {m : PanicM α} {k : α → PanicM β} (hm : Safe m) (hk : ∀ value, Safe (k value)) : Safe (m >>= k) := by
  intro c hc
  obtain ⟨value, mid, hrun, hmid⟩ := hm c hc
  obtain ⟨value', c', hrun', hc'⟩ := hk value mid (hmid.input_eq ▸ hmid.inside)
  exact ⟨value', c', (PanicM.bind_ok hrun).trans hrun', hmid.trans hc'⟩

/-- After an error, `?` does nothing more. -/
theorem andThen {m : ResultM α} {k : α → ResultM β} (hm : Safe m.run) (hk : ∀ value, Safe (k value).run) :
    Safe (m >>= k).run := by
  refine bind hm fun result => ?_
  cases result with
  | ok value => exact hk value
  | error => exact pure _

theorem okOr (error : DecodeError) (option : Option α) : Safe (Primitives.okOr error option).run := by
  cases option <;> exact pure _

end Safe

namespace Decoder

/-- All reading goes through `take`, which moves the decoder only when it is allowed to. -/
theorem take_safe (count : Nat) : Safe (take count).run := by
  intro c hc
  rw [take_eq]
  have hrun := Rpc.Decoder.take_run count c
  cases hstop : checkedAdd c.position count with
  | none =>
    rw [hstop] at hrun
    exact ⟨_, c, lift_error hrun, rfl, Nat.le_refl _, hc⟩
  | some =>
    rw [hstop] at hrun
    obtain ⟨_, rfl⟩ := checkedAdd_eq_some.mp hstop
    by_cases h : c.position + count ≤ c.input.length
    · exact ⟨_, _, lift_ok (hrun.trans (if_pos h)), rfl, Nat.le_add_right _ _, h⟩
    · exact ⟨_, c, lift_error (hrun.trans (if_neg h)), rfl, Nat.le_refl _, hc⟩

theorem readFixed_safe (n : Nat) : Safe (readFixed n).run := (take_safe n).andThen fun _ => Safe.okOr _ _

theorem readU32_safe : Safe readU32.run := (readFixed_safe 4).andThen fun _ => Safe.pure _

theorem readI32_safe : Safe readI32.run := (readFixed_safe 4).andThen fun _ => Safe.pure _

theorem readU64_safe : Safe readU64.run := (readFixed_safe 8).andThen fun _ => Safe.pure _

theorem readBool_safe : Safe readBool.run := readU32_safe.andThen fun value => by
  split
  · exact Safe.pure _
  · split <;> exact Safe.pure _

theorem readEnum_safe (kind : String) (convert : UInt32 → Option α) : Safe (readEnum kind convert).run :=
  readU32_safe.andThen fun _ => Safe.okOr _ _

theorem readLength_safe (field : String) (limit : Nat) : Safe (readLength field limit).run :=
  readU32_safe.andThen fun _ => (Safe.okOr _ _).andThen fun _ => by
    split <;> exact Safe.pure _

theorem readOpaqueSlice_safe (field : String) (limit : Nat) : Safe (readOpaqueSlice field limit).run :=
  (readLength_safe field limit).andThen fun _ => (take_safe _).andThen fun _ => (take_safe _).andThen fun _ => by
    split <;> exact Safe.pure _

theorem readOpaque_safe (field : String) (limit : Nat) : Safe (readOpaque field limit).run := by
  rw [readOpaque_eq, Rpc.Decoder.readOpaque, ← readOpaqueSlice_eq]
  exact readOpaqueSlice_safe field limit

theorem finish_safe : Safe finish.run := by
  intro c hc
  rw [finish_eq]
  by_cases h : c.position = c.input.length
  · exact ⟨_, c, lift_ok ((Rpc.Decoder.finish_run c).trans (if_pos h)), rfl, Nat.le_refl _, hc⟩
  · exact ⟨_, c, lift_error ((Rpc.Decoder.finish_run c).trans (if_neg h)), rfl, Nat.le_refl _, hc⟩

section ReadArray

variable {size : Nat} {decode : σ → PanicM (Except DecodeError α × σ)}

/-- The loop never grows its result, which has room for all that is to come. -/
theorem pushMany_safe (hdecode : ∀ captured, Safe (decode captured)) (count : Nat) {result : Vec α} (captured : σ)
    (hroom : result.items.length + count ≤ result.capacity) : Safe (pushMany size decode count result captured) := by
  induction count generalizing result captured with
  | zero => exact Safe.pure _
  | succ _ ih =>
    rw [pushMany]
    refine (hdecode captured).bind fun answer => ?_
    obtain ⟨outcome, captured'⟩ := answer
    cases outcome with
    | error => exact Safe.pure _
    | ok item =>
      obtain ⟨result', hpush, -, hroom'⟩ := Vec.push_of_room size item hroom
      simp only [hpush]
      exact ih captured' hroom'

/-- A refused reservation is an error, and the loop of pushes never grows the vector. -/
theorem readArray_safe (hdecode : ∀ captured, Safe (decode captured)) (field : String) (limit : Nat) (granted : Bool)
    (captured : σ) : Safe (readArray size decode field limit granted captured) := by
  refine (readLength_safe field limit).bind fun answer => ?_
  cases answer with
  | error => exact Safe.pure _
  | ok length =>
    cases hreserve : (Vec.new size : Vec α).tryReserveExact size granted length with
    | none =>
      simp only [hreserve]
      exact Safe.pure _
    | some =>
      obtain ⟨hitems, hroom⟩ := Vec.tryReserveExact_eq_some hreserve
      simp only [hreserve]
      exact (pushMany_safe hdecode length captured (by rwa [hitems])).bind fun _ => Safe.pure _

end ReadArray

end Decoder

mutual

/-- Every operation, with whatever function `read_array` is given. -/
theorem Operation.safe : ∀ {ρ : Type} (operation : Operation ρ), Safe operation.run
  | _, .position => Safe.gets _
  | _, .remaining => Safe.gets _
  | _, .readU32 => Decoder.readU32_safe
  | _, .readI32 => Decoder.readI32_safe
  | _, .readU64 => Decoder.readU64_safe
  | _, .readBool => Decoder.readBool_safe
  | _, .readEnum kind convert => Decoder.readEnum_safe kind convert
  | _, .readFixed n => Decoder.readFixed_safe n
  | _, .readOpaque field limit => Decoder.readOpaque_safe field limit
  | _, .readOpaqueSlice field limit => Decoder.readOpaqueSlice_safe field limit
  | _, .readString field limit => Decoder.readOpaque_safe field limit
  | _, .readArray _ decode field limit granted captured =>
    Decoder.readArray_safe (fun captured => (decode captured).safe) field limit granted captured
  | _, .finish => Decoder.finish_safe

/-- Whatever a caller does, errors included. -/
theorem Program.safe : ∀ {α : Type} (program : Program α), Safe program.run
  | _, .done value => Safe.pure value
  | _, .call operation next => operation.safe.bind fun result => (next result).safe

end

/-! ## Opaque values -/

namespace Encoder

theorem resize_add (output : Bytes) (count : Nat) :
    resize (output.length + count) output = output ++ List.replicate count 0 := by
  unfold resize
  split
  next h =>
    obtain rfl : count = 0 := by omega
    rw [Nat.add_zero, List.take_length, List.replicate_zero, List.append_nil]
  next => rw [Nat.add_sub_cancel_left]

theorem finalLength_eq (output value : Bytes) (padding : Nat) :
    finalLength output value padding = checked (output.length + 4 + value.length + padding) := by
  refine checked_bind (fun _ => ?_) (by omega)
  exact checked_bind (fun _ => rfl) (Nat.le_add_right _ _)

/-- A vector is never so long that the check of the new length fails. -/
theorem writeOpaque_eq (value : Bytes) {output : Bytes} (houtput : output.length ≤ isizeMax) :
    (writeOpaque value).run output = (Rpc.Encoder.writeOpaque value).run output := by
  unfold writeOpaque Rpc.Encoder.writeOpaque
  by_cases hvalue : value.length < 2 ^ 32
  · have hfinal : finalLength output value ((4 - value.length % 4) % 4) =
        some (output.length + 4 + value.length + (4 - value.length % 4) % 4) := by
      rw [finalLength_eq]
      apply checked_of_lt
      simp only [isizeMax, usizeBound] at *
      omega
    have hlength : (output ++ (UInt32.ofNat value.length).toBeBytes ++ value).length = output.length + 4 + value.length := by
      simp only [List.length_append, UInt32.length_toBeBytes]
    simp only [if_pos hvalue, StateT.run_bind, StateT.run_get, pure_bind, hfinal, ← hlength]
    exact congrArg (fun bytes => Except.ok ((), bytes)) (resize_add _ _)
  · simp only [if_neg hvalue]

theorem writeOpaque_run (content : Output) {value : Bytes} (hlength : value.length < 2 ^ 32) :
    (writeOpaque value).run content.val = .ok ((), content.val ++ opaqueBytes value) := by
  rw [writeOpaque_eq value content.property]
  exact (Rpc.Encoder.writeOpaque_writes value content.val).1 hlength

/-- What was written, up to the padding. -/
theorem take_written (content value : Bytes) :
    (content ++ opaqueBytes value).take (content.length + (4 + value.length)) =
      content ++ ((UInt32.ofNat value.length).toBeBytes ++ value) := by
  have hsplit : content ++ opaqueBytes value = content ++ ((UInt32.ofNat value.length).toBeBytes ++ value) ++
      List.replicate (padding value.length) 0 := by
    simp only [opaqueBytes, List.append_assoc]
  rw [hsplit]
  apply List.take_left'
  simp only [List.length_append, UInt32.length_toBeBytes]

end Encoder

/-- What is read off the place where an opaque value was written, with any bytes as its padding. -/
theorem readOpaque_after {content value pad : Bytes} (following : Bytes) (field : String) {limit : Nat}
    (hcontent : content.length ≤ isizeMax) (hlength : value.length < 2 ^ 32) (hlimit : value.length ≤ limit)
    (hpad : pad.length = padding value.length) :
    let decoder : Decoder :=
      ⟨content ++ ((UInt32.ofNat value.length).toBeBytes ++ (value ++ (pad ++ following))), content.length⟩
    (Decoder.readOpaque field limit).run decoder =
      .ok (if pad.any (· ≠ 0) then .error .invalidPadding else .ok value,
        decoder.advance (4 + value.length + pad.length)) := by
  intro decoder
  have hsmall := padding_lt value.length
  have hread : Rpc.Decoder.readOpaque field limit decoder = _ := Rpc.Decoder.readOpaqueSlice_apply hlength hlimit hpad
    (by simp only [decoder, isizeMax, usizeBound] at *; omega) List.drop_left
  rw [Decoder.readOpaque_eq]
  by_cases hany : pad.any (· ≠ 0) = true
  · rw [if_pos hany] at hread ⊢
    exact lift_error hread
  · rw [if_neg hany] at hread ⊢
    exact lift_ok hread

section Written

variable (content : Output) {value : Bytes} (following : Bytes) (field : String) {limit : Nat}

/-- A value is read back wherever it was written. -/
theorem readOpaque_written (hlength : value.length < 2 ^ 32) (hlimit : value.length ≤ limit) :
    (Decoder.readOpaque field limit).run ⟨content.val ++ opaqueBytes value ++ following, content.val.length⟩ =
      .ok (.ok value, ⟨content.val ++ opaqueBytes value ++ following, content.val.length + (opaqueBytes value).length⟩) := by
  have hread := readOpaque_after following field content.property hlength hlimit
    (List.length_replicate (n := padding value.length) (a := 0))
  have hzeros : ¬ (List.replicate (padding value.length) (0 : UInt8)).any (· ≠ 0) = true := by
    simp only [ne_eq, List.any_replicate, not_true, decide_false, ite_self, Bool.false_eq_true, not_false_eq_true]
  rw [if_neg hzeros] at hread
  simp only [opaqueBytes, List.append_assoc, List.length_append, UInt32.length_toBeBytes]
  simpa only [Cursor.advance, Nat.add_assoc] using hread

/-- Other padding is not accepted. -/
theorem readOpaque_rejects_padding {pad : Bytes} (hlength : value.length < 2 ^ 32) (hlimit : value.length ≤ limit)
    (hpad : pad.length = padding value.length) (hbyte : ∃ byte ∈ pad, byte ≠ 0) :
    ∃ decoder, (Decoder.readOpaque field limit).run
        ⟨(content.val ++ opaqueBytes value).take (content.val.length + (4 + value.length)) ++ (pad ++ following),
          content.val.length⟩ = .ok (.error .invalidPadding, decoder) := by
  obtain ⟨byte, hmem, hne⟩ := hbyte
  have hany : pad.any (· ≠ 0) = true := List.any_eq_true.mpr ⟨byte, hmem, decide_eq_true hne⟩
  have hread := readOpaque_after following field content.property hlength hlimit hpad
  rw [if_pos hany] at hread
  simp only [Encoder.take_written, List.append_assoc]
  exact ⟨_, hread⟩

end Written

/-- The third padding formula: the size that MOUNT computes for an opaque value is the length of its bytes, unless
it leaves `usize`. -/
theorem xdrOpaqueSize_eq (value : Bytes) : Server.xdrOpaqueSize value.length = checked (opaqueBytes value).length := by
  rw [length_opaqueBytes, ← Nat.add_assoc]
  exact checked_bind (fun _ => rfl) (Nat.le_add_right _ _)

/-- A decoder never panics and never leaves its input. An opaque value is read back wherever an encoder wrote it, and with
other padding it is refused. -/
theorem decoder_safe_and_opaque_roundtrip :
    (∀ (input : Bytes) {α : Type} (program : Program α), ∃ value decoder,
      program.run (Rpc.Decoder.new input) = .ok (value, decoder) ∧ Forward (Rpc.Decoder.new input) decoder) ∧
    (∀ decoder : Decoder, decoder.position ≤ decoder.input.length → ∀ {ρ : Type} (operation : Operation ρ),
      ∃ result decoder', operation.run decoder = .ok (result, decoder') ∧ Forward decoder decoder') ∧
    (∀ (content : Output) (value : Bytes), value.length < 2 ^ 32 → ∃ encoded size,
      (Encoder.writeOpaque value).run content.val = .ok ((), encoded) ∧
      Server.xdrOpaqueSize value.length = some size ∧ size % 4 = 0 ∧ encoded.length = content.val.length + size ∧
      ∀ (field : String) (limit : Nat), value.length ≤ limit → ∀ following : Bytes,
        (Decoder.readOpaque field limit).run ⟨encoded ++ following, content.val.length⟩ =
          .ok (.ok value, ⟨encoded ++ following, content.val.length + size⟩) ∧
        ∀ pad : Bytes, pad.length = size - (4 + value.length) → (∃ byte ∈ pad, byte ≠ 0) → ∃ decoder,
          (Decoder.readOpaque field limit).run
              ⟨encoded.take (content.val.length + (4 + value.length)) ++ (pad ++ following), content.val.length⟩ =
            .ok (.error .invalidPadding, decoder)) := by
  refine ⟨fun input _ program => program.safe _ (Nat.zero_le _), fun decoder h _ operation => operation.safe decoder h, ?_⟩
  intro content value hlength
  have hsize := length_opaqueBytes value
  refine ⟨content.val ++ opaqueBytes value, (opaqueBytes value).length, Encoder.writeOpaque_run content hlength, ?_, ?_,
    List.length_append, fun field limit hlimit following => ⟨?_, fun pad hpad hbyte => ?_⟩⟩
  · have hpadding := padding_lt value.length
    rw [xdrOpaqueSize_eq]
    exact checked_of_lt (by rw [hsize, usizeBound]; omega)
  · have haligned := add_padding_mod value.length
    omega
  · exact readOpaque_written content following field hlength hlimit
  · exact readOpaque_rejects_padding content following field hlength hlimit (by omega) hbyte

/-- Five bytes after a two-byte content take twelve bytes, three of them padding. -/
theorem opaque_roundtrip_after_two : ∃ encoded,
    (Encoder.writeOpaque [7, 8, 9, 10, 11]).run [1, 2] = .ok ((), encoded) ∧
    (Decoder.readOpaque "name" 255).run ⟨encoded ++ [255], 2⟩ = .ok (.ok [7, 8, 9, 10, 11], ⟨encoded ++ [255], 14⟩) ∧
    ∃ decoder, (Decoder.readOpaque "name" 255).run ⟨encoded.take 11 ++ [0, 1, 0, 255], 2⟩ =
      .ok (.error .invalidPadding, decoder) := by
  obtain ⟨encoded, size, hwrite, hsize, -, -, hread⟩ :=
    decoder_safe_and_opaque_roundtrip.2.2 ⟨[1, 2], by decide⟩ [7, 8, 9, 10, 11] (by decide)
  obtain rfl : 12 = size := Option.some.inj hsize
  obtain ⟨hvalue, hrejects⟩ := hread "name" 255 (by decide) [255]
  exact ⟨encoded, hwrite, hvalue, hrejects [0, 1, 0] rfl ⟨1, by decide, by decide⟩⟩

end NfsEmbed.Rpc.Primitives
