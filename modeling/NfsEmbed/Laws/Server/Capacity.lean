import NfsEmbed.Lib.Computation
import NfsEmbed.Server.Config

/-!
# What the transport can carry

A record is limited in its size and, through the size and the number of its fragments, once more. The
smaller of the two is the transport capacity; what fits it passes the check on outbound records. The
limits that the builder accepts leave room in it for every reply to a mutation and, with the headers
around them, for the largest transfers.
-/

namespace NfsEmbed.Server.ServerLimits

open Lib Rpc

variable {limits : ServerLimits}

/-- Both parts of the check are passed. -/
theorem parts_of_validate (h : limits.validate = .ok ()) : limits.validateRuntime = .ok () ∧
    limits.validateReplies (divCeil MAXIMUM_MUTATION_REPLY_SIZE limits.maxRpcFragmentSize) = .ok () := by
  unfold validate at h
  cases hruntime : limits.validateRuntime with
  | error =>
    rw [hruntime] at h
    cases h
  | ok =>
    rw [hruntime] at h
    exact ⟨rfl, h⟩

/-- What passing the check says about connections and records. -/
structure Usable (limits : ServerLimits) : Prop where
  requests : 0 < limits.maxRequestsPerConnection
  fragment : 0 < limits.maxRpcFragmentSize
  fragment_le : limits.maxRpcFragmentSize ≤ 0x7fffffff
  reply : MAXIMUM_MUTATION_REPLY_SIZE ≤ limits.maxRpcRecordSize
  reply_fragments : divCeil MAXIMUM_MUTATION_REPLY_SIZE limits.maxRpcFragmentSize ≤ limits.maxFragmentsPerRecord

theorem usable_of_validate {limits : ServerLimits} (h : limits.validate = .ok ()) : limits.Usable := by
  obtain ⟨h, hreplies⟩ := parts_of_validate h
  obtain ⟨-, h⟩ := of_check_ok h
  obtain ⟨hrequests, h⟩ := of_check_ok h
  obtain ⟨-, h⟩ := of_check_ok h
  obtain ⟨hfragment, h⟩ := of_check_ok h
  obtain ⟨hwire, -⟩ := of_check_ok h
  obtain ⟨hreply, -⟩ := of_check_ok hreplies
  simp only [not_or, Nat.not_lt] at hrequests hfragment hwire hreply
  exact ⟨Nat.pos_of_ne_zero hrequests.1, Nat.pos_of_ne_zero hfragment.1, hwire.1, hreply.1, hreply.2⟩

/-- The defaults pass their own check. -/
theorem validate_productionDefaults : productionDefaults.validate = .ok () := by decide

/-- What fits the capacity fits a record. -/
theorem fits_of_le_capacity (hfragment : 0 < limits.maxRpcFragmentSize) (hcount : 0 < limits.maxFragmentsPerRecord)
    {length : Nat} (h : length ≤ limits.transportRecordCapacity) :
    validateRecordLength length limits.recordLimits = .ok () := by
  obtain ⟨hrecord, hfragments⟩ := Nat.le_min.mp h
  have hproduct := Nat.le_trans hfragments (saturatingMul_le _ _)
  refine validateRecordLength_ok_iff.mpr ⟨hrecord, ?_, hfragment⟩
  unfold fragmentCount recordLimits
  dsimp only
  split
  next => exact hcount
  next =>
    rw [if_neg (Nat.ne_of_gt hfragment), Nat.div_le_iff_le_mul_add_pred hfragment]
    omega

/-- The longest reply to a mutation is within the capacity. -/
theorem mutation_le_capacity (h : limits.Usable) : MAXIMUM_MUTATION_REPLY_SIZE ≤ limits.transportRecordCapacity := by
  have hcount := h.reply_fragments
  unfold divCeil at hcount
  rw [Nat.div_le_iff_le_mul_add_pred h.fragment] at hcount
  refine Nat.le_min.mpr ⟨h.reply, Nat.le_min.mpr ⟨?_, by decide⟩⟩
  have hfragment := h.fragment
  omega

theorem fragments_pos (h : limits.Usable) : 0 < limits.maxFragmentsPerRecord := by
  have hdiv : 0 < divCeil MAXIMUM_MUTATION_REPLY_SIZE limits.maxRpcFragmentSize := by
    unfold divCeil MAXIMUM_MUTATION_REPLY_SIZE
    have hfragment := h.fragment
    exact Nat.div_pos (by omega) hfragment
  exact Nat.lt_of_lt_of_le hdiv h.reply_fragments

/-- What fits the transport passes the writer's check. -/
theorem fits_of_usable (h : limits.Usable) {length : Nat} (hlength : length ≤ limits.transportRecordCapacity) :
    validateRecordLength length limits.recordLimits = .ok () :=
  fits_of_le_capacity h.fragment (fragments_pos h) hlength

/-- Every reply within the bound of mutations fits. -/
theorem fits_of_short (h : limits.Usable) {length : Nat} (hlength : length ≤ MAXIMUM_MUTATION_REPLY_SIZE) :
    validateRecordLength length limits.recordLimits = .ok () :=
  fits_of_usable h (Nat.le_trans hlength (mutation_le_capacity h))

/-- The largest transfers fit, with what surrounds them. -/
structure Transfers (limits : ServerLimits) : Prop where
  read : limits.maxReadSize.toNat + MAXIMUM_READ_REPLY_OVERHEAD ≤ limits.transportRecordCapacity
  write : limits.maxWriteSize.toNat + MAXIMUM_WRITE_RECORD_OVERHEAD ≤ limits.transportRecordCapacity
  readdir : limits.maxReaddirResponseSize.toNat + READDIR_REPLY_OVERHEAD ≤ limits.transportRecordCapacity
  record : limits.maxRpcRecordSize < 2 ^ 32

theorem transfers_of_validate (h : limits.validate = .ok ()) : limits.Transfers := by
  obtain ⟨h, hreplies⟩ := parts_of_validate h
  obtain ⟨-, h⟩ := of_check_ok h
  obtain ⟨-, h⟩ := of_check_ok h
  obtain ⟨-, h⟩ := of_check_ok h
  obtain ⟨-, h⟩ := of_check_ok h
  obtain ⟨hwire, -⟩ := of_check_ok h
  obtain ⟨-, hreplies⟩ := of_check_ok hreplies
  obtain ⟨htransfers, -⟩ := of_check_ok hreplies
  simp only [not_or] at hwire htransfers
  obtain ⟨hread, hwrite, hreaddir, hreadSize, hwriteSize, hreaddirSize⟩ := htransfers
  -- a limit that is not zero leaves the subtraction a real one
  have hpos : ∀ {value : UInt32}, value ≠ 0 → 0 < value.toNat := fun hne =>
    Nat.pos_of_ne_zero fun hzero => hne (UInt32.toNat_inj.mp hzero)
  have hread := hpos hread
  have hwrite := hpos hwrite
  have hreaddir := hpos hreaddir
  exact ⟨by omega, by omega, by omega, by omega⟩

/-! ## Arithmetic -/

/-- `usize::div_ceil`, where a division by zero and a quotient past the top are failures. -/
def checkedDivCeil (a b : Nat) : Option Nat :=
  if b = 0 then none else checkedAdd (a / b) (if a % b > 0 then 1 else 0)

/-- The check with its arithmetic done in `usize`. The other operations saturate, so the division is the
only one that could fail. -/
def validateChecked (limits : ServerLimits) : Option (Except String Unit) :=
  match limits.validateRuntime with
  | .error reason => some (.error reason)
  | .ok () => (checkedDivCeil MAXIMUM_MUTATION_REPLY_SIZE limits.maxRpcFragmentSize).map limits.validateReplies

theorem checkedDivCeil_eq {a b : Nat} (ha : a < usizeMax) (hb : b ≠ 0) : checkedDivCeil a b = some (divCeil a b) := by
  have hpos := Nat.pos_of_ne_zero hb
  have hquotient : a / b ≤ a := Nat.div_le_self a b
  have hceil : divCeil a b = a / b + if a % b > 0 then 1 else 0 := by
    unfold divCeil
    have hsplit := Nat.div_add_mod a b
    have hmod := Nat.mod_lt a hpos
    rw [Nat.div_eq_iff hpos, Nat.add_mul, Nat.mul_comm (a / b) b]
    split <;> omega
  unfold checkedDivCeil
  rw [if_neg hb, hceil]
  apply checkedAdd_of_lt
  unfold usizeMax at ha
  split <;> omega

/-- No operation of the check overflows. -/
theorem validateChecked_eq (limits : ServerLimits) : limits.validateChecked = some limits.validate := by
  unfold validateChecked validate
  cases hruntime : limits.validateRuntime with
  | error => rfl
  | ok =>
    -- the fragment size is checked before it divides
    obtain ⟨-, h⟩ := of_check_ok hruntime
    obtain ⟨-, h⟩ := of_check_ok h
    obtain ⟨-, h⟩ := of_check_ok h
    obtain ⟨hfragment, -⟩ := of_check_ok h
    rw [checkedDivCeil_eq (by decide) fun hzero => hfragment (.inl hzero)]
    rfl

end NfsEmbed.Server.ServerLimits
