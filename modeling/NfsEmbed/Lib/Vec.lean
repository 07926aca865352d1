import NfsEmbed.Lib.Usize

/-!
# Growable arrays

A growable array has room for `capacity` elements and takes more memory when it is full. Memory it
asks for is granted, except where the caller is prepared for a refusal (`tryReserveExact`): a refusal
that nobody is prepared for ends the process. What is left to go wrong is a size no allocation may
have, and that panics.

Operations are told the size of an element, since memory is counted in bytes.
-/

namespace NfsEmbed.Lib

/-- The panic of an array that would need more than `isizeMax` bytes. -/
inductive CapacityOverflow where
  | capacityOverflow
deriving DecidableEq, Repr

structure Vec (α : Type) where
  items : List α
  capacity : Nat
  length_le : items.length ≤ capacity

namespace Vec

variable {α : Type}

/-- Elements that take no memory always have room. -/
def new (size : Nat) : Vec α := ⟨[], if size = 0 then usizeMax else 0, Nat.zero_le _⟩

/-- Make room for `additional` more elements, and no more than that if memory has to be asked for. -/
def tryReserveExact (size : Nat) (granted : Bool) (additional : Nat) (vec : Vec α) : Option (Vec α) :=
  if additional ≤ vec.capacity - vec.items.length then some vec
  else if vec.items.length + additional < usizeBound ∧ (vec.items.length + additional) * size ≤ isizeMax ∧ granted then
    some ⟨vec.items, vec.items.length + additional, Nat.le_add_right _ _⟩
  else none

/-- The least capacity of an array that asks for memory at all. -/
def minNonZeroCap (size : Nat) : Nat := if size = 1 then 8 else if size ≤ 1024 then 4 else 1

/-- The capacity a full array grows to for one more element. -/
def grownCapacity (size capacity : Nat) : Nat := max (minNonZeroCap size) (max (2 * capacity) (capacity + 1))

def push (size : Nat) (item : α) (vec : Vec α) : Except CapacityOverflow (Vec α) :=
  if h : vec.items.length < vec.capacity then .ok ⟨vec.items ++ [item], vec.capacity, by rwa [List.length_append]⟩
  else if size ≠ 0 ∧ grownCapacity size vec.capacity * size ≤ isizeMax then
    .ok ⟨vec.items ++ [item], grownCapacity size vec.capacity, by
      have hle := vec.length_le
      simp only [List.length_append, List.length_singleton, grownCapacity]
      omega⟩
  else .error .capacityOverflow

/-- A copy of a slice. -/
def copyOf (size : Nat) (items : List α) : Except CapacityOverflow (List α) :=
  if items.length * size ≤ isizeMax then .ok items else .error .capacityOverflow

theorem tryReserveExact_eq_some {size additional : Nat} {granted : Bool} {vec vec' : Vec α}
    (h : vec.tryReserveExact size granted additional = some vec') :
    vec'.items = vec.items ∧ vec.items.length + additional ≤ vec'.capacity := by
  have hle := vec.length_le
  unfold tryReserveExact at h
  split at h
  next hroom =>
    cases h
    exact ⟨rfl, by omega⟩
  next =>
    split at h
    next =>
      cases h
      exact ⟨rfl, Nat.le_refl _⟩
    next => cases h

/-- A new array gets its room whenever that is an allocation's size and memory is there. -/
theorem tryReserveExact_new {size count : Nat} (hcount : count < usizeBound) (hbytes : count * size ≤ isizeMax) :
    ∃ vec, (new size : Vec α).tryReserveExact size true count = some vec := by
  unfold tryReserveExact
  split
  next => exact ⟨_, rfl⟩
  next =>
    have hzero : (new size : Vec α).items.length + count = count := Nat.zero_add _
    exact ⟨_, if_pos ⟨hzero.symm ▸ hcount, hzero.symm ▸ hbytes, rfl⟩⟩

/-- With room for an element and `count` more, the element is added in place and the `count` still have room. -/
theorem push_of_room (size : Nat) {vec : Vec α} (item : α) {count : Nat} (h : vec.items.length + (count + 1) ≤ vec.capacity) :
    ∃ vec', vec.push size item = .ok vec' ∧ vec'.items = vec.items ++ [item] ∧
      vec'.items.length + count ≤ vec'.capacity := by
  refine ⟨_, dif_pos (by omega), rfl, ?_⟩
  simp only [List.length_append, List.length_singleton]
  omega

theorem copyOf_of_le {size : Nat} {items : List α} (h : items.length * size ≤ isizeMax) :
    copyOf size items = .ok items := if_pos h

end Vec

end NfsEmbed.Lib
