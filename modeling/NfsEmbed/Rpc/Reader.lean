import NfsEmbed.Rpc.Record

/-!
# The record readers and what they leave behind (`rpc/record.rs`)

`Rpc/Record.lean` says what the readers return. Here they also keep, when they fail as well, how far the
stream was read, what their record buffer was asked to hold, and where the permits of the byte budget
are.

A read past the end of the stream takes what is left of it. Memory may be refused. An acquisition that
finds too few permits takes them and waits for those that other holders give back, which the semaphore
hands to its waiters first come, first served; a budget that never has enough keeps its reader waiting,
with all of its permits.
-/

namespace NfsEmbed.Rpc

open Lib

/-! ## Headers -/

/-- The length that a header word holds. -/
def headerLength (header : UInt32) : Nat := (header &&& 0x7fffffff).toNat

/-- A header word marks the last fragment. -/
def headerLast (header : UInt32) : Bool := header &&& 0x80000000 ≠ 0

/-- The checks on a fragment, made on its header and the length of the record so far. The length of the
record with it comes out. -/
def checkFragment (limits : RecordLimits) (header : UInt32) (recordLength : Nat) : Except RecordError Nat :=
  if headerLength header = 0 ∧ ¬ headerLast header then .error .emptyFragment
  else if headerLength header > limits.maxFragmentSize then
    .error (.fragmentTooLarge (headerLength header) limits.maxFragmentSize)
  else match checkedAdd recordLength (headerLength header) with
    | none => .error (.recordTooLarge limits.maxRecordSize)
    | some newLength =>
      if newLength > limits.maxRecordSize then .error (.recordTooLarge limits.maxRecordSize)
      else .ok newLength

/-! ## The record buffer -/

/-- The capacity that a request for so many bytes is answered with. -/
structure Memory where
  grants : Nat → Option Nat
  le_of_grants : ∀ {asked capacity}, grants asked = some capacity → asked ≤ capacity

/-- Every request up to that size is answered. -/
def Memory.Grants (memory : Memory) (size : Nat) : Prop := ∀ asked ≤ size, ∃ capacity, memory.grants asked = some capacity

/-- What is done to the record buffer. -/
inductive BufferEvent where
  | reserve (capacity : Nat)
  | resize (length : Nat)
deriving DecidableEq, Repr

/-- How many bytes the buffer is to hold. -/
def BufferEvent.size : BufferEvent → Nat
  | reserve capacity => capacity
  | resize length => length

/-- A reader in the middle of a record. -/
structure Reader where
  /-- What is still to come. -/
  stream : Bytes
  /-- Of the record buffer. -/
  capacity : Nat
  /-- What was done to the record buffer, latest first. -/
  events : List BufferEvent
deriving DecidableEq, Repr

abbrev RecordM := EStateM RecordError Reader

namespace Reader

/-- `Vec::new` allocates nothing. -/
def start (stream : Bytes) : Reader := ⟨stream, 0, []⟩

def readExact (count : Nat) : RecordM Bytes := fun reader =>
  if count ≤ reader.stream.length then
    .ok (reader.stream.take count) { reader with stream := reader.stream.drop count }
  else .error (.io .unexpectedEof) { reader with stream := [] }

def readU32 : RecordM UInt32 := do return UInt32.fromBeBytes (← readExact 4)

/-- `try_reserve_exact` on a record of that length. -/
def tryReserveExact (memory : Memory) (length additional : Nat) : EStateM Unit Reader Unit := fun reader =>
  let asked := length + additional
  let reader := { reader with events := .reserve asked :: reader.events }
  if asked ≤ reader.capacity then .ok () reader
  else match memory.grants asked with
    | some capacity => .ok () { reader with capacity }
    | none => .error () reader

def reserveRecord (memory : Memory) (length required limit : Nat) : RecordM Unit := fun reader =>
  if required ≤ reader.capacity then .ok () reader
  else
    let target := min (max (saturatingMul reader.capacity 2) required) limit
    match tryReserveExact memory length (target - length) reader with
    | .ok () reader => .ok () reader
    | .error () reader => .error (.recordTooLarge limit) reader

def resize (length : Nat) : RecordM Unit :=
  modify fun reader => { reader with events := .resize length :: reader.events }

/-! ## The plain reader -/

/-- A turn of either loop from the header on: the record with the fragment. -/
def readFragment (memory : Memory) (limits : RecordLimits) (header : UInt32) (record : Bytes) : RecordM Bytes := do
  let newLength ← ofExcept (checkFragment limits header record.length)
  reserveRecord memory record.length newLength limits.maxRecordSize
  resize newLength
  return record ++ (← readExact (headerLength header))

/-- The fragment loop of `read_record`, with `remaining` turns left. -/
def readFragments (memory : Memory) (limits : RecordLimits) : Nat → Bytes → RecordM Bytes
  | 0, _ => throw (.tooManyFragments limits.maxFragments)
  | remaining + 1, record => do
    let header ← readU32
    let record ← readFragment memory limits header record
    if headerLast header then return record
    else if remaining = 0 then throw (.tooManyFragments limits.maxFragments)
    else readFragments memory limits remaining record

def readRecord (memory : Memory) (limits : RecordLimits) (stream : Bytes) : EStateM.Result RecordError Reader Bytes :=
  readFragments memory limits limits.maxFragments [] (start stream)

/-! ## The budgeted reader -/

/-- The fragment loop of `read_record_budgeted`, entered with the header of the next fragment. -/
def readFragmentsFrom (memory : Memory) (limits : RecordLimits) : Nat → UInt32 → Bytes → RecordM Bytes
  | 0, _, _ => throw (.tooManyFragments limits.maxFragments)
  | remaining + 1, header, record => do
    let record ← readFragment memory limits header record
    if headerLast header then return record
    else if remaining = 0 then throw (.tooManyFragments limits.maxFragments)
    else
      let header ← readU32
      readFragmentsFrom memory limits remaining header record

end Reader

/-- A semaphore whose permits are bytes. -/
structure Budget where
  available : Nat
  closed : Bool
  /-- The permits that other holders give back from now on, one holder after the other, and that no one
  who waited before gets. -/
  returning : List Nat
deriving DecidableEq, Repr

/-- A reader with the budget it draws on. -/
structure BudgetedReader where
  reader : Reader
  budget : Budget
deriving DecidableEq, Repr

/-- Why a budgeted reader has no record. -/
inductive Halt where
  | failed (error : RecordError)
  /-- In the queue of the semaphore, with the permits that it was given so far. -/
  | waiting (assigned : Nat)
deriving DecidableEq, Repr

abbrev BudgetM := EStateM Halt BudgetedReader

/-- `OwnedSemaphorePermit`: so many permits. -/
structure Reservation where
  permits : Nat
deriving DecidableEq, Repr

namespace Budget

/-- All permits that are there or come back. -/
def permits (budget : Budget) : Nat := budget.available + budget.returning.sum

/-- The budget is open and has that many permits, if not at once. -/
def Offers (budget : Budget) (permits : Nat) : Prop := budget.closed = false ∧ permits ≤ budget.permits

/-- Takes that many permits as soon as they are there. What is there before is assigned to the one who
waits, and is what it has if they never are. -/
def take (permits : Nat) (closed : Bool) : Nat → List Nat → Except Nat Budget
  | available, [] => if permits ≤ available then .ok ⟨available - permits, closed, []⟩ else .error available
  | available, returned :: returning =>
    if permits ≤ available then .ok ⟨available - permits, closed, returned :: returning⟩
    else take permits closed (available + returned) returning

/-- The permits of a reservation that is dropped. -/
def release (budget : Budget) (reservation : Reservation) : Budget :=
  { budget with available := budget.available + reservation.permits }

end Budget

namespace Reader

/-- A step of the reader that leaves the budget alone. -/
def unbudgeted {α : Type} (m : RecordM α) : BudgetM α := fun s =>
  match m s.reader with
  | .ok a reader => .ok a { s with reader }
  | .error error reader => .error (.failed error) { s with reader }

def acquireManyOwned (permits : Nat) : BudgetM Reservation := fun s =>
  if s.budget.closed then .error (.failed .budgetClosed) s
  else match Budget.take permits s.budget.closed s.budget.available s.budget.returning with
    | .ok budget => .ok ⟨permits⟩ { s with budget }
    | .error assigned => .error (.waiting assigned) { s with budget := { s.budget with available := 0, returning := [] } }

/-- A failure inside of `m` drops the reservation on the way out. -/
def holding {α : Type} (reservation : Reservation) (m : BudgetM α) : BudgetM α := fun s =>
  match m s with
  | .ok a s => .ok a s
  | .error halt s => .error halt { s with budget := s.budget.release reservation }

/-- The body of `read_record_budgeted`. -/
def readBudgeted (memory : Memory) (limits : RecordLimits) : BudgetM (Bytes × Reservation) := do
  let header ← unbudgeted readU32
  let firstLength := headerLength header
  if firstLength = 0 ∧ ¬ headerLast header then throw (.failed .emptyFragment)
  else if firstLength > limits.maxFragmentSize then
    throw (.failed (.fragmentTooLarge firstLength limits.maxFragmentSize))
  else if firstLength > limits.maxRecordSize then throw (.failed (.recordTooLarge limits.maxRecordSize))
  -- the permits are counted in 32 bits
  else if limits.maxRecordSize ≥ 2 ^ 32 then throw (.failed (.recordTooLarge (2 ^ 32 - 1)))
  else
    let reservation ← acquireManyOwned limits.maxRecordSize
    let record ← holding reservation (unbudgeted (readFragmentsFrom memory limits limits.maxFragments header []))
    return (record, reservation)

def readRecordBudgeted (memory : Memory) (limits : RecordLimits) (budget : Budget) (stream : Bytes) :
    EStateM.Result Halt BudgetedReader (Bytes × Reservation) :=
  readBudgeted memory limits ⟨start stream, budget⟩

end Reader

end NfsEmbed.Rpc
