import NfsEmbed.Lib.Simulation
import NfsEmbed.Lib.Table

/-!
# Detecting retransmissions (`transaction_tracker.rs`)

The tracker remembers the transactions of each client, and the completed ones also in the order of their
completion, so that expiry only looks at the front of a queue. Both methods run under one lock and take the time
while they hold it, so a call is one step at one instant, and the instants of successive calls do not decrease.
An `Instant` and a `Duration` are natural numbers: `saturating_duration_since` is truncated subtraction.
-/

namespace NfsEmbed.Legacy

open Lib

inductive TransactionState where
  | inProgress
  | completed (completedAt : Nat)
deriving DecidableEq, Repr

structure CompletedTransaction where
  clientAddr : String
  xid : UInt32
  completedAt : Nat
deriving DecidableEq, Repr

abbrev Transactions := Table String (Table UInt32 TransactionState)

structure TrackerState where
  transactions : Transactions
  completedOrder : List CompletedTransaction

/-- A later completion of the same transaction supersedes the queued one: only the completion that is in the map is
removed from it. -/
def removeCompleted (completed : CompletedTransaction) (ofClient : Table UInt32 TransactionState) :
    Table UInt32 TransactionState :=
  if ofClient.lookup completed.xid = some (.completed completed.completedAt) then ofClient.erase completed.xid
  else ofClient

/-- One turn of the loop of `housekeeping`. -/
def expireCompleted (completed : CompletedTransaction) (transactions : Transactions) : Transactions :=
  match transactions.lookup completed.clientAddr with
  | none => transactions
  | some ofClient =>
    let ofClient := removeCompleted completed ofClient
    let transactions := transactions.insert completed.clientAddr ofClient
    if Table.size ofClient = 0 then transactions.erase completed.clientAddr else transactions

/-- The loop of `housekeeping`, on the transactions and the queue. -/
def housekeeping (now maxAge : Nat) : Transactions → List CompletedTransaction → TrackerState
  | transactions, [] => ⟨transactions, []⟩
  | transactions, completed :: completedOrder =>
    if now - completed.completedAt ≥ maxAge then
      housekeeping now maxAge (expireCompleted completed transactions) completedOrder
    else ⟨transactions, completed :: completedOrder⟩

namespace TrackerState

/-- `TrackerState::default`. -/
def empty : TrackerState := ⟨∅, []⟩

def isRetransmission (retentionPeriod now : Nat) (xid : UInt32) (clientAddr : String) (state : TrackerState) :
    Bool × TrackerState :=
  let state := housekeeping now retentionPeriod state.transactions state.completedOrder
  -- the map of a new client is the default one
  let transactions := (state.transactions.lookup clientAddr).getD ∅
  match transactions.lookup xid with
  | none =>
    (false,
      { state with transactions := state.transactions.insert clientAddr (transactions.insert xid .inProgress) })
  -- the transaction is in a map that was already there
  | some _ => (true, state)

def markProcessed (now : Nat) (xid : UInt32) (clientAddr : String) (state : TrackerState) : TrackerState :=
  match state.transactions.lookup clientAddr with
  | none => state
  | some transactions =>
    match transactions.lookup xid with
    | none => state
    | some _ =>
      { transactions := state.transactions.insert clientAddr (transactions.insert xid (.completed now))
        completedOrder := state.completedOrder ++ [⟨clientAddr, xid, now⟩] }

end TrackerState

/-- A call of the tracker, at an instant. -/
inductive TrackerCall where
  | isRetransmission (now : Nat) (xid : UInt32) (clientAddr : String)
  | markProcessed (now : Nat) (xid : UInt32) (clientAddr : String)
deriving DecidableEq, Repr

def TrackerCall.now : TrackerCall → Nat
  | .isRetransmission now _ _ | .markProcessed now _ _ => now

/-- A tracker with a retention period. Only `is_retransmission` has an answer. -/
def transactionTracker (retentionPeriod : Nat) : System TrackerCall (Option Bool) TrackerState where
  start := .empty
  step
    | state, .isRetransmission now xid clientAddr =>
      let (answer, state) := state.isRetransmission retentionPeriod now xid clientAddr
      (some answer, state)
    | state, .markProcessed now xid clientAddr => (none, state.markProcessed now xid clientAddr)

end NfsEmbed.Legacy
