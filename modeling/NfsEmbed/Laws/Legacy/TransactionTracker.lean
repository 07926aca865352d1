import NfsEmbed.Legacy.TransactionTracker

/-!
# The transaction tracker is a map with a retention period

The specification keeps one map from a client and a transaction number to the state of the transaction, and
forgets what has been completed for the retention period before it looks a transaction up. The tracker expires a
queue of completions instead, in which later completions supersede earlier ones. Each completed transaction has
its completion in the queue, and the queue is sorted by time; so what is due is in the part of the queue that is
taken off, and every call is answered as by the specification.

The law is `tracker_refines_specification`.
-/

namespace NfsEmbed.Legacy

open Lib

/-! ## The specification -/

abbrev FlatTransactions := String × UInt32 → Option TransactionState

namespace FlatTransactions

/-- The state of a transaction without what has been completed for the retention period. -/
def retained (retentionPeriod now : Nat) : Option TransactionState → Option TransactionState
  | some (.completed completedAt) =>
    if now - completedAt ≥ retentionPeriod then none else some (.completed completedAt)
  | state => state

/-- The first call is answered alike, and both stay in step. -/
def isRetransmission (retentionPeriod now : Nat) (xid : UInt32) (clientAddr : String) (flat : FlatTransactions) :
    Bool × FlatTransactions :=
  let flat := fun pair => retained retentionPeriod now (flat pair)
  match flat (clientAddr, xid) with
  | none => (false, Function.update flat (clientAddr, xid) (some .inProgress))
  | some _ => (true, flat)

/-- So is the second, if time does not go back. -/
def markProcessed (now : Nat) (xid : UInt32) (clientAddr : String) (flat : FlatTransactions) : FlatTransactions :=
  match flat (clientAddr, xid) with
  | none => flat
  | some _ => Function.update flat (clientAddr, xid) (some (.completed now))

end FlatTransactions

open FlatTransactions (retained)

def trackerSpecification (retentionPeriod : Nat) : System TrackerCall (Option Bool) FlatTransactions where
  start := fun _ => none
  step
    | flat, .isRetransmission now xid clientAddr =>
      let (answer, flat) := flat.isRetransmission retentionPeriod now xid clientAddr
      (some answer, flat)
    | flat, .markProcessed now xid clientAddr => (none, flat.markProcessed now xid clientAddr)

/-! ## Looking a transaction up -/

/-- The tracker's maps as one. -/
def Transactions.flat (transactions : Transactions) : FlatTransactions :=
  fun pair => ((transactions.lookup pair.1).getD ∅).lookup pair.2

/-- No client has an empty map. -/
def Transactions.Occupied (transactions : Transactions) : Prop :=
  ∀ clientAddr ofClient, transactions.lookup clientAddr = some ofClient → Table.size ofClient ≠ 0

section Lookup

variable {transactions : Transactions} {ofClient : Table UInt32 TransactionState} {clientAddr : String} {xid : UInt32}

theorem flat_of_lookup (h : transactions.lookup clientAddr = some ofClient) :
    transactions.flat (clientAddr, xid) = ofClient.lookup xid := by
  rw [Transactions.flat, h, Option.getD_some]

theorem flat_of_lookup_none (h : transactions.lookup clientAddr = none) : transactions.flat (clientAddr, xid) = none := by
  rw [Transactions.flat, h, Option.getD_none, AList.lookup_empty]

/-- Giving a client another map. -/
theorem flat_insert (pair : String × UInt32) :
    Transactions.flat (transactions.insert clientAddr ofClient) pair =
      if pair.1 = clientAddr then ofClient.lookup pair.2 else transactions.flat pair := by
  rw [Transactions.flat, Table.lookup_insert_eq]
  split
  next => rw [Option.getD_some]
  next => rfl

/-- Changing one transaction of a client. -/
theorem flat_insert_insert (state : TransactionState)
    (h : ∀ xid, ofClient.lookup xid = transactions.flat (clientAddr, xid)) :
    Transactions.flat (transactions.insert clientAddr (ofClient.insert xid state)) =
      Function.update transactions.flat (clientAddr, xid) (some state) := by
  funext ⟨clientAddr', xid'⟩
  rw [flat_insert, Function.update_apply]
  simp only [Prod.mk.injEq]
  by_cases hclient : clientAddr' = clientAddr
  · subst hclient
    rw [if_pos rfl, Table.lookup_insert_eq, h]
    simp only [true_and]
  · rw [if_neg hclient, if_neg fun heq => hclient heq.1]

theorem Transactions.Occupied.insert (h : transactions.Occupied) (hsize : Table.size ofClient ≠ 0) :
    Transactions.Occupied (transactions.insert clientAddr ofClient) := by
  intro clientAddr' ofClient' hlookup
  rw [Table.lookup_insert_eq] at hlookup
  split at hlookup
  next =>
    cases hlookup
    exact hsize
  next => exact h clientAddr' ofClient' hlookup

end Lookup

/-! ## Expiry -/

section Expiry

variable {transactions : Transactions} {completed : CompletedTransaction}

/-- A completion takes off its transaction unless it was superseded. -/
theorem lookup_removeCompleted (completed : CompletedTransaction) (ofClient : Table UInt32 TransactionState)
    (xid : UInt32) :
    (removeCompleted completed ofClient).lookup xid =
      if xid = completed.xid ∧ ofClient.lookup xid = some (.completed completed.completedAt) then none
      else ofClient.lookup xid := by
  unfold removeCompleted
  split
  next hcompleted =>
    rw [Table.lookup_erase_eq]
    by_cases hxid : xid = completed.xid
    · subst hxid
      rw [if_pos rfl, if_pos ⟨rfl, hcompleted⟩]
    · rw [if_neg hxid, if_neg fun h => hxid h.1]
  next hother =>
    rw [if_neg]
    rintro ⟨rfl, hcompleted⟩
    exact hother hcompleted

/-- A client keeps what is left of its map, if that is anything. -/
theorem lookup_expireCompleted (transactions : Transactions) (completed : CompletedTransaction) (clientAddr : String) :
    (expireCompleted completed transactions).lookup clientAddr =
      if clientAddr = completed.clientAddr then
        ((transactions.lookup clientAddr).map (removeCompleted completed)).filter fun ofClient => Table.size ofClient ≠ 0
      else transactions.lookup clientAddr := by
  unfold expireCompleted
  split
  next hnone =>
    split
    next heq => rw [heq, hnone, Option.map_none, Option.filter_none]
    next => rfl
  next ofClient hlookup =>
    dsimp only
    by_cases heq : clientAddr = completed.clientAddr
    · subst heq
      rw [if_pos rfl, hlookup, Option.map_some]
      split
      next hempty => rw [AList.lookup_erase, Option.filter_some, if_neg (by simpa using hempty)]
      next hsize => rw [AList.lookup_insert, Option.filter_some, if_pos (by simpa using hsize)]
    · rw [if_neg heq]
      split
      next => rw [AList.lookup_erase_ne heq, AList.lookup_insert_ne heq]
      next => rw [AList.lookup_insert_ne heq]

theorem Transactions.Occupied.expireCompleted (h : transactions.Occupied) :
    (expireCompleted completed transactions).Occupied := by
  intro clientAddr ofClient hlookup
  rw [lookup_expireCompleted] at hlookup
  split at hlookup
  next => exact of_decide_eq_true (Option.filter_eq_some_iff.mp hlookup).2
  next => exact h clientAddr ofClient hlookup

/-- A transaction whose last completion is the queued one is forgotten, and no other. -/
theorem flat_expireCompleted (transactions : Transactions) (completed : CompletedTransaction) (clientAddr : String)
    (xid : UInt32) :
    (expireCompleted completed transactions).flat (clientAddr, xid) =
      if (clientAddr = completed.clientAddr ∧ xid = completed.xid) ∧
        transactions.flat (clientAddr, xid) = some (.completed completed.completedAt) then none
      else transactions.flat (clientAddr, xid) := by
  by_cases hclient : clientAddr = completed.clientAddr
  · have hlookup := lookup_expireCompleted transactions completed clientAddr
    rw [if_pos hclient] at hlookup
    cases hmap : transactions.lookup clientAddr with
    | none =>
      rw [hmap, Option.map_none, Option.filter_none] at hlookup
      rw [flat_of_lookup_none hlookup, flat_of_lookup_none hmap, ite_self]
    | some ofClient =>
      have hremoved := lookup_removeCompleted completed ofClient xid
      rw [flat_of_lookup hmap]
      simp only [hclient, true_and]
      rw [← hremoved]
      rw [hmap, Option.map_some, Option.filter_some] at hlookup
      split at hlookup
      next => rw [← hclient, flat_of_lookup hlookup]
      next hempty =>
        rw [← hclient, flat_of_lookup_none hlookup, Table.lookup_of_size_eq_zero]
        simpa using hempty
  · rw [if_neg fun h => hclient h.1.1, Transactions.flat, lookup_expireCompleted, if_neg hclient]
    rfl

theorem retained_of_not_due {retentionPeriod now : Nat} {state : Option TransactionState}
    (h : ∀ completedAt, state = some (.completed completedAt) → ¬ now - completedAt ≥ retentionPeriod) :
    retained retentionPeriod now state = state := by
  unfold retained
  split
  next completedAt => exact if_neg (h completedAt rfl)
  next => rfl

variable {now maxAge : Nat} {completedOrder : List CompletedTransaction}

/-- Taking a due completion off the queue forgets nothing else. -/
theorem retained_flat_expireCompleted (hdue : now - completed.completedAt ≥ maxAge) (pair : String × UInt32) :
    retained maxAge now ((expireCompleted completed transactions).flat pair) =
      retained maxAge now (transactions.flat pair) := by
  rw [flat_expireCompleted]
  split
  next h =>
    rw [h.2]
    exact (if_pos hdue).symm
  next => rfl

/-- If what is due is in the queue, and the queue is sorted, it is forgotten and nothing else. -/
theorem flat_housekeeping (hsorted : completedOrder.Pairwise (·.completedAt ≤ ·.completedAt))
    (hqueued : ∀ clientAddr xid completedAt, transactions.flat (clientAddr, xid) = some (.completed completedAt) →
      now - completedAt ≥ maxAge → ⟨clientAddr, xid, completedAt⟩ ∈ completedOrder) (pair : String × UInt32) :
    (housekeeping now maxAge transactions completedOrder).transactions.flat pair =
      retained maxAge now (transactions.flat pair) := by
  induction completedOrder generalizing transactions with
  | nil =>
    refine (retained_of_not_due fun completedAt hcompleted hdue => ?_).symm
    exact List.not_mem_nil (hqueued pair.1 pair.2 completedAt hcompleted hdue)
  | cons _ _ ih =>
    obtain ⟨hfirst, hsorted⟩ := List.pairwise_cons.mp hsorted
    unfold housekeeping
    split
    next hdue =>
      rw [ih hsorted, retained_flat_expireCompleted hdue]
      intro clientAddr xid completedAt hcompleted hdue'
      rw [flat_expireCompleted] at hcompleted
      split at hcompleted
      next => cases hcompleted
      next hother =>
        -- the first one was not for this transaction, or is superseded
        refine (List.mem_cons.mp (hqueued clientAddr xid completedAt hcompleted hdue')).resolve_left ?_
        rintro rfl
        exact hother ⟨⟨rfl, rfl⟩, hcompleted⟩
    next hearly =>
      refine (retained_of_not_due fun completedAt hcompleted hdue => hearly ?_).symm
      rcases List.mem_cons.mp (hqueued pair.1 pair.2 completedAt hcompleted hdue) with rfl | hmem
      · exact hdue
      · have hle := hfirst _ hmem
        dsimp only at hle
        omega

/-- The oldest completions are taken off. -/
theorem housekeeping_suffix (now maxAge : Nat) (transactions : Transactions)
    (completedOrder : List CompletedTransaction) :
    (housekeeping now maxAge transactions completedOrder).completedOrder <:+ completedOrder := by
  induction completedOrder generalizing transactions with
  | nil => exact List.suffix_rfl
  | cons _ _ ih =>
    unfold housekeeping
    split
    next => exact (ih _).trans (List.suffix_cons _ _)
    next => exact List.suffix_rfl

/-- Only what is due is taken off the queue. -/
theorem mem_housekeeping (transactions : Transactions) (hmem : completed ∈ completedOrder)
    (hearly : ¬ now - completed.completedAt ≥ maxAge) :
    completed ∈ (housekeeping now maxAge transactions completedOrder).completedOrder := by
  induction completedOrder generalizing transactions with
  | nil => cases hmem
  | cons _ _ ih =>
    unfold housekeeping
    split
    next hdue =>
      refine ih _ ((List.mem_cons.mp hmem).resolve_left ?_)
      rintro rfl
      exact hearly hdue
    next => exact hmem

theorem Transactions.Occupied.housekeeping (h : transactions.Occupied) (completedOrder : List CompletedTransaction) :
    (housekeeping now maxAge transactions completedOrder).transactions.Occupied := by
  induction completedOrder generalizing transactions with
  | nil => exact h
  | cons _ _ ih =>
    unfold Legacy.housekeeping
    split
    next => exact ih h.expireCompleted
    next => exact h

end Expiry

/-! ## The refinement -/

/-- The tracker has the transactions of the specification. Those that are completed are in the queue, which is sorted
and has only completions of past calls. -/
structure Tracks (past : List TrackerCall) (state : TrackerState) (flat : FlatTransactions) : Prop where
  flat_eq : state.transactions.flat = flat
  occupied : state.transactions.Occupied
  queued : ∀ clientAddr xid completedAt, flat (clientAddr, xid) = some (.completed completedAt) →
    ⟨clientAddr, xid, completedAt⟩ ∈ state.completedOrder
  sorted : state.completedOrder.Pairwise (·.completedAt ≤ ·.completedAt)
  completed_past : ∀ completed ∈ state.completedOrder, ∃ call ∈ past, call.now = completed.completedAt

namespace Tracks

variable {past : List TrackerCall} {state : TrackerState} {flat : FlatTransactions}

theorem empty : Tracks [] .empty fun _ => none where
  flat_eq := by
    funext pair
    exact flat_of_lookup_none (AList.lookup_empty _)
  occupied _ _ h := by cases h
  queued _ _ _ h := by cases h
  sorted := .nil
  completed_past _ h := by cases h

theorem later (h : Tracks past state flat) (call : TrackerCall) : Tracks (past ++ [call]) state flat where
  __ := h
  completed_past completed hmem := by
    obtain ⟨earlier, hearlier, hnow⟩ := h.completed_past completed hmem
    exact ⟨earlier, List.mem_append_left _ hearlier, hnow⟩

/-- Housekeeping forgets what the specification forgets. -/
theorem housekeeping (h : Tracks past state flat) (now maxAge : Nat) :
    Tracks past (housekeeping now maxAge state.transactions state.completedOrder)
      fun pair => retained maxAge now (flat pair) where
  flat_eq := by
    funext pair
    rw [flat_housekeeping h.sorted, h.flat_eq]
    intro clientAddr xid completedAt hcompleted _
    rw [h.flat_eq] at hcompleted
    exact h.queued clientAddr xid completedAt hcompleted
  occupied := h.occupied.housekeeping state.completedOrder
  queued clientAddr xid completedAt hretained := by
    unfold retained at hretained
    split at hretained
    next completedAt' hcompleted =>
      split at hretained
      next => cases hretained
      next hearly =>
        cases hretained
        exact mem_housekeeping _ (h.queued clientAddr xid completedAt hcompleted) hearly
    next hother => exact absurd hretained (hother completedAt)
  sorted := h.sorted.sublist (housekeeping_suffix _ _ _ _).sublist
  completed_past completed hmem := h.completed_past completed ((housekeeping_suffix _ _ _ _).subset hmem)

/-- A new transaction is in progress. -/
theorem insert_inProgress (h : Tracks past state flat) (xid : UInt32) (clientAddr : String) :
    Tracks past
      { state with
        transactions :=
          state.transactions.insert clientAddr (((state.transactions.lookup clientAddr).getD ∅).insert xid .inProgress) }
      (Function.update flat (clientAddr, xid) (some .inProgress)) where
  flat_eq := by
    rw [flat_insert_insert, h.flat_eq]
    exact fun _ => rfl
  occupied := h.occupied.insert (Table.size_insert_ne_zero _ _ _)
  queued clientAddr' xid' completedAt hcompleted := by
    rw [Function.update_apply] at hcompleted
    split at hcompleted
    next => cases hcompleted
    next => exact h.queued clientAddr' xid' completedAt hcompleted
  sorted := h.sorted
  completed_past := h.completed_past

theorem isRetransmission (h : Tracks past state flat) (retentionPeriod now : Nat) (xid : UInt32) (clientAddr : String) :
    (state.isRetransmission retentionPeriod now xid clientAddr).1 =
        (flat.isRetransmission retentionPeriod now xid clientAddr).1 ∧
      Tracks past (state.isRetransmission retentionPeriod now xid clientAddr).2
        (flat.isRetransmission retentionPeriod now xid clientAddr).2 := by
  have hkept := h.housekeeping now retentionPeriod
  have hlookup := congrFun hkept.flat_eq (clientAddr, xid)
  unfold TrackerState.isRetransmission FlatTransactions.isRetransmission
  dsimp only [Transactions.flat] at hlookup ⊢
  rw [hlookup]
  cases retained retentionPeriod now (flat (clientAddr, xid)) with
  | none => exact ⟨rfl, hkept.insert_inProgress xid clientAddr⟩
  | some => exact ⟨rfl, hkept⟩

/-- The completion of a known transaction is the last one in the queue. -/
theorem insert_completed (h : Tracks past state flat) {call : TrackerCall}
    (hpast : ∀ earlier ∈ past, earlier.now ≤ call.now) {clientAddr : String} {ofClient : Table UInt32 TransactionState}
    (hlookup : state.transactions.lookup clientAddr = some ofClient) (xid : UInt32) :
    Tracks (past ++ [call])
      { transactions := state.transactions.insert clientAddr (ofClient.insert xid (.completed call.now))
        completedOrder := state.completedOrder ++ [⟨clientAddr, xid, call.now⟩] }
      (Function.update flat (clientAddr, xid) (some (.completed call.now))) where
  flat_eq := by
    rw [flat_insert_insert, h.flat_eq]
    exact fun xid => (flat_of_lookup hlookup).symm
  occupied := h.occupied.insert (Table.size_insert_ne_zero _ _ _)
  queued clientAddr' xid' completedAt hcompleted := by
    rw [Function.update_apply] at hcompleted
    split at hcompleted
    next heq =>
      cases heq
      cases hcompleted
      exact List.mem_append_right _ (List.mem_singleton_self _)
    next => exact List.mem_append_left _ (h.queued clientAddr' xid' completedAt hcompleted)
  sorted := by
    refine List.pairwise_append.mpr ⟨h.sorted, List.pairwise_singleton _ _, fun completed hmem last hlast => ?_⟩
    obtain ⟨earlier, hearlier, hnow⟩ := h.completed_past completed hmem
    cases List.mem_singleton.mp hlast
    rw [← hnow]
    exact hpast earlier hearlier
  completed_past := by
    rw [List.forall_mem_append, List.forall_mem_singleton]
    exact ⟨(h.later call).completed_past, call, List.mem_append_right _ (List.mem_singleton_self _), rfl⟩

theorem markProcessed (h : Tracks past state flat) {call : TrackerCall}
    (hpast : ∀ earlier ∈ past, earlier.now ≤ call.now) (xid : UInt32) (clientAddr : String) :
    Tracks (past ++ [call]) (state.markProcessed call.now xid clientAddr)
      (flat.markProcessed call.now xid clientAddr) := by
  unfold TrackerState.markProcessed FlatTransactions.markProcessed
  rw [← h.flat_eq]
  cases hlookup : state.transactions.lookup clientAddr with
  | none =>
    rw [flat_of_lookup_none hlookup, h.flat_eq]
    exact h.later call
  | some ofClient =>
    rw [flat_of_lookup hlookup, h.flat_eq]
    dsimp only
    cases ofClient.lookup xid with
    | none => exact h.later call
    | some => exact h.insert_completed hpast hlookup xid

end Tracks

/-- The tracker simulates the specification, under a clock that does not decrease. -/
theorem tracks_simulation (retentionPeriod : Nat) :
    Simulation (transactionTracker retentionPeriod) (trackerSpecification retentionPeriod) (fun a b => a.now ≤ b.now)
      Tracks where
  start := .empty
  step past state flat call h hpast := by
    cases call with
    | isRetransmission now xid clientAddr =>
      obtain ⟨hanswer, hnext⟩ := h.isRetransmission retentionPeriod now xid clientAddr
      exact ⟨congrArg some hanswer, hnext.later _⟩
    | markProcessed _ xid clientAddr => exact ⟨rfl, h.markProcessed hpast xid clientAddr⟩

/-- The tracker answers as the specification does; it never has a client without transactions, and its completions are
sorted by time. -/
theorem tracker_refines_specification (retentionPeriod : Nat) {calls : List TrackerCall}
    (hclock : calls.Pairwise fun earlier later => earlier.now ≤ later.now) :
    (transactionTracker retentionPeriod).answers calls = (trackerSpecification retentionPeriod).answers calls ∧
      (∀ clientAddr ofClient,
        ((transactionTracker retentionPeriod).after calls).transactions.lookup clientAddr = some ofClient →
        Table.size ofClient ≠ 0) ∧
      ((transactionTracker retentionPeriod).after calls).completedOrder.Pairwise (·.completedAt ≤ ·.completedAt) := by
  have htracks := (tracks_simulation retentionPeriod).related hclock
  exact ⟨(tracks_simulation retentionPeriod).answers_eq hclock, htracks.occupied, htracks.sorted⟩

/-- A transaction that is completed twice: the first completion leaves the queue before the second one. -/
def completedTwice : List TrackerCall :=
  [.isRetransmission 0 7 "client", .isRetransmission 1 7 "client", .markProcessed 2 7 "client",
    .markProcessed 5 7 "client", .isRetransmission 63 7 "client", .isRetransmission 65 7 "client"]

/-- A transaction that is completed twice is retained from the second time on. -/
theorem completedTwice_refines :
    completedTwice.Pairwise (fun earlier later => earlier.now ≤ later.now) ∧
      (trackerSpecification 60).answers completedTwice = [some false, some true, none, none, some true, some false] := by
  have hclock : completedTwice.Pairwise fun earlier later => earlier.now ≤ later.now := by decide
  refine ⟨hclock, ?_⟩
  rw [← (tracker_refines_specification 60 hclock).1]
  decide

end NfsEmbed.Legacy
