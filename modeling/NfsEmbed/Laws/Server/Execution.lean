import NfsEmbed.Laws.Server.Mount
import NfsEmbed.Server.Dispatch

/-!
# Executing a request

An execution talks to the backend and the mount table only, and the reply it ends with is one to the
request's transaction that fits the outbound limits.
-/

namespace NfsEmbed.Server

open Lib Rpc Vfs Nfs3 Replay
open Prog (Ensures)

/-- What calls the execution of a request makes. -/
def RequestCalls (state : ConnectionState) (context : RequestContext) (program procedure : UInt32)
    (args : Bytes) : CallRule :=
  fun history entry context' method =>
    (program = Nfs3.PROGRAM ∧ NfsCalls state context procedure args history entry context' method) ∨
    (program = Mount3.PROGRAM ∧ MountCalls state context procedure history entry context' method)

section Execution

variable {rule : CallRule} {state : ConnectionState} {xid : UInt32} {context : RequestContext}

theorem Serves.programMismatch (low high : UInt32) :
    Serves rule xid (pure (state.reply (programMismatch xid low high))) :=
  Serves.done (carries_reply state (by rw [Server.programMismatch, acceptedReplyEncoder, words_cons, List.append_assoc]))

/-- Whatever the program and the version. -/
theorem dispatchCall_serves (program version procedure : UInt32) (args : Bytes) :
    Serves (RequestCalls state context program procedure args) xid
      (dispatchCall state xid program version procedure args context) := by
  unfold dispatchCall
  split
  next hprogram =>
    split
    · exact .programMismatch _ _
    · exact (dispatchNfs_serves procedure args).mono fun _ _ _ _ h => .inl ⟨hprogram, h⟩
  next =>
  split
  next hprogram =>
    split
    · exact .programMismatch _ _
    · exact (dispatchMount_serves procedure args).mono fun _ _ _ _ h => .inr ⟨hprogram, h⟩
  next =>
  split
  next =>
    split
    · exact .programMismatch _ _
    · exact dispatchPortmap_serves procedure args
  next => exact .bareReply _

theorem answers_protocolReply {result : Except ServerError EncodedReply} (h : Answers xid result) :
    Answers xid (protocolReply state xid result) := by
  intro reply heq
  unfold protocolReply at heq
  split at heq
  next reply' => exact h reply heq
  next => cases heq; exact carries_acceptedReply state xid _ _
  next => cases heq; exact carries_acceptedReply state xid _ _
  next => cases heq

/-- A reply to this transaction that may be written as one record. -/
structure Deliverable (state : ConnectionState) (xid : UInt32) (reply : EncodedReply) : Prop where
  carries : Carries xid reply
  fits : validateRecordLength reply.len state.limits.recordLimits = .ok ()

/-- An outcome that is no reply, or a deliverable one. -/
def Delivers (state : ConnectionState) (xid : UInt32) (result : Except ServerError EncodedReply) : Prop :=
  ∀ reply, result = .ok reply → Deliverable state xid reply

theorem delivers_boundedReply {reply : EncodedReply} (h : Carries xid reply) :
    Delivers state xid (boundedReply state xid reply) := by
  intro reply' heq
  unfold boundedReply at heq
  split at heq
  next hfits =>
    cases heq
    exact ⟨h, hfits⟩
  next =>
    dsimp only at heq
    split at heq
    next hfits =>
      cases heq
      exact ⟨carries_acceptedReply state xid _ _, hfits⟩
    next => cases heq

/-- A reply that an execution ends with answers its call and can be delivered. -/
theorem executeRequest_ensures (program version procedure : UInt32) (args : Bytes) (history : Dialogue) :
    Ensures anything (RequestCalls state context program procedure args).Permits (fun _ => Delivers state xid)
      history (executeRequest state xid program version procedure args context) := by
  refine (dispatchCall_serves program version procedure args history).outcome.bind ?_ ?_
  · intro history result hresult
    obtain ⟨result', heq, hanswers⟩ := hresult
    cases heq
    apply Ensures.ofExcept
    cases hreply : protocolReply state xid result with
    | error => intro reply heq; cases heq
    | ok reply => exact delivers_boundedReply (answers_protocolReply hanswers reply hreply)
  · intro history error hresult
    obtain ⟨result', heq, -⟩ := hresult
    cases heq

end Execution

end NfsEmbed.Server
