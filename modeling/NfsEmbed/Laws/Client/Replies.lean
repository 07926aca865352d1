import NfsEmbed.Client.Replies
import NfsEmbed.Laws.Client.Results
import NfsEmbed.Laws.Server.Procedures

/-!
# What reaches a client

A result that was encoded is read back from the reply. Between the handler of a procedure and the client
a reply may be replaced by one with another status, if it is an error or does not fit a record; then
nothing is delivered. So what is delivered of a request is what its handler replied, or nothing.
-/

namespace NfsEmbed.Client

open Lib Rpc Vfs Nfs3 Server
open Prog (Ensures)

theorem acceptedStatus_parses (xid status : UInt32) :
    Parses (acceptedStatus xid) (acceptedReplyEncoder xid status) status := by
  refine (u32_parses xid).bind <| (u32_parses RPC_REPLY).bind <| (u32_parses MSG_ACCEPTED).bind <|
    (u32_parses AUTH_NONE).bind <| (u32_parses 0).bind ?_
  rw [if_pos ⟨rfl, rfl, rfl, rfl, rfl⟩]
  simpa [words] using u32_parses status

section Delivery

variable {ρ : Type} {parse : XdrParser ρ} {xid : UInt32} {state : ConnectionState}

/-- A reply with another status than success has no result. -/
theorem readReply_rejected {status : UInt32} (h : status ≠ SUCCESS) :
    readReply parse xid (acceptedReply xid status []) = none := by
  unfold readReply acceptedResult acceptedReply
  rw [StateT.run_bind, acceptedStatus_parses xid status []]
  simp [h]

/-- A client that reads a reply goes on behind the header, to the end. -/
theorem readReply_header_iff {w : Bytes} {result : ρ} :
    readReply parse xid (acceptedReplyEncoder xid SUCCESS ++ w) = some result ↔ parse.run w = some (result, []) := by
  unfold readReply acceptedResult
  rw [StateT.run_bind, acceptedStatus_parses xid SUCCESS w]
  simp only [Option.bind_eq_bind, Option.bind_some, if_pos]
  split
  next read hread =>
    rw [hread, Option.some.injEq, Option.some.injEq, Prod.mk.injEq]
    exact (and_iff_left rfl).symm
  next hnot => exact ⟨fun h => (Option.some_ne_none _ h.symm).elim, fun h => absurd h (hnot result)⟩

/-- A client reads the result behind the header of an accepted reply. -/
theorem readReply_of_parses {fields : List Field} {result : ρ} (hparse : ParsesFields parse fields result)
    (hencodable : ∀ field ∈ fields, field.Encodable) :
    readReply parse xid (acceptedReplyEncoder xid SUCCESS ++ fields.flatMap Field.bytes) = some result := by
  have hrun := hparse hencodable []
  rw [List.append_nil] at hrun
  exact readReply_header_iff.mpr hrun

/-- A handler that ends with a result delivers it, if it can be encoded. -/
theorem nfsReply_delivers {ρ' : Type} [EncodeNfsResult ρ'] {reply : ρ'} {fields : List Field} {result : ρ}
    (hwrites : WritesFields (encodeResult reply) fields) (hparse : ParsesFields parse fields result)
    {R : (op : ServerOp) → op.Answer → Prop} {A : Dialogue → ServerOp → Prop} {P : Dialogue → Option ρ → Prop}
    {history : Dialogue} (hnone : P history none) (hsome : P history (some result)) :
    Ensures R A (fun history outcome => P history (deliveredAs parse xid outcome)) history (nfsReply state xid reply) := by
  unfold nfsReply encoded
  split
  next bytes hbytes =>
    obtain ⟨hencodable, rfl⟩ := (typedReply_ok_iff hwrites).mp hbytes
    show P history (readReply parse xid (state.reply _).intoBytes)
    rw [intoBytes_reply, readReply_of_parses hparse hencodable]
    exact hsome
  next => exact hnone

/-- The handle of an object of the export decodes to the object. -/
theorem decodeObject_encode (exportId : ExportId) (object : ObjectKey) :
    decodeObject (state.handles.encode exportId object) state exportId = .ok object := by
  simp [decodeObject, (state.handles.decode_ok_iff).mpr rfl]

theorem wireNfsStatus_ne_ok {handle : FileHandle} {exportId : ExportId} {status : UInt32}
    (h : decodeObject handle state exportId = .error status) : wireNfsStatus status ≠ .ok := by
  unfold decodeObject at h
  split at h <;> cases h <;> decide

theorem length_encode_le (exportId : ExportId) (object : ObjectKey) :
    (state.handles.encode exportId object).length ≤ 64 := by
  rw [state.handles.length_encode]
  decide

/-- A reply with another status delivers nothing. -/
theorem deliveredAs_rejected {status : UInt32} (h : status ≠ SUCCESS) :
    deliveredAs parse xid (.ok (state.reply (acceptedReply xid status []))) = none := by
  rw [deliveredAs, intoBytes_reply, readReply_rejected h]

/-- Replacing a reply that exceeds the outbound limits delivers nothing instead. -/
theorem deliveredAs_boundedReply (reply : EncodedReply) :
    deliveredAs parse xid (boundedReply state xid reply) = deliveredAs parse xid (.ok reply) ∨
      deliveredAs parse xid (boundedReply state xid reply) = none := by
  unfold boundedReply
  split
  next => exact .inl rfl
  next =>
    refine .inr ?_
    dsimp only
    split
    next => exact deliveredAs_rejected (by decide)
    next => rfl

/-- What the server does to a reply on its way leaves what it delivers, or nothing. -/
theorem deliveredAs_protocolReply (outcome : Except ServerError EncodedReply) :
    deliveredAs parse xid ((protocolReply state xid outcome).bind (boundedReply state xid)) =
        deliveredAs parse xid outcome ∨
      deliveredAs parse xid ((protocolReply state xid outcome).bind (boundedReply state xid)) = none := by
  unfold protocolReply
  split
  next reply => exact deliveredAs_boundedReply reply
  next =>
    exact .inr ((deliveredAs_boundedReply _).elim (fun h => h.trans (deliveredAs_rejected (by decide))) id)
  next =>
    exact .inr ((deliveredAs_boundedReply _).elim (fun h => h.trans (deliveredAs_rejected (by decide))) id)
  next => exact .inr rfl

/-- What is shown of the handler's reply holds of what is delivered, if it holds of nothing. -/
theorem executeRequest_delivers {R : (op : ServerOp) → op.Answer → Prop} {A : Dialogue → ServerOp → Prop}
    {P : Dialogue → Option ρ → Prop} (hnone : ∀ history, P history none) {program version procedure : UInt32}
    {args : Bytes} {context : RequestContext} {history : Dialogue}
    (h : Ensures R A (fun history outcome => P history (deliveredAs parse xid outcome)) history
      (dispatchCall state xid program version procedure args context)) :
    Ensures R A (fun history outcome => P history (deliveredAs parse xid outcome)) history
      (executeRequest state xid program version procedure args context) := by
  refine h.outcome.bind (fun history outcome houtcome => ?_) fun history error _ => hnone history
  obtain ⟨_, heq, hdelivers⟩ := houtcome
  cases heq
  apply Ensures.ofExcept
  obtain hsame | hnothing := @deliveredAs_protocolReply _ parse xid state outcome
  · rw [hsame]
    exact hdelivers
  · rw [hnothing]
    exact hnone history

end Delivery

end NfsEmbed.Client
