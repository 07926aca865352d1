import NfsEmbed.Laws.Server.Capacity
import NfsEmbed.Laws.Server.Execution
import NfsEmbed.Laws.Server.Header

/-!
# Every reply carries the transaction id of its record

A reply can be delivered if it starts with the transaction id and fits the outbound limits. The error that stands
for a failed request is such a reply, and so is each reply that is made from the header of a record alone.
-/

namespace NfsEmbed.Server

open Lib Rpc Vfs Replay
open Prog (Ensures)

/-- The transaction id a reply to the record has. -/
def replyXid (record : Bytes) : UInt32 := (recordXid record).getD 0

/-- The first four bytes of a reply to the record. -/
def xidBytes (record : Bytes) : Bytes := if 4 ≤ record.length then record.take 4 else [0, 0, 0, 0]

theorem toBeBytes_replyXid (record : Bytes) : (replyXid record).toBeBytes = xidBytes record := by
  unfold replyXid recordXid xidBytes
  split
  next h => exact UInt32.toBeBytes_fromBeBytes (by simpa using h)
  next => decide

section Deliverable

variable {state : ConnectionState} {xid : UInt32} {reply : EncodedReply}

theorem Deliverable.take_intoBytes (h : Deliverable state xid reply) : reply.intoBytes.take 4 = xid.toBeBytes := by
  obtain ⟨body, hbody⟩ := h.carries
  rw [hbody, List.take_left' (UInt32.length_toBeBytes xid)]

theorem Deliverable.replayStorage (h : Deliverable state xid reply) (alloc : Allocator) :
    Deliverable state xid (reply.replayStorage alloc).1 := by
  obtain ⟨body, hbody⟩ := h.carries
  refine ⟨⟨body, by rw [EncodedReply.replayStorage_intoBytes, hbody]⟩, ?_⟩
  have hlen : (reply.replayStorage alloc).1.len = reply.len := by
    unfold EncodedReply.len
    rw [EncodedReply.replayStorage_storage]
  rw [hlen]
  exact h.fits

/-- Replies no longer than the shortest the limits must allow are deliverable. -/
theorem deliverable_short (hlimits : state.limits.Usable) {bytes : Bytes} (body : Bytes)
    (hbytes : bytes = xid.toBeBytes ++ body) (hshort : body.length ≤ 300) : Deliverable state xid (state.reply bytes) := by
  refine ⟨carries_reply state hbytes, ServerLimits.fits_of_short hlimits ?_⟩
  rw [← EncodedReply.length_intoBytes, intoBytes_reply, hbytes, List.length_append, UInt32.length_toBeBytes]
  exact Nat.add_le_add_left hshort 4

theorem deliverable_errorReply (hlimits : state.limits.Usable) (record : Bytes) (status : UInt32) :
    Deliverable state (replyXid record) (errorReply state (recordXid record) status) :=
  deliverable_short hlimits (words [RPC_REPLY, MSG_ACCEPTED, AUTH_NONE, 0, status]) (List.append_nil _)
    (by simp [words])

end Deliverable

/-! ## The header -/

/-- The transaction id in the header is the one an error reply would have. -/
theorem decodeCallHeader_xid {record : Bytes} {header : CallHeader}
    (h : Decoder.run decodeCallHeader record = .ok (some header)) : header.xid = replyXid record := by
  obtain ⟨-, rfl⟩ := bytes_of_decodeCallHeader h
  unfold replyXid recordXid CallHeader.bytes
  rw [if_pos (by simp), List.take_left' (UInt32.length_toBeBytes header.xid)]
  exact (UInt32.fromBeBytes_toBeBytes header.xid).symm

/-- A reply that the record alone decides carries its transaction id, and is short. -/
theorem deliverable_of_immediate {state : ConnectionState} (hlimits : state.limits.Usable) {clientAddr : SocketAddr}
    {record : Bytes} {reply : EncodedReply} (h : dispatchRecord state clientAddr record = .done reply) :
    Deliverable state (replyXid record) reply := by
  revert h
  unfold dispatchRecord
  cases hdecoded : Decoder.run decodeCallHeader record with
  | error => exact nofun
  | ok header =>
    cases header with
    | none => exact nofun
    | some header =>
      have hxid := decodeCallHeader_xid hdecoded
      have hshort : ∀ values : List UInt32, values.length ≤ 5 →
          (Prog.done (state.reply (words (header.xid :: values))) : ServerM EncodedReply) = .done reply →
          Deliverable state (replyXid record) reply := by
        rintro values hvalues ⟨⟩
        refine deliverable_short hlimits (words values) (by rw [words_cons, hxid]) ?_
        have hwords : (words values).length = 4 * values.length := by
          unfold words
          rw [List.length_flatMap, List.map_congr_left fun value _ => UInt32.length_toBeBytes value]
          simp [Nat.mul_comm]
        omega
      change dispatchHeader state clientAddr header = .done reply → _
      unfold dispatchHeader
      split
      next => exact hshort _ (by simp)
      next =>
      split
      next => exact hshort _ (by simp)
      next =>
      split
      next => exact hshort _ (by simp)
      next =>
      split
      next => exact hshort _ (by simp)
      next =>
        -- the cache is asked first
        intro h
        cases (show Prog.ask (S := serverSignature) _ _ = Prog.done reply from h)

end NfsEmbed.Server
