import NfsEmbed.Client.Mounts
import NfsEmbed.Laws.Client.Replies
import NfsEmbed.Laws.Rpc.Primitives
import NfsEmbed.Laws.Server.Exports
import NfsEmbed.Laws.Server.Replies
import NfsEmbed.Laws.Vfs.Address

/-!
# The lists of MOUNT are whole or refused

`DUMP` and `EXPORT` compute the length of their reply before they encode it. The length is the one the
encoder arrives at, and the check on it is the check on outbound records; so the encoder is run exactly for
the lists that can be delivered, and a client reads the whole list back.

The law is `mount_lists_exact`.
-/

namespace NfsEmbed.Server

open Lib Rpc Vfs Nfs3 Mount3
open Prog (Ends)

variable {list : Except EncodeError Bytes} {reply : EncodedReply} {fields : List Field}

/-! ## The lists as fields -/

def mountFields (mount : MountEntry) : List Field := [.flag true, .payload mount.host, .payload mount.path]

def groupFields (group : Bytes) : List Field := [.flag true, .payload group]

def exportFields (entry : ExportEntry) : List Field :=
  [.flag true, .payload entry.path] ++ (entry.groups.flatMap groupFields ++ [.flag false])

def dumpFields (result : DumpResult) : List Field := result.mounts.flatMap mountFields ++ [.flag false]

def exportsFields (result : ExportResult) : List Field := result.exports.flatMap exportFields ++ [.flag false]

theorem dumpResult_writes (result : DumpResult) :
    WritesFields (EncodeMountResult.encodeResult result) (dumpFields result) := by
  apply WritesFields.seq _ (WritesFields.flag false)
  apply WritesFields.forM
  intro mount
  exact (WritesFields.flag true).seq ((WritesFields.payload _).seq (WritesFields.payload _))

theorem exportResult_writes (result : ExportResult) :
    WritesFields (EncodeMountResult.encodeResult result) (exportsFields result) := by
  have hgroup : ∀ group, WritesFields (do Encoder.writeBool true; Encoder.writeOpaque group) (groupFields group) :=
    fun group => (WritesFields.flag true).seq (WritesFields.payload group)
  apply WritesFields.seq _ (WritesFields.flag false)
  apply WritesFields.forM
  intro entry
  exact (WritesFields.flag true).seq ((WritesFields.payload _).seq
    ((WritesFields.forM hgroup entry.groups).seq (WritesFields.flag false)))

/-! ## Reading them back -/

open Client (ParsesFields)

theorem dump_parses (result : DumpResult) : ParsesFields Client.dump (dumpFields result) result := by
  have hmount : ∀ mount, ParsesFields Client.nextMount (mountFields mount) (some mount) := by
    intro mount
    refine (ParsesFields.flag true).bind (ParsesFields.map ?_ some)
    exact (ParsesFields.payload _).bind ((ParsesFields.payload _).map _)
  have hmounts : ParsesFields (Parser.chainAll Client.nextMount) (dumpFields result) (result.mounts.map id) := by
    apply ParsesFields.chainAll
    · exact (ParsesFields.flag false).bind (ParsesFields.nil none)
    · exact fun mount _ => hmount mount
    · exact fun _ => ⟨_, rfl⟩
  rw [List.map_id] at hmounts
  exact hmounts.map _

theorem exports_parses (result : ExportResult) : ParsesFields Client.exports (exportsFields result) result := by
  have hgroups : ∀ groups : List Bytes, ParsesFields (Parser.chainAll (Client.optional Client.payload))
      (groups.flatMap groupFields ++ [.flag false]) (groups.map id) := by
    intro groups
    apply ParsesFields.chainAll
    · exact (ParsesFields.flag false).bind (ParsesFields.nil none)
    · exact fun group _ => (ParsesFields.flag true).bind ((ParsesFields.payload group).map some)
    · exact fun _ => ⟨_, rfl⟩
  have hexport : ∀ entry, ParsesFields Client.nextExport (exportFields entry) (some entry) := by
    intro entry
    refine (ParsesFields.flag true).bind (ParsesFields.map ?_ some)
    refine (ParsesFields.payload _).bind ?_
    have hrest := (hgroups entry.groups).map (ExportEntry.mk entry.path)
    rwa [List.map_id] at hrest
  have hexports : ParsesFields (Parser.chainAll Client.nextExport) (exportsFields result) (result.exports.map id) := by
    apply ParsesFields.chainAll
    · exact (ParsesFields.flag false).bind (ParsesFields.nil none)
    · exact fun entry _ => hexport entry
    · exact fun _ => ⟨_, rfl⟩
  rw [List.map_id] at hexports
  exact hexports.map _

/-! ## Lengths -/

def fieldsLength (fields : List Field) : Nat := (fields.flatMap Field.bytes).length

theorem fieldsLength_append (fields fields' : List Field) :
    fieldsLength (fields ++ fields') = fieldsLength fields + fieldsLength fields' := by
  unfold fieldsLength
  rw [List.flatMap_append, List.length_append]

theorem fieldsLength_flatMap {α : Type} (spell : α → List Field) (items : List α) :
    fieldsLength (items.flatMap spell) = (items.map fun item => fieldsLength (spell item)).sum := by
  unfold fieldsLength
  rw [List.flatMap_assoc, List.length_flatMap]

/-- Adding the size of an opaque value to a length. -/
theorem checked_addOpaque {n total : Nat} {value : Bytes} {next : Nat → Option Nat}
    (hnext : n + (opaqueBytes value).length < usizeBound → next (n + (opaqueBytes value).length) = checked total)
    (hle : n + (opaqueBytes value).length ≤ total) :
    (do next (← checkedAdd n (← xdrOpaqueSize value.length))) = checked total := by
  rw [Primitives.xdrOpaqueSize_eq]
  refine checked_bind (fun _ => ?_) (by omega)
  exact checked_bind hnext hle

variable {state : ConnectionState} {xid : UInt32}

/-- The result of `DUMP` for a mount table. -/
def dumpResult (mounts : MountTable) : DumpResult :=
  ⟨mounts.map fun mount => ⟨mount.1.display, mount.2⟩⟩

/-- The result of `EXPORT`. -/
def exportResult (state : ConnectionState) : ExportResult := ⟨state.exports.map fun entry => ⟨entry.path, []⟩⟩

/-- The length before the items: the header of the reply and the flag that ends the list. -/
theorem length_list {α : Type} (spell : α → List Field) (items : List α) :
    24 + 4 + (items.map fun item => fieldsLength (spell item)).sum =
      24 + fieldsLength (items.flatMap spell ++ [.flag false]) := by
  have hflag : fieldsLength [.flag false] = 4 := rfl
  rw [fieldsLength_append, fieldsLength_flatMap, hflag]
  omega

/-- The length that is computed is the length of the reply. -/
theorem dumpLength_eq (mounts : MountTable) :
    dumpLength mounts = checked (24 + fieldsLength (dumpFields (dumpResult mounts))) := by
  unfold dumpFields
  rw [← length_list, dumpResult, List.map_map]
  refine foldlM_checked (fun n mount => ?_) mounts (by decide)
  have hsize : fieldsLength (mountFields ⟨mount.1.display, mount.2⟩) =
      4 + ((opaqueBytes mount.1.display).length + (opaqueBytes mount.2).length) := by
    simp [fieldsLength, mountFields, Field.bytes]
  rw [Function.comp_apply, hsize, ← Nat.add_assoc, ← Nat.add_assoc]
  refine checked_bind (fun _ => ?_) (by omega)
  refine checked_addOpaque (fun _ => ?_) (by omega)
  rw [Primitives.xdrOpaqueSize_eq]
  exact checked_bind (fun _ => rfl) (Nat.le_add_left _ _)

theorem exportLength_eq : exportLength state = checked (24 + fieldsLength (exportsFields (exportResult state))) := by
  unfold exportsFields
  rw [← length_list, exportResult, List.map_map]
  refine foldlM_checked (fun n entry => ?_) state.exports (by decide)
  have hsize : fieldsLength (exportFields ⟨entry.path, []⟩) = 4 + ((opaqueBytes entry.path).length + 4) := by
    simp [fieldsLength, exportFields, Field.bytes]
  rw [Function.comp_apply, hsize, ← Nat.add_assoc, ← Nat.add_assoc]
  refine checked_bind (fun _ => ?_) (by omega)
  exact checked_addOpaque (fun _ => rfl) (Nat.le_add_right _ _)

/-! ## The check -/

/-- The check before encoding is the check on outbound records. -/
theorem outboundLengthFits_iff {limits : ServerLimits} (hfragment : 0 < limits.maxRpcFragmentSize) {length : Nat}
    (hlength : 1 ≤ length) :
    outboundLengthFits length limits = true ↔ validateRecordLength length limits.recordLimits = .ok () := by
  have hcount : fragmentCount length limits.recordLimits = divCeil length limits.maxRpcFragmentSize := by
    unfold fragmentCount
    rw [if_neg (Nat.ne_of_gt hlength)]
    exact if_neg (Nat.ne_of_gt hfragment)
  rw [validateRecordLength_ok_iff, hcount]
  unfold outboundLengthFits
  rw [decide_eq_true_iff]
  exact ⟨fun h => ⟨h.1, h.2, hfragment⟩, fun h => ⟨h.1, h.2.1⟩⟩

/-- How a list is answered: all of it if it is encoded and a record can carry it, and otherwise not at
all. -/
inductive ListAnswer (state : ConnectionState) (xid : UInt32) (list : Except EncodeError Bytes) : EncodedReply → Prop
  | whole {bytes : Bytes} (hlist : list = .ok bytes)
      (hfits : validateRecordLength bytes.length state.limits.recordLimits = .ok ()) :
      ListAnswer state xid list (state.reply bytes)
  | refused (h : ∀ bytes, list = .ok bytes → validateRecordLength bytes.length state.limits.recordLimits ≠ .ok ()) :
      ListAnswer state xid list (state.reply (acceptedReply xid SYSTEM_ERR []))

theorem ListAnswer.unique {reply' : EncodedReply} (h : ListAnswer state xid list reply)
    (h' : ListAnswer state xid list reply') : reply = reply' := by
  cases h with
  | whole hlist hfits =>
    cases h' with
    | whole hlist' =>
      cases hlist.symm.trans hlist'
      rfl
    | refused hrefused => exact absurd hfits (hrefused _ hlist)
  | refused hrefused =>
    cases h' with
    | whole hlist hfits => exact absurd hfits (hrefused _ hlist)
    | refused => rfl

/-- Fields that are short together are short one by one, so values of any length that fit a record can be
encoded. -/
theorem payload_encodable (h : fieldsLength fields < 2 ^ 32) {value : Bytes} (hmem : Field.payload value ∈ fields) :
    value.length < 2 ^ 32 := by
  have hle : (Field.payload value).bytes.length ≤ fieldsLength fields := by
    unfold fieldsLength
    rw [List.length_flatMap]
    exact List.le_sum_of_mem (List.mem_map_of_mem hmem)
  have hlength : (Field.payload value).bytes.length = 4 + (value.length + padding value.length) :=
    length_opaqueBytes value
  omega

/-- A procedure that checks the length of its list before it encodes it. -/
theorem checkedList_answers {ρ : Type} [EncodeMountResult ρ] {result : ρ} {length : Option Nat}
    (hlimits : state.limits.validate = .ok ()) (hwrites : WritesFields (EncodeMountResult.encodeResult result) fields)
    (hpayloads : ∀ field ∈ fields, (∃ value, field = .flag value) ∨ ∃ value, field = .payload value)
    (hlength : length = checked (24 + fieldsLength fields)) :
    ∃ reply, ListAnswer state xid (typedMountReply xid result) reply ∧
      (if length.all fun length => !outboundLengthFits length state.limits then bareReply state xid SYSTEM_ERR
        else mountReply state xid result) = .done reply := by
  have hfragment := (ServerLimits.usable_of_validate hlimits).fragment
  have htotal : (acceptedReplyEncoder xid SUCCESS ++ fields.flatMap Field.bytes).length = 24 + fieldsLength fields := by
    rw [List.length_append, length_acceptedReplyEncoder, fieldsLength]
  by_cases hfits : validateRecordLength (24 + fieldsLength fields) state.limits.recordLimits = .ok ()
  · have hrecord := (ServerLimits.transfers_of_validate hlimits).record
    have hshort : 24 + fieldsLength fields ≤ state.limits.maxRpcRecordSize := (validateRecordLength_ok_iff.mp hfits).1
    have hencodable : ∀ field ∈ fields, field.Encodable := by
      intro field hmem
      obtain ⟨value, rfl⟩ | ⟨value, rfl⟩ := hpayloads field hmem
      · trivial
      · exact payload_encodable (by omega) hmem
    have hlist : typedMountReply xid result = .ok (acceptedReplyEncoder xid SUCCESS ++ fields.flatMap Field.bytes) :=
      (typedReply_ok_iff hwrites).mpr ⟨hencodable, rfl⟩
    refine ⟨state.reply _, .whole hlist (htotal ▸ hfits), ?_⟩
    have hpasses : outboundLengthFits (24 + fieldsLength fields) state.limits = true :=
      (outboundLengthFits_iff hfragment (by omega)).mpr hfits
    rw [hlength, checked_of_lt (by unfold usizeBound; omega), Option.all_some, hpasses]
    unfold mountReply
    rw [hlist]
    rfl
  · refine ⟨_, .refused ?_, if_pos ?_⟩
    · intro bytes hbytes
      obtain ⟨-, rfl⟩ := (typedReply_ok_iff hwrites).mp hbytes
      rwa [htotal]
    · rw [hlength, checked]
      split
      next =>
        rw [Option.all_some, Bool.not_eq_true', Bool.eq_false_iff]
        exact fun hpasses => hfits ((outboundLengthFits_iff hfragment (by omega)).mp hpasses)
      next => rfl

/-- A list's answer passes the check on replies. -/
theorem ListAnswer.bounded (hlimits : state.limits.validate = .ok ()) (h : ListAnswer state xid list reply) :
    boundedReply state xid reply = .ok reply := by
  have hfits : validateRecordLength reply.len state.limits.recordLimits = .ok () := by
    cases h with
    | whole _ hfits =>
      rw [← EncodedReply.length_intoBytes, intoBytes_reply]
      exact hfits
    | refused =>
      have hshort : (words [RPC_REPLY, MSG_ACCEPTED, AUTH_NONE, 0, SYSTEM_ERR]).length ≤ 300 := by simp [words]
      exact (deliverable_short (ServerLimits.usable_of_validate hlimits) _ (List.append_nil _) hshort).fits
  unfold boundedReply
  rw [hfits]

section Requests

variable {context : RequestContext} {dialogue : Dialogue} {outcome : Except ServerError EncodedReply}

/-- A request of MOUNT that ends with the answer for a list ends with nothing else. -/
theorem executeRequest_list_ends_iff {procedure : UInt32} (hlimits : state.limits.validate = .ok ())
    (hends : (dispatchMount state xid context procedure []).Ends dialogue (.ok reply))
    (hanswer : ListAnswer state xid list reply) :
    Ends (executeRequest state xid Mount3.PROGRAM Mount3.VERSION procedure [] context) dialogue outcome ↔
      ∃ reply, outcome = .ok reply ∧ ListAnswer state xid list reply := by
  have hcall : (dispatchCall state xid Mount3.PROGRAM Mount3.VERSION procedure [] context).Ends dialogue (.ok reply) :=
    hends
  have hexecute : (executeRequest state xid Mount3.PROGRAM Mount3.VERSION procedure [] context).Ends dialogue
      (.ok reply) := by
    apply hcall.outcome_bind
    show (Prog.ofExcept (boundedReply state xid reply)).Ends [] (.ok reply)
    rw [hanswer.bounded hlimits]
    exact .done reply
  constructor
  · intro h
    exact ⟨reply, h.unique hexecute, hanswer⟩
  · rintro ⟨reply', rfl, hanswer'⟩
    rwa [hanswer'.unique hanswer]

theorem dumpFields_payloads (result : DumpResult) :
    ∀ field ∈ dumpFields result, (∃ value, field = .flag value) ∨ ∃ value, field = .payload value := by
  simp only [dumpFields, mountFields, List.mem_append, List.mem_flatMap]
  grind

theorem exportsFields_payloads (result : ExportResult) :
    ∀ field ∈ exportsFields result, (∃ value, field = .flag value) ∨ ∃ value, field = .payload value := by
  simp only [exportsFields, exportFields, groupFields, List.mem_append, List.mem_flatMap]
  grind

/-- A dump ends with the list, or with an error if it is too long. -/
theorem dump_ends_iff (hlimits : state.limits.validate = .ok ()) (mounts : MountTable) :
    Ends (executeRequest state xid Mount3.PROGRAM Mount3.VERSION 2 [] context) [⟨.mounts id, mounts⟩] outcome ↔
      ∃ reply, outcome = .ok reply ∧ ListAnswer state xid (typedMountReply xid (dumpResult mounts)) reply := by
  obtain ⟨reply, hanswer, hreply⟩ := checkedList_answers hlimits (dumpResult_writes _) (dumpFields_payloads _)
    (dumpLength_eq mounts)
  have hdone : (Prog.done reply : ServerM EncodedReply).Ends [] (.ok reply) := .done reply
  rw [← hreply] at hdone
  exact executeRequest_list_ends_iff hlimits (.ask hdone) hanswer

theorem exportList_ends_iff (hlimits : state.limits.validate = .ok ()) :
    Ends (executeRequest state xid Mount3.PROGRAM Mount3.VERSION 5 [] context) [] outcome ↔
      ∃ reply, outcome = .ok reply ∧ ListAnswer state xid (typedMountReply xid (exportResult state)) reply := by
  obtain ⟨reply, hanswer, hreply⟩ := checkedList_answers hlimits (exportResult_writes _) (exportsFields_payloads _)
    exportLength_eq
  have hdone : (Prog.done reply : ServerM EncodedReply).Ends [] (.ok reply) := .done reply
  rw [← hreply] at hdone
  exact executeRequest_list_ends_iff hlimits hdone hanswer

end Requests

/-! ## The lists -/

/-- What is computed, built and read of a list. -/
structure ExactList {ρ : Type} [EncodeMountResult ρ] (xid : UInt32) (parse : Client.XdrParser ρ) (result : ρ)
    (length : Option Nat) : Prop where
  /-- The length computed before is the length of the reply. -/
  length : ∀ bytes, typedMountReply xid result = .ok bytes → length = checked bytes.length
  /-- A client reads the whole list, in its order. -/
  read : ∀ bytes, typedMountReply xid result = .ok bytes → Client.readReply parse xid bytes = some result

theorem ExactList.of_writes {ρ : Type} [EncodeMountResult ρ] {parse : Client.XdrParser ρ} {result : ρ}
    {length : Option Nat} (hwrites : WritesFields (EncodeMountResult.encodeResult result) fields)
    (hparses : ParsesFields parse fields result) (hlength : length = checked (24 + fieldsLength fields)) :
    ExactList xid parse result length where
  length := by
    intro bytes hbytes
    obtain ⟨-, rfl⟩ := (typedReply_ok_iff hwrites).mp hbytes
    rw [hlength, fieldsLength, List.length_append]
    simp [acceptedReplyEncoder, words]
  read := by
    intro bytes hbytes
    obtain ⟨hencodable, rfl⟩ := (typedReply_ok_iff hwrites).mp hbytes
    exact Client.readReply_of_parses hparses hencodable

/-- The mount table is what a client makes of the list. -/
theorem mountTable_dumpResult (mounts : MountTable) : Client.mountTable (dumpResult mounts) = mounts := by
  unfold Client.mountTable dumpResult
  rw [List.map_map]
  refine (List.map_congr_left fun mount _ => ?_).trans (List.map_id mounts)
  exact Prod.ext (address_display mount.1) rfl

/-- With limits that were validated: the check before encoding is the check on outbound records; the length
`DUMP` and `EXPORT` check is the one of the reply they would build; they answer with the whole list if it
can be delivered and with `SYSTEM_ERR` if not; and a client reads the list back, and in the case of `DUMP`
the mount table from it. -/
theorem mount_lists_exact (state : ConnectionState) (hlimits : state.limits.validate = .ok ()) (xid : UInt32)
    (context : RequestContext) :
    (∀ length, 1 ≤ length → (outboundLengthFits length state.limits = true ↔
      validateRecordLength length state.limits.recordLimits = .ok ())) ∧
    (∀ mounts : MountTable, ExactList xid Client.dump (dumpResult mounts) (dumpLength mounts) ∧
      (∀ bytes, typedMountReply xid (dumpResult mounts) = .ok bytes →
        (Client.readReply Client.dump xid bytes).map Client.mountTable = some mounts) ∧
      ∀ outcome, Ends (executeRequest state xid Mount3.PROGRAM Mount3.VERSION 2 [] context) [⟨.mounts id, mounts⟩]
        outcome ↔ ∃ reply, outcome = .ok reply ∧
          ListAnswer state xid (typedMountReply xid (dumpResult mounts)) reply) ∧
    ExactList xid Client.exports (exportResult state) (exportLength state) ∧
    ∀ outcome, Ends (executeRequest state xid Mount3.PROGRAM Mount3.VERSION 5 [] context) [] outcome ↔
      ∃ reply, outcome = .ok reply ∧ ListAnswer state xid (typedMountReply xid (exportResult state)) reply := by
  refine ⟨fun length => ?_, fun mounts => ?_, ?_, fun outcome => exportList_ends_iff hlimits⟩
  · exact outboundLengthFits_iff (ServerLimits.usable_of_validate hlimits).fragment
  · have hexact : ExactList xid Client.dump (dumpResult mounts) (dumpLength mounts) :=
      .of_writes (dumpResult_writes _) (dump_parses _) (dumpLength_eq mounts)
    refine ⟨hexact, fun bytes hbytes => ?_, fun outcome => dump_ends_iff hlimits mounts⟩
    rw [hexact.read bytes hbytes, Option.map_some, mountTable_dumpResult]
  · exact .of_writes (exportResult_writes _) (exports_parses _) exportLength_eq

/-- `10.0.0.1` and `fe80::1` have mounted `/`, and so has the IPv6 client that shows as `::ffff:10.0.0.1`. -/
def sampleMounts : MountTable :=
  [(.v4 0x0a000001, [0x2f]), (.v6 0xfe800000000000000000000000000001, [0x2f]), (.v6 0xffff0a000001, [0x2f])]

/-- Both lists are delivered, and the mount table is read from the one of `DUMP`. -/
theorem mount_lists_exact_sample : sampleState.limits.validate = .ok () ∧
    dumpLength sampleMounts = some 108 ∧
    (∃ bytes, typedMountReply 1 (dumpResult sampleMounts) = .ok bytes ∧
      (Client.readReply Client.dump 1 bytes).map Client.mountTable = some sampleMounts) ∧
    exportLength sampleState = some 44 ∧
    ∃ bytes, typedMountReply 1 (exportResult sampleState) = .ok bytes ∧
      Client.readReply Client.exports 1 bytes = some ⟨[⟨[0x2f], []⟩]⟩ := by
  obtain ⟨-, hdump, hexport, -⟩ := mount_lists_exact sampleState rfl 1 ⟨.anonymous, .v4 0 700, ⟨0⟩⟩
  exact ⟨rfl, by decide, ⟨_, rfl, (hdump sampleMounts).2.1 _ rfl⟩, by decide, _, rfl, hexport.read _ rfl⟩

end NfsEmbed.Server
