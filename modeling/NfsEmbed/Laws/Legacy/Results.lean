import NfsEmbed.Laws.Client.Replies
import NfsEmbed.Laws.Legacy.Xdr

/-!
# What a client reads of what the pre-1.0 implementation writes

The spellings of its types are what the parsers of RFC 1813 recognise.

There is one law per type, for types without vectors at every value, and for the others where the vectors
can be written.
-/

namespace NfsEmbed.Legacy

open Lib Rpc Client
open Vfs (FileAttributes FileType NfsTime WccAttributes DeviceNumber)
open Nfs3 (NfsStatus)
open Server (acceptedReplyEncoder SUCCESS)

/-! ## Values as a client has them -/

def Nfsstat3.received : Nfsstat3 → NfsStatus
  | ok => .ok
  | perm => .permission
  | noent => .notFound
  | io => .io
  | nxio => .noDeviceOrAddress
  | acces => .access
  | exist => .exists
  | xdev => .crossDevice
  | nodev => .noDevice
  | notdir => .notDirectory
  | isdir => .isDirectory
  | inval => .invalid
  | fbig => .fileTooLarge
  | nospc => .noSpace
  | rofs => .readOnly
  | mlink => .tooManyLinks
  | nametoolong => .nameTooLong
  | notempty => .notEmpty
  | dquot => .quota
  | stale => .stale
  | remote => .remote
  | badhandle => .badHandle
  | notSync => .notSynchronized
  | badCookie => .badCookie
  | notsupp => .notSupported
  | toosmall => .tooSmall
  | serverfault => .serverFault
  | badtype => .badType
  | jukebox => .jukebox

def Ftype3.received : Ftype3 → FileType
  | reg => .regular
  | dir => .directory
  | blk => .blockDevice
  | chr => .characterDevice
  | lnk => .symlink
  | sock => .socket
  | fifo => .fifo

def Nfstime3.received (time : Nfstime3) : NfsTime := ⟨time.seconds.toUInt64, time.nseconds⟩

def Fattr3.received (attributes : Fattr3) : FileAttributes where
  fileType := attributes.ftype.received
  mode := attributes.mode
  links := attributes.nlink
  uid := attributes.uid
  gid := attributes.gid
  size := attributes.size
  used := attributes.used
  device := some ⟨attributes.rdev.specdata1, attributes.rdev.specdata2⟩
  fsId := attributes.fsid
  fileId := attributes.fileid
  accessTime := attributes.atime.received
  modifyTime := attributes.mtime.received
  changeTime := attributes.ctime.received

def WccAttr.received (attributes : WccAttr) : WccAttributes :=
  ⟨attributes.size, attributes.mtime.received, attributes.ctime.received⟩

def WccData.received (wcc : WccData) : Nfs3.WccData := ⟨wcc.before.map WccAttr.received, wcc.after.map Fattr3.received⟩

/-! ## Lengths -/

theorem length_spell_u32 (value : UInt32) : (spell value).length = 4 := value.length_toBeBytes

theorem length_spell_u64 (value : UInt64) : (spell value).length = 8 := value.length_toBeBytes

theorem length_spell_pair {α β : Type} [Xdr α] [LawfulXdr α] [Xdr β] [LawfulXdr β] (a : α) (b : β) :
    (spell (a, b)).length = (spell a).length + (spell b).length :=
  List.length_append

theorem length_spell_fattr3 (attributes : Fattr3) : (spell attributes).length = 84 := by
  have hftype : (spell attributes.ftype).length = 4 := UInt32.length_toBeBytes _
  have hrdev : (spell attributes.rdev).length = 8 := by
    show (spell (attributes.rdev.specdata1, attributes.rdev.specdata2)).length = 8
    rw [length_spell_pair, length_spell_u32, length_spell_u32]
  have htime : ∀ time : Nfstime3, (spell time).length = 8 := by
    intro time
    show (spell (time.seconds, time.nseconds)).length = 8
    rw [length_spell_pair, length_spell_u32, length_spell_u32]
  show (spell (attributes.ftype, attributes.mode, attributes.nlink, attributes.uid, attributes.gid, attributes.size,
    attributes.used, attributes.rdev, attributes.fsid, attributes.fileid, attributes.atime, attributes.mtime,
    attributes.ctime)).length = 84
  simp only [length_spell_pair, length_spell_u32, length_spell_u64, hftype, hrdev, htime]

/-! ## Parsing -/

theorem u32_parses_spell (value : UInt32) : Parses u32 (spell value) value := u32_parses value

theorem u64_parses_spell (value : UInt64) : Parses u64 (spell value) value := u64_parses value

/-- A parser of one field reads its bytes. -/
theorem parses_of_field {α : Type} {parse : XdrParser α} {field : Nfs3.Field} {value : α}
    (h : ParsesFields parse [field] value) (hencodable : field.Encodable) : Parses parse field.bytes value := by
  have hparses := h (List.forall_mem_singleton.mpr hencodable)
  rwa [List.flatMap_singleton] at hparses

theorem boolean_parses_spell (value : Bool) : Parses boolean (spell value) value :=
  parses_of_field (ParsesFields.flag value) trivial

theorem verifier_parses_spell (value : Fixed 8) : Parses verifier (spell value) value :=
  parses_of_field (ParsesFields.verifier value) trivial

theorem payload_parses_spell {value : Bytes} (h : Fits (2 ^ 32 - 1) value) : Parses payload (spell value) value :=
  parses_of_field (ParsesFields.payload value) (Nat.lt_trans h (by decide))

theorem optional_parses_spell {α β : Type} [Xdr α] [LawfulXdr α] {parse : XdrParser β} {received : α → β} {P : α → Prop}
    (h : ∀ value, P value → Parses parse (spell value) (received value)) :
    ∀ value : Option α, (∀ a ∈ value, P a) → Parses (Client.optional parse) (spell value) (value.map received)
  | none, _ => (boolean_parses_spell false).bind_nil (Parses.pure none)
  | some value, hP => (boolean_parses_spell true).bind ((h value (hP value rfl)).map some)

theorem status_parses_spell (stat : Nfsstat3) : Parses status (spell stat) stat.received := by
  have h : stat.received.code = stat.toU32 := by cases stat <;> rfl
  have hparses := parses_of_field (status_parses stat.received) trivial
  rwa [Nfs3.Field.bytes, h] at hparses

theorem fileType_parses_spell (ftype : Ftype3) : Parses fileType (spell ftype) ftype.received := by
  have h : Nfs3.encodeFileType ftype.received = ftype.toU32 := by cases ftype <;> rfl
  have hparses := parses_of_field (fileType_parses ftype.received) trivial
  rwa [Nfs3.Field.bytes, h] at hparses

theorem time_parses_spell (value : Nfstime3) : Parses time (spell value) value.received :=
  (u32_parses value.seconds).bind ((u32_parses value.nseconds).map _)

theorem device_parses_spell (value : Specdata3) : Parses device (spell value) ⟨value.specdata1, value.specdata2⟩ :=
  (u32_parses value.specdata1).bind ((u32_parses value.specdata2).map _)

/-- A client reads the attributes. -/
theorem attributes_parses_spell (value : Fattr3) : Parses attributes (spell value) value.received :=
  (fileType_parses_spell _).bind <| (u32_parses_spell _).bind <| (u32_parses_spell _).bind <|
    (u32_parses_spell _).bind <| (u32_parses_spell _).bind <| (u64_parses_spell _).bind <| (u64_parses_spell _).bind <|
    (device_parses_spell _).bind <| (u64_parses_spell _).bind <| (u64_parses_spell _).bind <|
    (time_parses_spell _).bind <| (time_parses_spell _).bind ((time_parses_spell _).map _)

theorem postOpAttr_parses (value : PostOpAttr) :
    Parses (Client.optional attributes) (spell value) (value.map Fattr3.received) :=
  optional_parses_spell (P := fun _ => True) (fun value _ => attributes_parses_spell value) value fun _ _ => trivial

theorem preOpAttr_parses (value : PreOpAttr) :
    Parses (Client.optional wccAttributes) (spell value) (value.map WccAttr.received) := by
  have h : ∀ value : WccAttr, Parses wccAttributes (spell value) value.received := fun value =>
    (u64_parses_spell _).bind ((time_parses_spell _).bind ((time_parses_spell _).map _))
  exact optional_parses_spell (P := fun _ => True) (fun value _ => h value) value fun _ _ => trivial

/-- A client reads the attributes before and after. -/
theorem wcc_parses_spell (value : WccData) : Parses wcc (spell value) value.received :=
  (preOpAttr_parses value.before).bind ((postOpAttr_parses value.after).map _)

theorem handle_parses {value : NfsFh3} (h : Fits (2 ^ 32 - 1) value) : Parses payload (spell value) value.data :=
  payload_parses_spell h

theorem postOpFh_parses {value : PostOpFh3} (h : Fits (2 ^ 32 - 1) value) :
    Parses (Client.optional payload) (spell value) (value.map NfsFh3.data) := by
  apply optional_parses_spell (P := Fits (2 ^ 32 - 1))
  · exact fun handle => handle_parses
  · intro handle hmem
    rw [Option.mem_def] at hmem
    subst hmem
    exact h

/-! ## Unions and replies -/

/-- A union goes on with the arm of the status. -/
theorem union_run {ρ : Type} {ok : XdrParser ρ} {err : NfsStatus → XdrParser ρ} (stat : Nfsstat3) (w : Bytes) :
    (union ok err).run (spell stat ++ w) = if stat = .ok then ok.run w else (err stat.received).run w := by
  have h : stat.received = .ok ↔ stat = .ok := by cases stat <;> simp [Nfsstat3.received]
  unfold union
  rw [StateT.run_bind, status_parses_spell]
  simp only [Option.bind_eq_bind, Option.bind_some]
  by_cases hok : stat = .ok
  · rw [if_pos hok, if_pos (h.mpr hok)]
  · rw [if_neg hok, if_neg fun hreceived => hok (h.mp hreceived)]

/-- A success is read by the parser of the success arm. -/
theorem union_parses_ok {ρ : Type} {ok : XdrParser ρ} {err : NfsStatus → XdrParser ρ} {w : Bytes} {result : ρ}
    (h : Parses ok w result) : Parses (union ok err) (spell Nfsstat3.ok ++ w) result := by
  intro rest
  rw [List.append_assoc, union_run, if_pos rfl]
  exact h rest

/-- Another status is read by the parser of the failure arm. -/
theorem union_parses_err {ρ : Type} {ok : XdrParser ρ} {err : NfsStatus → XdrParser ρ} {stat : Nfsstat3} {w : Bytes}
    {result : ρ} (hstat : stat ≠ .ok) (h : Parses (err stat.received) w result) :
    Parses (union ok err) (spell stat ++ w) result := by
  intro rest
  rw [List.append_assoc, union_run, if_neg hstat]
  exact h rest

/-- A reply with a status and an arm. -/
def resultBytes (xid : UInt32) (stat : Nfsstat3) (arm : Bytes) : Bytes :=
  acceptedReplyEncoder xid SUCCESS ++ (spell stat ++ arm)

theorem length_resultBytes (xid : UInt32) (stat : Nfsstat3) (arm : Bytes) : (resultBytes xid stat arm).length = 28 + arm.length := by
  have hstat : (spell stat).length = 4 := UInt32.length_toBeBytes _
  rw [resultBytes, List.length_append, List.length_append, Server.length_acceptedReplyEncoder, hstat, ← Nat.add_assoc]

/-- A client reads the result behind the header. -/
theorem readReply_of_parses_spell {ρ : Type} {parse : XdrParser ρ} {xid : UInt32} {stat : Nfsstat3} {arm : Bytes}
    {result : ρ} (h : Parses parse (spell stat ++ arm) result) :
    readReply parse xid (resultBytes xid stat arm) = some result := by
  have hrun := h []
  rw [List.append_nil] at hrun
  exact readReply_header_iff.mpr hrun

end NfsEmbed.Legacy
