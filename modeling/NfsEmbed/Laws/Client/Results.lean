import NfsEmbed.Client.Results
import NfsEmbed.Laws.Nfs3.Results

/-!
# Every result can be read back

The client's parsers recognise the field lists of the server's results. What comes back is the
result itself, except for device numbers: they are on the wire for every object, zero unless the
object is a device.

`result_decodable_and_self_delimiting` is the law for all results. A failure with the status of a success is
written, but not read back.
-/

namespace NfsEmbed.Client

open Lib Rpc Vfs Nfs3

/-! ## Primitives -/

/-- `p` recognises what is written for the fields, if it can be written, as `a`. -/
def ParsesFields {α : Type} (p : XdrParser α) (fields : List Field) (a : α) : Prop :=
  (∀ field ∈ fields, field.Encodable) → Parses p (fields.flatMap Field.bytes) a

theorem u32_parses (value : UInt32) : Parses u32 value.toBeBytes value := by
  have h := (Parser.take_parses value.length_toBeBytes).map UInt32.fromBeBytes
  rwa [UInt32.fromBeBytes_toBeBytes] at h

theorem u64_parses (value : UInt64) : Parses u64 value.toBeBytes value := by
  have h := (Parser.take_parses value.length_toBeBytes).map UInt64.fromBeBytes
  rwa [UInt64.fromBeBytes_toBeBytes] at h

namespace ParsesFields

variable {α γ : Type} {p : XdrParser α} {fields fields' : List Field} {a : α}

theorem single {field : Field} (h : field.Encodable → Parses p field.bytes a) :
    ParsesFields p [field] a := fun hall => by
  simpa using h (hall field List.mem_cons_self)

/-- Fields that follow each other are parsed one after the other. -/
theorem bind {k : α → XdrParser γ} {b : γ} (hp : ParsesFields p fields a)
    (hk : ParsesFields (k a) fields' b) : ParsesFields (p >>= k) (fields ++ fields') b := fun hall => by
  rw [List.flatMap_append]
  exact (hp fun field hf => hall field (List.mem_append_left _ hf)).bind
    (hk fun field hf => hall field (List.mem_append_right _ hf))

theorem map (hp : ParsesFields p fields a) (f : α → γ) :
    ParsesFields (p >>= fun a => pure (f a)) fields (f a) := fun hall => (hp hall).map f

theorem nil (a : α) : ParsesFields (pure a) [] a := fun _ => Parses.pure a

theorem word (value : UInt32) : ParsesFields u32 [.word value] value :=
  single fun _ => u32_parses value

theorem hyper (value : UInt64) : ParsesFields u64 [.hyper value] value :=
  single fun _ => u64_parses value

theorem flag (value : Bool) : ParsesFields boolean [.flag value] value := by
  refine single fun _ rest => ?_
  have h := u32_parses (if value then 1 else 0) rest
  unfold boolean
  rw [StateT.run_bind, Field.bytes, boolBytes, h]
  cases value <;> rfl

theorem verifier (value : Fixed 8) : ParsesFields Client.verifier [.verifier value] value := by
  refine single fun _ rest => ?_
  unfold Client.verifier
  rw [StateT.run_bind, Field.bytes, Parser.take_parses value.length_eq rest]
  change (if h : value.bytes.length = 8 then _ else _ : XdrParser (Fixed 8)).run rest = _
  rw [dif_pos value.length_eq]
  rfl

theorem payload (value : Bytes) : ParsesFields Client.payload [.payload value] value := by
  refine single fun (hlt : value.length < 2 ^ 32) => ?_
  have hlength : (UInt32.ofNat value.length).toNat = value.length := UInt32.toNat_ofNat_of_lt' hlt
  refine (u32_parses (UInt32.ofNat value.length)).bind ?_
  rw [hlength]
  refine (Parser.take_parses rfl).bind fun rest => ?_
  rw [StateT.run_bind, Parser.take_parses List.length_replicate rest]
  simp

theorem time (value : NfsTime) : ParsesFields Client.time [.time value] value := by
  refine single fun (hvalid : value.Valid) => ?_
  obtain ⟨seconds, nanoseconds⟩ := value
  have hseconds := (seconds_eq_toUInt64_iff seconds seconds.toUInt32).mpr ⟨hvalid.1, rfl⟩
  have h : Parses Client.time (timeBytes ⟨seconds, nanoseconds⟩) ⟨seconds.toUInt32.toUInt64, nanoseconds⟩ :=
    (u32_parses seconds.toUInt32).bind ((u32_parses nanoseconds).map _)
  rwa [← hseconds] at h

/-- An optional value is a flag, and the value if there is one. -/
theorem optional {spell : α → List Field} {f : α → α} (h : ∀ a, ParsesFields p (spell a) (f a)) :
    ∀ value, ParsesFields (Client.optional p) (Field.optional spell value) (value.map f)
  | none => show ParsesFields _ ([.flag false] ++ []) none from (flag false).bind (nil none)
  | some value => (flag true).bind ((h value).map some)

/-- A linked list: a flag stands before each item, and another one ends the list. -/
theorem chainAll {next : XdrParser (Option γ)} {spell : α → List Field} {f : α → γ} {items : List α}
    (hstop : ParsesFields next [.flag false] none)
    (hitem : ∀ item ∈ items, ParsesFields next (spell item) (some (f item)))
    (hflag : ∀ item, ∃ rest, spell item = .flag true :: rest) :
    ParsesFields (Parser.chainAll next) (items.flatMap spell ++ [.flag false]) (items.map f) := by
  intro hall
  have hstop' : Parses next (boolBytes false) none := by
    simpa [Field.bytes] using hstop (by simp [Field.Encodable])
  rw [List.flatMap_append, List.flatMap_assoc, List.flatMap_singleton]
  apply Parser.chainAll_parses hstop'
  · intro item hmem
    exact hitem item hmem fun field hfield =>
      hall field (List.mem_append_left _ (List.mem_flatMap_of_mem hmem hfield))
  · intro item _ hnil
    obtain ⟨rest, hspell⟩ := hflag item
    have hlength : (boolBytes true).length = 4 := length_boolBytes true
    rw [hspell, List.flatMap_cons, Field.bytes, List.append_eq_nil_iff] at hnil
    rw [hnil.1] at hlength
    cases hlength

end ParsesFields

/-! ## Parts of a result -/

/-- The attributes as they are on the wire: every object has a device number, zero when none was
given and zero for everything that is not a device. -/
def normalisedAttributes (attributes : FileAttributes) : FileAttributes :=
  { attributes with
    device := match attributes.fileType with
      | .blockDevice | .characterDevice => some (attributes.device.getD ⟨0, 0⟩)
      | _ => some ⟨0, 0⟩ }

def normalisedWcc (wcc : WccData) : WccData :=
  { wcc with after := wcc.after.map normalisedAttributes }

def normalisedEntry (entry : ReadDirEntry) : ReadDirEntry :=
  { entry with
    extension := match entry.extension with
      | .basic => .basic
      | .plus attributes handle => .plus (attributes.map normalisedAttributes) handle }

theorem status_parses (value : NfsStatus) : ParsesFields status [.word value.code] value := by
  refine ParsesFields.single fun _ rest => ?_
  unfold status
  rw [StateT.run_bind, Field.bytes, u32_parses value.code rest]
  simp only [Option.bind_eq_bind, Option.bind_some, NfsStatus.fromCode_code]
  rfl

theorem fileType_parses (value : FileType) : ParsesFields fileType [.word (encodeFileType value)] value := by
  refine ParsesFields.single fun _ rest => ?_
  unfold fileType
  rw [StateT.run_bind, Field.bytes, u32_parses _ rest]
  cases value <;> rfl

theorem stability_parses (value : WriteStability) :
    ParsesFields stability [.word (encodeStability value)] value := by
  refine ParsesFields.single fun _ rest => ?_
  unfold stability
  rw [StateT.run_bind, Field.bytes, u32_parses _ rest]
  cases value <;> rfl

theorem device_parses (value : DeviceNumber) :
    ParsesFields device [.word value.major, .word value.minor] value :=
  (ParsesFields.word value.major).bind ((ParsesFields.word value.minor).map _)

theorem normalisedAttributes_eq (attributes : FileAttributes) :
    normalisedAttributes attributes = { attributes with device := some (encodedDevice attributes) } := by
  obtain ⟨fileType⟩ := attributes
  cases fileType <;> rfl

/-- A client reads attributes, with the device that stands for them on the wire. -/
theorem attributes_parses (value : FileAttributes) :
    ParsesFields attributes (attributesFields value) (normalisedAttributes value) := by
  rw [normalisedAttributes_eq]
  exact (fileType_parses _).bind <| (ParsesFields.word _).bind <| (ParsesFields.word _).bind <|
    (ParsesFields.word _).bind <| (ParsesFields.word _).bind <| (ParsesFields.hyper _).bind <|
    (ParsesFields.hyper _).bind <| (device_parses _).bind <| (ParsesFields.hyper _).bind <|
    (ParsesFields.hyper _).bind <| (ParsesFields.time _).bind <| (ParsesFields.time _).bind <|
    (ParsesFields.time _).map _

theorem postAttributes_parses (value : Option FileAttributes) :
    ParsesFields (optional attributes) (postAttributesFields value) (value.map normalisedAttributes) :=
  ParsesFields.optional attributes_parses value

theorem optionalPayload_parses (value : Option Bytes) :
    ParsesFields (optional payload) (Field.optional (fun handle => [.payload handle]) value) value := by
  have h := ParsesFields.optional ParsesFields.payload value
  rwa [Option.map_id'] at h

theorem wcc_parses (value : WccData) : ParsesFields wcc (wccFields value) (normalisedWcc value) := by
  have hattributes : ∀ attributes : WccAttributes, ParsesFields wccAttributes
      [.hyper attributes.size, .time attributes.modifyTime, .time attributes.changeTime] attributes :=
    fun attributes => (ParsesFields.hyper _).bind <| (ParsesFields.time _).bind <|
      (ParsesFields.time _).map _
  have hbefore := ParsesFields.optional hattributes value.before
  rw [Option.map_id'] at hbefore
  exact hbefore.bind ((postAttributes_parses value.after).map _)

/-- An entry of a listing, with the flag before it. -/
theorem nextReaddirEntry_parses (entry : ReadDirEntry) :
    ParsesFields (nextReaddirEntry (isPlus entry.extension)) (readdirEntryFields entry)
      (some (normalisedEntry entry)) := by
  obtain ⟨fileId, name, cookie, extension⟩ := entry
  refine (ParsesFields.flag true).bind (ParsesFields.map ?_ some)
  refine (ParsesFields.hyper _).bind <| (ParsesFields.payload _).bind <| (ParsesFields.hyper _).bind <|
    ParsesFields.map ?_ _
  cases extension with
  | basic => exact ParsesFields.nil _
  | plus attributes handle =>
    exact (postAttributes_parses attributes).bind ((optionalPayload_parses handle).map _)

/-! ## Result unions -/

def normalisedGetAttr : GetAttrResult → GetAttrResult
  | .ok attributes => .ok (normalisedAttributes attributes)
  | .err status => .err status

def normalisedSetAttr : SetAttrResult → SetAttrResult
  | .ok objectWcc => .ok (normalisedWcc objectWcc)
  | .err status objectWcc => .err status (normalisedWcc objectWcc)

def normalisedLookup : LookupResult → LookupResult
  | .ok objectHandle objectAttributes directoryAttributes =>
    .ok objectHandle (objectAttributes.map normalisedAttributes) (directoryAttributes.map normalisedAttributes)
  | .err status directoryAttributes => .err status (directoryAttributes.map normalisedAttributes)

def normalisedAccess : AccessResult → AccessResult
  | .ok attributes access => .ok (attributes.map normalisedAttributes) access
  | .err status attributes => .err status (attributes.map normalisedAttributes)

def normalisedReadLink : ReadLinkResult → ReadLinkResult
  | .ok attributes path => .ok (attributes.map normalisedAttributes) path
  | .err status attributes => .err status (attributes.map normalisedAttributes)

def normalisedRead : ReadResult → ReadResult
  | .ok attributes data eof => .ok (attributes.map normalisedAttributes) data eof
  | .err status attributes => .err status (attributes.map normalisedAttributes)

def normalisedWrite : Nfs3.WriteResult → Nfs3.WriteResult
  | .ok fileWcc count committed verifier => .ok (normalisedWcc fileWcc) count committed verifier
  | .err status fileWcc => .err status (normalisedWcc fileWcc)

def normalisedCreate : CreateResult → CreateResult
  | .ok objectHandle objectAttributes directoryWcc =>
    .ok objectHandle (objectAttributes.map normalisedAttributes) (normalisedWcc directoryWcc)
  | .err status directoryWcc => .err status (normalisedWcc directoryWcc)

def normalisedWccResult : WccResult → WccResult
  | .ok objectWcc => .ok (normalisedWcc objectWcc)
  | .err status objectWcc => .err status (normalisedWcc objectWcc)

def normalisedRename : RenameResult → RenameResult
  | .ok fromDirectoryWcc toDirectoryWcc => .ok (normalisedWcc fromDirectoryWcc) (normalisedWcc toDirectoryWcc)
  | .err status fromDirectoryWcc toDirectoryWcc =>
    .err status (normalisedWcc fromDirectoryWcc) (normalisedWcc toDirectoryWcc)

def normalisedLink : LinkResult → LinkResult
  | .ok objectAttributes directoryWcc =>
    .ok (objectAttributes.map normalisedAttributes) (normalisedWcc directoryWcc)
  | .err status objectAttributes directoryWcc =>
    .err status (objectAttributes.map normalisedAttributes) (normalisedWcc directoryWcc)

def normalisedReadDir : ReadDirResult → ReadDirResult
  | .ok directoryAttributes verifier entries eof =>
    .ok (directoryAttributes.map normalisedAttributes) verifier (entries.map normalisedEntry) eof
  | .err status directoryAttributes => .err status (directoryAttributes.map normalisedAttributes)

def normalisedFsStat : FsStatResult → FsStatResult
  | .ok attributes info => .ok (attributes.map normalisedAttributes) info
  | .err status attributes => .err status (attributes.map normalisedAttributes)

def normalisedFsInfo : FsInfoResult → FsInfoResult
  | .ok attributes info properties => .ok (attributes.map normalisedAttributes) info properties
  | .err status attributes => .err status (attributes.map normalisedAttributes)

def normalisedPathConf : PathConfResult → PathConfResult
  | .ok attributes info => .ok (attributes.map normalisedAttributes) info
  | .err status attributes => .err status (attributes.map normalisedAttributes)

def normalisedCommit : CommitResult → CommitResult
  | .ok fileWcc verifier => .ok (normalisedWcc fileWcc) verifier
  | .err status fileWcc => .err status (normalisedWcc fileWcc)

/-- What comes back is a listing of the same procedure. -/
theorem HasShape.normalised {plus : Bool} {result : ReadDirResult} (h : HasShape plus result) :
    HasShape plus (normalisedReadDir result) := by
  cases result with
  | err => trivial
  | ok =>
    intro entry hentry
    obtain ⟨entry, hmem, rfl⟩ := List.mem_map.mp hentry
    rw [← h entry hmem]
    obtain ⟨_, _, _, extension⟩ := entry
    cases extension <;> rfl

section Unions

variable {ρ : Type} {ok : XdrParser ρ} {err : NfsStatus → XdrParser ρ} {fields : List Field} {result : ρ}

theorem union_ok (h : ParsesFields ok fields result) :
    ParsesFields (union ok err) (.word NfsStatus.ok.code :: fields) result :=
  (status_parses .ok).bind h

theorem union_err {value : NfsStatus} (hvalue : value ≠ .ok) (h : ParsesFields (err value) fields result) :
    ParsesFields (union ok err) (.word value.code :: fields) result := by
  refine (status_parses value).bind ?_
  rw [if_neg hvalue]
  exact h

end Unions

/-- The count word of a `READ` result is the length of the data. -/
theorem checkCount_parses (attributes : Option FileAttributes) (data : Bytes) (eof : Bool) :
    ParsesFields (do
        let data' ← payload
        if (UInt32.ofNat data.length).toNat = data'.length then
          return ReadResult.ok attributes data' eof
        else failure)
      [.payload data] (.ok attributes data eof) := fun hall => by
  have hlt : data.length < 2 ^ 32 := hall (.payload data) List.mem_cons_self
  have hcount : (UInt32.ofNat data.length).toNat = data.length := UInt32.toNat_ofNat_of_lt' hlt
  rw [hcount]
  intro rest
  rw [StateT.run_bind, ParsesFields.payload data hall rest]
  simp

theorem read_parses {result : ReadResult} (h : ∀ status attributes, result = .err status attributes → status ≠ .ok) :
    ParsesFields read result.fields (normalisedRead result) := by
  cases result with
  | ok => exact union_ok <| (postAttributes_parses _).bind <| (ParsesFields.word _).bind <|
      (ParsesFields.flag _).bind <| checkCount_parses _ _ _
  | err => exact union_err (h _ _ rfl) <| (postAttributes_parses _).map _

theorem write_parses {result : Nfs3.WriteResult} (h : ∀ status wcc, result = .err status wcc → status ≠ .ok) :
    ParsesFields write result.fields (normalisedWrite result) := by
  cases result with
  | ok => exact union_ok <| (wcc_parses _).bind <| (ParsesFields.word _).bind <| (stability_parses _).bind <|
      (ParsesFields.verifier _).map _
  | err => exact union_err (h _ _ rfl) <| (wcc_parses _).map _

theorem create_parses {result : CreateResult} (h : ∀ status wcc, result = .err status wcc → status ≠ .ok) :
    ParsesFields create result.fields (normalisedCreate result) := by
  cases result with
  | ok =>
    exact union_ok <| (optionalPayload_parses _).bind <| (postAttributes_parses _).bind <|
      (wcc_parses _).map _
  | err => exact union_err (h _ _ rfl) <| (wcc_parses _).map _

theorem wccResult_parses {result : WccResult} (h : ∀ status wcc, result = .err status wcc → status ≠ .ok) :
    ParsesFields wccResult result.fields (normalisedWccResult result) := by
  cases result with
  | ok => exact union_ok <| (wcc_parses _).map _
  | err => exact union_err (h _ _ rfl) <| (wcc_parses _).map _

/-- The entries come one after the other, up to the flag that ends them. -/
theorem readdirEntries_parses {plus : Bool} {entries : List ReadDirEntry}
    (hshape : ∀ entry ∈ entries, isPlus entry.extension = plus) :
    ParsesFields (Parser.chainAll (nextReaddirEntry plus)) (entries.flatMap readdirEntryFields ++ [.flag false])
      (entries.map normalisedEntry) := by
  apply ParsesFields.chainAll
  · exact (ParsesFields.flag false).bind (ParsesFields.nil none)
  · intro entry hentry
    rw [← hshape entry hentry]
    exact nextReaddirEntry_parses entry
  · exact fun _ => ⟨_, rfl⟩

/-- A listing is read back if its entries are those of the procedure. -/
theorem readDir_parses {plus : Bool} {result : ReadDirResult} (hshape : HasShape plus result)
    (h : ∀ status attributes, result = .err status attributes → status ≠ .ok) :
    ParsesFields (readDir plus) result.fields (normalisedReadDir result) := by
  cases result with
  | ok _ _ entries eof =>
    refine union_ok <| (postAttributes_parses _).bind <| (ParsesFields.verifier _).bind ?_
    have hsplit : entries.flatMap readdirEntryFields ++ [.flag false, .flag eof] =
        (entries.flatMap readdirEntryFields ++ [.flag false]) ++ [.flag eof] := by
      rw [List.append_assoc, List.singleton_append]
    change ParsesFields _ (entries.flatMap readdirEntryFields ++ [.flag false, .flag eof]) _
    rw [hsplit]
    exact (readdirEntries_parses hshape).bind ((ParsesFields.flag eof).map _)
  | err => exact union_err (h _ _ rfl) <| (postAttributes_parses _).map _

/-- A directory list comes back in the shape it was written in. -/
theorem shaped_parses {plus : Bool} (wrap : ∀ result, HasShape plus result → NfsResult)
    {result : ReadDirResult} (shape : HasShape plus result)
    (h : ∀ status attributes, result = .err status attributes → status ≠ .ok) :
    ParsesFields (do
        let result ← readDir plus
        if shape : HasShape plus result then return wrap result shape else failure)
      result.fields (wrap (normalisedReadDir result) shape.normalised) := by
  rw [← List.append_nil result.fields]
  refine (readDir_parses shape h).bind ?_
  rw [dif_pos shape.normalised]
  exact ParsesFields.nil _

namespace NfsResult

/-- The XDR fields of the result, in order. -/
def fields : NfsResult → List Field
  | getAttr result => result.fields
  | setAttr result => result.fields
  | lookup result => result.fields
  | access result => result.fields
  | readLink result => result.fields
  | read result => result.fields
  | write result => result.fields
  | create result => result.fields
  | mkdir result => result.fields
  | symlink result => result.fields
  | mknod result => result.fields
  | remove result => result.fields
  | rmdir result => result.fields
  | rename result => result.fields
  | link result => result.fields
  | readDir result _ => result.fields
  | readDirPlus result _ => result.fields
  | fsStat result => result.fields
  | fsInfo result => result.fields
  | pathConf result => result.fields
  | commit result => result.fields

/-- The status of a failure arm. -/
def failure : NfsResult → Option NfsStatus
  | getAttr (.err status) | setAttr (.err status _) | lookup (.err status _) | access (.err status _)
  | readLink (.err status _) | read (.err status _) | write (.err status _) | create (.err status _)
  | mkdir (.err status _) | symlink (.err status _) | mknod (.err status _) | remove (.err status _)
  | rmdir (.err status _) | rename (.err status _ _) | link (.err status _ _)
  | readDir (.err status _) _ | readDirPlus (.err status _) _ | fsStat (.err status _)
  | fsInfo (.err status _) | pathConf (.err status _) | commit (.err status _) => some status
  | _ => none

/-- The result with its device numbers as they are on the wire. -/
def normalised : NfsResult → NfsResult
  | getAttr result => getAttr (normalisedGetAttr result)
  | setAttr result => setAttr (normalisedSetAttr result)
  | lookup result => lookup (normalisedLookup result)
  | access result => access (normalisedAccess result)
  | readLink result => readLink (normalisedReadLink result)
  | read result => read (normalisedRead result)
  | write result => write (normalisedWrite result)
  | create result => create (normalisedCreate result)
  | mkdir result => mkdir (normalisedCreate result)
  | symlink result => symlink (normalisedCreate result)
  | mknod result => mknod (normalisedCreate result)
  | remove result => remove (normalisedWccResult result)
  | rmdir result => rmdir (normalisedWccResult result)
  | rename result => rename (normalisedRename result)
  | link result => link (normalisedLink result)
  | readDir result shape => readDir (normalisedReadDir result) shape.normalised
  | readDirPlus result shape => readDirPlus (normalisedReadDir result) shape.normalised
  | fsStat result => fsStat (normalisedFsStat result)
  | fsInfo result => fsInfo (normalisedFsInfo result)
  | pathConf result => pathConf (normalisedPathConf result)
  | commit result => commit (normalisedCommit result)

theorem encode_writes (result : NfsResult) : WritesFields result.encode result.fields := by
  cases result with
  | getAttr result => exact GetAttrResult.encodeResult_writes result
  | setAttr result => exact SetAttrResult.encodeResult_writes result
  | lookup result => exact LookupResult.encodeResult_writes result
  | access result => exact AccessResult.encodeResult_writes result
  | readLink result => exact ReadLinkResult.encodeResult_writes result
  | read result => exact ReadResult.encodeResult_writes result
  | write result => exact Nfs3.WriteResult.encodeResult_writes result
  | rename result => exact RenameResult.encodeResult_writes result
  | link result => exact LinkResult.encodeResult_writes result
  | fsStat result => exact FsStatResult.encodeResult_writes result
  | fsInfo result => exact FsInfoResult.encodeResult_writes result
  | pathConf result => exact PathConfResult.encodeResult_writes result
  | commit result => exact CommitResult.encodeResult_writes result
  | create result | mkdir result | symlink result | mknod result =>
    exact CreateResult.encodeResult_writes result
  | remove result | rmdir result => exact WccResult.encodeResult_writes result
  | readDir result shape | readDirPlus result shape => exact ReadDirResult.encodeResult_writes result

/-- Every result is read back by the parser of its procedure. -/
theorem parses {result : NfsResult} (h : ∀ status, result.failure = some status → status ≠ .ok) :
    ParsesFields (parser result.procedure) result.fields result.normalised := by
  cases result with
  | getAttr result =>
    refine ParsesFields.map ?_ NfsResult.getAttr
    cases result with
    | ok => exact union_ok <| (attributes_parses _).map _
    | err => exact union_err (h _ rfl) <| ParsesFields.nil _
  | setAttr result =>
    refine ParsesFields.map ?_ NfsResult.setAttr
    cases result with
    | ok => exact union_ok <| (wcc_parses _).map _
    | err => exact union_err (h _ rfl) <| (wcc_parses _).map _
  | lookup result =>
    refine ParsesFields.map ?_ NfsResult.lookup
    cases result with
    | ok => exact union_ok <| (ParsesFields.payload _).bind <| (postAttributes_parses _).bind <|
        (postAttributes_parses _).map _
    | err => exact union_err (h _ rfl) <| (postAttributes_parses _).map _
  | access result =>
    refine ParsesFields.map ?_ NfsResult.access
    cases result with
    | ok => exact union_ok <| (postAttributes_parses _).bind <| (ParsesFields.word _).map _
    | err => exact union_err (h _ rfl) <| (postAttributes_parses _).map _
  | readLink result =>
    refine ParsesFields.map ?_ NfsResult.readLink
    cases result with
    | ok => exact union_ok <| (postAttributes_parses _).bind <| (ParsesFields.payload _).map _
    | err => exact union_err (h _ rfl) <| (postAttributes_parses _).map _
  | read =>
    exact (read_parses fun status _ hr => h status (by rw [hr]; rfl)).map NfsResult.read
  | write =>
    exact (write_parses fun status _ hr => h status (by rw [hr]; rfl)).map NfsResult.write
  | create =>
    exact (create_parses fun status _ hr => h status (by rw [hr]; rfl)).map NfsResult.create
  | mkdir =>
    exact (create_parses fun status _ hr => h status (by rw [hr]; rfl)).map NfsResult.mkdir
  | symlink =>
    exact (create_parses fun status _ hr => h status (by rw [hr]; rfl)).map NfsResult.symlink
  | mknod =>
    exact (create_parses fun status _ hr => h status (by rw [hr]; rfl)).map NfsResult.mknod
  | remove =>
    exact (wccResult_parses fun status _ hr => h status (by rw [hr]; rfl)).map NfsResult.remove
  | rmdir =>
    exact (wccResult_parses fun status _ hr => h status (by rw [hr]; rfl)).map NfsResult.rmdir
  | rename result =>
    refine ParsesFields.map ?_ NfsResult.rename
    cases result with
    | ok => exact union_ok <| (wcc_parses _).bind <| (wcc_parses _).map _
    | err => exact union_err (h _ rfl) <| (wcc_parses _).bind <| (wcc_parses _).map _
  | link result =>
    refine ParsesFields.map ?_ NfsResult.link
    cases result with
    | ok => exact union_ok <| (postAttributes_parses _).bind <| (wcc_parses _).map _
    | err => exact union_err (h _ rfl) <| (postAttributes_parses _).bind <| (wcc_parses _).map _
  | readDir _ shape =>
    exact shaped_parses NfsResult.readDir shape fun status _ hr => h status (by subst hr; rfl)
  | readDirPlus _ shape =>
    exact shaped_parses NfsResult.readDirPlus shape fun status _ hr => h status (by subst hr; rfl)
  | fsStat result =>
    refine ParsesFields.map ?_ NfsResult.fsStat
    cases result with
    | ok => exact union_ok <| (postAttributes_parses _).bind <| (ParsesFields.hyper _).bind <|
        (ParsesFields.hyper _).bind <| (ParsesFields.hyper _).bind <| (ParsesFields.hyper _).bind <|
        (ParsesFields.hyper _).bind <| (ParsesFields.hyper _).bind <| (ParsesFields.word _).map _
    | err => exact union_err (h _ rfl) <| (postAttributes_parses _).map _
  | fsInfo result =>
    refine ParsesFields.map ?_ NfsResult.fsInfo
    cases result with
    | ok => exact union_ok <| (postAttributes_parses _).bind <| (ParsesFields.word _).bind <|
        (ParsesFields.word _).bind <| (ParsesFields.word _).bind <| (ParsesFields.word _).bind <|
        (ParsesFields.word _).bind <| (ParsesFields.word _).bind <| (ParsesFields.word _).bind <|
        (ParsesFields.hyper _).bind <| (ParsesFields.time _).bind <| (ParsesFields.word _).map _
    | err => exact union_err (h _ rfl) <| (postAttributes_parses _).map _
  | pathConf result =>
    refine ParsesFields.map ?_ NfsResult.pathConf
    cases result with
    | ok => exact union_ok <| (postAttributes_parses _).bind <| (ParsesFields.word _).bind <|
        (ParsesFields.word _).bind <| (ParsesFields.flag _).bind <| (ParsesFields.flag _).bind <|
        (ParsesFields.flag _).bind <| (ParsesFields.flag _).map _
    | err => exact union_err (h _ rfl) <| (postAttributes_parses _).map _
  | commit result =>
    refine ParsesFields.map ?_ NfsResult.commit
    cases result with
    | ok => exact union_ok <| (wcc_parses _).bind <| (ParsesFields.verifier _).map _
    | err => exact union_err (h _ rfl) <| (wcc_parses _).map _

end NfsResult

/-- What is said of an encoding without reading it: it takes a multiple of four bytes, and it fails exactly
on a time out of range or on an opaque value too long for its length word. -/
structure EncodesFields (encode : EncodeM Unit) (fields : List Field) : Prop where
  length : ∀ encoded, Encoder.run encode = .ok encoded → encoded.length % 4 = 0
  fails_iff : (∃ error, Encoder.run encode = .error error) ↔
    (∃ time ∈ Field.times fields, time.seconds.toNat ≥ 2 ^ 32 ∨ time.nanoseconds > 999999999) ∨
      ∃ value ∈ Field.payloads fields, value.length ≥ 2 ^ 32

/-- What the fields say about an encoding. -/
theorem EncodesFields.of_writes {encode : EncodeM Unit} {fields : List Field} (h : WritesFields encode fields) :
    EncodesFields encode fields where
  length := by
    intro encoded hencoded
    obtain ⟨-, rfl⟩ := (Encoder.run_ok_iff h).mp hencoded
    exact Field.length_flatMap_bytes_mod _
  fails_iff := by
    rw [Encoder.run_error_iff h, Field.forall_encodable_iff]
    simp only [NfsTime.Valid, Classical.not_and_iff_not_or_not, not_forall, Nat.not_lt, UInt32.not_le,
      exists_prop, ge_iff_le, gt_iff_lt]

/-- Every encoded result is read back by the parser of its procedure, whatever follows it, takes a multiple of
four bytes, and fails to be encoded exactly on a time out of range or on an opaque value that is too long. The
last two also hold of listings that mix the entries of `READDIR` and `READDIRPLUS`, which no parser reads. -/
theorem result_decodable_and_self_delimiting :
    (∀ result : NfsResult, EncodesFields result.encode result.fields ∧
      ∀ encoded, Encoder.run result.encode = .ok encoded →
        (∀ status, result.failure = some status → status ≠ .ok) → ∀ rest,
          (NfsResult.parser result.procedure).run (encoded ++ rest) = some (result.normalised, rest)) ∧
    ∀ result : ReadDirResult, EncodesFields (EncodeNfsResult.encodeResult result) result.fields := by
  refine ⟨fun result => ⟨.of_writes result.encode_writes, fun encoded hencoded hfailure => ?_⟩,
    fun result => .of_writes result.encodeResult_writes⟩
  obtain ⟨hall, rfl⟩ := (Encoder.run_ok_iff result.encode_writes).mp hencoded
  exact NfsResult.parses hfailure hall

end NfsEmbed.Client
