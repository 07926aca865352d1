import NfsEmbed.Laws.Nfs3.Fields

/-!
# Results as lists of XDR fields

Every result encoder writes a list of primitive XDR fields one after the other. The list of a result
says everything about its encoding at once: the bytes, the values that cannot be encoded, and that
the length is a multiple of four.
-/

namespace NfsEmbed.Nfs3

open Lib Rpc Vfs Encoder

/-! ## Fields -/

inductive Field where
  | word (value : UInt32)
  | hyper (value : UInt64)
  | flag (value : Bool)
  | verifier (value : Fixed 8)
  | payload (value : Bytes)
  | time (value : NfsTime)

namespace Field

def bytes : Field → Bytes
  | word value => value.toBeBytes
  | hyper value => value.toBeBytes
  | flag value => boolBytes value
  | verifier value => value.bytes
  | payload value => opaqueBytes value
  | time value => timeBytes value

def Encodable : Field → Prop
  | payload value => value.length < 2 ^ 32
  | time value => value.Valid
  | _ => True

/-- Each field ends on a word boundary. -/
theorem length_bytes_mod (field : Field) : field.bytes.length % 4 = 0 := by
  cases field with
  | verifier value => simp [bytes, value.length_eq]
  | payload value =>
    have := add_padding_mod value.length
    simp only [bytes, length_opaqueBytes]
    omega
  | _ => simp [bytes]

/-- The times and the opaque values among the fields are all that can fail to be encoded. -/
def times (fields : List Field) : List NfsTime :=
  fields.filterMap fun
    | time value => some value
    | _ => none

def payloads (fields : List Field) : List Bytes :=
  fields.filterMap fun
    | payload value => some value
    | _ => none

/-- Only times and opaque values can fail to be encoded. -/
theorem forall_encodable_iff (fields : List Field) :
    (∀ field ∈ fields, field.Encodable) ↔
      (∀ value ∈ times fields, value.Valid) ∧ ∀ value ∈ payloads fields, value.length < 2 ^ 32 := by
  induction fields with
  | nil => simp [times, payloads]
  | cons field fields ih =>
    rw [List.forall_mem_cons, ih]
    cases field with
    | time value =>
      show value.Valid ∧ _ ↔ (∀ value' ∈ value :: times fields, value'.Valid) ∧ ∀ value' ∈ payloads fields, _
      rw [List.forall_mem_cons, and_assoc]
    | payload value =>
      show value.length < 2 ^ 32 ∧ _ ↔ (∀ value' ∈ times fields, value'.Valid) ∧ ∀ value' ∈ value :: payloads fields, _
      rw [List.forall_mem_cons, and_left_comm]
    | _ => exact iff_of_eq (true_and _)

theorem length_flatMap_bytes_mod (fields : List Field) : (fields.flatMap bytes).length % 4 = 0 := by
  induction fields with
  | nil => rfl
  | cons field _ ih =>
    have := field.length_bytes_mod
    rw [List.flatMap_cons, List.length_append]
    omega

/-- An optional part: a flag, and the part's fields if it is there. -/
def optional {α : Type} (fields : α → List Field) : Option α → List Field
  | none => [flag false]
  | some value => flag true :: fields value

end Field

/-- `m` writes exactly these fields, and fails when one of them cannot be encoded. -/
def WritesFields (m : EncodeM Unit) (fields : List Field) : Prop :=
  Writes m (∀ field ∈ fields, field.Encodable) (fields.flatMap Field.bytes)

namespace WritesFields

variable {m m' : EncodeM Unit} {fields fields' : List Field}

theorem single {field : Field} (h : Writes m field.Encodable field.bytes) : WritesFields m [field] :=
  h.congr (by simp) fun _ => by simp

theorem word (value : UInt32) : WritesFields (writeU32 value) [.word value] :=
  single (writeU32_writes value)

theorem hyper (value : UInt64) : WritesFields (writeU64 value) [.hyper value] :=
  single (writeU64_writes value)

theorem flag (value : Bool) : WritesFields (writeBool value) [.flag value] :=
  single (writeBool_writes value)

theorem verifier (value : Fixed 8) : WritesFields (writeFixed value.bytes) [.verifier value] :=
  single (writeFixed_writes value.bytes)

theorem payload (value : Bytes) : WritesFields (writeOpaque value) [.payload value] :=
  single (writeOpaque_writes value)

theorem time (value : NfsTime) : WritesFields (encodeTime value) [.time value] :=
  single (encodeTime_writes value)

theorem nil : WritesFields (pure ()) [] := Writes.pure.congr (by simp) fun _ => rfl

theorem seq (h : WritesFields m fields) (h' : WritesFields m' fields') :
    WritesFields (m >>= fun _ => m') (fields ++ fields') :=
  (Writes.seq h h').congr (by simp [or_imp, forall_and]) fun _ => List.flatMap_append.symm

theorem optional {α : Type} {encode : α → EncodeM Unit} {spell : α → List Field}
    (h : ∀ a, WritesFields (encode a) (spell a)) :
    ∀ value, WritesFields (writeOptional encode value) (Field.optional spell value)
  | none => (flag false).seq nil
  | some value => (flag true).seq (h value)

theorem forM {α : Type} {encode : α → EncodeM Unit} {spell : α → List Field}
    (h : ∀ a, WritesFields (encode a) (spell a)) (values : List α) :
    WritesFields (values.forM encode) (values.flatMap spell) :=
  (Writes.forM h values).congr (by simp only [List.mem_flatMap]; grind) fun _ => by
    rw [List.flatMap_assoc]

end WritesFields

/-! ## The fields of a result -/

def attributesFields (attributes : FileAttributes) : List Field :=
  [.word (encodeFileType attributes.fileType), .word attributes.mode, .word attributes.links,
    .word attributes.uid, .word attributes.gid, .hyper attributes.size, .hyper attributes.used,
    .word (encodedDevice attributes).major, .word (encodedDevice attributes).minor,
    .hyper attributes.fsId, .hyper attributes.fileId, .time attributes.accessTime,
    .time attributes.modifyTime, .time attributes.changeTime]

def postAttributesFields (attributes : Option FileAttributes) : List Field :=
  Field.optional attributesFields attributes

def wccFields (wcc : WccData) : List Field :=
  Field.optional (fun attributes => [.hyper attributes.size, .time attributes.modifyTime,
    .time attributes.changeTime]) wcc.before ++ postAttributesFields wcc.after

def extensionFields : ReadDirEntryExtension → List Field
  | .basic => []
  | .plus attributes handle =>
    postAttributesFields attributes ++ Field.optional (fun handle => [.payload handle]) handle

def readdirEntryFields (entry : ReadDirEntry) : List Field :=
  .flag true :: .hyper entry.fileId :: .payload entry.name :: .hyper entry.cookie ::
    extensionFields entry.extension

/-- The encoders write the fields that are listed for them. -/
theorem encodeAttributes_writes (attributes : FileAttributes) :
    WritesFields (encodeAttributes attributes) (attributesFields attributes) :=
  (WritesFields.word _).seq <| (WritesFields.word _).seq <| (WritesFields.word _).seq <|
    (WritesFields.word _).seq <| (WritesFields.word _).seq <| (WritesFields.hyper _).seq <|
    (WritesFields.hyper _).seq <| (WritesFields.word _).seq <| (WritesFields.word _).seq <|
    (WritesFields.hyper _).seq <| (WritesFields.hyper _).seq <| (WritesFields.time _).seq <|
    (WritesFields.time _).seq <| WritesFields.time _

theorem encodePostAttributes_writes (attributes : Option FileAttributes) :
    WritesFields (encodePostAttributes attributes) (postAttributesFields attributes) :=
  WritesFields.optional encodeAttributes_writes attributes

theorem encodeWcc_writes (wcc : WccData) : WritesFields (encodeWcc wcc) (wccFields wcc) :=
  (WritesFields.optional (fun _ => (WritesFields.hyper _).seq <| (WritesFields.time _).seq <|
    WritesFields.time _) wcc.before).seq (encodePostAttributes_writes wcc.after)

theorem encodeReaddirEntry_writes (entry : ReadDirEntry) :
    WritesFields (encodeReaddirEntry entry) (readdirEntryFields entry) := by
  obtain ⟨fileId, name, cookie, extension⟩ := entry
  refine (WritesFields.flag true).seq <| (WritesFields.hyper _).seq <| (WritesFields.payload _).seq <|
    (WritesFields.hyper _).seq ?_
  cases extension with
  | basic => exact WritesFields.nil
  | plus attributes handle =>
    exact (encodePostAttributes_writes attributes).seq (WritesFields.optional WritesFields.payload handle)

def GetAttrResult.fields : GetAttrResult → List Field
  | .ok attributes =>
    .word NfsStatus.ok.code :: attributesFields attributes
  | .err status => .word status.code :: []

def SetAttrResult.fields : SetAttrResult → List Field
  | .ok objectWcc =>
    .word NfsStatus.ok.code :: wccFields objectWcc
  | .err status objectWcc => .word status.code :: wccFields objectWcc

def LookupResult.fields : LookupResult → List Field
  | .ok objectHandle objectAttributes directoryAttributes =>
    .word NfsStatus.ok.code :: .payload objectHandle :: (postAttributesFields objectAttributes ++
      postAttributesFields directoryAttributes)
  | .err status directoryAttributes => .word status.code :: postAttributesFields directoryAttributes

def AccessResult.fields : AccessResult → List Field
  | .ok attributes access =>
    .word NfsStatus.ok.code :: (postAttributesFields attributes ++ [.word access])
  | .err status attributes => .word status.code :: postAttributesFields attributes

def ReadLinkResult.fields : ReadLinkResult → List Field
  | .ok attributes path =>
    .word NfsStatus.ok.code :: (postAttributesFields attributes ++ [.payload path])
  | .err status attributes => .word status.code :: postAttributesFields attributes

def ReadResult.fields : ReadResult → List Field
  | .ok attributes data eof =>
    .word NfsStatus.ok.code :: (postAttributesFields attributes ++
      [.word (UInt32.ofNat data.length), .flag eof, .payload data])
  | .err status attributes => .word status.code :: postAttributesFields attributes

def WriteResult.fields : WriteResult → List Field
  | .ok fileWcc count committed verifier =>
    .word NfsStatus.ok.code :: (wccFields fileWcc ++
      [.word count, .word (encodeStability committed), .verifier verifier])
  | .err status fileWcc => .word status.code :: wccFields fileWcc

def CreateResult.fields : CreateResult → List Field
  | .ok objectHandle objectAttributes directoryWcc =>
    .word NfsStatus.ok.code :: (Field.optional (fun handle => [.payload handle]) objectHandle ++
      (postAttributesFields objectAttributes ++ wccFields directoryWcc))
  | .err status directoryWcc => .word status.code :: wccFields directoryWcc

def WccResult.fields : WccResult → List Field
  | .ok objectWcc =>
    .word NfsStatus.ok.code :: wccFields objectWcc
  | .err status objectWcc => .word status.code :: wccFields objectWcc

def RenameResult.fields : RenameResult → List Field
  | .ok fromDirectoryWcc toDirectoryWcc =>
    .word NfsStatus.ok.code :: (wccFields fromDirectoryWcc ++ wccFields toDirectoryWcc)
  | .err status fromDirectoryWcc toDirectoryWcc => .word status.code :: (wccFields fromDirectoryWcc ++ wccFields toDirectoryWcc)

def LinkResult.fields : LinkResult → List Field
  | .ok objectAttributes directoryWcc =>
    .word NfsStatus.ok.code :: (postAttributesFields objectAttributes ++ wccFields directoryWcc)
  | .err status objectAttributes directoryWcc => .word status.code :: (postAttributesFields objectAttributes ++ wccFields directoryWcc)

def ReadDirResult.fields : ReadDirResult → List Field
  | .ok directoryAttributes verifier entries eof =>
    .word NfsStatus.ok.code :: (postAttributesFields directoryAttributes ++ (.verifier verifier ::
      (entries.flatMap readdirEntryFields ++ [.flag false, .flag eof])))
  | .err status directoryAttributes => .word status.code :: postAttributesFields directoryAttributes

def FsStatResult.fields : FsStatResult → List Field
  | .ok attributes info =>
    .word NfsStatus.ok.code :: (postAttributesFields attributes ++ [.hyper info.totalBytes,
      .hyper info.freeBytes, .hyper info.availableBytes, .hyper info.totalFiles, .hyper info.freeFiles,
      .hyper info.availableFiles, .word info.invariantSeconds])
  | .err status attributes => .word status.code :: postAttributesFields attributes

def FsInfoResult.fields : FsInfoResult → List Field
  | .ok attributes info properties =>
    .word NfsStatus.ok.code :: (postAttributesFields attributes ++ [.word info.maxRead,
      .word info.preferredRead, .word info.readMultiple, .word info.maxWrite, .word info.preferredWrite,
      .word info.writeMultiple, .word info.preferredReaddir, .hyper info.maxFileSize,
      .time info.timeGranularity, .word properties])
  | .err status attributes => .word status.code :: postAttributesFields attributes

def PathConfResult.fields : PathConfResult → List Field
  | .ok attributes info =>
    .word NfsStatus.ok.code :: (postAttributesFields attributes ++ [.word info.maxLinks,
      .word info.maxNameLength, .flag info.noTruncation, .flag info.chownRestricted,
      .flag info.caseInsensitive, .flag info.casePreserving])
  | .err status attributes => .word status.code :: postAttributesFields attributes

def CommitResult.fields : CommitResult → List Field
  | .ok fileWcc verifier =>
    .word NfsStatus.ok.code :: (wccFields fileWcc ++ [.verifier verifier])
  | .err status fileWcc => .word status.code :: wccFields fileWcc

/-! ## The encoders write them -/

/-- A result whose status word is followed by more. -/
theorem WritesFields.afterStatus (status : NfsStatus) {m : EncodeM Unit} {fields : List Field}
    (h : WritesFields m fields) :
    WritesFields (writeU32 status.code >>= fun _ => m) (.word status.code :: fields) :=
  (WritesFields.word _).seq h

theorem GetAttrResult.encodeResult_writes : ∀ result : GetAttrResult, WritesFields (encodeResult result) result.fields
  | .ok _ => .afterStatus _ <| encodeAttributes_writes _
  | .err _ => WritesFields.word _

theorem SetAttrResult.encodeResult_writes : ∀ result : SetAttrResult, WritesFields (encodeResult result) result.fields
  | .ok _ => .afterStatus _ <| encodeWcc_writes _
  | .err _ _ => .afterStatus _ <| encodeWcc_writes _

theorem LookupResult.encodeResult_writes : ∀ result : LookupResult, WritesFields (encodeResult result) result.fields
  | .ok _ _ _ => .afterStatus _ <| (WritesFields.payload _).seq <|
    (encodePostAttributes_writes _).seq <| encodePostAttributes_writes _
  | .err _ _ => .afterStatus _ <| encodePostAttributes_writes _

theorem AccessResult.encodeResult_writes : ∀ result : AccessResult, WritesFields (encodeResult result) result.fields
  | .ok _ _ => .afterStatus _ <| (encodePostAttributes_writes _).seq <|
    WritesFields.word _
  | .err _ _ => .afterStatus _ <| encodePostAttributes_writes _

theorem ReadLinkResult.encodeResult_writes : ∀ result : ReadLinkResult, WritesFields (encodeResult result) result.fields
  | .ok _ _ => .afterStatus _ <| (encodePostAttributes_writes _).seq <|
    WritesFields.payload _
  | .err _ _ => .afterStatus _ <| encodePostAttributes_writes _

/-- The count word of a `READ` result is checked before the data is. Both checks ask the same. -/
theorem encodeReadData_writes (data : Bytes) (eof : Bool) :
    WritesFields (do
        if data.length ≥ 2 ^ 32 then throw (.tooLarge data.length)
        writeU32 (UInt32.ofNat data.length)
        writeBool eof
        writeOpaque data)
      [.word (UInt32.ofNat data.length), .flag eof, .payload data] := by
  by_cases h : data.length ≥ 2 ^ 32
  · simp only [if_pos h]
    refine (Writes.throw _ []).congr ⟨False.elim, fun hall => ?_⟩ False.elim
    have hdata : data.length < 2 ^ 32 := hall (.payload data) (by simp)
    omega
  · simp only [if_neg h]
    exact (WritesFields.word _).seq <| (WritesFields.flag _).seq <| WritesFields.payload _

theorem ReadResult.encodeResult_writes : ∀ result : ReadResult, WritesFields (encodeResult result) result.fields
  | .ok _ _ _ => .afterStatus _ <| (encodePostAttributes_writes _).seq <|
    encodeReadData_writes _ _
  | .err _ _ => .afterStatus _ <| encodePostAttributes_writes _

theorem WriteResult.encodeResult_writes : ∀ result : WriteResult, WritesFields (encodeResult result) result.fields
  | .ok _ _ _ _ => .afterStatus _ <| (encodeWcc_writes _).seq <|
    (WritesFields.word _).seq <| (WritesFields.word _).seq <| WritesFields.verifier _
  | .err _ _ => .afterStatus _ <| encodeWcc_writes _

theorem CreateResult.encodeResult_writes : ∀ result : CreateResult, WritesFields (encodeResult result) result.fields
  | .ok _ _ _ => .afterStatus _ <| (WritesFields.optional WritesFields.payload _).seq <|
    (encodePostAttributes_writes _).seq <| encodeWcc_writes _
  | .err _ _ => .afterStatus _ <| encodeWcc_writes _

theorem WccResult.encodeResult_writes : ∀ result : WccResult, WritesFields (encodeResult result) result.fields
  | .ok _ => .afterStatus _ <| encodeWcc_writes _
  | .err _ _ => .afterStatus _ <| encodeWcc_writes _

theorem RenameResult.encodeResult_writes : ∀ result : RenameResult, WritesFields (encodeResult result) result.fields
  | .ok _ _ => .afterStatus _ <| (encodeWcc_writes _).seq <|
    encodeWcc_writes _
  | .err _ _ _ => .afterStatus _ <| (encodeWcc_writes _).seq <|
    encodeWcc_writes _

theorem LinkResult.encodeResult_writes : ∀ result : LinkResult, WritesFields (encodeResult result) result.fields
  | .ok _ _ => .afterStatus _ <| (encodePostAttributes_writes _).seq <|
    encodeWcc_writes _
  | .err _ _ _ => .afterStatus _ <| (encodePostAttributes_writes _).seq <|
    encodeWcc_writes _

theorem ReadDirResult.encodeResult_writes : ∀ result : ReadDirResult, WritesFields (encodeResult result) result.fields
  | .ok _ _ _ _ => .afterStatus _ <| (encodePostAttributes_writes _).seq <|
    (WritesFields.verifier _).seq <| (WritesFields.forM encodeReaddirEntry_writes _).seq <|
    (WritesFields.flag _).seq <| WritesFields.flag _
  | .err _ _ => .afterStatus _ <| encodePostAttributes_writes _

theorem FsStatResult.encodeResult_writes : ∀ result : FsStatResult, WritesFields (encodeResult result) result.fields
  | .ok _ _ => .afterStatus _ <| (encodePostAttributes_writes _).seq <|
    (WritesFields.hyper _).seq <| (WritesFields.hyper _).seq <| (WritesFields.hyper _).seq <|
    (WritesFields.hyper _).seq <| (WritesFields.hyper _).seq <| (WritesFields.hyper _).seq <|
    WritesFields.word _
  | .err _ _ => .afterStatus _ <| encodePostAttributes_writes _

theorem FsInfoResult.encodeResult_writes : ∀ result : FsInfoResult, WritesFields (encodeResult result) result.fields
  | .ok _ _ _ => .afterStatus _ <| (encodePostAttributes_writes _).seq <|
    (WritesFields.word _).seq <| (WritesFields.word _).seq <| (WritesFields.word _).seq <|
    (WritesFields.word _).seq <| (WritesFields.word _).seq <| (WritesFields.word _).seq <|
    (WritesFields.word _).seq <| (WritesFields.hyper _).seq <| (WritesFields.time _).seq <|
    WritesFields.word _
  | .err _ _ => .afterStatus _ <| encodePostAttributes_writes _

theorem PathConfResult.encodeResult_writes : ∀ result : PathConfResult, WritesFields (encodeResult result) result.fields
  | .ok _ _ => .afterStatus _ <| (encodePostAttributes_writes _).seq <|
    (WritesFields.word _).seq <| (WritesFields.word _).seq <| (WritesFields.flag _).seq <|
    (WritesFields.flag _).seq <| (WritesFields.flag _).seq <| WritesFields.flag _
  | .err _ _ => .afterStatus _ <| encodePostAttributes_writes _

theorem CommitResult.encodeResult_writes : ∀ result : CommitResult, WritesFields (encodeResult result) result.fields
  | .ok _ _ => .afterStatus _ <| (encodeWcc_writes _).seq <|
    WritesFields.verifier _
  | .err _ _ => .afterStatus _ <| encodeWcc_writes _

/-! ## Every result -/

/-- The encoder of a result only appends. -/
class LawfulResult (ρ : Type) [EncodeNfsResult ρ] : Prop where
  encodeResult_writes (result : ρ) : ∃ fields, WritesFields (encodeResult result) fields

instance : LawfulResult GetAttrResult := ⟨fun result => ⟨_, result.encodeResult_writes⟩⟩

instance : LawfulResult SetAttrResult := ⟨fun result => ⟨_, result.encodeResult_writes⟩⟩

instance : LawfulResult LookupResult := ⟨fun result => ⟨_, result.encodeResult_writes⟩⟩

instance : LawfulResult AccessResult := ⟨fun result => ⟨_, result.encodeResult_writes⟩⟩

instance : LawfulResult ReadLinkResult := ⟨fun result => ⟨_, result.encodeResult_writes⟩⟩

instance : LawfulResult ReadResult := ⟨fun result => ⟨_, result.encodeResult_writes⟩⟩

instance : LawfulResult WriteResult := ⟨fun result => ⟨_, result.encodeResult_writes⟩⟩

instance : LawfulResult CreateResult := ⟨fun result => ⟨_, result.encodeResult_writes⟩⟩

instance : LawfulResult WccResult := ⟨fun result => ⟨_, result.encodeResult_writes⟩⟩

instance : LawfulResult RenameResult := ⟨fun result => ⟨_, result.encodeResult_writes⟩⟩

instance : LawfulResult LinkResult := ⟨fun result => ⟨_, result.encodeResult_writes⟩⟩

instance : LawfulResult ReadDirResult := ⟨fun result => ⟨_, result.encodeResult_writes⟩⟩

instance : LawfulResult FsStatResult := ⟨fun result => ⟨_, result.encodeResult_writes⟩⟩

instance : LawfulResult FsInfoResult := ⟨fun result => ⟨_, result.encodeResult_writes⟩⟩

instance : LawfulResult PathConfResult := ⟨fun result => ⟨_, result.encodeResult_writes⟩⟩

instance : LawfulResult CommitResult := ⟨fun result => ⟨_, result.encodeResult_writes⟩⟩

end NfsEmbed.Nfs3
