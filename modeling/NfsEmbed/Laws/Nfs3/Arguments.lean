import NfsEmbed.Laws.Nfs3.Fields

/-!
# Argument parsing accepts exactly the canonical encodings

`NfsArguments.bytes` spells the arguments of every procedure. The server's decoder reads exactly that
format, arm by arm, and the client's encoder writes it, so the two are inverse to each other on
arguments within the limits.

The laws are `decode_accepts_exactly_canonical` and `write_decoders_agree`.
-/

namespace NfsEmbed.Nfs3

open Lib Rpc Vfs

variable {w input : Bytes} {maxVariableSize : Nat} {arguments : NfsArguments} {attributes : SetAttributes}

/-! ## The bytes of arguments -/

def DirectoryOperationArgs.bytes (arguments : DirectoryOperationArgs) : Bytes :=
  opaqueBytes arguments.directory ++ opaqueBytes arguments.name

def createModeTag : CreateMode → UInt32
  | .unchecked => 0
  | .guarded => 1
  | .exclusive _ => 2

def createModeBody : CreateMode → Bytes
  | .exclusive verifier => verifier.bytes
  | _ => []

/-- An exclusive creation has no attributes to write. -/
def createAttributesBytes (mode : CreateMode) (attributes : SetAttributes) : Bytes :=
  if CreateMode.isExclusive mode then [] else setAttributesBytes attributes

def nodeTypeTag : NodeType → UInt32
  | .blockDevice _ _ => 3
  | .characterDevice _ _ => 4
  | .socket => 6
  | .fifo => 7

def nodeTypeBody : NodeType → Bytes
  | .blockDevice major minor | .characterDevice major minor => major.toBeBytes ++ minor.toBeBytes
  | _ => []

namespace NfsArguments

def bytes : NfsArguments → Bytes
  | null => []
  | getAttr arguments | readLink arguments | fsStat arguments | fsInfo arguments
  | pathConf arguments => opaqueBytes arguments.object
  | setAttr arguments =>
    opaqueBytes arguments.object ++ (setAttributesBytes arguments.attributes ++
      optionalBytes timeBytes arguments.guard)
  | lookup arguments | remove arguments | rmdir arguments => arguments.bytes
  | access arguments => opaqueBytes arguments.object ++ arguments.requested.toBeBytes
  | read ⟨object, offset, count⟩ | commit ⟨object, offset, count⟩ =>
    opaqueBytes object ++ (offset.toBeBytes ++ count.toBeBytes)
  | write arguments =>
    opaqueBytes arguments.object ++ (arguments.offset.toBeBytes ++ (arguments.count.toBeBytes ++
      ((encodeStability arguments.requested).toBeBytes ++ opaqueBytes arguments.data)))
  | create arguments =>
    arguments.target.bytes ++ ((createModeTag arguments.mode).toBeBytes ++
      (createModeBody arguments.mode ++ createAttributesBytes arguments.mode arguments.attributes))
  | mkdir arguments => arguments.target.bytes ++ setAttributesBytes arguments.attributes
  | symlink arguments =>
    arguments.target.bytes ++ (setAttributesBytes arguments.attributes ++ opaqueBytes arguments.path)
  | mknod arguments =>
    arguments.target.bytes ++ ((nodeTypeTag arguments.nodeType).toBeBytes ++
      (setAttributesBytes arguments.attributes ++ nodeTypeBody arguments.nodeType))
  | rename arguments => arguments.fromArgs.bytes ++ arguments.toArgs.bytes
  | link arguments => opaqueBytes arguments.object ++ arguments.target.bytes
  | readDir arguments =>
    opaqueBytes arguments.directory ++ (arguments.cookie.toBeBytes ++ (arguments.verifier.bytes ++
      arguments.count.toBeBytes))
  | readDirPlus arguments =>
    opaqueBytes arguments.directory ++ (arguments.cookie.toBeBytes ++ (arguments.verifier.bytes ++
      (arguments.directoryCount.toBeBytes ++ arguments.maxCount.toBeBytes)))

/-- The length word of the variable-size field can express its length. All other opaque fields have
limits far below that. -/
def PayloadFits : NfsArguments → Prop
  | write arguments => arguments.data.length < 2 ^ 32
  | symlink arguments => arguments.path.length < 2 ^ 32
  | _ => True

/-- The arguments are within the limits and `w` spells them. -/
def Spelled (maxVariableSize : Nat) (arguments : NfsArguments) (w : Bytes) : Prop :=
  arguments.WithinLimits maxVariableSize ∧ arguments.PayloadFits ∧ w = arguments.bytes

end NfsArguments

/-! ## Decoding -/

theorem decodeHandle_reads :
    Reads usizeBound decodeHandle (fun handle w => HandleFits handle ∧ w = opaqueBytes handle) :=
  Decoder.readOpaque_reads_of_lt "NFS file handle" (by decide)

theorem decodeObjectArgs_reads : Reads usizeBound decodeObjectArgs
    (fun arguments w => HandleFits arguments.object ∧ True ∧ w = opaqueBytes arguments.object) := by
  refine (decodeHandle_reads.bind fun object => Reads.pure (ObjectArgs.mk object)).congr fun arguments w => ?_
  cases arguments
  simp [Format.bind, Format.pure]

theorem decodeDirectoryOperation_reads : Reads usizeBound decodeDirectoryOperation
    (fun arguments w => arguments.Fits ∧ True ∧ w = arguments.bytes) := by
  refine (decodeHandle_reads.bind fun directory =>
    (Decoder.readOpaque_reads_of_lt "NFS filename" (by decide : 1024 < 2 ^ 32)).bind fun name =>
    Reads.pure (DirectoryOperationArgs.mk directory name)).congr fun arguments w => ?_
  cases arguments
  simp [Format.bind, Format.pure, DirectoryOperationArgs.Fits, DirectoryOperationArgs.bytes, and_assoc]

theorem decodeCreateMode_reads : Reads usizeBound decodeCreateMode
    (fun mode w => w = (createModeTag mode).toBeBytes ++ createModeBody mode) := by
  refine (Decoder.readU32_reads.tagged createModeTag (fun _ => True) createModeBody fun value => ?_).congr fun _ _ => by simp only [true_and]
  split
  case h_1 | h_2 =>
    refine (Reads.pure _).congr fun mode w => ?_
    cases mode <;> simp [Format.pure, createModeTag, createModeBody]
  case h_3 =>
    refine ((Decoder.readFixed_reads 8).bind fun verifier =>
      Reads.pure (CreateMode.exclusive verifier)).congr fun mode w => ?_
    cases mode <;> simp [Format.bind, Format.pure, createModeTag, createModeBody]
  case h_4 =>
    refine (Reads.throw _).congr fun mode w => ?_
    cases mode <;> simp_all [createModeTag]

/-- The data of a node is read after the tag of its type. -/
theorem decodeNodeType_reads (kind : UInt32) : Reads usizeBound (decodeNodeType kind)
    (fun nodeType w => kind = nodeTypeTag nodeType ∧ w = nodeTypeBody nodeType) := by
  unfold decodeNodeType
  split
  case h_1 =>
    refine (Decoder.readU32_reads.bind fun major => Decoder.readU32_reads.bind fun minor =>
      Reads.pure (NodeType.blockDevice major minor)).congr fun nodeType w => ?_
    cases nodeType <;> simp [Format.bind, Format.pure, nodeTypeTag, nodeTypeBody, and_assoc]
  case h_2 =>
    refine (Decoder.readU32_reads.bind fun major => Decoder.readU32_reads.bind fun minor =>
      Reads.pure (NodeType.characterDevice major minor)).congr fun nodeType w => ?_
    cases nodeType <;> simp [Format.bind, Format.pure, nodeTypeTag, nodeTypeBody, and_assoc]
  case h_3 | h_4 =>
    refine (Reads.pure _).congr fun nodeType w => ?_
    cases nodeType <;> simp [Format.pure, nodeTypeTag, nodeTypeBody]
  case h_5 =>
    refine (Reads.throw _).congr fun nodeType w => ?_
    cases nodeType <;> simp_all [nodeTypeTag]

/-- An exclusive creation carries no attributes. -/
theorem decodeCreateAttributes_reads (mode : CreateMode) :
    Reads usizeBound (decodeCreateAttributes mode)
      (fun attributes w => (SetAttributesValid attributes ∧
        (CreateMode.isExclusive mode = true → attributes = {})) ∧
        w = createAttributesBytes mode attributes) := by
  refine ((Reads.pure _).ite _ decodeSetAttributes_reads).congr fun attributes w => ?_
  unfold createAttributesBytes
  cases CreateMode.isExclusive mode with
  | false => simp
  | true =>
    simp only [Format.pure, true_and, not_true_eq_false, false_and, or_false, if_true, true_implies]
    exact and_congr_left' ⟨fun h => by subst h; exact ⟨⟨trivial, trivial⟩, rfl⟩, And.right⟩

/-! ### One procedure's arguments -/

section Records

attribute [local simp] Format.bind Format.pure NfsArguments.Spelled NfsArguments.WithinLimits
  NfsArguments.PayloadFits NfsArguments.bytes

theorem decodeSetAttrArgs_reads (maxVariableSize : Nat) : Reads usizeBound decodeSetAttrArgs
    (fun arguments w => (NfsArguments.setAttr arguments).Spelled maxVariableSize w) := by
  refine (decodeHandle_reads.bind fun object => decodeSetAttributes_reads.bind fun attributes =>
    (readOptional_reads decodeTime_reads).bind fun guard =>
    Reads.pure (SetAttrArgs.mk object attributes guard)).congr fun arguments w => ?_
  cases arguments
  simp [and_assoc]

theorem decodeAccessArgs_reads (maxVariableSize : Nat) : Reads usizeBound decodeAccessArgs
    (fun arguments w => (NfsArguments.access arguments).Spelled maxVariableSize w) := by
  refine (decodeHandle_reads.bind fun object => Decoder.readU32_reads.bind fun requested =>
    Reads.pure (AccessArgs.mk object requested)).congr fun arguments w => ?_
  cases arguments
  simp [and_assoc]

theorem decodeReadArgs_reads (maxVariableSize : Nat) : Reads usizeBound decodeReadArgs
    (fun arguments w => (NfsArguments.read arguments).Spelled maxVariableSize w) := by
  refine (decodeHandle_reads.bind fun object => Decoder.readU64_reads.bind fun offset =>
    Decoder.readU32_reads.bind fun count =>
    Reads.pure (ReadArgs.mk object offset count)).congr fun arguments w => ?_
  cases arguments
  simp [and_assoc]

theorem decodeWriteArgs_reads (maxVariableSize : Nat) : Reads usizeBound (decodeWriteArgs maxVariableSize)
    (fun arguments w => (NfsArguments.write arguments).Spelled maxVariableSize w) := by
  refine (decodeHandle_reads.bind fun object => Decoder.readU64_reads.bind fun offset =>
    Decoder.readU32_reads.bind fun count => decodeStability_reads.bind fun requested =>
    (Decoder.readOpaqueSlice_reads "WRITE data" maxVariableSize).bind fun data =>
    Reads.pure (WriteArgs.mk object offset count requested data)).congr fun arguments w => ?_
  cases arguments
  simp [and_assoc]

theorem decodeCreateArgs_reads (maxVariableSize : Nat) : Reads usizeBound decodeCreateArgs
    (fun arguments w => (NfsArguments.create arguments).Spelled maxVariableSize w) := by
  refine (decodeDirectoryOperation_reads.bind fun target => decodeCreateMode_reads.bind fun mode =>
    (decodeCreateAttributes_reads mode).bind fun attributes =>
    Reads.pure (CreateArgs.mk target mode attributes)).congr fun arguments w => ?_
  cases arguments
  simp [and_assoc]

theorem decodeMkdirArgs_reads (maxVariableSize : Nat) : Reads usizeBound decodeMkdirArgs
    (fun arguments w => (NfsArguments.mkdir arguments).Spelled maxVariableSize w) := by
  refine (decodeDirectoryOperation_reads.bind fun target =>
    decodeSetAttributes_reads.bind fun attributes =>
    Reads.pure (MkdirArgs.mk target attributes)).congr fun arguments w => ?_
  cases arguments
  simp [and_assoc]

theorem decodeSymlinkArgs_reads (maxVariableSize : Nat) : Reads usizeBound (decodeSymlinkArgs maxVariableSize)
    (fun arguments w => (NfsArguments.symlink arguments).Spelled maxVariableSize w) := by
  refine (decodeDirectoryOperation_reads.bind fun target =>
    decodeSetAttributes_reads.bind fun attributes =>
    (Decoder.readOpaqueSlice_reads "symlink target" maxVariableSize).bind fun path =>
    Reads.pure (SymlinkArgs.mk target attributes path)).congr fun arguments w => ?_
  cases arguments
  simp [and_assoc]

theorem decodeMknodArgs_reads (maxVariableSize : Nat) : Reads usizeBound decodeMknodArgs
    (fun arguments w => (NfsArguments.mknod arguments).Spelled maxVariableSize w) := by
  refine (decodeDirectoryOperation_reads.bind fun target => Decoder.readU32_reads.bind fun kind =>
    decodeSetAttributes_reads.bind fun attributes => (decodeNodeType_reads kind).bind fun nodeType =>
    Reads.pure (MknodArgs.mk target nodeType attributes)).congr fun arguments w => ?_
  cases arguments
  simp [and_assoc]

theorem decodeRenameArgs_reads (maxVariableSize : Nat) : Reads usizeBound decodeRenameArgs
    (fun arguments w => (NfsArguments.rename arguments).Spelled maxVariableSize w) := by
  refine (decodeDirectoryOperation_reads.bind fun fromArgs =>
    decodeDirectoryOperation_reads.bind fun toArgs =>
    Reads.pure (RenameArgs.mk fromArgs toArgs)).congr fun arguments w => ?_
  cases arguments
  simp [and_assoc]

theorem decodeLinkArgs_reads (maxVariableSize : Nat) : Reads usizeBound decodeLinkArgs
    (fun arguments w => (NfsArguments.link arguments).Spelled maxVariableSize w) := by
  refine (decodeHandle_reads.bind fun object => decodeDirectoryOperation_reads.bind fun target =>
    Reads.pure (LinkArgs.mk object target)).congr fun arguments w => ?_
  cases arguments
  simp [and_assoc]

theorem decodeReadDirArgs_reads (maxVariableSize : Nat) : Reads usizeBound decodeReadDirArgs
    (fun arguments w => (NfsArguments.readDir arguments).Spelled maxVariableSize w) := by
  refine (decodeHandle_reads.bind fun directory => Decoder.readU64_reads.bind fun cookie =>
    (Decoder.readFixed_reads 8).bind fun verifier => Decoder.readU32_reads.bind fun count =>
    Reads.pure (ReadDirArgs.mk directory cookie verifier count)).congr fun arguments w => ?_
  cases arguments
  simp [and_assoc]

theorem decodeReadDirPlusArgs_reads (maxVariableSize : Nat) : Reads usizeBound decodeReadDirPlusArgs
    (fun arguments w => (NfsArguments.readDirPlus arguments).Spelled maxVariableSize w) := by
  refine (decodeHandle_reads.bind fun directory => Decoder.readU64_reads.bind fun cookie =>
    (Decoder.readFixed_reads 8).bind fun verifier => Decoder.readU32_reads.bind fun directoryCount =>
    Decoder.readU32_reads.bind fun maxCount =>
    Reads.pure (ReadDirPlusArgs.mk directory cookie verifier directoryCount maxCount)).congr fun arguments w => ?_
  cases arguments
  simp [and_assoc]

theorem decodeCommitArgs_reads (maxVariableSize : Nat) : Reads usizeBound decodeCommitArgs
    (fun arguments w => (NfsArguments.commit arguments).Spelled maxVariableSize w) := by
  refine (decodeHandle_reads.bind fun object => Decoder.readU64_reads.bind fun offset =>
    Decoder.readU32_reads.bind fun count =>
    Reads.pure (CommitArgs.mk object offset count)).congr fun arguments w => ?_
  cases arguments
  simp [and_assoc]

end Records

/-! ### All procedures -/

section Arms

variable {α : Type} {m : DecodeM α} {C : α → NfsArguments} {procedure : UInt32} {maxVariableSize : Nat}

/-- An arm of the decoder accepts what its reader does. -/
theorem arm_exact (h : Reads usizeBound m (fun x w => (C x).Spelled maxVariableSize w))
    (hp : ∀ x, procedure = (C x).procedure) :
    ∃ G, Reads usizeBound (m >>= fun x => pure (C x)) G ∧
      ∀ a w, G a w → procedure = a.procedure ∧ a.Spelled maxVariableSize w := by
  refine ⟨_, h.map C, fun a w hG => ?_⟩
  obtain ⟨x, rfl, hx⟩ := hG
  exact ⟨hp x, hx⟩

theorem arm_accepts (h : Reads usizeBound m (fun x w => (C x).Spelled maxVariableSize w)) {x : α}
    (hx : (C x).Spelled maxVariableSize w) : ∃ G, Reads usizeBound (m >>= fun x => pure (C x)) G ∧ G (C x) w :=
  ⟨_, h.map C, x, rfl, hx⟩

end Arms

/-- What is accepted is spelled out and of the procedure that was asked for. -/
theorem decodeArguments_exact (procedure : UInt32) (maxVariableSize : Nat) :
    ∃ G, Reads usizeBound (decodeArguments procedure maxVariableSize) G ∧
      ∀ a w, G a w → procedure = a.procedure ∧ a.Spelled maxVariableSize w := by
  unfold decodeArguments
  split
  case h_1 =>
    refine ⟨_, Reads.pure NfsArguments.null, fun a w hG => ?_⟩
    obtain ⟨rfl, rfl⟩ := hG
    exact ⟨rfl, trivial, trivial, rfl⟩
  case h_2 => exact arm_exact (C := .getAttr) decodeObjectArgs_reads fun _ => rfl
  case h_3 => exact arm_exact (C := .setAttr) (decodeSetAttrArgs_reads _) fun _ => rfl
  case h_4 => exact arm_exact (C := .lookup) decodeDirectoryOperation_reads fun _ => rfl
  case h_5 => exact arm_exact (C := .access) (decodeAccessArgs_reads _) fun _ => rfl
  case h_6 => exact arm_exact (C := .readLink) decodeObjectArgs_reads fun _ => rfl
  case h_7 => exact arm_exact (C := .read) (decodeReadArgs_reads _) fun _ => rfl
  case h_8 => exact arm_exact (C := .write) (decodeWriteArgs_reads _) fun _ => rfl
  case h_9 => exact arm_exact (C := .create) (decodeCreateArgs_reads _) fun _ => rfl
  case h_10 => exact arm_exact (C := .mkdir) (decodeMkdirArgs_reads _) fun _ => rfl
  case h_11 => exact arm_exact (C := .symlink) (decodeSymlinkArgs_reads _) fun _ => rfl
  case h_12 => exact arm_exact (C := .mknod) (decodeMknodArgs_reads _) fun _ => rfl
  case h_13 => exact arm_exact (C := .remove) decodeDirectoryOperation_reads fun _ => rfl
  case h_14 => exact arm_exact (C := .rmdir) decodeDirectoryOperation_reads fun _ => rfl
  case h_15 => exact arm_exact (C := .rename) (decodeRenameArgs_reads _) fun _ => rfl
  case h_16 => exact arm_exact (C := .link) (decodeLinkArgs_reads _) fun _ => rfl
  case h_17 => exact arm_exact (C := .readDir) (decodeReadDirArgs_reads _) fun _ => rfl
  case h_18 => exact arm_exact (C := .readDirPlus) (decodeReadDirPlusArgs_reads _) fun _ => rfl
  case h_19 => exact arm_exact (C := .fsStat) decodeObjectArgs_reads fun _ => rfl
  case h_20 => exact arm_exact (C := .fsInfo) decodeObjectArgs_reads fun _ => rfl
  case h_21 => exact arm_exact (C := .pathConf) decodeObjectArgs_reads fun _ => rfl
  case h_22 => exact arm_exact (C := .commit) (decodeCommitArgs_reads _) fun _ => rfl
  case h_23 => exact ⟨_, Reads.throw _, fun _ _ hG => hG.elim⟩

/-- Whatever is spelled out is accepted. -/
theorem decodeArguments_accepts (h : arguments.Spelled maxVariableSize w) :
    ∃ G, Reads usizeBound (decodeArguments arguments.procedure maxVariableSize) G ∧ G arguments w := by
  cases arguments with
  | null => exact ⟨_, Reads.pure NfsArguments.null, rfl, h.2.2⟩
  | getAttr => exact arm_accepts (C := .getAttr) decodeObjectArgs_reads h
  | setAttr => exact arm_accepts (C := .setAttr) (decodeSetAttrArgs_reads _) h
  | lookup => exact arm_accepts (C := .lookup) decodeDirectoryOperation_reads h
  | access => exact arm_accepts (C := .access) (decodeAccessArgs_reads _) h
  | readLink => exact arm_accepts (C := .readLink) decodeObjectArgs_reads h
  | read => exact arm_accepts (C := .read) (decodeReadArgs_reads _) h
  | write => exact arm_accepts (C := .write) (decodeWriteArgs_reads _) h
  | create => exact arm_accepts (C := .create) (decodeCreateArgs_reads _) h
  | mkdir => exact arm_accepts (C := .mkdir) (decodeMkdirArgs_reads _) h
  | symlink => exact arm_accepts (C := .symlink) (decodeSymlinkArgs_reads _) h
  | mknod => exact arm_accepts (C := .mknod) (decodeMknodArgs_reads _) h
  | remove => exact arm_accepts (C := .remove) decodeDirectoryOperation_reads h
  | rmdir => exact arm_accepts (C := .rmdir) decodeDirectoryOperation_reads h
  | rename => exact arm_accepts (C := .rename) (decodeRenameArgs_reads _) h
  | link => exact arm_accepts (C := .link) (decodeLinkArgs_reads _) h
  | readDir => exact arm_accepts (C := .readDir) (decodeReadDirArgs_reads _) h
  | readDirPlus => exact arm_accepts (C := .readDirPlus) (decodeReadDirPlusArgs_reads _) h
  | fsStat => exact arm_accepts (C := .fsStat) decodeObjectArgs_reads h
  | fsInfo => exact arm_accepts (C := .fsInfo) decodeObjectArgs_reads h
  | pathConf => exact arm_accepts (C := .pathConf) decodeObjectArgs_reads h
  | commit => exact arm_accepts (C := .commit) (decodeCommitArgs_reads _) h

/-- The decoder reads the arguments of the requested procedure, and only those. -/
theorem decodeArguments_reads (procedure : UInt32) (maxVariableSize : Nat) :
    Reads usizeBound (decodeArguments procedure maxVariableSize)
      (fun arguments w => procedure = arguments.procedure ∧ arguments.Spelled maxVariableSize w) := by
  refine Reads.of_parts (decodeArguments_exact procedure maxVariableSize) fun arguments w h => ?_
  obtain ⟨rfl, hspelled⟩ := h
  exact decodeArguments_accepts hspelled

/-! ## Encoding -/

theorem writeHandle_writes {handle : FileHandle} (h : HandleFits handle) :
    Writes (Encoder.writeOpaque handle) True (opaqueBytes handle) :=
  (Encoder.writeOpaque_writes handle).congr
    ⟨fun _ => trivial, fun _ => Nat.lt_of_le_of_lt h (by decide)⟩ fun _ => rfl

theorem encodeDirectoryOperation_writes {arguments : DirectoryOperationArgs} (h : arguments.Fits) :
    Writes (encodeDirectoryOperation arguments) True arguments.bytes :=
  ((writeHandle_writes h.1).seq (Encoder.writeOpaque_writes _)).congr
    ⟨fun _ => trivial, fun _ => ⟨trivial, Nat.lt_of_le_of_lt h.2 (by decide)⟩⟩ fun _ => rfl

theorem encodeSetAttributes_writes_of_valid (h : SetAttributesValid attributes) :
    Writes (encodeSetAttributes attributes) True (setAttributesBytes attributes) :=
  (encodeSetAttributes_writes attributes).congr ⟨fun _ => trivial, fun _ => h⟩ fun _ => rfl

theorem encodeCreateHow_writes (mode : CreateMode) (h : SetAttributesValid attributes) :
    Writes (encodeCreateHow mode attributes) True
      ((createModeTag mode).toBeBytes ++ (createModeBody mode ++ createAttributesBytes mode attributes)) := by
  have hattributes := encodeSetAttributes_writes_of_valid h
  cases mode with
  | unchecked | guarded =>
    exact ((Encoder.writeU32_writes _).seq hattributes).congr (and_self_iff) fun _ => rfl
  | exclusive =>
    refine ((Encoder.writeU32_writes _).seq (Encoder.writeFixed_writes _)).congr and_self_iff fun _ => ?_
    simp [createModeTag, createModeBody, createAttributesBytes, CreateMode.isExclusive]

theorem encodeNodeData_writes (nodeType : NodeType) (h : SetAttributesValid attributes) :
    Writes (encodeNodeData nodeType attributes) True
      ((nodeTypeTag nodeType).toBeBytes ++ (setAttributesBytes attributes ++ nodeTypeBody nodeType)) := by
  have hattributes := encodeSetAttributes_writes_of_valid h
  cases nodeType with
  | blockDevice major minor | characterDevice major minor =>
    exact ((Encoder.writeU32_writes _).seq (hattributes.seq ((Encoder.writeU32_writes _).seq
      (Encoder.writeU32_writes _)))).congr (by simp) fun _ => rfl
  | socket | fifo =>
    refine ((Encoder.writeU32_writes _).seq hattributes).congr and_self_iff fun _ => ?_
    simp [nodeTypeTag, nodeTypeBody]

open Encoder in
/-- Within the limits, only a payload too long for its length word cannot be encoded. -/
theorem encode_writes (h : arguments.WithinLimits maxVariableSize) :
    Writes arguments.encode arguments.PayloadFits arguments.bytes := by
  cases arguments with
  | null => exact Writes.pure
  | getAttr | readLink | fsStat | fsInfo | pathConf => exact writeHandle_writes h
  | setAttr =>
    obtain ⟨hobject, hattributes, hguard⟩ := h
    exact ((writeHandle_writes hobject).seq ((encodeSetAttributes_writes_of_valid hattributes).seq
      (writeOptional_writes encodeTime_writes _))).congr
        ⟨fun _ => trivial, fun _ => ⟨trivial, trivial, hguard⟩⟩ fun _ => rfl
  | lookup | remove | rmdir => exact encodeDirectoryOperation_writes h
  | access =>
    exact ((writeHandle_writes h).seq (writeU32_writes _)).congr (by simp [NfsArguments.PayloadFits]) fun _ => rfl
  | read | commit =>
    exact ((writeHandle_writes h).seq ((writeU64_writes _).seq (writeU32_writes _))).congr
      (by simp [NfsArguments.PayloadFits]) fun _ => rfl
  | write =>
    exact ((writeHandle_writes h.1).seq ((writeU64_writes _).seq ((writeU32_writes _).seq
      ((writeU32_writes _).seq (writeOpaque_writes _))))).congr (by simp [NfsArguments.PayloadFits]) fun _ => rfl
  | create =>
    exact ((encodeDirectoryOperation_writes h.1).seq (encodeCreateHow_writes _ h.2.1)).congr
      (by simp [NfsArguments.PayloadFits]) fun _ => rfl
  | mkdir =>
    exact ((encodeDirectoryOperation_writes h.1).seq (encodeSetAttributes_writes_of_valid h.2)).congr
      (by simp [NfsArguments.PayloadFits]) fun _ => rfl
  | symlink =>
    exact ((encodeDirectoryOperation_writes h.1).seq ((encodeSetAttributes_writes_of_valid h.2.1).seq
      (writeOpaque_writes _))).congr (by simp [NfsArguments.PayloadFits]) fun _ => rfl
  | mknod =>
    exact ((encodeDirectoryOperation_writes h.1).seq (encodeNodeData_writes _ h.2)).congr
      (by simp [NfsArguments.PayloadFits]) fun _ => rfl
  | rename =>
    exact ((encodeDirectoryOperation_writes h.1).seq (encodeDirectoryOperation_writes h.2)).congr
      (by simp [NfsArguments.PayloadFits]) fun _ => rfl
  | link =>
    exact ((writeHandle_writes h.1).seq (encodeDirectoryOperation_writes h.2)).congr
      (by simp [NfsArguments.PayloadFits]) fun _ => rfl
  | readDir =>
    exact ((writeHandle_writes h).seq ((writeU64_writes _).seq ((writeFixed_writes _).seq
      (writeU32_writes _)))).congr (by simp [NfsArguments.PayloadFits]) fun _ => rfl
  | readDirPlus =>
    exact ((writeHandle_writes h).seq ((writeU64_writes _).seq ((writeFixed_writes _).seq
      ((writeU32_writes _).seq (writeU32_writes _))))).congr (by simp [NfsArguments.PayloadFits]) fun _ => rfl

/-! ## Parsing against the canonical encodings -/

theorem length_createHow_le (mode : CreateMode) (attributes : SetAttributes) :
    (createModeBody mode ++ createAttributesBytes mode attributes).length ≤ 60 := by
  have := length_setAttributesBytes_le attributes
  cases mode with
  | exclusive verifier =>
    simp [createModeBody, createAttributesBytes, CreateMode.isExclusive, verifier.length_eq]
  | _ => simpa [createModeBody, createAttributesBytes, CreateMode.isExclusive] using this

theorem length_nodeTypeBody_le (nodeType : NodeType) : (nodeTypeBody nodeType).length ≤ 8 := by
  cases nodeType <;> simp [nodeTypeBody]

theorem DirectoryOperationArgs.length_bytes_le {arguments : DirectoryOperationArgs}
    (h : arguments.Fits) : arguments.bytes.length ≤ 1102 := by
  have hdirectory := length_opaqueBytes_le arguments.directory
  have hname := length_opaqueBytes_le arguments.name
  have hfits : arguments.directory.length ≤ 64 ∧ arguments.name.length ≤ 1024 := h
  simp only [DirectoryOperationArgs.bytes, List.length_append]
  omega

/-- Arguments within the limits are far shorter than the address space. -/
theorem NfsArguments.Spelled.length_lt (h : arguments.Spelled maxVariableSize w) : w.length < usizeBound := by
  obtain ⟨hlimits, hpayload, rfl⟩ := h
  have hhandle : ∀ handle, HandleFits handle → (opaqueBytes handle).length ≤ 71 := fun handle hfits =>
    Nat.le_trans (length_opaqueBytes_le handle) (Nat.add_le_add_right hfits 7)
  have hbound : (2 : Nat) ^ 33 ≤ usizeBound := by decide
  refine Nat.lt_of_lt_of_le ?_ hbound
  cases arguments with
  | null => simp [NfsArguments.bytes]
  | getAttr | readLink | fsStat | fsInfo | pathConf =>
    have := hhandle _ hlimits
    simp only [NfsArguments.bytes]
    omega
  | lookup | remove | rmdir =>
    have := DirectoryOperationArgs.length_bytes_le hlimits
    simp only [NfsArguments.bytes]
    omega
  | access | read | commit =>
    have := hhandle _ hlimits
    simp only [NfsArguments.bytes, List.length_append, UInt32.length_toBeBytes, UInt64.length_toBeBytes]
    omega
  | readDir arguments | readDirPlus arguments =>
    have := hhandle _ hlimits
    simp only [NfsArguments.bytes, List.length_append, UInt32.length_toBeBytes, UInt64.length_toBeBytes,
      arguments.verifier.length_eq]
    omega
  | setAttr arguments =>
    have := hhandle _ hlimits.1
    have := length_setAttributesBytes_le arguments.attributes
    have := length_optionalTime_le arguments.guard
    simp only [NfsArguments.bytes, List.length_append]
    omega
  | write arguments =>
    have := hhandle _ hlimits.1
    have := length_opaqueBytes_le arguments.data
    have : arguments.data.length < 2 ^ 32 := hpayload
    simp only [NfsArguments.bytes, List.length_append, UInt32.length_toBeBytes, UInt64.length_toBeBytes]
    omega
  | create arguments =>
    have := DirectoryOperationArgs.length_bytes_le hlimits.1
    have := length_createHow_le arguments.mode arguments.attributes
    rw [NfsArguments.bytes, List.length_append, List.length_append, UInt32.length_toBeBytes]
    omega
  | mkdir arguments =>
    have := DirectoryOperationArgs.length_bytes_le hlimits.1
    have := length_setAttributesBytes_le arguments.attributes
    simp only [NfsArguments.bytes, List.length_append]
    omega
  | symlink arguments =>
    have := DirectoryOperationArgs.length_bytes_le hlimits.1
    have := length_setAttributesBytes_le arguments.attributes
    have := length_opaqueBytes_le arguments.path
    have : arguments.path.length < 2 ^ 32 := hpayload
    simp only [NfsArguments.bytes, List.length_append]
    omega
  | mknod arguments =>
    have := DirectoryOperationArgs.length_bytes_le hlimits.1
    have := length_setAttributesBytes_le arguments.attributes
    have := length_nodeTypeBody_le arguments.nodeType
    simp only [NfsArguments.bytes, List.length_append, UInt32.length_toBeBytes]
    omega
  | rename =>
    have := DirectoryOperationArgs.length_bytes_le hlimits.1
    have := DirectoryOperationArgs.length_bytes_le hlimits.2
    simp only [NfsArguments.bytes, List.length_append]
    omega
  | link =>
    have := hhandle _ hlimits.1
    have := DirectoryOperationArgs.length_bytes_le hlimits.2
    simp only [NfsArguments.bytes, List.length_append]
    omega

/-- Whole inputs are accepted exactly when they spell arguments of the procedure. -/
theorem decode_ok_iff_spelled {procedure : UInt32} :
    NfsArguments.decode procedure input maxVariableSize = .ok arguments ↔
      procedure = arguments.procedure ∧ arguments.Spelled maxVariableSize input := by
  have hreads := decodeArguments_reads procedure maxVariableSize
  constructor
  · exact Decoder.format_of_run_finish hreads
  · exact fun h => (Decoder.run_finish_ok_iff hreads h.2.length_lt).mpr h

/-- Spelling arguments within the limits is what the client's encoder does. -/
theorem spelled_iff_encode : arguments.Spelled maxVariableSize w ↔
      Encoder.run arguments.encode = .ok w ∧ arguments.WithinLimits maxVariableSize := by
  constructor
  · intro h
    exact ⟨(Encoder.run_ok_iff (encode_writes h.1)).mpr h.2, h.1⟩
  · intro h
    exact ⟨h.2, (Encoder.run_ok_iff (encode_writes h.2)).mp h.1⟩

/-- Argument parsing accepts exactly the canonical encodings of arguments within the limits. So it
undoes the encoding, no two inputs decode to the same arguments, and no input that is accepted can
be cut short or extended to another one that is. -/
theorem decode_accepts_exactly_canonical (procedure : UInt32) (maxVariableSize : Nat) :
    (∀ input arguments, NfsArguments.decode procedure input maxVariableSize = .ok arguments ↔
      arguments.procedure = procedure ∧ Encoder.run arguments.encode = .ok input ∧
        arguments.WithinLimits maxVariableSize) ∧
    (∀ input input' arguments,
      NfsArguments.decode procedure input maxVariableSize = .ok arguments →
      NfsArguments.decode procedure input' maxVariableSize = .ok arguments → input = input') ∧
    (∀ input extra arguments arguments',
      NfsArguments.decode procedure input maxVariableSize = .ok arguments →
      NfsArguments.decode procedure (input ++ extra) maxVariableSize = .ok arguments' → extra = []) := by
  refine ⟨fun input arguments => ?_, fun input input' arguments h h' => ?_,
    fun input extra arguments arguments' h h' => ?_⟩
  · rw [decode_ok_iff_spelled, spelled_iff_encode, eq_comm]
  · rw [decode_ok_iff_spelled] at h h'
    exact h.2.2.2.trans h'.2.2.2.symm
  · rw [decode_ok_iff_spelled] at h h'
    have hsame := (decodeArguments_reads procedure maxVariableSize).unique h h'
      (List.append_nil (input ++ extra)).symm h'.2.length_lt
    exact List.append_right_eq_self.mp hsame.2.symm

/-! ## The zero-copy decoder of `WRITE` -/

/-- The arguments as they are when the data has been read, with its range. -/
def WriteArgs.parts (arguments : WriteArgs) (dataStart : Nat) : WriteRequest.Parts where
  object := arguments.object
  offset := arguments.offset
  count := arguments.count
  requested := arguments.requested
  dataStart := dataStart
  dataEnd := dataStart + arguments.data.length

/-- The range ends at the padding, which ends at the end of the input. -/
theorem decodeParts_eq (input : Bytes) (maxVariableSize : Nat) :
    WriteRequest.decodeParts input maxVariableSize =
      (Decoder.run (do let arguments ← decodeWriteArgs maxVariableSize; Decoder.finish; return arguments) input).map
        fun arguments => arguments.parts (input.length - (arguments.data.length + padding arguments.data.length)) := by
  rw [Decoder.map_run]
  unfold WriteRequest.decodeParts Decoder.run
  congr 1
  simp only [decodeWriteArgs, map_bind, map_pure, bind_assoc, pure_bind]
  refine ReadM.bind_congr fun object c₁ h₁ => ReadM.bind_congr fun offset c₂ h₂ =>
    ReadM.bind_congr fun count c₃ h₃ => ReadM.bind_congr fun requested c₄ h₄ => ?_
  have hinput : c₄.input = input := by
    rw [decodeStability_reads.input_eq h₄, Decoder.readU32_reads.input_eq h₃,
      Decoder.readU64_reads.input_eq h₂, decodeHandle_reads.input_eq h₁]
    rfl
  rw [ReadM.bind_apply, ReadM.get_apply]
  refine ReadM.bind_congr fun data c₅ h₅ => ReadM.bind_congr fun _ c₆ h₆ => ?_
  obtain ⟨w, ⟨_, _, rfl⟩, hrest, rfl⟩ := (Decoder.readOpaqueSlice_reads _ _).exact h₅
  have hlt := Decoder.readOpaqueSlice_position_lt h₅
  have hend : c₄.position + (4 + (data.length + padding data.length)) = input.length := by
    rw [Decoder.finish_run] at h₆
    split at h₆
    next h =>
      rw [Cursor.advance_position, length_opaqueBytes, Cursor.advance_input, hinput] at h
      exact h
    next => cases h₆
  rw [Cursor.advance_position, length_opaqueBytes] at hlt
  have hstart : checkedAdd c₄.position 4 = some (c₄.position + 4) := checkedAdd_of_lt (by omega)
  have hstop : checkedAdd (c₄.position + 4) data.length = some (c₄.position + 4 + data.length) :=
    checkedAdd_of_lt (by omega)
  have hrange : input.length - (data.length + padding data.length) = c₄.position + 4 := by omega
  simp only [hstart, hstop, WriteArgs.parts, hrange]

/-- The data is at the end of what spells the arguments, followed by its padding. -/
theorem data_of_spelled {arguments : WriteArgs} (h : (NfsArguments.write arguments).Spelled maxVariableSize input) :
    arguments.data.length + padding arguments.data.length ≤ input.length ∧
    (input.drop (input.length - (arguments.data.length + padding arguments.data.length))).take arguments.data.length =
      arguments.data := by
  obtain ⟨front, hinput⟩ : ∃ front, input =
      front ++ (arguments.data ++ List.replicate (padding arguments.data.length) 0) := by
    refine ⟨opaqueBytes arguments.object ++ arguments.offset.toBeBytes ++ arguments.count.toBeBytes ++
      (encodeStability arguments.requested).toBeBytes ++ (UInt32.ofNat arguments.data.length).toBeBytes, ?_⟩
    rw [h.2.2]
    simp only [NfsArguments.bytes, opaqueBytes, List.append_assoc]
  have hlength : input.length = front.length + (arguments.data.length + padding arguments.data.length) := by
    rw [hinput]
    simp only [List.length_append, List.length_replicate]
  refine ⟨by omega, ?_⟩
  rw [hlength, Nat.add_sub_cancel, hinput, List.drop_left, List.take_left]

/-- Cutting the data out of the record afterwards gives the data that was read. -/
theorem writeRequest_decode_eq (input : Bytes) (maxVariableSize : Nat) :
    WriteRequest.decode input maxVariableSize =
      Decoder.run (do let arguments ← decodeWriteArgs maxVariableSize; Decoder.finish; return arguments)
        input := by
  rw [WriteRequest.decode, decodeParts_eq]
  cases hrun : Decoder.run (do let arguments ← decodeWriteArgs maxVariableSize; Decoder.finish; return arguments)
      input with
  | error error => rfl
  | ok arguments =>
    have hspelled := Decoder.format_of_run_finish (decodeWriteArgs_reads maxVariableSize) hrun
    obtain ⟨-, hdata⟩ := data_of_spelled hspelled
    simp only [Except.map, bind, Except.bind, pure, Except.pure, WriteArgs.parts, Nat.add_sub_cancel_left, hdata]

theorem writeRequest_decode_ok_iff {arguments : WriteArgs} :
    WriteRequest.decode input maxVariableSize = .ok arguments ↔
      (NfsArguments.write arguments).Spelled maxVariableSize input := by
  have hreads := decodeWriteArgs_reads maxVariableSize
  rw [writeRequest_decode_eq]
  constructor
  · exact Decoder.format_of_run_finish hreads
  · exact fun h => (Decoder.run_finish_ok_iff hreads h.length_lt).mpr h

/-- The zero-copy decoder of `WRITE` and the generic one return the same arguments or the same error. The
range that the former cuts out is in bounds. -/
theorem write_decoders_agree (input : Bytes) (maxVariableSize : Nat) :
    (WriteRequest.decode input maxVariableSize).map NfsArguments.write = NfsArguments.decode 7 input maxVariableSize ∧
    ∀ parts, WriteRequest.decodeParts input maxVariableSize = .ok parts →
      parts.dataStart ≤ parts.dataEnd ∧ parts.dataEnd ≤ input.length := by
  refine ⟨?_, fun parts hparts => ?_⟩
  · rw [writeRequest_decode_eq, Decoder.map_run]
    unfold NfsArguments.decode
    congr 1
    simp only [decodeArguments, map_bind, map_pure, bind_assoc, pure_bind]
  · rw [decodeParts_eq] at hparts
    cases hrun : Decoder.run (do let arguments ← decodeWriteArgs maxVariableSize; Decoder.finish; return arguments)
        input with
    | error error =>
      rw [hrun] at hparts
      cases hparts
    | ok arguments =>
      rw [hrun] at hparts
      cases hparts
      have hspelled := Decoder.format_of_run_finish (decodeWriteArgs_reads maxVariableSize) hrun
      obtain ⟨hle, -⟩ := data_of_spelled hspelled
      refine ⟨Nat.le_add_right _ _, ?_⟩
      show input.length - (arguments.data.length + padding arguments.data.length) + arguments.data.length ≤ input.length
      omega

/-- A `WRITE` of one byte to a handle of four. -/
def byteWrite : WriteArgs := ⟨[0, 0, 0, 7], 0, 1, .fileSync, [0x2a]⟩

theorem write_decoders_agree_byte :
    WriteRequest.decode (NfsArguments.write byteWrite).bytes 8 = .ok byteWrite ∧
    NfsArguments.decode 7 (NfsArguments.write byteWrite).bytes 8 = .ok (.write byteWrite) ∧
    WriteRequest.decodeParts (NfsArguments.write byteWrite).bytes 8 = .ok (byteWrite.parts 28) ∧
    (byteWrite.parts 28).dataEnd ≤ (NfsArguments.write byteWrite).bytes.length := by
  obtain ⟨hsame, hrange⟩ := write_decoders_agree (NfsArguments.write byteWrite).bytes 8
  have hdecode : WriteRequest.decode (NfsArguments.write byteWrite).bytes 8 = .ok byteWrite := by decide
  have hparts : WriteRequest.decodeParts (NfsArguments.write byteWrite).bytes 8 = .ok (byteWrite.parts 28) := by decide
  rw [hdecode] at hsame
  exact ⟨hdecode, hsame.symm, hparts, (hrange _ hparts).2⟩

end NfsEmbed.Nfs3
