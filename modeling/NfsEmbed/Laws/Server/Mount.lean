import NfsEmbed.Laws.Server.Procedures
import NfsEmbed.Server.Mount

/-!
# What a MOUNT procedure may do

`MNT` walks from the root of the export it selected. The keys it passes are that root and what the
lookups of the walk returned, which is a statement about the dialogue so far. The other procedures
of MOUNT and PORTMAP do not reach a backend.
-/

namespace NfsEmbed.Server

open Lib Rpc Vfs Mount3
open Prog (Ensures)

/-! ## Results -/

/-- The encoder of a result only appends. -/
class LawfulMountResult (ρ : Type) [EncodeMountResult ρ] : Prop where
  encodeResult_writes (result : ρ) : ∃ P w, Writes (EncodeMountResult.encodeResult result) P w

theorem writeAuthFlavors_writes (authFlavors : List UInt32) :
    ∃ P w, Writes (do
      if authFlavors.length ≥ 2 ^ 32 then throw (.tooLarge authFlavors.length)
      Encoder.writeU32 (UInt32.ofNat authFlavors.length)
      authFlavors.forM Encoder.writeU32 : EncodeM Unit) P w := by
  by_cases h : authFlavors.length ≥ 2 ^ 32
  · simp only [if_pos h]
    exact ⟨_, [], Writes.throw _ _⟩
  · simp only [if_neg h]
    exact ⟨_, _, (Encoder.writeU32_writes _).seq (Writes.forM Encoder.writeU32_writes _)⟩

instance : LawfulMountResult MountResult where
  encodeResult_writes
    | .ok fileHandle authFlavors =>
      have ⟨_, _, h⟩ := writeAuthFlavors_writes authFlavors
      ⟨_, _, (Encoder.writeU32_writes _).seq ((Encoder.writeOpaque_writes fileHandle).seq h)⟩
    | .err _ => ⟨_, _, Encoder.writeU32_writes _⟩

instance : LawfulMountResult DumpResult where
  encodeResult_writes _ :=
    ⟨_, _, (Writes.forM
      (fun _ => (Encoder.writeBool_writes true).seq
        ((Encoder.writeOpaque_writes _).seq (Encoder.writeOpaque_writes _))) _).seq
      (Encoder.writeBool_writes false)⟩

instance : LawfulMountResult ExportResult where
  encodeResult_writes _ :=
    ⟨_, _, (Writes.forM
      (fun _ => (Encoder.writeBool_writes true).seq ((Encoder.writeOpaque_writes _).seq
        ((Writes.forM
          (fun group => (Encoder.writeBool_writes true).seq (Encoder.writeOpaque_writes group)) _).seq
          (Encoder.writeBool_writes false)))) _).seq
      (Encoder.writeBool_writes false)⟩

variable {rule : CallRule} {state : ConnectionState} {xid : UInt32} {context : RequestContext} {entry : ExportState}

theorem Serves.mountReply {ρ : Type} [EncodeMountResult ρ] [LawfulMountResult ρ] (result : ρ) :
    Serves rule xid (mountReply state xid result) := by
  obtain ⟨P, w, hwrites⟩ := LawfulMountResult.encodeResult_writes result
  exact Serves.encoded fun value hvalue => carries_typedReply state hwrites hvalue

theorem Serves.bareReply (status : UInt32) : Serves rule xid (bareReply state xid status) :=
  Serves.accepted status []

theorem Serves.decoded {α : Type} {result : Except DecodeError α} {next : α → ServerM EncodedReply}
    (hnext : ∀ value, result = .ok value → Serves rule xid (next value)) :
    Serves rule xid (decoded result >>= next) := by
  cases result with
  | error => exact Serves.fail _
  | ok value => exact hnext value rfl

theorem Serves.lockMounts {update : MountTable → MountTable} {next : MountTable → ServerM EncodedReply}
    (hnext : ∀ mounts, Serves rule xid (next mounts)) : Serves rule xid (lockMounts update >>= next) :=
  Serves.ask (fun _ => trivial) hnext

theorem ensures_callVfs {α : Type} {Q : Dialogue → Except ServerError α → Prop} {history : Dialogue}
    {entry : ExportState} {method : VfsMethod} {next : method.Answer → ServerM α}
    (h : rule history entry context method)
    (hnext : ∀ answer, Ensures anything rule.Permits Q (history ++ [⟨.vfs entry context method, answer⟩]) (next answer)) :
    Ensures anything rule.Permits Q history (callVfs context entry method >>= next) :=
  ⟨h, fun answer _ => hnext answer⟩

/-! ## The walk -/

/-- The dialogue has the key as the root of the export or as what a lookup on it returned. -/
def Walked (entry : ExportState) (context : RequestContext) (history : Dialogue) (key : ObjectKey) : Prop :=
  (⟨.vfs entry context .root, key⟩ : Exchange serverSignature) ∈ history ∨
    ∃ parent name found, (⟨.vfs entry context (.lookup parent name), .ok found⟩ : Exchange serverSignature) ∈ history ∧
      found.object = key

/-- What calls a MOUNT request makes; only `MNT` makes any. -/
def MountCalls (state : ConnectionState) (context : RequestContext) (procedure : UInt32) : CallRule :=
  fun history entry context' method =>
    procedure = 1 ∧ entry ∈ state.exports ∧ context' = { context with exportId := entry.id } ∧
      ∀ key ∈ method.keys, Walked entry context' history key

/-- A walk ends at a key it passed. -/
def EndsAt (entry : ExportState) (context : RequestContext) (history : Dialogue)
    (result : Except ServerError (Except NfsError ObjectKey)) : Prop :=
  ∀ key, result = .ok (.ok key) → Walked entry context history key

/-- The rule has nothing against calls on the export for keys that were walked to. -/
def CallRule.AllowsWalk (rule : CallRule) (entry : ExportState) (context : RequestContext) : Prop :=
  ∀ history method, (∀ key ∈ method.keys, Walked entry context history key) → rule history entry context method

/-- Each name is looked up in the directory that was found before it. -/
theorem walk_ensures (hrule : rule.AllowsWalk entry context) (components : List Bytes) {object : ObjectKey}
    {history : Dialogue} (hobject : Walked entry context history object) :
    Ensures anything rule.Permits (EndsAt entry context) history (walk context entry object components) := by
  induction components generalizing object history with
  | nil =>
    intro key heq
    cases heq
    exact hobject
  | cons _ _ ih =>
    unfold walk
    split
    next =>
      intro key heq
      cases heq
    next name _ =>
      refine ensures_callVfs (hrule _ _ (by simpa [VfsMethod.keys] using hobject)) fun answer => ?_
      cases answer with
      | error =>
        intro key heq
        cases heq
      | ok found => exact ih (.inr ⟨object, name, found, by simp, rfl⟩)

theorem resolveMountObject_ensures (hrule : rule.AllowsWalk entry context) (requested : Bytes) (history : Dialogue) :
    Ensures anything rule.Permits (EndsAt entry context) history (resolveMountObject context entry requested) := by
  unfold resolveMountObject
  split
  next =>
    intro key heq
    cases heq
  next =>
    refine ensures_callVfs (hrule _ _ (by simp [VfsMethod.keys])) fun root => ?_
    exact walk_ensures hrule _ (.inl (by simp))

theorem mem_of_selectExport {requested : Bytes} (h : selectExport state requested = some entry) :
    entry ∈ state.exports :=
  List.mem_of_mem_filter (maxByKey_spec h).1

/-! ## All procedures -/

/-- `MNT` calls the export it selected, for keys it walked to. -/
theorem mnt_serves {args : Bytes}
    (hrule : ∀ path entry, decodeMountPath args = .ok path → selectExport state path = some entry →
      rule.AllowsWalk entry { context with exportId := entry.id }) :
    Serves rule xid (mnt state xid context args) := by
  refine .decoded fun path hpath => ?_
  dsimp only
  split
  next => exact .mountReply _
  next entry hselect =>
    have hwalk := hrule path entry hpath hselect
    intro history
    refine (resolveMountObject_ensures hwalk path history).bind (fun history result hresult => ?_) ?_
    · cases result with
      | error => exact Serves.mountReply _ history
      | ok root =>
        refine ensures_callVfs (hwalk _ _ (by simpa [VfsMethod.keys] using hresult root rfl)) fun answer => ?_
        cases answer with
        | error => exact Serves.mountReply _ _
        | ok =>
          dsimp only
          split
          next => exact Serves.mountReply _ _
          next =>
            refine Serves.lockMounts (fun mounts => ?_) _
            split <;> exact .mountReply _
    · intro _ _ _ reply heq
      cases heq

/-- Every MOUNT procedure answers its call. -/
theorem dispatchMount_serves (procedure : UInt32) (args : Bytes) :
    Serves (MountCalls state context procedure) xid (dispatchMount state xid context procedure args) := by
  unfold dispatchMount
  split
  next => exact .bareReply _
  next =>
    split
    case h_1 => exact .bareReply _
    case h_2 =>
      exact mnt_serves fun path entry _ hselect history method hkeys =>
        ⟨rfl, mem_of_selectExport hselect, rfl, hkeys⟩
    case h_3 =>
      refine .lockMounts fun mounts => ?_
      split
      · exact .bareReply _
      · exact .mountReply _
    case h_4 => exact .decoded fun path _ => .lockMounts fun _ => .bareReply _
    case h_5 => exact .lockMounts fun _ => .bareReply _
    case h_6 =>
      unfold exportList
      split
      · exact .bareReply _
      · exact .mountReply _
    case h_7 => exact .bareReply _

/-- So does the portmapper. -/
theorem dispatchPortmap_serves {rule : CallRule} (procedure : UInt32) (args : Bytes) :
    Serves rule xid (dispatchPortmap state xid procedure args) := by
  unfold dispatchPortmap
  split
  · exact .bareReply _
  · exact .decoded fun port _ => .accepted _ _
  · exact .bareReply _

end NfsEmbed.Server
