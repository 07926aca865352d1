import NfsEmbed.Laws.Server.Execution

/-!
# Backend isolation

Whatever bytes arrive in a record, and whatever the replay cache, the mount table, the runtime and the
backends answer while it is handled: a backend is called only for a request that was authorized and
whose arguments were decoded to the end, only on the export of the request, and only for keys that the
export handed out.

The law is `backend_calls_isolated`.
-/

namespace NfsEmbed.Server

open Lib Rpc Vfs Nfs3 Replay
open Prog (Ensures)

/-! ## Handling a record -/

/-- The record has a whole call header, of RPC version 2 and with an empty verifier, and the principal
in its credential is allowed. -/
structure Authorized (state : ConnectionState) (record : Bytes) (header : CallHeader) (caller : Principal) :
    Prop where
  decoded : Decoder.run decodeCallHeader record = .ok (some header)
  rpcVersion : header.rpcVersion = 2
  verifierFlavor : header.verifierFlavor = AUTH_NONE
  verifier : header.verifier = []
  principal : decodePrincipal header.credentialFlavor header.credentialBody = .ok caller
  allowed : principalAllowed state.authPolicy caller = true

/-- What must hold of a backend call made while a record is handled. -/
structure Isolated (state : ConnectionState) (record : Bytes) (history : Dialogue) (entry : ExportState)
    (context : RequestContext) (method : VfsMethod) : Prop where
  authorized : ∃ header, Authorized state record header context.principal ∧
    ((header.program = Nfs3.PROGRAM ∧ ∃ arguments,
        NfsArguments.decode header.procedure header.args state.limits.maxRpcRecordSize = .ok arguments ∧
        Encoder.run arguments.encode = .ok header.args ∧
        ∀ key ∈ method.keys, ∃ handle ∈ arguments.handles, handle = state.handles.encode entry.id key) ∨
      (header.program = Mount3.PROGRAM ∧ header.procedure = 1 ∧
        ∀ key ∈ method.keys, Walked entry context history key))
  configured : entry ∈ state.exports
  entry_id : entry.id = context.exportId
  names : ∀ name ∈ method.names,
    1 ≤ name.bytes.length ∧ name.bytes.length ≤ 255 ∧ 0x2f ∉ name.bytes ∧ 0 ∉ name.bytes

theorem name_valid (name : NfsName) :
    1 ≤ name.bytes.length ∧ name.bytes.length ≤ 255 ∧ 0x2f ∉ name.bytes ∧ 0 ∉ name.bytes :=
  ⟨List.length_pos_of_ne_nil name.ne_nil, name.length_le, name.no_slash, name.no_nul⟩

/-- The calls of an execution, made for an authorized request. -/
theorem isolated_of_requestCalls {state : ConnectionState} {record : Bytes} {history : Dialogue} {entry : ExportState}
    {context context' : RequestContext} {method : VfsMethod} {header : CallHeader}
    (hauthorized : header.program ≠ Portmap.PROGRAM → Authorized state record header context.principal)
    (h : RequestCalls state context header.program header.procedure header.args history entry context' method) :
    Isolated state record history entry context' method := by
  obtain ⟨hprogram, hentry, hid, rfl, arguments, hdecode, hkeys⟩ |
    ⟨hprogram, hprocedure, hentry, rfl, hkeys⟩ := h
  · have hauthorized := hauthorized (by rw [hprogram]; decide)
    refine ⟨⟨header, hauthorized, .inl ⟨hprogram, arguments, hdecode, ?_, fun key hkey => ?_⟩⟩, hentry, hid,
      fun name _ => name_valid name⟩
    · exact (spelled_iff_encode.mp (decode_ok_iff_spelled.mp hdecode).2).1
    · exact ⟨_, hkeys key hkey, by rw [hid]⟩
  · have hauthorized := hauthorized (by rw [hprogram]; decide)
    exact ⟨⟨header, hauthorized, .inr ⟨hprogram, hprocedure, hkeys⟩⟩, hentry, rfl, fun name _ => name_valid name⟩

/-- The condition on operations that a rule for backend calls is. -/
def CallRule.Bounds (rule : CallRule) (history : Dialogue) : ServerOp → Prop
  | .vfs entry context method => rule history entry context method
  | _ => True

theorem CallRule.Permits.bounds {rule : CallRule} {history : Dialogue} {op : ServerOp} (h : rule.Permits history op) :
    rule.Bounds history op := by
  cases op <;> first | exact h | exact trivial

/-- In every dialogue the backend is called as the rule says. -/
def Calls (rule : CallRule) (program : ServerM EncodedReply) : Prop :=
  ∀ history, Ensures anything rule.Bounds (fun _ _ => True) history program

section Record

variable {rule : CallRule} {state : ConnectionState} {clientAddr : SocketAddr} {record : Bytes}
  {header : CallHeader} {principal : Principal}

theorem Calls.ask {op : ServerOp} {next : op.Answer → ServerM EncodedReply}
    (h : ∀ history, rule.Bounds history op) (hnext : ∀ answer, Calls rule (next answer)) :
    Calls rule (Prog.ask (S := serverSignature) op next) :=
  fun history => ⟨h history, fun answer _ => hnext answer _⟩

theorem executeLease_calls (context : RequestContext) (lease : ReplayEntryKey)
    (hauthorized : header.program ≠ Portmap.PROGRAM → Authorized state record header context.principal) :
    Calls (Isolated state record) (executeLease state header context lease) := by
  refine Calls.ask (fun _ => trivial) fun answer => ?_
  cases answer with
  | error => exact .ask (fun _ => trivial) fun _ _ => trivial
  | ok =>
    intro history
    have hrequest : Ensures anything (CallRule.Bounds (Isolated state record)) (fun _ _ => True) history
        (executeRequest state header.xid header.program header.version header.procedure header.args context) := by
      refine (executeRequest_ensures _ _ _ _ history).mono (fun _ _ h => h) (fun history op hop => ?_) fun _ _ _ => trivial
      have hbounds := hop.bounds
      cases op with
      | vfs => exact isolated_of_requestCalls hauthorized hbounds
      | _ => exact trivial
    refine hrequest.outcome.bind (fun history result _ => ?_) fun _ _ _ => trivial
    cases result with
    | error | ok => exact ⟨trivial, fun _ _ => trivial⟩

theorem dispatchAuthorized_calls
    (hauthorized : header.program ≠ Portmap.PROGRAM → Authorized state record header principal) :
    Calls (Isolated state record) (dispatchAuthorized state clientAddr header principal) := by
  refine Calls.ask (fun _ => trivial) fun answer => ?_
  cases answer with
  | error => exact fun _ => trivial
  | ok decision =>
    cases decision with
    | replay => exact fun _ => trivial
    | wait =>
      refine Calls.ask (fun _ => trivial) fun answer => ?_
      cases answer <;> exact fun _ => trivial
    | execute lease => exact executeLease_calls _ lease hauthorized

theorem dispatchHeader_calls (hdecoded : Decoder.run decodeCallHeader record = .ok (some header)) :
    Calls (Isolated state record) (dispatchHeader state clientAddr header) := by
  unfold dispatchHeader
  split
  next => exact fun _ => trivial
  next hverifier =>
  split
  next => exact fun _ => trivial
  next principal hprincipal =>
  split
  next => exact fun _ => trivial
  next hversion =>
  split
  next => exact fun _ => trivial
  next hallowed =>
    simp only [ne_eq, not_or, Decidable.not_not] at hverifier hversion
    refine dispatchAuthorized_calls fun hprogram => ⟨hdecoded, hversion, hverifier.1, hverifier.2, hprincipal, ?_⟩
    simpa [hprogram] using hallowed

/-- Every call that handling a record makes is isolated. -/
theorem dispatchRecord_calls : Calls (Isolated state record) (dispatchRecord state clientAddr record) := by
  unfold dispatchRecord
  cases hdecoded : Decoder.run decodeCallHeader record with
  | error => exact fun _ => trivial
  | ok header =>
    cases header with
    | none => exact fun _ => trivial
    | some => exact dispatchHeader_calls hdecoded

end Record

/-- Every backend call made while a record is handled is isolated: the request was authorized, its
arguments were decoded to the last byte, the call goes to the export of the context, and its keys come
from handles of that export or from the walk of a `MNT`. -/
theorem backend_calls_isolated (state : ConnectionState) (clientAddr : SocketAddr) (record : Bytes)
    (history : Dialogue) (entry : ExportState) (context : RequestContext) (method : VfsMethod)
    (hasks : (dispatchRecord state clientAddr record).Asks history (.vfs entry context method)) :
    Isolated state record history entry context method :=
  (dispatchRecord_calls []).asks hasks fun _ _ => trivial

/-! ## A request that reaches the backend

An anonymous GETATTR for the root of the only export. -/

def sampleExport : ExportState := ⟨⟨7⟩, [0x2f]⟩

def sampleState : ConnectionState where
  exports := [sampleExport]
  limits := .productionDefaults
  authPolicy := .anonymous
  portmapper := .disabled
  handles := ⟨⟨List.replicate 8 0, rfl⟩, fun _ => ⟨List.replicate 32 0, rfl⟩⟩
  localPort := 2049
  externals := ⟨fun _ => ⟨List.replicate 32 0, rfl⟩, List.length, fun _ => Nat.le_refl _⟩

def sampleRecord : Bytes :=
  words [1, RPC_CALL, 2, Nfs3.PROGRAM, Nfs3.VERSION, 1, AUTH_NONE, 0, AUTH_NONE, 0] ++
    opaqueBytes (sampleState.handles.encode ⟨7⟩ ⟨1, 1⟩)

def sampleKey : ReplayKey := ⟨.v4 0 0, ⟨7⟩, 1⟩

def sampleFingerprint : RequestFingerprint := ⟨⟨List.replicate 32 0, rfl⟩⟩

/-- The cache lets the request execute, and it is spawned. -/
def sampleDialogue : Dialogue :=
  [⟨.begin sampleKey sampleFingerprint, .ok (.execute ⟨sampleKey, sampleFingerprint, 0⟩)⟩,
    ⟨.spawn ⟨sampleKey, sampleFingerprint, 0⟩, .ok ()⟩]

-- the dialogue is followed by evaluating the decoders on the record
set_option maxRecDepth 20000

theorem backend_calls_isolated_getattr :
    Isolated sampleState sampleRecord sampleDialogue sampleExport ⟨.anonymous, .v4 0 700, ⟨7⟩⟩ (.getattr ⟨1, 1⟩) :=
  backend_calls_isolated sampleState (.v4 0 700) sampleRecord sampleDialogue sampleExport _ _
    (.later (.later (.now _ _)))

end NfsEmbed.Server
