import NfsEmbed.Lib.Computation
import NfsEmbed.Laws.Server.Isolation

/-!
# Which export a path selects

A path selects the longest export path that ends at one of its component boundaries. Two matching
export paths are both the start of the requested path, so they are equal if they are equally long, and
the builder accepts no two exports with one path. There is thus no tie for `max_by_key` to break, and
the order in which the exports are configured makes no difference.

The law is `select_export_longest_match`.
-/

namespace NfsEmbed.Server

open Lib Rpc Vfs Mount3

variable {path requested : Bytes} {entry : ExportState} {exports : List ExportState}

/-! ## Paths -/

/-- The path is the requested one, or the requested one continues it with another component. -/
def ComponentPrefix (path requested : Bytes) : Prop :=
  requested = path ∨ (path = [0x2f] ∧ ∃ rest, requested = 0x2f :: rest) ∨
    ∃ rest, requested = path ++ 0x2f :: rest

theorem ComponentPrefix.isPrefix (h : ComponentPrefix path requested) : path <+: requested := by
  obtain rfl | ⟨rfl, rest, rfl⟩ | ⟨rest, rfl⟩ := h
  · exact List.prefix_rfl
  · exact ⟨rest, rfl⟩
  · exact List.prefix_append _ _

theorem continues_iff : (path.isPrefixOf requested = true ∧ requested[path.length]? = some 0x2f) ↔
      ∃ rest, requested = path ++ 0x2f :: rest := by
  rw [List.isPrefixOf_iff_prefix]
  constructor
  · rintro ⟨⟨tail, rfl⟩, hslash⟩
    rw [List.getElem?_append_right (Nat.le_refl _), Nat.sub_self] at hslash
    cases tail with
    | nil => cases hslash
    | cons _ rest =>
      cases hslash
      exact ⟨rest, rfl⟩
  · rintro ⟨rest, rfl⟩
    exact ⟨List.prefix_append _ _, by simp⟩

/-- The test on bytes is the one on components. -/
theorem exportMatches_iff : exportMatches path requested = true ↔ ComponentPrefix path requested := by
  have hslash : List.isPrefixOf [0x2f] requested = true ↔ ∃ rest, requested = 0x2f :: rest := by
    rw [List.isPrefixOf_iff_prefix]
    exact ⟨fun ⟨rest, h⟩ => ⟨rest, h.symm⟩, fun ⟨rest, h⟩ => ⟨rest, h.symm⟩⟩
  unfold exportMatches ComponentPrefix
  rw [decide_eq_true_iff, hslash, continues_iff]

/-! ## What the builder accepts -/

/-- No two exports share an id or a path. -/
def Distinct (entry other : ExportState) : Prop := other.id ≠ entry.id ∧ other.path ≠ entry.path

theorem distinct_of_validateExport {earlier : List ExportState} (h : validateExport earlier entry = .ok ()) :
    ∀ other ∈ earlier, Distinct entry other := by
  obtain ⟨-, h⟩ := of_check_ok h
  obtain ⟨-, h⟩ := of_check_ok h
  obtain ⟨hunique, -⟩ := of_check_ok h
  intro other hother
  simp only [List.any_eq_true, decide_eq_true_eq, not_exists, not_and, not_or] at hunique
  exact hunique other hother

theorem pairwise_of_validateExports {earlier : List ExportState} (h : validateExports earlier exports = .ok ()) :
    (∀ entry ∈ exports, ∀ other ∈ earlier, Distinct entry other) ∧
      exports.Pairwise fun entry other => Distinct other entry := by
  induction exports generalizing earlier with
  | nil => exact ⟨fun _ h => absurd h List.not_mem_nil, .nil⟩
  | cons entry _ ih =>
    unfold validateExports at h
    split at h
    next => cases h
    next hentry =>
      obtain ⟨hearlier, hpairwise⟩ := ih h
      refine ⟨fun entry' hmem other hother => ?_, .cons (fun entry' hmem => ?_) hpairwise⟩
      · rcases List.mem_cons.mp hmem with rfl | hmem
        · exact distinct_of_validateExport hentry other hother
        · exact hearlier entry' hmem other (List.mem_append_left _ hother)
      · exact hearlier entry' hmem entry (by simp)

/-- Exports that were accepted are determined by their paths. -/
theorem eq_of_path_eq (h : validateExports [] exports = .ok ()) {other : ExportState} (hentry : entry ∈ exports)
    (hother : other ∈ exports) (hpath : entry.path = other.path) : entry = other := by
  have hnodup : (exports.map ExportState.path).Nodup :=
    List.pairwise_map.mpr ((pairwise_of_validateExports h).2.imp fun {_ _} hdistinct => hdistinct.2)
  exact List.inj_on_of_nodup_map hnodup hentry hother hpath

/-! ## Selection -/

section Select

variable {state : ConnectionState}

theorem mem_matching : entry ∈ state.exports.filter (fun entry => exportMatches entry.path requested) ↔
      entry ∈ state.exports ∧ ComponentPrefix entry.path requested := by
  rw [List.mem_filter, exportMatches_iff]

/-- Among the exports that match, the length of the path tells which one it is. -/
theorem matching_injective (hbuilt : validateExports [] state.exports = .ok ()) (requested : Bytes) :
    ∀ entry ∈ state.exports.filter (fun entry => exportMatches entry.path requested),
      ∀ other ∈ state.exports.filter (fun entry => exportMatches entry.path requested),
        entry.path.length = other.path.length → entry = other := by
  intro entry hentry other hother hlength
  obtain ⟨hmem, hprefix⟩ := mem_matching.mp hentry
  obtain ⟨hmem', hprefix'⟩ := mem_matching.mp hother
  apply eq_of_path_eq hbuilt hmem hmem'
  have hle := List.prefix_of_prefix_length_le hprefix.isPrefix hprefix'.isPrefix hlength.le
  exact hle.eq_of_length hlength

theorem selectExport_eq_none_iff :
    selectExport state requested = none ↔ ∀ entry ∈ state.exports, ¬ ComponentPrefix entry.path requested := by
  unfold selectExport
  rw [maxByKey_eq_none_iff, List.filter_eq_nil_iff]
  simp only [exportMatches_iff]

/-- The selected export is the longest that matches. -/
theorem selectExport_eq_some_iff (hbuilt : validateExports [] state.exports = .ok ()) :
    selectExport state requested = some entry ↔
      (entry ∈ state.exports ∧ ComponentPrefix entry.path requested) ∧
        ∀ other ∈ state.exports, ComponentPrefix other.path requested → other.path.length ≤ entry.path.length := by
  unfold selectExport
  rw [maxByKey_eq_some_iff (matching_injective hbuilt requested), mem_matching]
  simp only [mem_matching, and_imp]

/-- The order of the exports makes no difference. -/
theorem selectExport_perm (hbuilt : validateExports [] state.exports = .ok ()) (requested : Bytes)
    (hperm : exports.Perm state.exports) :
    selectExport { state with exports } requested = selectExport state requested :=
  maxByKey_perm (matching_injective hbuilt requested) (hperm.filter _)

end Select

/-! ## Before and after the arguments are decoded -/

/-- The path that the replay key is taken from is the one `MNT` decodes. -/
theorem requestExportId_mnt {state : ConnectionState} {args : Bytes} (h : decodeMountPath args = .ok path) :
    requestExportId state Mount3.PROGRAM 1 args = (selectExport state path).elim ⟨0⟩ ExportState.id := by
  have hread : Decoder.run (Decoder.readOpaqueSlice "MOUNT path" 1024) args = .ok path := by
    unfold decodeMountPath Decoder.run at h
    split at h
    next value _ hrun =>
      obtain ⟨read, mid, hread, hrest⟩ := ReadM.of_bind_ok hrun
      obtain ⟨_, mid', -, hreturn⟩ := ReadM.of_bind_ok hrest
      cases hreturn
      cases h
      have hslice : Decoder.readOpaqueSlice "MOUNT path" 1024 (Decoder.new args) = .ok path mid := hread
      rw [Decoder.run, hslice]
    next => cases h
  unfold requestExportId
  rw [if_neg (by decide), if_pos (by decide), hread]

/-- Calls on the export that was put into the replay key and the context. -/
def OnExport (state : ConnectionState) (args : Bytes) : CallRule := fun _ entry context _ =>
  entry.id = requestExportId state Mount3.PROGRAM 1 args ∧ context.exportId = entry.id ∧
    ∃ path, decodeMountPath args = .ok path ∧ selectExport state path = some entry

theorem mnt_onExport (state : ConnectionState) (xid : UInt32) (context : RequestContext) (args : Bytes) :
    Serves (OnExport state args) xid (mnt state xid context args) := by
  apply mnt_serves
  intro path entry hpath hselect history method _
  refine ⟨?_, rfl, path, hpath, hselect⟩
  rw [requestExportId_mnt hpath, hselect]
  rfl

/-- A requested path selects nothing exactly if no export is a component-wise start of it, and otherwise
the only one of the greatest length among those that are, in whatever order the exports are configured.
The export whose id is put into the replay key and the context of an `MNT` is the one it calls. -/
theorem select_export_longest_match (state : ConnectionState) (hbuilt : validateExports [] state.exports = .ok ())
    (requested : Bytes) :
    (selectExport state requested = none ↔
      ∀ entry ∈ state.exports, ¬ ComponentPrefix entry.path requested) ∧
    (∀ entry, selectExport state requested = some entry ↔
      (entry ∈ state.exports ∧ ComponentPrefix entry.path requested) ∧
        ∀ other ∈ state.exports, ComponentPrefix other.path requested → other.path.length ≤ entry.path.length) ∧
    ((∃ entry ∈ state.exports, ComponentPrefix entry.path requested) →
      ∃! entry, (entry ∈ state.exports ∧ ComponentPrefix entry.path requested) ∧
        ∀ other ∈ state.exports, ComponentPrefix other.path requested → other.path.length ≤ entry.path.length) ∧
    (∀ exports, exports.Perm state.exports →
      selectExport { state with exports } requested = selectExport state requested) ∧
    (∀ args, decodeMountPath args = .ok requested →
      requestExportId state Mount3.PROGRAM 1 args = (selectExport state requested).elim ⟨0⟩ ExportState.id) ∧
    (∀ xid context args, Serves (OnExport state args) xid (dispatchMount state xid context 1 args)) := by
  refine ⟨selectExport_eq_none_iff, fun entry => selectExport_eq_some_iff hbuilt, fun ⟨entry, hmem, hprefix⟩ => ?_,
    fun exports hperm => selectExport_perm hbuilt requested hperm, fun args hargs => requestExportId_mnt hargs,
    fun xid context args => mnt_onExport state xid context args⟩
  cases hselect : selectExport state requested with
  | none => exact absurd hprefix (selectExport_eq_none_iff.mp hselect entry hmem)
  | some best =>
    refine ⟨best, (selectExport_eq_some_iff hbuilt).mp hselect, fun other hother => ?_⟩
    have hother := (selectExport_eq_some_iff hbuilt).mpr hother
    rw [hselect] at hother
    cases hother
    rfl

/-- The exports `/` and `/data`. -/
def nestedState : ConnectionState := { sampleState with exports := [sampleExport, ⟨⟨8⟩, [0x2f, 0x64, 0x61, 0x74, 0x61]⟩] }

/-- A path below `/data` is in the export of that name. -/
theorem select_export_longest_match_nested :
    ∃! entry, (entry ∈ nestedState.exports ∧ ComponentPrefix entry.path [0x2f, 0x64, 0x61, 0x74, 0x61, 0x2f, 0x78]) ∧
      ∀ other ∈ nestedState.exports, ComponentPrefix other.path [0x2f, 0x64, 0x61, 0x74, 0x61, 0x2f, 0x78] →
        other.path.length ≤ entry.path.length :=
  (select_export_longest_match nestedState rfl _).2.2.1
    ⟨sampleExport, by decide, .inr (.inl ⟨rfl, _, rfl⟩)⟩

/-- A sibling whose name starts with that of the export is not. -/
example : (selectExport nestedState [0x2f, 0x64, 0x61, 0x74, 0x61, 0x62]).map ExportState.id = some ⟨7⟩ := by decide

end NfsEmbed.Server
