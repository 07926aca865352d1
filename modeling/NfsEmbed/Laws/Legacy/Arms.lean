import NfsEmbed.Laws.Legacy.Pages

/-!
# Which results a client of the pre-1.0 implementation recognises

A result is recognised if a client of RFC 1813 reads it to its end, with handles that are no longer than a handle may
be. For each reply that a handler can write there is a law that says when it is: a failure arm if its status is not
`NFS3_OK`, an arm with handles if they are short enough, an arm with fields left out never.
-/

namespace NfsEmbed.Legacy

open Lib Rpc Client

variable {w : Bytes} {procedure : UInt32} {β : Type}

/-- The handle an entry of a listing comes with. -/
def entryHandles (entry : Nfs3.ReadDirEntry) : List Bytes :=
  match entry.extension with
  | .plus _ (some handle) => [handle]
  | _ => []

/-- The file handles in a result. -/
def resultHandles : NfsResult → List Bytes
  | .lookup (.ok handle _ _) => [handle]
  | .create (.ok handle _ _) | .mkdir (.ok handle _ _) | .symlink (.ok handle _ _) | .mknod (.ok handle _ _) =>
    handle.toList
  | .readDir (.ok _ _ entries _) _ | .readDirPlus (.ok _ _ entries _) _ => entries.flatMap entryHandles
  | _ => []

/-- The handles in a result have a size that handles may have. -/
def HandlesFit (result : NfsResult) : Prop := ∀ handle ∈ resultHandles result, handle.length ≤ Nfs.NFS3_FHSIZE.toNat

/-- A client reads the bytes as one result of the procedure. -/
def Recognised (procedure : UInt32) (w : Bytes) : Prop :=
  ∃ result, (NfsResult.parser procedure).run w = some (result, []) ∧ HandlesFit result

/-- Of what can be read, the handles decide. -/
theorem recognised_iff (procedure : UInt32) {result : NfsResult} (h : Parses (NfsResult.parser procedure) w result) :
    Recognised procedure w ↔ HandlesFit result := by
  have hrun := h []
  rw [List.append_nil] at hrun
  constructor
  · rintro ⟨result', hrun', hhandles⟩
    cases hrun.symm.trans hrun'
    exact hhandles
  · exact fun hhandles => ⟨result, hrun, hhandles⟩

theorem not_recognised (h : (NfsResult.parser procedure).run w = none) : ¬ Recognised procedure w := by
  rintro ⟨result, hrun, -⟩
  cases h.symm.trans hrun

/-- A result without handles. -/
theorem Recognised.of_parses {result : NfsResult} (h : Parses (NfsResult.parser procedure) w result)
    (hhandles : resultHandles result = []) : Recognised procedure w := by
  refine (recognised_iff procedure h).mpr fun handle hmem => ?_
  rw [hhandles] at hmem
  exact absurd hmem List.not_mem_nil

/-! ## Arms that end too early -/

theorem run_bind_none {α : Type} {parse : XdrParser α} {next : α → XdrParser β} (h : parse.run w = none) :
    (parse >>= next).run w = none := by
  rw [StateT.run_bind, h]
  rfl

/-- Nothing is left for the next part. -/
theorem run_bind_end {α : Type} {parse : XdrParser α} {next : α → XdrParser β} {a : α} (h : Parses parse w a)
    (hnext : (next a).run [] = none) : (parse >>= next).run w = none := by
  have hrun := h []
  rw [List.append_nil] at hrun
  rw [StateT.run_bind, hrun]
  exact hnext

section Union

variable {ρ : Type} {ok : XdrParser ρ} {err : Nfs3.NfsStatus → XdrParser ρ} {w : Bytes}

theorem union_run_none (hok : ok.run w = none) (herr : ∀ status, (err status).run w = none) (stat : Nfsstat3) :
    (union ok err).run (spell stat ++ w) = none := by
  rw [union_run]
  split
  · exact hok
  · exact herr _

theorem union_run_ok (hok : ok.run w = none) : (union ok err).run (spell Nfsstat3.ok ++ w) = none := by
  rw [union_run, if_pos rfl]
  exact hok

end Union

/-- A `SETATTR` result without its `wcc_data`. -/
theorem setattr_not_recognised (stat : Nfsstat3) : ¬ Recognised 2 (spell stat ++ []) :=
  not_recognised (run_bind_none (union_run_none rfl (fun _ => rfl) stat))

/-- A `READLINK` result without its attributes. -/
theorem readlink_not_recognised (stat : Nfsstat3) : ¬ Recognised 5 (spell stat ++ []) :=
  not_recognised (run_bind_none (union_run_none rfl (fun _ => rfl) stat))

/-- A `RENAME` result with one `wcc_data`. -/
theorem rename_not_recognised (stat : Nfsstat3) : ¬ Recognised 14 (spell stat ++ spell ({} : WccData)) :=
  not_recognised (run_bind_none (union_run_none rfl (fun _ => rfl) stat))

/-! ## Failures -/

theorem readDir_recognised {result : Nfs3.ReadDirResult} (h : Parses (Client.readDir false) w result)
    (hshape : HasShape false result) : Recognised 16 w ↔ HandlesFit (.readDir result hshape) := by
  refine recognised_iff _ (h.bind_nil ?_)
  rw [dif_pos hshape]
  exact Parses.pure _

theorem readDirPlus_recognised {result : Nfs3.ReadDirResult} (h : Parses (Client.readDir true) w result)
    (hshape : HasShape true result) : Recognised 17 w ↔ HandlesFit (.readDirPlus result hshape) := by
  refine recognised_iff _ (h.bind_nil ?_)
  rw [dif_pos hshape]
  exact Parses.pure _

/-- Attributes that are there do not spell a handle: its padding would be the type of the file. -/
theorem payload_run_attr (attr : PostOpAttr) {next : Bytes → XdrParser β} (hnext : (next []).run [] = none) :
    (payload >>= next).run (spell attr) = none := by
  cases attr with
  | none =>
    have hempty : payload.run (spell (none : PostOpAttr)) = some ([], []) := rfl
    rw [StateT.run_bind, hempty]
    exact hnext
  | some attr =>
    apply run_bind_none
    show payload.run ((1 : UInt32).toBeBytes ++ (spell attr.ftype ++ _)) = none
    cases attr.ftype <;> rfl

/-- With the status of a success, a failure with the attributes of one object ends too early. -/
theorem attrFailure_run_none (hproc : procedure ∈ [3, 5, 6, 16, 17]) (attr : PostOpAttr) :
    (NfsResult.parser procedure).run (spell Nfsstat3.ok ++ spell attr) = none := by
  have hattr := postOpAttr_parses attr
  simp only [List.mem_cons, List.not_mem_nil, or_false] at hproc
  obtain rfl | rfl | rfl | rfl | rfl := hproc
  · exact run_bind_none (union_run_ok (payload_run_attr attr rfl))
  · exact run_bind_none (union_run_ok (run_bind_end hattr rfl))
  · exact run_bind_none (union_run_ok (run_bind_end hattr rfl))
  · exact run_bind_none (union_run_ok (run_bind_end hattr rfl))
  · exact run_bind_none (union_run_ok (run_bind_end hattr rfl))

/-- The failure arm with the attributes of the object. -/
theorem attrFailure_recognised_iff (hproc : procedure ∈ [3, 5, 6, 16, 17]) (stat : Nfsstat3) (attr : PostOpAttr) :
    Recognised procedure (spell stat ++ spell attr) ↔ stat ≠ .ok := by
  by_cases hstat : stat = .ok
  · subst hstat
    exact iff_of_false (not_recognised (attrFailure_run_none hproc attr)) (not_not_intro rfl)
  · have hattr := postOpAttr_parses attr
    refine iff_of_true ?_ hstat
    simp only [List.mem_cons, List.not_mem_nil, or_false] at hproc
    obtain rfl | rfl | rfl | rfl | rfl := hproc
    · exact .of_parses ((union_parses_err hstat (hattr.map _)).map _) rfl
    · exact .of_parses ((union_parses_err hstat (hattr.map _)).map _) rfl
    · exact .of_parses ((union_parses_err hstat (hattr.map _)).map _) rfl
    · exact (readDir_recognised (union_parses_err hstat (hattr.map _)) trivial).mpr (List.forall_mem_nil _)
    · exact (readDirPlus_recognised (union_parses_err hstat (hattr.map _)) trivial).mpr (List.forall_mem_nil _)

/-- A failure with the `wcc_data` of one object. -/
theorem wccFailure_recognised {stat : Nfsstat3} (hproc : procedure ∈ [2, 7, 8, 9, 10, 12, 13]) (hstat : stat ≠ .ok)
    (wcc : WccData) : Recognised procedure (spell stat ++ spell wcc) := by
  have hwcc := wcc_parses_spell wcc
  simp only [List.mem_cons, List.not_mem_nil, or_false] at hproc
  obtain rfl | rfl | rfl | rfl | rfl | rfl | rfl := hproc <;>
    exact .of_parses ((union_parses_err hstat (hwcc.map _)).map _) rfl

/-- A failure with an empty `wcc_data`, of the procedures whose success arm has more. -/
theorem refusal_recognised_iff (hproc : procedure ∈ [7, 8, 9, 10]) (stat : Nfsstat3) :
    Recognised procedure (spell stat ++ spell ({} : WccData)) ↔ stat ≠ .ok := by
  by_cases hstat : stat = .ok
  · subst hstat
    refine iff_of_false (not_recognised ?_) (not_not_intro rfl)
    simp only [List.mem_cons, List.not_mem_nil, or_false] at hproc
    obtain rfl | rfl | rfl | rfl := hproc <;> exact run_bind_none (union_run_ok rfl)
  · have hsubset : ([7, 8, 9, 10] : List UInt32) ⊆ [2, 7, 8, 9, 10, 12, 13] := by decide
    exact iff_of_true (wccFailure_recognised (hsubset hproc) hstat _) hstat

/-- A `SETATTR` result behind which another reply follows. -/
theorem setattr_twice_not_recognised {more : Bytes} (h : more ≠ []) :
    ¬ Recognised 2 (spell Nfsstat3.notSync ++ (spell ({} : WccData) ++ more)) := by
  rintro ⟨result, hrun, -⟩
  have hfirst : Parses Client.setAttr (spell Nfsstat3.notSync ++ spell ({} : WccData))
      (.err Nfsstat3.notSync.received ({} : WccData).received) :=
    union_parses_err (by decide) ((wcc_parses_spell {}).map _)
  have hread := hfirst.map NfsResult.setAttr more
  rw [List.append_assoc] at hread
  cases hread.symm.trans hrun
  exact h rfl

/-- Both arms of these unions are the same. -/
theorem wccResult_recognised (hproc : procedure ∈ [2, 12, 13]) (stat : Nfsstat3) (wcc : WccData) :
    Recognised procedure (spell stat ++ spell wcc) := by
  by_cases hstat : stat = .ok
  · have hwcc := wcc_parses_spell wcc
    subst hstat
    simp only [List.mem_cons, List.not_mem_nil, or_false] at hproc
    obtain rfl | rfl | rfl := hproc <;> exact .of_parses ((union_parses_ok (hwcc.map _)).map _) rfl
  · have hsubset : ([2, 12, 13] : List UInt32) ⊆ [2, 7, 8, 9, 10, 12, 13] := by decide
    exact wccFailure_recognised (hsubset hproc) hstat wcc

/-- Two `wcc_data` are a result of `RENAME` with any status. -/
theorem rename_recognised (stat : Nfsstat3) (fromWcc toWcc : WccData) :
    Recognised 14 (spell stat ++ (spell fromWcc ++ spell toWcc)) := by
  have hwcc := wcc_parses_spell toWcc
  by_cases hstat : stat = .ok
  · subst hstat
    exact .of_parses ((union_parses_ok ((wcc_parses_spell fromWcc).bind (hwcc.map _))).map _) rfl
  · exact .of_parses ((union_parses_err hstat ((wcc_parses_spell fromWcc).bind (hwcc.map _))).map _) rfl

/-- The results of the procedures that create an object are read alike. -/
theorem creates_recognised_iff (hproc : procedure ∈ [8, 9, 10]) : Recognised procedure w ↔ Recognised 8 w := by
  have hwrap : ∀ wrap : Nfs3.CreateResult → NfsResult, (∀ created, HandlesFit (wrap created) ↔ HandlesFit (.create created)) →
      ((∃ result, (Client.create >>= fun created => pure (wrap created)).run w = some (result, []) ∧ HandlesFit result) ↔
        ∃ created, Client.create.run w = some (created, []) ∧ HandlesFit (.create created)) := by
    intro wrap hfit
    rw [StateT.run_bind]
    constructor
    · rintro ⟨result, hrun, hresult⟩
      obtain ⟨⟨created, rest⟩, hcreated, hreturn⟩ := Option.bind_eq_some_iff.mp hrun
      cases hreturn
      exact ⟨created, hcreated, (hfit created).mp hresult⟩
    · rintro ⟨created, hcreated, hresult⟩
      exact ⟨wrap created, Option.bind_eq_some_iff.mpr ⟨_, hcreated, rfl⟩, (hfit created).mpr hresult⟩
  have hcreate := hwrap .create fun _ => Iff.rfl
  simp only [List.mem_cons, List.not_mem_nil, or_false] at hproc
  obtain rfl | rfl | rfl := hproc
  · exact Iff.rfl
  · exact (hwrap .mkdir fun created => by cases created <;> rfl).trans hcreate.symm
  · exact (hwrap .symlink fun created => by cases created <;> rfl).trans hcreate.symm

/-- Behind the status of a success, a client reads the `wcc_data` of a directory as a handle, the attributes of an
object and a `wcc_data`. The high half of the size would have to be the length of the handle. -/
def SpellsCreation (before : Fattr3) (after : PostOpAttr) : Prop :=
  Recognised 8 (spell Nfsstat3.ok ++ spell (WccData.mk (some (wccAttr before)) after))

/-- A failure of the procedures that create an object, with the `wcc_data` of the directory. -/
theorem createFailure_recognised_iff (hproc : procedure ∈ [8, 9, 10]) (stat : Nfsstat3) (before : Fattr3)
    (after : PostOpAttr) : Recognised procedure (spell stat ++ spell (WccData.mk (some (wccAttr before)) after)) ↔
      (stat = .ok → SpellsCreation before after) := by
  by_cases hstat : stat = .ok
  · subst hstat
    rw [imp_iff_right rfl]
    exact creates_recognised_iff hproc
  · have hsubset : ([8, 9, 10] : List UInt32) ⊆ [2, 7, 8, 9, 10, 12, 13] := by decide
    exact iff_of_true (wccFailure_recognised (hsubset hproc) hstat _) fun h => absurd h hstat

/-! ## Successes -/

/-- A created object is recognised if its handle is short enough. -/
theorem created_recognised_iff (hproc : procedure ∈ [8, 9, 10]) {handle : NfsFh3}
    (hfits : Fits (2 ^ 32 - 1) (some handle : PostOpFh3)) (attr : PostOpAttr) (wcc : WccData) :
    Recognised procedure (spell Nfsstat3.ok ++ (spell (some handle : PostOpFh3) ++ (spell attr ++ spell wcc))) ↔
      handle.data.length ≤ Nfs.NFS3_FHSIZE.toNat := by
  have hcreate : Parses Client.create
      (spell Nfsstat3.ok ++ (spell (some handle : PostOpFh3) ++ (spell attr ++ spell wcc)))
      (.ok (some handle.data) (attr.map Fattr3.received) wcc.received) :=
    union_parses_ok <| (postOpFh_parses hfits).bind <| (postOpAttr_parses attr).bind <| (wcc_parses_spell wcc).map _
  rw [creates_recognised_iff hproc]
  exact (recognised_iff 8 (hcreate.map NfsResult.create)).trans List.forall_mem_singleton

/-- So is an object that was looked up. -/
theorem lookup_recognised_iff {object : NfsFh3} (hfits : Fits (2 ^ 32 - 1) object) (objAttr dirAttr : PostOpAttr) :
    Recognised 3 (spell Nfsstat3.ok ++ (spell object ++ (spell objAttr ++ spell dirAttr))) ↔
      object.data.length ≤ Nfs.NFS3_FHSIZE.toNat := by
  have hlookup : Parses (NfsResult.parser 3) (spell Nfsstat3.ok ++ (spell object ++ (spell objAttr ++ spell dirAttr)))
      (.lookup (.ok object.data (objAttr.map Fattr3.received) (dirAttr.map Fattr3.received))) := by
    refine Parses.map (union_parses_ok ?_) _
    exact (handle_parses hfits).bind <| (postOpAttr_parses objAttr).bind <| (postOpAttr_parses dirAttr).map _
  exact (recognised_iff 3 hlookup).trans List.forall_mem_singleton

theorem readlink_recognised {path : Nfspath3} (hfits : Fits (2 ^ 32 - 1) path) (attr : PostOpAttr) :
    Recognised 5 (spell Nfsstat3.ok ++ (spell attr ++ spell path)) := by
  have hread : Parses (NfsResult.parser 5) (spell Nfsstat3.ok ++ (spell attr ++ spell path))
      (.readLink (.ok (attr.map Fattr3.received) path)) := by
    refine Parses.map (union_parses_ok ?_) _
    exact (postOpAttr_parses attr).bind <| (payload_parses_spell hfits).map _
  exact .of_parses hread rfl

/-- The count of a `READ` is the length of its data. -/
theorem read_recognised {data : Bytes} (hfits : Fits (2 ^ 32 - 1) data) (attr : PostOpAttr) (eof : Bool) :
    Recognised 6 (spell Nfsstat3.ok ++ spell (READ3resok.mk attr (UInt32.ofNat data.length) eof data)) := by
  have hcount : (UInt32.ofNat data.length).toNat = data.length :=
    UInt32.toNat_ofNat_of_lt' (Nat.lt_trans hfits (by decide))
  have hread : Parses (NfsResult.parser 6)
      (spell Nfsstat3.ok ++ spell (READ3resok.mk attr (UInt32.ofNat data.length) eof data))
      (.read (.ok (attr.map Fattr3.received) data eof)) := by
    refine Parses.map (union_parses_ok ?_) _
    refine (postOpAttr_parses attr).bind <| (u32_parses_spell _).bind <| (boolean_parses_spell eof).bind <|
      (payload_parses_spell hfits).bind_nil ?_
    rw [if_pos hcount]
    exact Parses.pure _
  exact .of_parses hread rfl

theorem write_recognised (wcc : WccData) (count : Count3) (verf : Writeverf3) :
    Recognised 7 (spell Nfsstat3.ok ++ spell (WRITE3resok.mk wcc count .fileSync verf)) := by
  have hstable : Parses stability (spell StableHow.fileSync) .fileSync :=
    parses_of_field (stability_parses .fileSync) trivial
  have hwrite : Parses (NfsResult.parser 7)
      (spell Nfsstat3.ok ++ spell (WRITE3resok.mk wcc count .fileSync verf))
      (.write (.ok wcc.received count .fileSync verf)) := by
    refine Parses.map (union_parses_ok ?_) _
    exact (wcc_parses_spell wcc).bind <| (u32_parses_spell count).bind <| hstable.bind <|
      (verifier_parses_spell verf).map _
  exact .of_parses hwrite rfl

/-! ## Pages -/

theorem readdirPage_recognised {written : List Entry3} (h : ∀ made ∈ written, Fits (2 ^ 32 - 1) made)
    (dirAttr : PostOpAttr) (version : Cookieverf3) (eof : Bool) :
    Recognised 16 (spell Nfsstat3.ok ++ pageBytes dirAttr version written eof) := by
  refine (readDir_recognised (page_parses fun made hmem => entry3_parses (h made hmem))
    (by simp [HasShape, Entry3.received, isPlus])).mpr ?_
  simp [HandlesFit, resultHandles, entryHandles, Entry3.received]

/-- A page of `READDIRPLUS`, by the handles of its entries. -/
theorem readdirplusPage_recognised_iff {written : List Entryplus3} (h : ∀ made ∈ written, Fits (2 ^ 32 - 1) made)
    (dirAttr : PostOpAttr) (version : Cookieverf3) (eof : Bool) :
    Recognised 17 (spell Nfsstat3.ok ++ pageBytes dirAttr version written eof) ↔
      ∀ made ∈ written, ∀ handle ∈ made.nameHandle, handle.data.length ≤ Nfs.NFS3_FHSIZE.toNat := by
  rw [readDirPlus_recognised (page_parses fun made hmem => entryplus3_parses (h made hmem))
    (by simp [HasShape, Entryplus3.received, isPlus])]
  simp only [HandlesFit, resultHandles, List.mem_flatMap, List.mem_map]
  constructor
  · intro hfit made hmem handle hhandle
    refine hfit handle.data ⟨made.received, ⟨made, hmem, rfl⟩, ?_⟩
    rw [entryHandles, Entryplus3.received, Option.mem_def.mp hhandle]
    exact List.mem_singleton_self _
  · rintro hshort bytes ⟨_, ⟨made, hmem, rfl⟩, hbytes⟩
    cases hhandle : made.nameHandle with
    | none =>
      rw [entryHandles, Entryplus3.received, hhandle] at hbytes
      cases hbytes
    | some handle =>
      rw [entryHandles, Entryplus3.received, hhandle] at hbytes
      cases List.mem_singleton.mp hbytes
      exact hshort made hmem handle hhandle

end NfsEmbed.Legacy
