import NfsEmbed.Laws.Server.Exports

/-!
# From a path to the mounted object

Where an export matches a requested path, the components of the path are those of the export followed
by the ones below it, and `MNT` looks these up one after the other from the root.

The law is `mount_resolves_components`.
-/

namespace NfsEmbed.Server

open Lib Rpc Vfs Mount3
open Prog (Ends)

/-! ## Components -/

@[simp] theorem pathComponents_nil : pathComponents [] = [] := rfl

/-- A slash separates the components in front of it from those behind it. -/
theorem pathComponents_append (path rest : Bytes) :
    pathComponents (path ++ 0x2f :: rest) = pathComponents path ++ pathComponents rest := by
  have hsplit : (path ++ 0x2f :: rest).splitOn 0x2f = path.splitOn 0x2f ++ rest.splitOn 0x2f :=
    List.splitOnP_append_cons (p := (· == 0x2f)) path rest rfl
  unfold pathComponents
  rw [hsplit, List.filter_append]

/-- Stripping the export off a path that it matches leaves the components below the export. -/
theorem mountSuffix_of_matches {exportPath requested : Bytes} (h : exportMatches exportPath requested = true) :
    ∃ suffix, mountSuffix exportPath requested = .ok suffix ∧
      pathComponents requested = pathComponents exportPath ++ pathComponents suffix := by
  have hstrip : ∀ path rest : Bytes, stripPrefix path (path ++ rest) = some rest := by
    intro path rest
    unfold stripPrefix
    rw [if_pos (List.isPrefixOf_iff_prefix.mpr (List.prefix_append path rest)), List.drop_left]
  have hroot : ∀ rest : Bytes, mountSuffix [0x2f] (0x2f :: rest) = .ok rest := by
    intro rest
    unfold mountSuffix
    rw [if_pos rfl, show (0x2f :: rest : Bytes) = [0x2f] ++ rest from rfl, hstrip]
    rfl
  have hslash : ∀ rest : Bytes, pathComponents (0x2f :: rest) = pathComponents [0x2f] ++ pathComponents rest := by
    intro rest
    exact pathComponents_append [] rest
  rw [exportMatches_iff] at h
  by_cases hpath : exportPath = [0x2f]
  · subst hpath
    obtain rfl | ⟨_, rest, rfl⟩ | ⟨rest, rfl⟩ := h
    · exact ⟨[], hroot [], rfl⟩
    · exact ⟨rest, hroot rest, hslash rest⟩
    · exact ⟨0x2f :: rest, hroot _, hslash _⟩
  · have hsuffix : ∀ rest, mountSuffix exportPath (exportPath ++ rest) =
        .ok ((stripPrefix [0x2f] rest).getD []) := by
      intro rest
      unfold mountSuffix
      rw [if_neg hpath, hstrip]
    obtain rfl | ⟨hslash, _⟩ | ⟨rest, rfl⟩ := h
    · refine ⟨[], ?_, by simp⟩
      have hwhole := hsuffix []
      rwa [List.append_nil] at hwhole
    · exact absurd hslash hpath
    · refine ⟨rest, ?_, pathComponents_append exportPath rest⟩
      rw [hsuffix, show (0x2f :: rest : Bytes) = [0x2f] ++ rest from rfl, hstrip]
      rfl

/-! ## The chain of lookups -/

/-- Looking up components one after the other, with the dialogue it takes and how it ends. -/
inductive LookupChain (entry : ExportState) (context : RequestContext) :
    ObjectKey → List Bytes → Dialogue → Except NfsError ObjectKey → Prop
  | reached (object : ObjectKey) : LookupChain entry context object [] [] (.ok object)
  | invalid (object : ObjectKey) (component : Bytes) (rest : List Bytes) (error : NfsError) :
    NfsName.new component = .error error →
    LookupChain entry context object (component :: rest) [] (.error error)
  | failed (object : ObjectKey) (component : Bytes) (rest : List Bytes) (name : NfsName) (error : NfsError) :
    NfsName.new component = .ok name →
    LookupChain entry context object (component :: rest)
      [⟨.vfs entry context (.lookup object name), .error error⟩] (.error error)
  | found (object : ObjectKey) (component : Bytes) (rest : List Bytes) (name : NfsName)
      (child : CreatedObject) (lookups : Dialogue) (result : Except NfsError ObjectKey) :
    NfsName.new component = .ok name → LookupChain entry context child.object rest lookups result →
    LookupChain entry context object (component :: rest)
      (⟨.vfs entry context (.lookup object name), .ok child⟩ :: lookups) result

section Chain

variable {context : RequestContext} {entry : ExportState}

theorem callVfs_ends_iff {α : Type} {method : VfsMethod} {next : method.Answer → ServerM α} {dialogue : Dialogue}
    {outcome : Except ServerError α} :
    Ends (callVfs context entry method >>= next) dialogue outcome ↔
      ∃ answer rest, dialogue = ⟨.vfs entry context method, answer⟩ :: rest ∧ Ends (next answer) rest outcome := by
  constructor
  · intro h
    cases h with
    | ask hrest => exact ⟨_, _, rfl, hrest⟩
  · rintro ⟨answer, rest, rfl, hrest⟩
    exact .ask hrest

/-- The loop of `resolve_mount_object` is the chain of lookups, whatever the backend answers. -/
theorem walk_ends_iff (components : List Bytes) {object : ObjectKey} {dialogue : Dialogue}
    {outcome : Except ServerError (Except NfsError ObjectKey)} :
    Ends (walk context entry object components) dialogue outcome ↔
      ∃ result, outcome = .ok result ∧ LookupChain entry context object components dialogue result := by
  induction components generalizing object dialogue with
  | nil =>
    constructor
    · intro h
      cases h
      exact ⟨_, rfl, .reached object⟩
    · rintro ⟨result, rfl, hchain⟩
      cases hchain
      exact .done _
  | cons component rest ih =>
    unfold walk
    cases hname : NfsName.new component with
    | error error =>
      constructor
      · intro h
        cases h
        exact ⟨_, rfl, .invalid object component rest error hname⟩
      · rintro ⟨result, rfl, hchain⟩
        cases hchain with
        | invalid _ _ _ _ hname' =>
          cases hname.symm.trans hname'
          exact .done _
        | failed _ _ _ _ _ hname' | found _ _ _ _ _ _ _ hname' => cases hname.symm.trans hname'
    | ok name =>
      dsimp only
      rw [callVfs_ends_iff]
      constructor
      · rintro ⟨answer, lookups, rfl, hrest⟩
        cases answer with
        | error error =>
          cases hrest
          exact ⟨_, rfl, .failed object component rest name error hname⟩
        | ok child =>
          obtain ⟨result, rfl, hchain⟩ := ih.mp hrest
          exact ⟨result, rfl, .found object component rest name child lookups result hname hchain⟩
      · rintro ⟨result, rfl, hchain⟩
        cases hchain with
        | invalid _ _ _ _ hname' => cases hname.symm.trans hname'
        | failed _ _ _ _ error hname' =>
          cases hname.symm.trans hname'
          exact ⟨.error error, [], rfl, .done _⟩
        | found _ _ _ _ child lookups _ hname' hrest =>
          cases hname.symm.trans hname'
          exact ⟨.ok child, lookups, rfl, ih.mpr ⟨result, rfl, hrest⟩⟩

end Chain

/-- `MNT` resolves exactly the components below the export. Where the export matches the requested path,
stripping it off does not fail, what is left are the components of the path after those of the export,
and resolving asks for the root and then goes through the chain of lookups of these, in every dialogue
with the backend. -/
theorem mount_resolves_components (context : RequestContext) (entry : ExportState) (requested : Bytes)
    (h : exportMatches entry.path requested = true) :
    ∃ suffix, mountSuffix entry.path requested = .ok suffix ∧
      pathComponents requested = pathComponents entry.path ++ pathComponents suffix ∧
      ∀ dialogue outcome, Ends (resolveMountObject context entry requested) dialogue outcome ↔
        ∃ root lookups result, dialogue = ⟨.vfs entry context .root, root⟩ :: lookups ∧ outcome = .ok result ∧
          LookupChain entry context root (pathComponents suffix) lookups result := by
  obtain ⟨suffix, hsuffix, hcomponents⟩ := mountSuffix_of_matches h
  refine ⟨suffix, hsuffix, hcomponents, fun dialogue outcome => ?_⟩
  unfold resolveMountObject
  rw [hsuffix]
  dsimp only
  rw [callVfs_ends_iff]
  simp only [walk_ends_iff]
  constructor
  · rintro ⟨root, lookups, hdialogue, result, houtcome, hchain⟩
    exact ⟨root, lookups, result, hdialogue, houtcome, hchain⟩
  · rintro ⟨root, lookups, result, hdialogue, houtcome, hchain⟩
    exact ⟨root, lookups, hdialogue, result, houtcome, hchain⟩

/-- Below the export `/`, the path `/x//y` has the components `x` and `y`. -/
theorem mount_resolves_components_root :
    pathComponents [0x2f, 0x78, 0x2f, 0x2f, 0x79] = [[0x78], [0x79]] ∧
    ∃ suffix, mountSuffix sampleExport.path [0x2f, 0x78, 0x2f, 0x2f, 0x79] = .ok suffix ∧
      pathComponents [0x2f, 0x78, 0x2f, 0x2f, 0x79] = pathComponents sampleExport.path ++ pathComponents suffix := by
  obtain ⟨suffix, hsuffix, hcomponents, -⟩ :=
    mount_resolves_components ⟨.anonymous, .v4 0 700, ⟨7⟩⟩ sampleExport [0x2f, 0x78, 0x2f, 0x2f, 0x79] (by decide)
  exact ⟨by decide, suffix, hsuffix, hcomponents⟩

end NfsEmbed.Server
