import NfsEmbed.Laws.Rpc.Codec
import NfsEmbed.Rpc.Auth

/-!
# What credentials decode to

An `AUTH_SYS` body is read whole and field by field, so a decoded principal respects the limits on
its machine name and its groups.
-/

namespace NfsEmbed.Rpc

open Lib Vfs

/-- Any stamp is accepted, and dropped. -/
theorem decodeAuthSys_reads : Reads usizeBound decodeAuthSys (fun principal w =>
    ∃ stamp uid gid : UInt32, ∃ gids name, principal = .authSys uid gid gids name ∧
      name.length ≤ MAX_MACHINE_NAME ∧ gids.length ≤ MAX_GROUPS ∧
      w = stamp.toBeBytes ++ (opaqueBytes name ++ (uid.toBeBytes ++ (gid.toBeBytes ++
        ((UInt32.ofNat gids.length).toBeBytes ++ gids.flatMap UInt32.toBeBytes))))) := by
  refine (Decoder.readU32_reads.bind fun stamp =>
    (Decoder.readOpaqueSlice_reads "AUTH_SYS machine name" MAX_MACHINE_NAME).bind fun name =>
    Decoder.readU32_reads.bind fun uid => Decoder.readU32_reads.bind fun gid =>
    (Decoder.readArray_reads Decoder.readU32_reads.total "AUTH_SYS groups" MAX_GROUPS).bind fun gids =>
    Reads.pure (Principal.authSys uid gid gids name)).congr fun principal w => ⟨fun h => ?_, fun h => ?_⟩
  · obtain ⟨stamp, _, _, rfl, ⟨name, _, _, ⟨hname, _, rfl⟩, ⟨uid, _, _, rfl, ⟨gid, _, _, rfl,
      ⟨gids, _, _, ⟨hgids, _, _, hmany, rfl⟩, ⟨rfl, rfl⟩, rfl⟩, rfl⟩, rfl⟩, rfl⟩, rfl⟩ := h
    obtain ⟨-, rfl⟩ := (Format.many_iff_flatMap gids _).mp hmany
    exact ⟨stamp, uid, gid, gids, name, rfl, hname, hgids, by simp only [List.append_nil]⟩
  · obtain ⟨stamp, uid, gid, gids, name, rfl, hname, hgids, rfl⟩ := h
    have hname' : name.length < 2 ^ 32 := Nat.lt_of_le_of_lt hname (by decide)
    have hgids' : gids.length < 2 ^ 32 := Nat.lt_of_le_of_lt hgids (by decide)
    have hmany : Format.many (fun group w => True ∧ w = group.toBeBytes) gids
        (gids.flatMap UInt32.toBeBytes) :=
      (Format.many_iff_flatMap gids _).mpr ⟨fun _ _ => trivial, rfl⟩
    exact ⟨stamp, _, _, rfl, ⟨name, _, _, ⟨hname, hname', rfl⟩, ⟨uid, _, _, rfl, ⟨gid, _, _, rfl,
      ⟨gids, _, [], ⟨hgids, hgids', _, hmany, rfl⟩, ⟨rfl, rfl⟩, (List.append_nil _).symm⟩, rfl⟩, rfl⟩,
      rfl⟩, rfl⟩

/-- A decoded principal is anonymous, or within the limits of `AUTH_SYS`. -/
theorem decodePrincipal_ok {flavor : UInt32} {body : Bytes} {principal : Principal}
    (h : decodePrincipal flavor body = .ok principal) :
    principal = .anonymous ∨ ∃ uid gid gids name, principal = .authSys uid gid gids name ∧
      name.length ≤ MAX_MACHINE_NAME ∧ gids.length ≤ MAX_GROUPS := by
  unfold decodePrincipal at h
  split at h
  next =>
    split at h
    next => exact .inl (Except.ok.inj h).symm
    next => cases h
  next =>
    split at h
    next =>
      obtain ⟨_, uid, gid, gids, name, hprincipal, hname, hgids, _⟩ :=
        Decoder.format_of_run_finish decodeAuthSys_reads h
      exact .inr ⟨uid, gid, gids, name, hprincipal, hname, hgids⟩
    next => cases h

end NfsEmbed.Rpc
