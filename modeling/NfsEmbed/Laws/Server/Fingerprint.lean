import NfsEmbed.Laws.Rpc.Auth
import NfsEmbed.Server.Fingerprint

/-!
# What the request fingerprint separates

The header of the hashed string has a fixed width and the principal's bytes end it, but the argument
bytes between them carry no length. Two different calls are hashed alike exactly when the arguments
of one run over into the credential fields of the other (`RunsOver`).

The law is `hashed_separates_iff`. It is about the hashed strings: nothing is assumed of the hash.
-/

namespace NfsEmbed.Server

open Lib Rpc Vfs

/-- A principal some credential decodes to. -/
def Decoded (principal : Principal) : Prop :=
  ∃ flavor body, decodePrincipal flavor body = .ok principal

/-- The fields of an `AUTH_SYS` credential, tagged and with their lengths. -/
def authSysFields (uid gid : UInt32) (gids : List UInt32) (name : Bytes) : Bytes :=
  [1] ++ uid.toBeBytes ++ gid.toBeBytes ++ (UInt32.ofNat gids.length).toBeBytes ++
    gids.flatMap UInt32.toBeBytes ++ (UInt32.ofNat name.length).toBeBytes ++ name

/-- The arguments of `longer` are those of `shorter` and, after them, the first of the credential
fields of `shorter`, while the rest of these fields spells the principal of `longer`: a zero byte if
it is anonymous, which a machine name that is empty or ends in a zero byte provides, or all of its
own credential fields. -/
def RunsOver (shorter longer : Call) : Prop :=
  ∃ uid gid gids name spill, shorter.principal = .authSys uid gid gids name ∧
    longer.args = shorter.args ++ spill ∧
    ((longer.principal = .anonymous ∧ (name = [] ∨ name.getLast? = some 0) ∧
        spill = (authSysFields uid gid gids name).dropLast) ∨
      ∃ uid' gid' gids' name', longer.principal = .authSys uid' gid' gids' name' ∧ spill ≠ [] ∧
        authSysFields uid gid gids name = spill ++ authSysFields uid' gid' gids' name')

/-! ## Principals -/

theorem hashPrincipal_authSys (uid gid : UInt32) (gids : List UInt32) (name : Bytes) :
    hashPrincipal (.authSys uid gid gids name) = authSysFields uid gid gids name := rfl

theorem ofNat_length_inj {m n : Nat} (hm : m < 2 ^ 32) (hn : n < 2 ^ 32)
    (h : (UInt32.ofNat m).toBeBytes = (UInt32.ofNat n).toBeBytes) : m = n := by
  have := congrArg UInt32.toNat (UInt32.toBeBytes_injective h)
  rwa [UInt32.toNat_ofNat_of_lt' hm, UInt32.toNat_ofNat_of_lt' hn] at this

/-- The credential fields determine each other's extent. -/
theorem authSysFields_inj {uid gid uid' gid' : UInt32} {gids gids' : List UInt32} {name name' : Bytes}
    (hgids : gids.length < 2 ^ 32) (hgids' : gids'.length < 2 ^ 32)
    (h : authSysFields uid gid gids name = authSysFields uid' gid' gids' name') :
    uid = uid' ∧ gid = gid' ∧ gids = gids' ∧ name = name' := by
  simp only [authSysFields, List.append_assoc, List.cons_append, List.nil_append, List.cons.injEq,
    true_and] at h
  obtain ⟨huid, h⟩ := List.append_inj h (by simp only [UInt32.length_toBeBytes])
  obtain ⟨hgid, h⟩ := List.append_inj h (by simp only [UInt32.length_toBeBytes])
  obtain ⟨hcount, h⟩ := List.append_inj h (by simp only [UInt32.length_toBeBytes])
  obtain ⟨hgroups, h⟩ := flatMap_append_inj UInt32.length_toBeBytes UInt32.toBeBytes_injective
    (ofNat_length_inj hgids hgids' hcount) h
  obtain ⟨_, hname⟩ := List.append_inj h (by simp only [UInt32.length_toBeBytes])
  exact ⟨UInt32.toBeBytes_injective huid, UInt32.toBeBytes_injective hgid, hgroups, hname⟩

/-- The credential fields are injective on principals. -/
theorem hashPrincipal_inj {p p' : Principal} (hp : Decoded p) (hp' : Decoded p')
    (h : hashPrincipal p = hashPrincipal p') : p = p' := by
  obtain ⟨_, _, hp⟩ := hp
  obtain ⟨_, _, hp'⟩ := hp'
  rcases decodePrincipal_ok hp with rfl | ⟨uid, gid, gids, name, rfl, _, hgids⟩ <;>
    rcases decodePrincipal_ok hp' with rfl | ⟨uid', gid', gids', name', rfl, _, hgids'⟩
  · rfl
  · cases h
  · cases h
  · have hbound : MAX_GROUPS < 2 ^ 32 := by decide
    obtain ⟨rfl, rfl, rfl, rfl⟩ := authSysFields_inj (Nat.lt_of_le_of_lt hgids hbound)
      (Nat.lt_of_le_of_lt hgids' hbound) h
    rfl

/-- The last byte of the credential fields is the machine name's, or that of its zero length. -/
theorem authSysFields_getLast?_eq_zero {uid gid : UInt32} {gids : List UInt32} {name : Bytes} :
    (authSysFields uid gid gids name).getLast? = some 0 ↔ name = [] ∨ name.getLast? = some 0 := by
  unfold authSysFields
  cases name with
  | nil =>
    simp only [List.length_nil, List.append_nil, true_or, iff_true]
    rw [List.getLast?_append]
    rfl
  | cons =>
    rw [List.getLast?_append_of_ne_nil _ (List.cons_ne_nil _ _)]
    simp only [reduceCtorEq, false_or]

/-! ## Calls -/

/-- The argument bytes of one call against those of the other: whichever are shorter, the rest of
that call's hashed string is the difference and the other's principal. -/
theorem hashed_eq_iff (a b : Call) : a.hashed = b.hashed ↔
    a.program = b.program ∧ a.version = b.version ∧ a.procedure = b.procedure ∧
      a.args ++ hashPrincipal a.principal = b.args ++ hashPrincipal b.principal := by
  unfold Call.hashed
  simp only [List.append_assoc]
  constructor
  · intro h
    obtain ⟨hprogram, h⟩ := List.append_inj h (by simp only [UInt32.length_toBeBytes])
    obtain ⟨hversion, h⟩ := List.append_inj h (by simp only [UInt32.length_toBeBytes])
    obtain ⟨hprocedure, h⟩ := List.append_inj h (by simp only [UInt32.length_toBeBytes])
    exact ⟨UInt32.toBeBytes_injective hprogram, UInt32.toBeBytes_injective hversion,
      UInt32.toBeBytes_injective hprocedure, h⟩
  · rintro ⟨hprogram, hversion, hprocedure, h⟩
    rw [hprogram, hversion, hprocedure, h]

/-- Arguments that run over are exactly a non-empty difference between the arguments that the
principals make up for. -/
theorem runsOver_iff {a b : Call} (ha : Decoded a.principal) (hb : Decoded b.principal) :
    RunsOver a b ↔ ∃ spill, spill ≠ [] ∧ b.args = a.args ++ spill ∧
      hashPrincipal a.principal = spill ++ hashPrincipal b.principal := by
  constructor
  · rintro ⟨uid, gid, gids, name, spill, ha, hargs, hcase⟩
    rw [ha, hashPrincipal_authSys]
    rcases hcase with ⟨hb, hname, rfl⟩ | ⟨uid', gid', gids', name', hb, hover, hfields⟩
    · refine ⟨_, ?_, hargs, ?_⟩
      · simp only [authSysFields, List.append_assoc, List.cons_append, List.nil_append]
        rw [List.dropLast_cons_of_ne_nil]
        · exact List.cons_ne_nil _ _
        · intro hnil
          have := congrArg List.length hnil
          rw [List.length_append, UInt32.length_toBeBytes] at this
          simp only [List.length_nil] at this
          omega
      · rw [hb]
        exact (List.dropLast_append_getLast? 0 (authSysFields_getLast?_eq_zero.mpr hname)).symm
    · exact ⟨spill, hover, hargs, by rw [hb, hfields, hashPrincipal_authSys]⟩
  · rintro ⟨spill, hover, hargs, hsplit⟩
    obtain ⟨_, _, ha⟩ := ha
    obtain ⟨_, _, hb⟩ := hb
    rcases decodePrincipal_ok ha with ha | ⟨uid, gid, gids, name, ha, _⟩
    · -- a single byte leaves nothing to run over into
      rw [ha] at hsplit
      have hlen := congrArg List.length hsplit
      have hover := List.length_pos_iff.mpr hover
      have hpos : 0 < (hashPrincipal b.principal).length := by
        cases b.principal with
        | anonymous => exact Nat.one_pos
        | authSys => exact Nat.succ_pos _
      rw [List.length_append] at hlen
      change 1 = _ at hlen
      omega
    rw [ha, hashPrincipal_authSys] at hsplit
    refine ⟨uid, gid, gids, name, spill, ha, hargs, ?_⟩
    rcases decodePrincipal_ok hb with hb | ⟨uid', gid', gids', name', hb, _⟩
    · rw [hb] at hsplit
      have hlast : (authSysFields uid gid gids name).getLast? = some 0 := by
        rw [hsplit]
        exact List.getLast?_concat
      refine .inl ⟨hb, authSysFields_getLast?_eq_zero.mp hlast, ?_⟩
      rw [hsplit]
      exact List.dropLast_concat.symm
    · exact .inr ⟨uid', gid', gids', name', hb, hover, by rw [hsplit, hb, hashPrincipal_authSys]⟩

/-- Calls of one procedure with the same arguments are hashed alike only if they are the same. -/
theorem eq_of_args_eq {a b : Call} (ha : Decoded a.principal) (hb : Decoded b.principal)
    (hprogram : a.program = b.program) (hversion : a.version = b.version)
    (hprocedure : a.procedure = b.procedure) (hargs : a.args = b.args)
    (hprincipal : hashPrincipal a.principal = hashPrincipal b.principal) : a = b := by
  have := hashPrincipal_inj ha hb hprincipal
  cases a; cases b
  simp only at *
  simp only [hprogram, hversion, hprocedure, hargs, this]

theorem hashed_eq_of_runsOver {a b : Call} (ha : Decoded a.principal) (hb : Decoded b.principal)
    (hprogram : a.program = b.program) (hversion : a.version = b.version)
    (hprocedure : a.procedure = b.procedure) (h : RunsOver a b) :
    a ≠ b ∧ a.hashed = b.hashed := by
  obtain ⟨spill, hover, hargs, hprincipal⟩ := (runsOver_iff ha hb).mp h
  refine ⟨?_, (hashed_eq_iff a b).mpr ⟨hprogram, hversion, hprocedure, ?_⟩⟩
  · rintro rfl
    exact hover (List.self_eq_append_right.mp hargs)
  · rw [hargs, hprincipal, List.append_assoc]

/-- The hashed strings of two different calls differ, unless they call the same procedure and the
arguments of one run over into the credential fields of the other. -/
theorem hashed_separates_iff (a b : Call) (ha : Decoded a.principal) (hb : Decoded b.principal) :
    (a ≠ b → a.hashed ≠ b.hashed) ↔
      ¬ (a.program = b.program ∧ a.version = b.version ∧ a.procedure = b.procedure ∧
        (RunsOver a b ∨ RunsOver b a)) := by
  constructor
  · rintro hseparates ⟨hprogram, hversion, hprocedure, hover | hover⟩
    · obtain ⟨hne, heq⟩ := hashed_eq_of_runsOver ha hb hprogram hversion hprocedure hover
      exact hseparates hne heq
    · obtain ⟨hne, heq⟩ :=
        hashed_eq_of_runsOver hb ha hprogram.symm hversion.symm hprocedure.symm hover
      exact hseparates (Ne.symm hne) heq.symm
  · intro hnot hne heq
    obtain ⟨hprogram, hversion, hprocedure, hsplit⟩ := (hashed_eq_iff a b).mp heq
    refine hnot ⟨hprogram, hversion, hprocedure, ?_⟩
    rw [runsOver_iff ha hb, runsOver_iff hb ha]
    -- whichever arguments are shorter, equal arguments would make the calls equal
    rcases List.append_eq_append_iff.mp hsplit with ⟨spill, hargs, hprincipal⟩ | ⟨spill, hargs, hprincipal⟩
    · refine .inl ⟨spill, ?_, hargs, hprincipal⟩
      rintro rfl
      rw [List.append_nil] at hargs
      exact hne (eq_of_args_eq ha hb hprogram hversion hprocedure hargs.symm hprincipal)
    · refine .inr ⟨spill, ?_, hargs, hprincipal⟩
      rintro rfl
      rw [List.append_nil] at hargs
      exact hne (eq_of_args_eq ha hb hprogram hversion hprocedure hargs hprincipal.symm)

/-! ## Two calls hashed alike

A GETATTR by user 1000 with an empty machine name, and an anonymous call of the same procedure
whose arguments go on with the first sixteen of the seventeen bytes hashed for that user. -/

def userCall : Call :=
  ⟨100003, 3, 1, [0, 0, 0, 4, 0xde, 0xad, 0xbe, 0xef], .authSys 1000 1000 [] []⟩

def anonymousCall : Call :=
  ⟨100003, 3, 1, [0, 0, 0, 4, 0xde, 0xad, 0xbe, 0xef, 1, 0, 0, 3, 232, 0, 0, 3, 232, 0, 0, 0, 0, 0, 0, 0],
    .anonymous⟩

theorem userCall_decoded : Decoded userCall.principal :=
  ⟨AUTH_SYS, [0, 0, 0, 0, 0, 0, 0, 0, 0, 0, 3, 232, 0, 0, 3, 232, 0, 0, 0, 0], by decide⟩

theorem anonymousCall_decoded : Decoded anonymousCall.principal := ⟨AUTH_NONE, [], rfl⟩

/-- The hashed string does not separate calls. -/
theorem hashed_not_injective : ¬ ∀ a b : Call, Decoded a.principal → Decoded b.principal →
    a ≠ b → a.hashed ≠ b.hashed := by
  intro h
  exact h userCall anonymousCall userCall_decoded anonymousCall_decoded (by decide) (by decide)

theorem hashed_separates_iff_sample :
    (userCall ≠ anonymousCall → userCall.hashed ≠ anonymousCall.hashed) ↔
      ¬ (userCall.program = anonymousCall.program ∧ userCall.version = anonymousCall.version ∧
        userCall.procedure = anonymousCall.procedure ∧
        (RunsOver userCall anonymousCall ∨ RunsOver anonymousCall userCall)) :=
  hashed_separates_iff userCall anonymousCall userCall_decoded anonymousCall_decoded

end NfsEmbed.Server
