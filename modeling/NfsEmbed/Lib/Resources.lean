import Mathlib.Algebra.Order.BigOperators.Group.Finset
import Mathlib.Data.List.Perm.Subperm
import Mathlib.Logic.Relation

/-!
# Permits, tokens and waiting

A semaphore hands out equal shares of its permits. It covers a set of holders if every finite part of
the set can have its shares at once; a holder that is not covered as well finds one that is there.

Tokens are handed out once, to one of many owners, and leave it for good or stay (`Exclusive`).

Parties wait for each other. If every edge of the relation goes down in rank, it has no cycle and
leads nowhere forever.
-/

namespace NfsEmbed.Lib

/-! ## Permits -/

/-- A semaphore with this many permits, of which each holder takes the same share. -/
structure Semaphore where
  permits : Nat
  share : Nat

namespace Semaphore

variable {α : Type} {semaphore : Semaphore} {holders holders' : Set α} {a : α}

/-- There are permits for all these holders at once. -/
def Covers (semaphore : Semaphore) (holders : Set α) : Prop :=
  ∀ part : Finset α, ↑part ⊆ holders → part.card * semaphore.share ≤ semaphore.permits

theorem Covers.mono (h : semaphore.Covers holders) (hsub : holders' ⊆ holders) : semaphore.Covers holders' :=
  fun part hpart => h part (hpart.trans hsub)

theorem covers_empty : semaphore.Covers (∅ : Set α) := by
  intro part hpart
  rw [Set.subset_empty_iff, Finset.coe_eq_empty] at hpart
  subst hpart
  rw [Finset.card_empty, Nat.zero_mul]
  exact Nat.zero_le _

/-- One holder has its share if there are so many permits at all. -/
theorem covers_of_subset_singleton (hshare : semaphore.share ≤ semaphore.permits) (hsub : holders ⊆ {a}) :
    semaphore.Covers holders := by
  intro part hpart
  have hcard : part.card ≤ 1 :=
    Finset.card_le_one.mpr fun b hb c hc => (hsub (hpart hb)).trans (hsub (hpart hc)).symm
  calc part.card * semaphore.share ≤ 1 * semaphore.share := Nat.mul_le_mul_right _ hcard
    _ ≤ semaphore.permits := by rwa [Nat.one_mul]

/-- Who gets no share finds a holder. -/
theorem exists_holder (hshare : semaphore.share ≤ semaphore.permits) (h : ¬ semaphore.Covers (insert a holders)) :
    ∃ holder, holder ∈ holders := by
  by_contra hnone
  apply h
  refine covers_of_subset_singleton (a := a) hshare fun holder hholder => ?_
  rcases hholder with rfl | hholder
  · rfl
  · exact absurd ⟨holder, hholder⟩ hnone

/-- What the holders have of something else, at most a share each, is at most what there are permits. -/
theorem Covers.sum_le (h : semaphore.Covers holders) {size : α → Nat} {part : Finset α} (hpart : ↑part ⊆ holders)
    (hsize : ∀ a ∈ part, size a ≤ semaphore.share) : ∑ a ∈ part, size a ≤ semaphore.permits :=
  calc ∑ a ∈ part, size a ≤ part.card * semaphore.share := Finset.sum_le_card_nsmul part size _ hsize
    _ ≤ semaphore.permits := h part hpart

end Semaphore

/-! ## Tokens -/

/-- No token is in two places. -/
structure Exclusive {ι τ : Type} (tokens : ι → List τ) : Prop where
  once : ∀ i, (tokens i).Nodup
  apart : ∀ i j token, token ∈ tokens i → token ∈ tokens j → i = j

namespace Exclusive

variable {ι τ : Type} [DecidableEq ι] {tokens : ι → List τ} {i : ι} {list : List τ} {token : τ}

/-- Tokens that leave are nowhere afterwards. -/
theorem update_subperm (h : Exclusive tokens) (hlist : list.Subperm (tokens i)) :
    Exclusive (Function.update tokens i list) := by
  have hsub : ∀ j, Function.update tokens i list j ⊆ tokens j := by
    apply (Function.forall_update_iff tokens fun j held => held ⊆ tokens j).mpr
    exact ⟨hlist.subset, fun _ _ _ => id⟩
  have honce : ∀ j, (Function.update tokens i list j).Nodup := by
    apply (Function.forall_update_iff tokens fun _ held => held.Nodup).mpr
    obtain ⟨sublist, hperm, hsublist⟩ := hlist
    exact ⟨hperm.nodup_iff.mp ((h.once i).sublist hsublist), fun j _ => h.once j⟩
  exact ⟨honce, fun j k token hj hk => h.apart j k token (hsub j hj) (hsub k hk)⟩

/-- A new token comes to one place. -/
theorem update_cons (h : Exclusive tokens) (hnew : ∀ j, token ∉ tokens j) (hlist : list.Perm (token :: tokens i)) :
    Exclusive (Function.update tokens i list) := by
  have hmem : ∀ j, ∀ other ∈ Function.update tokens i list j, other ∈ tokens j ∨ other = token ∧ j = i := by
    apply (Function.forall_update_iff tokens fun j held => ∀ other ∈ held, other ∈ tokens j ∨ other = token ∧ j = i).mpr
    refine ⟨fun other hother => ?_, fun j _ other hother => .inl hother⟩
    rcases List.mem_cons.mp (hlist.subset hother) with heq | hold
    · exact .inr ⟨heq, rfl⟩
    · exact .inl hold
  have honce : ∀ j, (Function.update tokens i list j).Nodup := by
    apply (Function.forall_update_iff tokens fun _ held => held.Nodup).mpr
    exact ⟨hlist.nodup_iff.mpr (List.nodup_cons.mpr ⟨hnew i, h.once i⟩), fun j _ => h.once j⟩
  refine ⟨honce, fun j k other hj hk => ?_⟩
  rcases hmem j other hj with hj | ⟨rfl, rfl⟩
  · rcases hmem k other hk with hk | ⟨rfl, -⟩
    · exact h.apart j k other hj hk
    · exact absurd hj (hnew j)
  · rcases hmem k other hk with hk | ⟨-, rfl⟩
    · exact absurd hk (hnew k)
    · rfl

end Exclusive

/-! ## Waiting -/

section Waiting

variable {α : Type} {R : α → α → Prop} {rank : α → Nat}

theorem rank_lt_of_transGen (h : ∀ p q, R p q → rank q < rank p) {p q : α} (hpath : Relation.TransGen R p q) :
    rank q < rank p := by
  induction hpath with
  | single hedge => exact h _ _ hedge
  | tail _ hedge ih => exact Nat.lt_trans (h _ _ hedge) ih

/-- Edges that go down in rank form no cycle. -/
theorem not_transGen_self_of_rank (h : ∀ p q, R p q → rank q < rank p) (p : α) : ¬ Relation.TransGen R p p :=
  fun hcycle => Nat.lt_irrefl _ (rank_lt_of_transGen h hcycle)

/-- Nor do they go on forever. -/
theorem wellFounded_of_rank (h : ∀ p q, R p q → rank q < rank p) : WellFounded fun q p => R p q :=
  Subrelation.wf (fun hedge => h _ _ hedge) (measure rank).wf

/-- Whoever follows the edges comes to one that waits for nobody. -/
theorem exists_reflTransGen_end (hwf : WellFounded fun q p => R p q) {P : α → Prop} (hkept : ∀ p q, P p → R p q → P q)
    (p : α) (hp : P p) : ∃ q, Relation.ReflTransGen R p q ∧ P q ∧ ∀ r, ¬ R q r := by
  induction p using hwf.induction with
  | _ p ih =>
    by_cases hedge : ∃ q, R p q
    · obtain ⟨q, hedge⟩ := hedge
      obtain ⟨r, hpath, hr⟩ := ih q hedge (hkept p q hp hedge)
      exact ⟨r, .head hedge hpath, hr⟩
    · exact ⟨p, .refl, hp, fun q hq => hedge ⟨q, hq⟩⟩

end Waiting

end NfsEmbed.Lib
