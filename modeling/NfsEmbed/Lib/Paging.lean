import Mathlib.Data.List.Forall2
import Mathlib.Data.List.Nodup
import Mathlib.Tactic.Common

/-!
# Lists that are read page by page

A reader gets front parts of what is left of a list, one after the other, until a page says that it was the
last one. If each page has something of what is left, the reader ends with the whole list. Where a page begins
is said by the key of the element before it.
-/

namespace NfsEmbed.Lib

variable {α β κ : Type}

/-- Behind the element with a key comes what follows it, if keys are distinct. -/
theorem tail_dropWhile_of_nodup [DecidableEq κ] {key : α → κ} {sent rest : List α} {last : α}
    (hdistinct : ((sent ++ last :: rest).map key).Nodup) :
    ((sent ++ last :: rest).dropWhile fun a => key a ≠ key last).tail = rest := by
  have hbefore : ∀ a ∈ sent, decide (key a ≠ key last) = true := by
    intro a hmem
    rw [List.map_append, List.map_cons, List.nodup_append] at hdistinct
    exact decide_eq_true (hdistinct.2.2 _ (List.mem_map_of_mem hmem) _ List.mem_cons_self)
  rw [List.dropWhile_append_of_pos hbefore, List.dropWhile_cons_of_neg (by simp), List.tail_cons]

section Pages

variable {R : α → β → Prop} {left : Nat → List α} {page : Nat → List β} {last : Nat → Bool}

/-- Pages that go on from each other and have something of what is left make up the list, and come to an end. -/
theorem pages_complete
    (hpage : ∀ i, (∀ j < i, last j = false) → ∃ sent rest, left i = sent ++ rest ∧ List.Forall₂ R sent (page i) ∧
      (last i = true ↔ rest = []) ∧ (last i = false → left (i + 1) = rest ∧ sent ≠ [])) :
    ∃ k, last k = true ∧ (∀ j < k, last j = false) ∧
      List.Forall₂ R (left 0) ((List.range (k + 1)).flatMap page) := by
  -- by induction on what is left: before the end it gets shorter with every page
  have hfrom : ∀ n i, (left i).length ≤ n → (∀ j < i, last j = false) → ∃ m, last (i + m) = true ∧
      (∀ j < i + m, last j = false) ∧ List.Forall₂ R (left i) ((List.range' i (m + 1)).flatMap page) := by
    intro n
    induction n with
    | zero =>
      intro i hlength hbefore
      obtain ⟨sent, rest, hleft, hsent, hlast, -⟩ := hpage i hbefore
      rw [List.length_eq_zero_iff.mp (Nat.le_zero.mp hlength)] at hleft ⊢
      obtain ⟨rfl, rfl⟩ := List.append_eq_nil_iff.mp hleft.symm
      refine ⟨0, hlast.mpr rfl, hbefore, ?_⟩
      simpa using hsent
    | succ n ih =>
      intro i hlength hbefore
      obtain ⟨sent, rest, hleft, hsent, hlast, hnext⟩ := hpage i hbefore
      cases hend : last i with
      | true =>
        rw [hleft, hlast.mp hend, List.append_nil]
        refine ⟨0, hend, hbefore, ?_⟩
        simpa using hsent
      | false =>
        obtain ⟨hrest, hne⟩ := hnext hend
        have hshorter : (left (i + 1)).length ≤ n := by
          have hpos := List.length_pos_iff.mpr hne
          rw [hleft, List.length_append] at hlength
          rw [hrest]
          omega
        have hbefore' : ∀ j < i + 1, last j = false := by
          intro j hlt
          rcases Nat.lt_succ_iff_lt_or_eq.mp hlt with hlt | rfl
          · exact hbefore j hlt
          · exact hend
        obtain ⟨m, hm, hmbefore, hall⟩ := ih (i + 1) hshorter hbefore'
        refine ⟨m + 1, ?_, ?_, ?_⟩
        · rwa [← Nat.add_assoc, Nat.add_right_comm]
        · rwa [← Nat.add_assoc, Nat.add_right_comm]
        · rw [hleft, List.range'_succ, List.flatMap_cons, ← hrest]
          exact List.rel_append hsent hall
  obtain ⟨k, hk, hbefore, hall⟩ := hfrom _ 0 (Nat.le_refl _) (fun _ hlt => absurd hlt (Nat.not_lt_zero _))
  rw [Nat.zero_add] at hk hbefore
  exact ⟨k, hk, hbefore, List.range_eq_range' ▸ hall⟩

end Pages

end NfsEmbed.Lib
