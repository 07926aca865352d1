import Mathlib.Tactic.Common

/-!
# Transition systems and their runs

A machine has start states and labelled steps; a run is the list of the steps it took, each with the
state before and after it. A few rules carry all proofs about runs: an invariant of the steps holds
in every state a run visits (`Reachable.invariant`, with `Run.edge`
for the steps themselves), and a property that only
certain steps can break holds until one of them happens (`Run.until`). A property that steps set and
clear depends on the last of these (`Run.last_write`). Where a run is seen by a part of the state only,
it is one of the machine of that part (`Reachable.project`, `Run.project`).
-/

namespace NfsEmbed.Lib

variable {σ ε : Type}

variable {s t : σ}

structure Machine (σ ε : Type) where
  Start : σ → Prop
  Step : σ → ε → σ → Prop

/-- One step, as a run remembers it. -/
structure Edge (σ ε : Type) where
  source : σ
  event : ε
  target : σ

namespace Machine

variable (M : Machine σ ε)

/-- A run from one state to another, with its steps in order. -/
inductive Run (s : σ) : List (Edge σ ε) → σ → Prop
  | nil : Run s [] s
  | snoc {t u : σ} {trace : List (Edge σ ε)} {e : ε} :
    Run s trace t → M.Step t e u → Run s (trace ++ [⟨t, e, u⟩]) u

/-- A state some run from a start state ends in. -/
def Reachable (t : σ) : Prop := ∃ s trace, M.Start s ∧ M.Run s trace t

variable {M}

theorem Run.append {u : σ} {first second : List (Edge σ ε)} (h : M.Run s first t) (h' : M.Run t second u) :
    M.Run s (first ++ second) u := by
  induction h' with
  | nil => rwa [List.append_nil]
  | snoc _ hstep ih =>
    rw [← List.append_assoc]
    exact ih.snoc hstep

/-- A run along two traces passes through a state between them. -/
theorem Run.split {u : σ} {first second : List (Edge σ ε)} (h : M.Run s (first ++ second) u) :
    ∃ t, M.Run s first t ∧ M.Run t second u := by
  generalize htrace : first ++ second = trace at h
  induction h generalizing second with
  | nil =>
    obtain ⟨rfl, rfl⟩ := List.append_eq_nil_iff.mp htrace
    exact ⟨s, .nil, .nil⟩
  | @snoc t u trace e hrun hstep ih =>
    rcases second.eq_nil_or_concat with rfl | ⟨init, last, rfl⟩
    · rw [List.append_nil] at htrace
      subst htrace
      exact ⟨u, hrun.snoc hstep, .nil⟩
    · rw [List.concat_eq_append, ← List.append_assoc] at htrace
      obtain ⟨rfl, hlast⟩ := List.append_inj' htrace rfl
      cases List.singleton_inj.mp hlast
      obtain ⟨mid, hfirst, hsecond⟩ := ih rfl
      rw [List.concat_eq_append]
      exact ⟨mid, hfirst, hsecond.snoc hstep⟩

/-- A one-step trace is one step. -/
theorem Run.single {edge : Edge σ ε} (h : M.Run s [edge] t) :
    M.Step s edge.event t ∧ edge.source = s ∧ edge.target = t := by
  generalize htrace : [edge] = trace at h
  cases h with
  | nil => cases htrace
  | @snoc mid _ trace e hrun hstep =>
    obtain ⟨rfl, hlast⟩ := List.append_inj' (show [] ++ [edge] = _ from htrace) rfl
    cases List.singleton_inj.mp hlast
    generalize hnil : [] = before at hrun
    cases hrun with
    | nil => exact ⟨hstep, rfl, rfl⟩
    | snoc => exact absurd hnil.symm (List.append_ne_nil_of_right_ne_nil _ (List.cons_ne_nil _ _))

/-- A run passes through each of its steps. -/
theorem Run.split_cons {first second : List (Edge σ ε)} {edge : Edge σ ε} (h : M.Run s (first ++ edge :: second) t) :
    M.Run s first edge.source ∧ M.Step edge.source edge.event edge.target ∧ M.Run edge.target second t := by
  obtain ⟨mid, hfirst, hrest⟩ := h.split
  obtain ⟨mid', hone, hsecond⟩ := Run.split (show M.Run mid ([edge] ++ second) t from hrest)
  obtain ⟨hstep, rfl, rfl⟩ := hone.single
  exact ⟨hfirst, hstep, hsecond⟩

/-- Reachability goes on along a run. -/
theorem Reachable.run {trace : List (Edge σ ε)} (hs : M.Reachable s) (h : M.Run s trace t) : M.Reachable t := by
  obtain ⟨s₀, before, hstart, hrun⟩ := hs
  exact ⟨s₀, before ++ trace, hstart, hrun.append h⟩

/-- What holds at the start and survives every step holds in every reachable state. -/
theorem Reachable.invariant {I : σ → Prop} (hstart : ∀ s, M.Start s → I s) (hstep : ∀ s e t, I s → M.Step s e t → I t)
    (h : M.Reachable t) : I t := by
  obtain ⟨s, trace, hs, hrun⟩ := h
  induction hrun with
  | nil => exact hstart s hs
  | snoc _ hst ih => exact hstep _ _ _ ih hst

/-- Where each step is one of another machine, or nothing there, so is what is reached. -/
theorem Reachable.project {τ ε' : Type} {N : Machine τ ε'} (f : σ → τ) (hstart : ∀ s, M.Start s → N.Start (f s))
    (hstep : ∀ s e t, M.Step s e t → f t = f s ∨ ∃ e', N.Step (f s) e' (f t)) (h : M.Reachable t) :
    N.Reachable (f t) := by
  refine h.invariant (I := fun s => N.Reachable (f s)) (fun s hs => ⟨f s, [], hstart s hs, .nil⟩) ?_
  intro s e t hs hst
  rcases hstep s e t hst with hsame | ⟨e', hst'⟩
  · rwa [hsame]
  · exact hs.run (Run.nil.snoc hst')

/-- A run is one of the other machine too, whose steps are steps of this one. -/
theorem Run.project {τ ε' : Type} {N : Machine τ ε'} (f : σ → τ)
    (hstep : ∀ s e t, M.Step s e t → f t = f s ∨ ∃ e', N.Step (f s) e' (f t)) {trace : List (Edge σ ε)}
    (h : M.Run s trace t) : ∃ trace', N.Run (f s) trace' (f t) ∧
      ∀ edge' ∈ trace', ∃ edge ∈ trace, edge'.source = f edge.source ∧ edge'.target = f edge.target := by
  induction h with
  | nil => exact ⟨[], .nil, fun _ hmem => absurd hmem List.not_mem_nil⟩
  | @snoc t u trace e hrun hst ih =>
    obtain ⟨trace', hrun', hedges⟩ := ih
    have hbefore : ∀ edge' ∈ trace', ∃ edge ∈ trace ++ [⟨t, e, u⟩],
        edge'.source = f edge.source ∧ edge'.target = f edge.target := by
      intro edge' hmem
      obtain ⟨edge, hedge, hends⟩ := hedges edge' hmem
      exact ⟨edge, List.mem_append_left _ hedge, hends⟩
    rcases hstep t e u hst with hsame | ⟨e', hst'⟩
    · exact ⟨trace', hsame ▸ hrun', hbefore⟩
    · refine ⟨trace' ++ [⟨f t, e', f u⟩], hrun'.snoc hst', fun edge' hmem => ?_⟩
      rcases List.mem_append.mp hmem with hmem | hmem
      · exact hbefore edge' hmem
      · cases List.mem_singleton.mp hmem
        exact ⟨⟨t, e, u⟩, List.mem_append_right _ (List.mem_singleton_self _), rfl, rfl⟩

/-- Every remembered step really was one, taken in a reachable state. -/
theorem Run.edge {trace : List (Edge σ ε)} (hs : M.Reachable s) (h : M.Run s trace t) {edge : Edge σ ε}
    (hmem : edge ∈ trace) : M.Reachable edge.source ∧ M.Step edge.source edge.event edge.target := by
  obtain ⟨before, after, rfl⟩ := List.append_of_mem hmem
  obtain ⟨hbefore, hstep, -⟩ := h.split_cons
  exact ⟨hs.run hbefore, hstep⟩

/-- What every step keeps holds along the run. The property may speak of the steps taken so far. -/
theorem Run.keeps {P : List (Edge σ ε) → σ → Prop}
    (hkeep : ∀ trace s e t, M.Reachable s → P trace s → M.Step s e t → P (trace ++ [⟨s, e, t⟩]) t)
    {trace : List (Edge σ ε)} (hs : M.Reachable s) (h : M.Run s trace t) (hP : P [] s) : P trace t := by
  induction h with
  | nil => exact hP
  | snoc hrun hstep ih => exact hkeep _ _ _ _ (hs.run hrun) ih hstep

/-- What each step of this run keeps holds at its end. -/
theorem Run.keeps_of_mem {P : σ → Prop} {trace : List (Edge σ ε)} (hs : M.Reachable s) (h : M.Run s trace t)
    (hkeep : ∀ edge ∈ trace, M.Reachable edge.source → M.Step edge.source edge.event edge.target →
      P edge.source → P edge.target) (hP : P s) : P t := by
  induction h with
  | nil => exact hP
  | @snoc t u trace e hrun hstep ih =>
    have ht := ih fun edge hmem => hkeep edge (List.mem_append_left _ hmem)
    exact hkeep ⟨t, e, u⟩ (List.mem_append_right _ (List.mem_singleton_self _)) (hs.run hrun) hstep ht

/-- What no step but a breaking one ends holds until a breaking step happens. The property may speak
of the steps taken so far. -/
theorem Run.until {P : List (Edge σ ε) → σ → Prop} {Breaks : Edge σ ε → Prop}
    (hkeep : ∀ trace s e t, M.Reachable s → P trace s → M.Step s e t →
      P (trace ++ [⟨s, e, t⟩]) t ∨ Breaks ⟨s, e, t⟩) {trace : List (Edge σ ε)} (hs : M.Reachable s)
    (h : M.Run s trace t) (hP : P [] s) : P trace t ∨ ∃ edge ∈ trace, Breaks edge := by
  induction h with
  | nil => exact .inl hP
  | @snoc t u trace e hrun hstep ih =>
    rcases ih with hPt | ⟨edge, hmem, hbreaks⟩
    · rcases hkeep trace t e u (hs.run hrun) hPt hstep with hPu | hbreaks
      · exact .inl hPu
      · exact .inr ⟨_, List.mem_append_right _ (List.mem_singleton_self _), hbreaks⟩
    · exact .inr ⟨edge, List.mem_append_left _ hmem, hbreaks⟩

/-- The last write wins: where a step sets a property, clears it or leaves it as it was, it holds
exactly if some step set it that no later one did anything to. -/
theorem Run.last_write {P : σ → Prop} {Sets Clears : Edge σ ε → Prop}
    (hsets : ∀ s e t, M.Reachable s → M.Step s e t → Sets ⟨s, e, t⟩ → P t)
    (hclears : ∀ s e t, M.Reachable s → M.Step s e t → Clears ⟨s, e, t⟩ → ¬ P t)
    (hkeeps : ∀ s e t, M.Reachable s → M.Step s e t → ¬ Sets ⟨s, e, t⟩ → ¬ Clears ⟨s, e, t⟩ → (P t ↔ P s))
    {trace : List (Edge σ ε)} (hs : M.Reachable s) (h : M.Run s trace t) (hP : ¬ P s) :
    P t ↔ ∃ before edge after, trace = before ++ edge :: after ∧ Sets edge ∧
      ∀ later ∈ after, ¬ Sets later ∧ ¬ Clears later := by
  induction h with
  | nil => simp [hP]
  | @snoc t u trace e hrun hstep ih =>
    have hreach := hs.run hrun
    by_cases hset : Sets ⟨t, e, u⟩
    · exact iff_of_true (hsets t e u hreach hstep hset) ⟨trace, _, [], rfl, hset, by simp⟩
    · by_cases hclear : Clears ⟨t, e, u⟩
      · refine iff_of_false (hclears t e u hreach hstep hclear) ?_
        rintro ⟨before, edge, after, htrace, hedge, hafter⟩
        rcases after.eq_nil_or_concat with rfl | ⟨init, last, rfl⟩
        · obtain ⟨-, hlast⟩ := List.append_inj' htrace rfl
          cases List.singleton_inj.mp hlast
          exact hset hedge
        · rw [List.concat_eq_append, ← List.cons_append, ← List.append_assoc] at htrace
          obtain ⟨-, hlast⟩ := List.append_inj' htrace rfl
          cases List.singleton_inj.mp hlast
          exact (hafter _ (by simp)).2 hclear
      · rw [hkeeps t e u hreach hstep hset hclear, ih]
        constructor
        · rintro ⟨before, edge, after, rfl, hedge, hafter⟩
          refine ⟨before, edge, after ++ [⟨t, e, u⟩], by simp, hedge, fun later hlater => ?_⟩
          rcases List.mem_append.mp hlater with hlater | hlater
          · exact hafter later hlater
          · cases List.mem_singleton.mp hlater
            exact ⟨hset, hclear⟩
        · rintro ⟨before, edge, after, htrace, hedge, hafter⟩
          rcases after.eq_nil_or_concat with rfl | ⟨init, last, rfl⟩
          · obtain ⟨-, hlast⟩ := List.append_inj' htrace rfl
            cases List.singleton_inj.mp hlast
            exact absurd hedge hset
          · rw [List.concat_eq_append, ← List.cons_append, ← List.append_assoc] at htrace
            obtain ⟨rfl, -⟩ := List.append_inj' htrace rfl
            exact ⟨before, edge, init, rfl, hedge, fun later hlater => hafter later (by simp [hlater])⟩

end Machine

end NfsEmbed.Lib
