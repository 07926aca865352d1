import Mathlib.Tactic.Common

/-!
# Computations that keep their state when they fail

An `EStateM` computation leaves a state behind whether it succeeds or not. Two judgments carry the
proofs about them: what a computation keeps on both exits (`Keeps`), and that it does what a
computation over a part of its state does (`Refines`), unless it gives up.
-/

namespace NfsEmbed.Lib

variable {ε σ τ α β : Type}

variable {m : EStateM ε σ α} {f : α → EStateM ε σ β} {s s' : σ} {a : α}

/-- The state a computation leaves behind. -/
def leftIn : EStateM.Result ε σ α → σ
  | .ok _ s => s
  | .error _ s => s

@[simp] theorem leftIn_error (error : ε) (s : σ) : leftIn (.error error s : EStateM.Result ε σ α) = s := rfl

/-! ## Sequencing -/

/-- A sequence of checks that passes has passed its first one. -/
theorem of_check_ok {p : Prop} [Decidable p] {error : ε} {rest : Except ε α} {value : α}
    (h : (if p then .error error else rest) = .ok value) : ¬ p ∧ rest = .ok value := by
  by_cases hp : p
  · rw [if_pos hp] at h
    cases h
  · rw [if_neg hp] at h
    exact ⟨hp, h⟩

theorem bind_of_ok (h : m s = .ok a s') : (m >>= f) s = f a s' := by
  change EStateM.bind m f s = _
  simp only [EStateM.bind, h]

theorem bind_of_error {error : ε} (h : m s = .error error s') : (m >>= f) s = .error error s' := by
  change EStateM.bind m f s = _
  simp only [EStateM.bind, h]

theorem throw_bind (error : ε) (f : α → EStateM ε σ β) : (throw error >>= f : EStateM ε σ β) = throw error := rfl

theorem stateT_bind_of_ok {m : StateT σ (Except ε) α} {f : α → StateT σ (Except ε) β} (h : m s = .ok (a, s')) :
    (m >>= f) s = f a s' := by
  change (m s).bind (fun read => f read.1 read.2) = _
  rw [h]
  rfl

theorem stateT_bind_eq_ok {m : StateT σ (Except ε) α} {f : α → StateT σ (Except ε) β} {result : β × σ} :
    (m >>= f) s = .ok result ↔ ∃ a s', m s = .ok (a, s') ∧ f a s' = .ok result := by
  have hbind : (m >>= f) s = (m s).bind fun read => f read.1 read.2 := rfl
  rw [hbind]
  cases hm : m s with
  | error error => simp [Except.bind]
  | ok read =>
    obtain ⟨a, s'⟩ := read
    simp [Except.bind]

theorem stateT_ofExcept_eq_ok {x : Except ε α} :
    (ofExcept x : StateT σ (Except ε) α) s = .ok (a, s') ↔ x = .ok a ∧ s' = s := by
  cases x with
  | error error =>
    constructor
    · intro h
      cases h
    · rintro ⟨h, -⟩
      cases h
  | ok value =>
    constructor
    · intro h
      cases h
      exact ⟨rfl, rfl⟩
    · rintro ⟨h, rfl⟩
      cases h
      rfl

/-! ## What is kept -/

/-- `m` keeps `P`, whether it succeeds or not. -/
def Keeps (P : σ → Prop) (m : EStateM ε σ α) : Prop := ∀ s, P s → P (leftIn (m s))

namespace Keeps

variable {P : σ → Prop}

theorem pure (a : α) : Keeps P (Pure.pure a : EStateM ε σ α) := fun _ h => h

theorem throw (error : ε) : Keeps P (MonadExcept.throw error : EStateM ε σ α) := fun _ h => h

theorem bind (hm : Keeps P m) (hf : ∀ a, Keeps P (f a)) : Keeps P (m >>= f) := by
  intro s hs
  have hleft := hm s hs
  cases hrun : m s with
  | ok a s' =>
    rw [hrun] at hleft
    rw [bind_of_ok hrun]
    exact hf a s' hleft
  | error error s' =>
    rw [hrun] at hleft
    rwa [bind_of_error hrun]

end Keeps

/-! ## Refinement -/

/-- What a result shows of its state, when the state is only known after a success. -/
def shown (view : σ → τ) : EStateM.Result ε σ α → Except ε (α × τ)
  | .ok a s => .ok (a, view s)
  | .error error _ => .error error

/-- `m` does to the part of the state in view what `spec` does, or it gives up. -/
def Refines (view : σ → τ) (GivesUp : ε → Prop) (m : EStateM ε σ α) (spec : StateT τ (Except ε) α) : Prop :=
  ∀ s, shown view (m s) = spec (view s) ∨ ∃ error s', m s = .error error s' ∧ GivesUp error

namespace Refines

variable {view : σ → τ} {GivesUp : ε → Prop}

theorem pure (a : α) : Refines view GivesUp (Pure.pure a) (Pure.pure a) := fun _ => .inl rfl

theorem throw (error : ε) :
    Refines view GivesUp (MonadExcept.throw error : EStateM ε σ α) (MonadExcept.throw error) := fun _ => .inl rfl

theorem bind {spec : StateT τ (Except ε) α} {next : α → StateT τ (Except ε) β} (hm : Refines view GivesUp m spec)
    (hf : ∀ a, Refines view GivesUp (f a) (next a)) : Refines view GivesUp (m >>= f) (spec >>= next) := by
  intro s
  rcases hm s with hshown | ⟨error, s', hrun, hgives⟩
  · have hspec : (spec >>= next) (view s) = (spec (view s)).bind fun read => next read.1 read.2 := rfl
    rw [hspec, ← hshown]
    cases hrun : m s with
    | ok a s' =>
      rw [bind_of_ok hrun]
      exact hf a s'
    | error error s' =>
      rw [bind_of_error hrun]
      exact .inl rfl
  · rw [bind_of_error hrun]
    exact .inr ⟨error, s', rfl, hgives⟩

end Refines

end NfsEmbed.Lib
