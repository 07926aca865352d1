import Mathlib.Tactic.Common

/-!
# Systems that answer calls

A system takes one call after the other, and answers each of them. One system *simulates* another along a
relation between their states, if every call that may be made keeps the relation and is answered by both the
same; then both answer all sequences of calls the same (`Simulation.answers_eq`). Which calls may follow which
is said by a relation between an earlier and a later call.
-/

namespace NfsEmbed.Lib

variable {ι ω σ τ : Type}

structure System (ι ω σ : Type) where
  start : σ
  step : σ → ι → ω × σ

namespace System

/-- The answers to a sequence of calls, and the state they lead to. -/
def runFrom (system : System ι ω σ) (state : σ) : List ι → List ω × σ
  | [] => ([], state)
  | call :: calls =>
    let (answer, next) := system.step state call
    let (answers, last) := system.runFrom next calls
    (answer :: answers, last)

def answers (system : System ι ω σ) (calls : List ι) : List ω := (system.runFrom system.start calls).1

def after (system : System ι ω σ) (calls : List ι) : σ := (system.runFrom system.start calls).2

end System

/-- The relation holds at the start, and a call that may follow the past ones keeps it and is answered the same. -/
structure Simulation (A : System ι ω σ) (B : System ι ω τ) (Before : ι → ι → Prop) (R : List ι → σ → τ → Prop) : Prop where
  start : R [] A.start B.start
  step : ∀ past s t call, R past s t → (∀ earlier ∈ past, Before earlier call) →
    (A.step s call).1 = (B.step t call).1 ∧ R (past ++ [call]) (A.step s call).2 (B.step t call).2

namespace Simulation

variable {A : System ι ω σ} {B : System ι ω τ} {Before : ι → ι → Prop} {R : List ι → σ → τ → Prop}

/-- From related states on, all calls are answered the same and lead to related states. -/
theorem runFrom (h : Simulation A B Before R) (calls : List ι) {past : List ι} {s : σ} {t : τ} (hR : R past s t)
    (hpast : ∀ earlier ∈ past, ∀ later ∈ calls, Before earlier later) (hcalls : calls.Pairwise Before) :
    (A.runFrom s calls).1 = (B.runFrom t calls).1 ∧ R (past ++ calls) (A.runFrom s calls).2 (B.runFrom t calls).2 := by
  induction calls generalizing past s t with
  | nil =>
    rw [List.append_nil]
    exact ⟨rfl, hR⟩
  | cons call calls ih =>
    obtain ⟨hcall, hcalls⟩ := List.pairwise_cons.mp hcalls
    obtain ⟨hanswer, hnext⟩ := h.step past s t call hR fun earlier hmem => hpast earlier hmem call List.mem_cons_self
    have hbefore : ∀ earlier ∈ past ++ [call], ∀ later ∈ calls, Before earlier later := by
      rw [List.forall_mem_append, List.forall_mem_singleton]
      exact ⟨fun earlier hmem later hlater => hpast earlier hmem later (List.mem_cons_of_mem _ hlater), hcall⟩
    obtain ⟨hanswers, hlast⟩ := ih hnext hbefore hcalls
    rw [List.append_assoc] at hlast
    exact ⟨congrArg₂ List.cons hanswer hanswers, hlast⟩

theorem related (h : Simulation A B Before R) {calls : List ι} (hcalls : calls.Pairwise Before) :
    R calls (A.after calls) (B.after calls) :=
  (h.runFrom calls h.start (by simp) hcalls).2

theorem answers_eq (h : Simulation A B Before R) {calls : List ι} (hcalls : calls.Pairwise Before) :
    A.answers calls = B.answers calls :=
  (h.runFrom calls h.start (by simp) hcalls).1

end Simulation

end NfsEmbed.Lib
