import Mathlib.Tactic.Common

/-!
# Programs that talk to an environment

A program asks its environment one operation after the other and goes on with the answers, until it
is done or fails. Nothing is said about how the environment answers, so what holds of every dialogue
holds whatever runs at the same time.

`Ensures R P Q` is the specification of a program: in every dialogue in which the environment answers
as `R` says, each operation the program asks satisfies `P` of what was said so far, and how it ends
satisfies `Q`. It composes along the monad.

What an operation needs and does to a resource of the program is a `Typestate`; a program that follows
it asks nothing it has no right to, and does not end with the resource in its hands.
-/

namespace NfsEmbed.Lib

/-- The operations of an environment and the answers it may give to them. -/
structure Signature where
  Op : Type
  Answer : Op → Type

/-- An operation that was asked, with its answer. -/
abbrev Exchange (S : Signature) := (op : S.Op) × S.Answer op

inductive Prog (S : Signature) (ε α : Type) where
  | done (value : α)
  | fail (error : ε)
  | ask (op : S.Op) (next : S.Answer op → Prog S ε α)

namespace Prog

variable {S : Signature} {ε ε' α β : Type}

protected def bind : Prog S ε α → (α → Prog S ε β) → Prog S ε β
  | done value, k => k value
  | fail error, _ => fail error
  | ask op next, k => ask op fun answer => (next answer).bind k

instance : Monad (Prog S ε) where
  pure := done
  bind := Prog.bind

def ofExcept : Except ε α → Prog S ε α
  | .ok value => done value
  | .error error => fail error

/-- The outcome of a program as a value, for a caller that looks at errors. -/
def outcome : Prog S ε α → Prog S ε' (Except ε α)
  | done value => done (.ok value)
  | fail error => done (.error error)
  | ask op next => ask op fun answer => (next answer).outcome

@[simp] theorem done_bind (value : α) (k : α → Prog S ε β) : (done value >>= k) = k value := rfl

/-! ## Dialogues -/

/-- After the dialogue so far, the program asks `op`. -/
inductive Asks : Prog S ε α → List (Exchange S) → S.Op → Prop
  | now (op : S.Op) (next : S.Answer op → Prog S ε α) : Asks (ask op next) [] op
  | later {op : S.Op} {next : S.Answer op → Prog S ε α} {answer : S.Answer op}
      {history : List (Exchange S)} {op' : S.Op} :
    Asks (next answer) history op' → Asks (ask op next) (⟨op, answer⟩ :: history) op'

/-- With this dialogue the program ends in this way. -/
inductive Ends : Prog S ε α → List (Exchange S) → Except ε α → Prop
  | done (value : α) : Ends (done value) [] (.ok value)
  | fail (error : ε) : Ends (fail error) [] (.error error)
  | ask {op : S.Op} {next : S.Answer op → Prog S ε α} {answer : S.Answer op}
      {history : List (Exchange S)} {result : Except ε α} :
    Ends (next answer) history result → Ends (ask op next) (⟨op, answer⟩ :: history) result

/-- After the dialogue, this is what is left of the program. -/
inductive After : Prog S ε α → List (Exchange S) → Prog S ε α → Prop
  | start (p : Prog S ε α) : After p [] p
  | later {op : S.Op} {next : S.Answer op → Prog S ε α} {answer : S.Answer op}
      {history : List (Exchange S)} {q : Prog S ε α} :
    After (next answer) history q → After (ask op next) (⟨op, answer⟩ :: history) q

/-- One more answer. -/
theorem After.answer {p : Prog S ε α} {history : List (Exchange S)} {op : S.Op} {next : S.Answer op → Prog S ε α}
    (h : p.After history (ask op next)) (answer : S.Answer op) :
    p.After (history ++ [⟨op, answer⟩]) (next answer) := by
  generalize hq : ask op next = q at h
  induction h with
  | start =>
    subst hq
    exact .later (.start _)
  | later _ ih => exact .later (ih hq)

theorem After.asks {p : Prog S ε α} {history : List (Exchange S)} {op : S.Op} {next : S.Answer op → Prog S ε α}
    (h : p.After history (ask op next)) : p.Asks history op := by
  generalize hq : ask op next = q at h
  induction h with
  | start =>
    subst hq
    exact .now op next
  | later _ ih => exact .later (ih hq)

/-- What stands in the dialogue of a program was asked by it. -/
theorem After.asked {p q : Prog S ε α} {history : List (Exchange S)} (h : p.After history q)
    {exchange : Exchange S} (hmem : exchange ∈ history) : ∃ before, p.Asks before exchange.1 := by
  induction h with
  | start => exact absurd hmem List.not_mem_nil
  | later _ ih =>
    rcases List.mem_cons.mp hmem with rfl | hmem
    · exact ⟨[], .now _ _⟩
    · obtain ⟨before, hasks⟩ := ih hmem
      exact ⟨_, .later hasks⟩

theorem Ends.after {p : Prog S ε α} {history : List (Exchange S)} {result : Except ε α} (h : p.Ends history result) :
    p.After history (ofExcept result) := by
  induction h with
  | done | fail => exact .start _
  | ask _ ih => exact .later ih

/-- A dialogue has one end. -/
theorem Ends.unique {p : Prog S ε α} {history : List (Exchange S)} {result result' : Except ε α}
    (h : p.Ends history result) (h' : p.Ends history result') : result = result' := by
  induction h with
  | done | fail =>
    cases h'
    rfl
  | ask _ ih =>
    cases h' with
    | ask hrest => exact ih hrest

/-- What is said between a program and an environment that answers as `state` says, and how it ends. -/
def converse (state : (op : S.Op) → S.Answer op) : Prog S ε α → List (Exchange S) × Except ε α
  | done value => ([], .ok value)
  | fail error => ([], .error error)
  | ask op next => (⟨op, state op⟩ :: ((next (state op)).converse state).1, ((next (state op)).converse state).2)

theorem converse_ends (state : (op : S.Op) → S.Answer op) (p : Prog S ε α) :
    p.Ends (p.converse state).1 (p.converse state).2 := by
  induction p with
  | done value => exact .done value
  | fail error => exact .fail error
  | ask op next ih => exact .ask (ih _)

theorem converse_answers (state : (op : S.Op) → S.Answer op) (p : Prog S ε α) :
    ∀ exchange ∈ (p.converse state).1, exchange.2 = state exchange.1 := by
  induction p with
  | done | fail => exact fun _ hmem => absurd hmem List.not_mem_nil
  | ask op next ih => exact List.forall_mem_cons.mpr ⟨rfl, ih _⟩

/-- A result that is there already is how the program ends. -/
theorem ofExcept_ends_iff {result result' : Except ε α} {history : List (Exchange S)} :
    (ofExcept result : Prog S ε α).Ends history result' ↔ history = [] ∧ result' = result := by
  constructor
  · intro h
    cases result with
    | ok value =>
      cases h
      exact ⟨rfl, rfl⟩
    | error error =>
      cases h
      exact ⟨rfl, rfl⟩
  · intro h
    obtain ⟨rfl, rfl⟩ := h
    cases result' with
    | ok value => exact .done value
    | error error => exact .fail error

/-- A program that looks at how another one ended goes on from there. -/
theorem Ends.outcome_bind {p : Prog S ε α} {k : Except ε α → Prog S ε' β} {history : List (Exchange S)}
    {result : Except ε α} {result' : Except ε' β} (h : p.Ends history result) (hk : (k result).Ends [] result') :
    (p.outcome >>= k).Ends history result' := by
  induction h with
  | done | fail => exact hk
  | ask _ ih => exact .ask (ih hk)

/-- A sequence asks in its first program, or after that one is done. -/
theorem Asks.of_bind {p : Prog S ε α} {k : α → Prog S ε β} {history : List (Exchange S)} {op : S.Op}
    (h : (p >>= k).Asks history op) :
    p.Asks history op ∨
      ∃ first second value, history = first ++ second ∧ p.Ends first (.ok value) ∧ (k value).Asks second op := by
  induction p generalizing history with
  | done value => exact .inr ⟨[], history, value, rfl, .done value, h⟩
  | fail error => cases h
  | ask op' next ih =>
    cases h with
    | now => exact .inl (.now _ _)
    | @later _ _ answer rest _ hrest =>
      rcases ih answer hrest with hasks | ⟨first, second, value, rfl, hends, hasks⟩
      · exact .inl (.later hasks)
      · exact .inr ⟨⟨op', answer⟩ :: first, second, value, rfl, .ask hends, hasks⟩

/-- A sequence is in its first program, or that one failed, or it is done and the second one goes on. -/
theorem After.of_bind {p : Prog S ε α} {k : α → Prog S ε β} {history : List (Exchange S)} {q : Prog S ε β}
    (h : (p >>= k).After history q) :
    (∃ op next, p.After history (ask op next) ∧ q = ask op fun answer => next answer >>= k) ∨
    (∃ error, p.Ends history (.error error) ∧ q = fail error) ∨
    ∃ first second value, history = first ++ second ∧ p.Ends first (.ok value) ∧ (k value).After second q := by
  induction p generalizing history with
  | done value => exact .inr (.inr ⟨[], history, value, rfl, .done value, h⟩)
  | fail error =>
    cases h
    exact .inr (.inl ⟨error, .fail error, rfl⟩)
  | ask op next ih =>
    cases h with
    | start => exact .inl ⟨op, next, .start _, rfl⟩
    | @later _ _ answer rest _ hrest =>
      rcases ih answer hrest with ⟨op', next', hp, hq⟩ | ⟨error, hends, hq⟩ | ⟨first, second, value, rfl, hends, hk⟩
      · exact .inl ⟨op', next', .later hp, hq⟩
      · exact .inr (.inl ⟨error, .ask hends, hq⟩)
      · exact .inr (.inr ⟨⟨op, answer⟩ :: first, second, value, rfl, .ask hends, hk⟩)

/-! ## Specifications -/

/-- As long as the environment answers within `R`, every operation the program asks satisfies `P` of
the dialogue before it, and the way the program ends satisfies `Q` of the whole dialogue. -/
def Ensures (R : (op : S.Op) → S.Answer op → Prop) (P : List (Exchange S) → S.Op → Prop)
    (Q : List (Exchange S) → Except ε α → Prop) : List (Exchange S) → Prog S ε α → Prop
  | history, done value => Q history (.ok value)
  | history, fail error => Q history (.error error)
  | history, ask op next =>
    P history op ∧ ∀ answer, R op answer → Ensures R P Q (history ++ [⟨op, answer⟩]) (next answer)

namespace Ensures

variable {R R' : (op : S.Op) → S.Answer op → Prop} {P P' : List (Exchange S) → S.Op → Prop}
  {Q Q' : List (Exchange S) → Except ε α → Prop} {history : List (Exchange S)}

theorem mono {p : Prog S ε α} (h : Ensures R P Q history p)
    (hrely : ∀ op answer, R' op answer → R op answer) (hasks : ∀ h' op, P h' op → P' h' op)
    (hends : ∀ h' r, Q h' r → Q' h' r) : Ensures R' P' Q' history p := by
  induction p generalizing history with
  | done | fail => exact hends _ _ h
  | ask op next ih =>
    exact ⟨hasks _ _ h.1, fun answer hanswer => ih answer (h.2 answer (hrely op answer hanswer))⟩

/-- What the first program ends with is where the second one starts. -/
theorem bind {p : Prog S ε α} {k : α → Prog S ε β} {Q' : List (Exchange S) → Except ε β → Prop}
    (h : Ensures R P Q history p) (hok : ∀ h' a, Q h' (.ok a) → Ensures R P Q' h' (k a))
    (herror : ∀ h' e, Q h' (.error e) → Q' h' (.error e)) : Ensures R P Q' history (p >>= k) := by
  induction p generalizing history with
  | done value => exact hok _ _ h
  | fail error => exact herror _ _ h
  | ask op next ih => exact ⟨h.1, fun answer hanswer => ih answer (h.2 answer hanswer)⟩

/-- How a program ends belongs to the dialogue it had. -/
theorem ending {p : Prog S ε α} (h : Ensures R P Q history p) :
    Ensures R P (fun h' r => Q h' r ∧ ∃ said, h' = history ++ said ∧ p.Ends said r) history p := by
  induction p generalizing history with
  | done value => exact ⟨h, [], (List.append_nil _).symm, .done value⟩
  | fail error => exact ⟨h, [], (List.append_nil _).symm, .fail error⟩
  | ask op next ih =>
    refine ⟨h.1, fun answer hanswer => (ih answer (h.2 answer hanswer)).mono (fun _ _ hr => hr) (fun _ _ hp => hp) ?_⟩
    rintro h' r ⟨hq, said, rfl, hends⟩
    exact ⟨hq, ⟨op, answer⟩ :: said, List.append_assoc _ _ _, .ask hends⟩

theorem outcome {p : Prog S ε α} (h : Ensures R P Q history p) :
    Ensures R P (fun h' r => ∃ r', r = .ok r' ∧ Q h' r') history
      (p.outcome : Prog S ε' (Except ε α)) := by
  induction p generalizing history with
  | done | fail => exact ⟨_, rfl, h⟩
  | ask op next ih => exact ⟨h.1, fun answer hanswer => ih answer (h.2 answer hanswer)⟩

theorem ofExcept {result : Except ε α} (h : Q history result) :
    Ensures R P Q history (Prog.ofExcept result) := by
  cases result <;> exact h

/-- Every operation asked in a dialogue satisfies the specification. -/
theorem asks {p : Prog S ε α} (h : Ensures R P Q history p) {h' : List (Exchange S)} {op : S.Op}
    (hasks : p.Asks h' op) (hrely : ∀ exchange ∈ h', R exchange.1 exchange.2) : P (history ++ h') op := by
  induction hasks generalizing history with
  | now => rw [List.append_nil]; exact h.1
  | later _ ih =>
    obtain ⟨hhead, htail⟩ := List.forall_mem_cons.mp hrely
    have := ih (h.2 _ hhead) htail
    rwa [List.append_assoc] at this

/-- So does the way a dialogue ends. -/
theorem ends {p : Prog S ε α} (h : Ensures R P Q history p) {h' : List (Exchange S)}
    {result : Except ε α} (hends : p.Ends h' result) (hrely : ∀ exchange ∈ h', R exchange.1 exchange.2) :
    Q (history ++ h') result := by
  induction hends generalizing history with
  | done | fail => rw [List.append_nil]; exact h
  | ask _ ih =>
    obtain ⟨hhead, htail⟩ := List.forall_mem_cons.mp hrely
    have := ih (h.2 _ hhead) htail
    rwa [List.append_assoc] at this

end Ensures

/-! ## Typestates -/

/-- In each state, the operations that are allowed, where their answers lead, and whether to stop. -/
structure Typestate (S : Signature) (σ : Type) where
  Allows : σ → S.Op → Prop
  after : σ → (op : S.Op) → S.Answer op → σ
  Final : σ → Prop

/-- From this state on the program keeps to the typestate, whatever it is answered. -/
def Follows {σ : Type} (T : Typestate S σ) : Prog S ε α → σ → Prop
  | done _, state => T.Final state
  | fail _, state => T.Final state
  | ask op next, state => T.Allows state op ∧ ∀ answer, Follows T (next answer) (T.after state op answer)

/-- A program whose operations leave the state alone may come before one that follows from there. -/
theorem follows_outcome_bind {σ : Type} {T : Typestate S σ} {state : σ} {R : (op : S.Op) → S.Answer op → Prop}
    {P : List (Exchange S) → S.Op → Prop} {Q : List (Exchange S) → Except ε α → Prop} {history : List (Exchange S)}
    {p : Prog S ε α} {k : Except ε α → Prog S ε' β} (hrely : ∀ op answer, R op answer)
    (hstays : ∀ h' op, P h' op → T.Allows state op ∧ ∀ answer, T.after state op answer = state)
    (h : Ensures R P Q history p) (hk : ∀ result, Follows T (k result) state) :
    Follows T (p.outcome >>= k) state := by
  induction p generalizing history with
  | done value => exact hk (.ok value)
  | fail error => exact hk (.error error)
  | ask op next ih =>
    obtain ⟨hallows, hafter⟩ := hstays _ op h.1
    refine ⟨hallows, fun answer => ?_⟩
    rw [hafter answer]
    exact ih answer (h.2 answer (hrely op answer))

end Prog

end NfsEmbed.Lib
