import Mathlib.Tactic.Common

/-!
# Formats, the readers that accept them and the writers that produce them

A **format** relates a value to the words that spell it. A reader *reads* a format when it is exact
in both directions: what it returns is spelled by the words it consumed, and it returns every value
whose spelling stands at its cursor. A writer *writes* a word when it appends exactly that word on
the values it accepts and fails on all others.

Both notions compose along the monad's own sequencing (`Reads.bind`, `Writes.seq`), so a codec is
proved one field at a time, in the order its code handles the fields.

A reader may refuse an input that is too long for its index arithmetic; `bound` is the length from
which on it is allowed to. Only the accepting direction needs it.
-/

namespace NfsEmbed.Lib

variable {ε β α γ : Type}

variable {w r : List β} {spell : α → List β} {a : α}

/-! ## Cursors and readers -/

/-- A reading position in an input. -/
structure Cursor (β : Type) where
  input : List β
  position : Nat
deriving DecidableEq, Repr

namespace Cursor

/-- What is still to be read. -/
def rest (c : Cursor β) : List β := c.input.drop c.position

/-- The cursor `n` words further. -/
def advance (c : Cursor β) (n : Nat) : Cursor β := { c with position := c.position + n }

@[simp] theorem advance_input (c : Cursor β) (n : Nat) : (c.advance n).input = c.input := rfl

@[simp] theorem advance_position (c : Cursor β) (n : Nat) :
    (c.advance n).position = c.position + n := rfl

@[simp] theorem advance_advance (c : Cursor β) (m n : Nat) :
    (c.advance m).advance n = c.advance (m + n) := by
  simp only [advance, Nat.add_assoc]

theorem rest_advance (c : Cursor β) (n : Nat) : (c.advance n).rest = c.rest.drop n := by
  simp only [rest, advance, List.drop_drop]

/-- Past a word that stands at the cursor, what follows the word is left. -/
theorem rest_advance_of_append {c : Cursor β} (h : c.rest = w ++ r) : (c.advance w.length).rest = r := by
  rw [rest_advance, h, List.drop_left]

/-- The cursor stands inside its input, and the input is shorter than `bound`. -/
def Within (bound : Nat) (c : Cursor β) : Prop :=
  c.position ≤ c.input.length ∧ c.input.length < bound

/-- A word that stands at the cursor lies inside the input, so the cursor past it stands inside. -/
theorem Within.advance {bound : Nat} {c : Cursor β} (hc : c.Within bound) (h : c.rest = w ++ r) :
    (c.advance w.length).Within bound := by
  have hlen := congrArg List.length h
  simp only [rest, List.length_drop, List.length_append] at hlen
  obtain ⟨hle, hlt⟩ := hc
  exact ⟨by simp only [advance_position, advance_input]; omega, hlt⟩

end Cursor

/-- A reader. A failure keeps the cursor where the reader left it. -/
abbrev ReadM (ε β : Type) := EStateM ε (Cursor β)

namespace ReadM

theorem bind_apply (m : ReadM ε β α) (k : α → ReadM ε β γ) (c : Cursor β) :
    (m >>= k) c = match m c with
      | .ok a c' => k a c'
      | .error e c' => .error e c' := by
  change EStateM.bind m k c = _
  unfold EStateM.bind
  cases m c <;> rfl

/-- A sequence that returns went through its first reader. -/
theorem of_bind_ok {m : ReadM ε β α} {k : α → ReadM ε β γ} {c c' : Cursor β} {b : γ}
    (h : (m >>= k) c = .ok b c') : ∃ a mid, m c = .ok a mid ∧ k a mid = .ok b c' := by
  rw [bind_apply] at h
  split at h
  next a mid hm => exact ⟨a, mid, hm, h⟩
  next => cases h

/-- Continuations only have to agree where the first reader gets to. -/
theorem bind_congr {m : ReadM ε β α} {k k' : α → ReadM ε β γ} {c : Cursor β}
    (h : ∀ a c', m c = .ok a c' → k a c' = k' a c') : (m >>= k) c = (m >>= k') c := by
  rw [bind_apply, bind_apply]
  split
  next a c' hm => exact h a c' hm
  next => rfl

theorem get_apply (c : Cursor β) : (get : ReadM ε β (Cursor β)) c = .ok c c := rfl

end ReadM

/-- Which words spell which values. -/
abbrev Format (β α : Type) := α → List β → Prop

/-- One format after another; the second may depend on the first one's value. -/
def Format.bind (F : Format β α) (G : α → Format β γ) : Format β γ :=
  fun b w => ∃ a u v, F a u ∧ G a b v ∧ w = u ++ v

/-- The format of one value with the empty spelling. -/
def Format.pure (a : α) : Format β α := fun b w => b = a ∧ w = []

section Choice

variable {p : Prop} (F G : Format β α) (a : α) (w : List β)

/-- A format chosen by a condition is the chosen one. -/
theorem Format.choice_of_pos (h : p) : F a w ↔ (p ∧ F a w) ∨ (¬ p ∧ G a w) := by
  simp only [h, true_and, not_true, false_and, or_false]

theorem Format.choice_of_neg (h : ¬ p) : G a w ↔ (p ∧ F a w) ∨ (¬ p ∧ G a w) := by
  simp only [h, false_and, not_false_eq_true, true_and, false_or]

end Choice

/-- `m` reads the format `F`, on inputs shorter than `bound`. -/
structure Reads (bound : Nat) (m : ReadM ε β α) (F : Format β α) : Prop where
  /-- What `m` returns is spelled by exactly the words it consumed. -/
  exact : ∀ {c c' : Cursor β} {a : α}, m c = .ok a c' →
    ∃ w, F a w ∧ c.rest = w ++ c'.rest ∧ c' = c.advance w.length
  /-- `m` returns every value whose spelling stands at the cursor. -/
  accepts : ∀ {c : Cursor β} {a : α} {w r : List β}, c.Within bound → F a w →
    c.rest = w ++ r → m c = .ok a (c.advance w.length)

namespace Reads

variable {bound : Nat}

/-- The reader that reads nothing. -/
theorem pure (a : α) : Reads bound (Pure.pure a : ReadM ε β α) (Format.pure a) where
  exact h := by
    cases h
    exact ⟨[], ⟨rfl, rfl⟩, rfl, rfl⟩
  accepts _ h _ := by
    obtain ⟨rfl, rfl⟩ := h
    rfl

/-- The reader that always refuses. -/
theorem throw (e : ε) : Reads bound (MonadExcept.throw e : ReadM ε β α) (fun _ _ => False) where
  exact h := nomatch h
  accepts _ h _ := h.elim

/-- Readers in sequence read formats in sequence. -/
theorem bind {m : ReadM ε β α} {k : α → ReadM ε β γ} {F : Format β α} {G : α → Format β γ}
    (hm : Reads bound m F) (hk : ∀ a, Reads bound (k a) (G a)) : Reads bound (m >>= k) (F.bind G) where
  exact {c c'' b} h := by
    rw [ReadM.bind_apply] at h
    split at h
    next a c' hmc =>
      obtain ⟨u, hu, hrest, rfl⟩ := hm.exact hmc
      obtain ⟨v, hv, hrest', rfl⟩ := (hk a).exact h
      refine ⟨u ++ v, ⟨a, u, v, hu, hv, rfl⟩, ?_, ?_⟩
      · rw [hrest, hrest', List.append_assoc]
      · rw [Cursor.advance_advance, List.length_append]
    next => cases h
  accepts {c b w r} hin h hrest := by
    obtain ⟨a, u, v, hu, hv, rfl⟩ := h
    rw [List.append_assoc] at hrest
    have hfirst := hm.accepts hin hu hrest
    have hsecond := (hk a).accepts (hin.advance hrest) hv (Cursor.rest_advance_of_append hrest)
    simp only [ReadM.bind_apply, hfirst, hsecond, Cursor.advance_advance, List.length_append]

/-- Only what a format relates matters, not how it is written. -/
theorem congr {m : ReadM ε β α} {F G : Format β α} (h : Reads bound m F)
    (same : ∀ a w, F a w ↔ G a w) : Reads bound m G where
  exact hm := by
    obtain ⟨w, hw, hrest⟩ := h.exact hm
    exact ⟨w, (same _ _).mp hw, hrest⟩
  accepts hin hw hrest := h.accepts hin ((same _ _).mpr hw) hrest

theorem total {m : ReadM ε β α} (h : Reads bound m (fun a w => w = spell a)) :
    Reads bound m (fun a w => True ∧ w = spell a) :=
  h.congr fun _ _ => (true_and _).symm ▸ Iff.rfl

/-- A reader that checks a condition before going on. -/
theorem ite (p : Prop) [Decidable p] {m m' : ReadM ε β α} {F G : Format β α} (hm : Reads bound m F)
    (hm' : Reads bound m' G) :
    Reads bound (if p then m else m') (fun a w => (p ∧ F a w) ∨ (¬ p ∧ G a w)) := by
  by_cases h : p
  · rw [if_pos h]
    exact hm.congr fun a w => Format.choice_of_pos F G a w h
  · rw [if_neg h]
    exact hm'.congr fun a w => Format.choice_of_neg F G a w h

/-- A tagged union: the tag is read first and selects the reader of the body. -/
theorem tagged {τ : Type} {readTag : ReadM ε β τ} {spellTag : τ → List β}
    (htag : Reads bound readTag (fun t w => w = spellTag t)) (tagOf : α → τ) (P : α → Prop)
    (body : α → List β) {k : τ → ReadM ε β α}
    (hk : ∀ t, Reads bound (k t) (fun a w => t = tagOf a ∧ P a ∧ w = body a)) :
    Reads bound (readTag >>= k) (fun a w => P a ∧ w = spellTag (tagOf a) ++ body a) := by
  refine (htag.bind hk).congr fun a w => ?_
  constructor
  · intro h
    obtain ⟨_, _, _, rfl, ⟨rfl, hP, rfl⟩, rfl⟩ := h
    exact ⟨hP, rfl⟩
  · intro h
    obtain ⟨hP, rfl⟩ := h
    exact ⟨_, _, _, rfl, ⟨rfl, hP, rfl⟩, rfl⟩

/-- To read a format, it is enough to read some part of it, as long as every value of the format lies
in a part that is read. -/
theorem of_parts {m : ReadM ε β α} {F : Format β α}
    (hexact : ∃ G, Reads bound m G ∧ ∀ a w, G a w → F a w)
    (haccepts : ∀ a w, F a w → ∃ G, Reads bound m G ∧ G a w) : Reads bound m F where
  exact hm := by
    obtain ⟨G, hG, hsub⟩ := hexact
    obtain ⟨w, hw, hrest⟩ := hG.exact hm
    exact ⟨w, hsub _ _ hw, hrest⟩
  accepts hin hw hrest := by
    obtain ⟨G, hG, hGw⟩ := haccepts _ _ hw
    exact hG.accepts hin hGw hrest

/-- A reader whose result is wrapped. -/
theorem map {m : ReadM ε β α} {F : Format β α} (h : Reads bound m F) (f : α → γ) :
    Reads bound (m >>= fun a => Pure.pure (f a)) (fun b w => ∃ a, b = f a ∧ F a w) :=
  (h.bind fun a => Reads.pure (f a)).congr fun b w => by
    simp only [Format.bind, Format.pure]
    constructor
    · intro hw
      obtain ⟨a, u, v, hu, ⟨rfl, rfl⟩, rfl⟩ := hw
      exact ⟨a, rfl, by rwa [List.append_nil]⟩
    · intro hw
      obtain ⟨a, rfl, hu⟩ := hw
      exact ⟨a, w, [], hu, ⟨rfl, rfl⟩, (List.append_nil w).symm⟩

/-- A reader stays on its input. -/
theorem input_eq {m : ReadM ε β α} {F : Format β α} (h : Reads bound m F) {c c' : Cursor β} (hm : m c = .ok a c') :
    c'.input = c.input := by
  obtain ⟨w, _, _, rfl⟩ := h.exact hm
  rfl

/-- What a reader returns after consuming its whole input is spelled by that input. -/
theorem format_of_whole {m : ReadM ε β α} {F : Format β α} (h : Reads bound m F) {input : List β}
    (hm : ∃ c', m ⟨input, 0⟩ = .ok a c' ∧ c'.position = input.length) : F a input := by
  obtain ⟨c', hm, hend⟩ := hm
  obtain ⟨w, hw, hrest, rfl⟩ := h.exact hm
  have hpos : w.length = input.length := by simpa only [Cursor.advance, Nat.zero_add] using hend
  have hsplit : input = w ++ input.drop w.length := by
    simpa only [Cursor.rest, Cursor.advance, Nat.zero_add, List.drop_zero] using hrest
  rw [hpos, List.drop_length, List.append_nil] at hsplit
  rwa [hsplit]

/-- A reader run from the start of an input that it has to consume whole. -/
theorem whole_iff {m : ReadM ε β α} {F : Format β α} (h : Reads bound m F) {input : List β}
    (hlen : input.length < bound) : (∃ c', m ⟨input, 0⟩ = .ok a c' ∧ c'.position = input.length) ↔ F a input := by
  refine ⟨h.format_of_whole, fun hw => ?_⟩
  have hread := h.accepts (c := ⟨input, 0⟩) (r := []) ⟨Nat.zero_le _, hlen⟩ hw
    (by simp only [Cursor.rest, List.drop_zero, List.append_nil])
  exact ⟨_, hread, by simp only [Cursor.advance, Nat.zero_add]⟩

/-- A format that can be read is self-delimiting: no two of its words are comparable, and a word
spells one value. -/
theorem unique {m : ReadM ε β α} {F : Format β α} (h : Reads bound m F) {a' : α} {w' r' : List β} (hw : F a w)
    (hw' : F a' w') (heq : w ++ r = w' ++ r') (hlen : (w ++ r).length < bound) : a = a' ∧ w = w' := by
  have hin : (Cursor.mk (w ++ r) 0).Within bound := ⟨Nat.zero_le _, hlen⟩
  have hread := h.accepts hin hw rfl
  rw [h.accepts hin hw' heq] at hread
  injection hread with ha hc
  have hlength : w'.length = w.length := by
    have := congrArg Cursor.position hc
    simpa only [Cursor.advance_position, Nat.zero_add] using this
  exact ⟨ha.symm, (List.append_inj heq hlength.symm).1⟩

end Reads

/-! ## The rest of the input -/

/-- `m` reads the format `F` off all of the input that is left. -/
structure ReadsRest (bound : Nat) (m : ReadM ε β α) (F : Format β α) : Prop where
  exact : ∀ {c c' : Cursor β} {a : α}, m c = .ok a c' → F a c.rest
  accepts : ∀ {c : Cursor β} {a : α}, c.Within bound → F a c.rest → ∃ c', m c = .ok a c'

namespace ReadsRest

variable {bound : Nat}

/-- The reader that takes what is left. -/
theorem rest (f : List β → α) :
    ReadsRest bound (do let c ← get; return f c.rest : ReadM ε β α) (fun a w => a = f w) where
  exact h := by
    cases h
    rfl
  accepts _ h := by
    subst h
    exact ⟨_, rfl⟩

/-- The reader that ignores what is left. -/
theorem pure (a : α) : ReadsRest bound (Pure.pure a : ReadM ε β α) (fun b _ => b = a) where
  exact h := by
    cases h
    rfl
  accepts _ h := by
    subst h
    exact ⟨_, rfl⟩

theorem bind {m : ReadM ε β α} {k : α → ReadM ε β γ} {F : Format β α} {G : α → Format β γ}
    (hm : Reads bound m F) (hk : ∀ a, ReadsRest bound (k a) (G a)) : ReadsRest bound (m >>= k) (F.bind G) where
  exact h := by
    obtain ⟨a, mid, hfirst, hsecond⟩ := ReadM.of_bind_ok h
    obtain ⟨w, hw, hrest, -⟩ := hm.exact hfirst
    exact ⟨a, w, mid.rest, hw, (hk a).exact hsecond, hrest⟩
  accepts hin h := by
    obtain ⟨a, u, v, hu, hv, hrest⟩ := h
    have hfirst := hm.accepts hin hu hrest
    rw [← Cursor.rest_advance_of_append hrest] at hv
    obtain ⟨c', hsecond⟩ := (hk a).accepts (hin.advance hrest) hv
    exact ⟨c', by rw [ReadM.bind_apply, hfirst]; exact hsecond⟩

theorem congr {m : ReadM ε β α} {F G : Format β α} (h : ReadsRest bound m F) (same : ∀ a w, F a w ↔ G a w) :
    ReadsRest bound m G where
  exact hm := (same _ _).mp (h.exact hm)
  accepts hin hw := h.accepts hin ((same _ _).mpr hw)

theorem map {m : ReadM ε β α} {F : Format β α} (h : ReadsRest bound m F) (f : α → γ) :
    ReadsRest bound (m >>= fun a => Pure.pure (f a)) (fun b w => ∃ a, b = f a ∧ F a w) where
  exact hm := by
    obtain ⟨a, mid, hfirst, hsecond⟩ := ReadM.of_bind_ok hm
    cases hsecond
    exact ⟨a, rfl, h.exact hfirst⟩
  accepts hin hw := by
    obtain ⟨a, rfl, hw⟩ := hw
    obtain ⟨c', hfirst⟩ := h.accepts hin hw
    exact ⟨c', by rw [ReadM.bind_apply, hfirst]; rfl⟩

theorem ite (p : Prop) [Decidable p] {m m' : ReadM ε β α} {F G : Format β α} (hm : ReadsRest bound m F)
    (hm' : ReadsRest bound m' G) :
    ReadsRest bound (if p then m else m') (fun a w => (p ∧ F a w) ∨ (¬ p ∧ G a w)) := by
  by_cases h : p
  · rw [if_pos h]
    exact hm.congr fun a w => Format.choice_of_pos F G a w h
  · rw [if_neg h]
    exact hm'.congr fun a w => Format.choice_of_neg F G a w h

end ReadsRest

/-! ## Repetition -/

/-- Run a reader `n` times. -/
def readMany (m : ReadM ε β α) : Nat → ReadM ε β (List α)
  | 0 => pure []
  | n + 1 => do
    let a ← m
    let rest ← readMany m n
    return a :: rest

/-- The spelling of a list: its members' spellings in order. -/
def Format.many (F : Format β α) : List α → List β → Prop
  | [], w => w = []
  | a :: as, w => ∃ u v, F a u ∧ Format.many F as v ∧ w = u ++ v

theorem Reads.many {bound : Nat} {m : ReadM ε β α} {F : Format β α} (hm : Reads bound m F) :
    ∀ n, Reads bound (readMany m n) (fun as w => as.length = n ∧ F.many as w)
  | 0 => (Reads.pure []).congr fun as w => by
    cases as <;> simp only [Format.pure, Format.many, List.length_nil, List.length_cons, reduceCtorEq,
      Nat.add_one_ne_zero, false_and, true_and]
  | n + 1 => by
    refine (hm.bind fun a => (hm.many n).bind fun rest => Reads.pure (a :: rest)).congr fun as w => ?_
    constructor
    · rintro ⟨a, u, v, hu, ⟨rest, v', w', ⟨hlen, hrest⟩, ⟨rfl, rfl⟩, rfl⟩, rfl⟩
      exact ⟨by rw [List.length_cons, hlen], u, v', hu, hrest, by rw [List.append_nil]⟩
    · rintro ⟨hlen, has⟩
      cases as with
      | nil => cases hlen
      | cons a rest =>
        obtain ⟨u, v, hu, hrest, rfl⟩ := has
        exact ⟨a, u, v, hu, ⟨rest, v, [], ⟨Nat.succ.inj hlen, hrest⟩, ⟨rfl, rfl⟩, (List.append_nil v).symm⟩, rfl⟩

/-- When the member format is a function, so is the list format. -/
theorem Format.many_iff_flatMap {P : α → Prop} : ∀ (as : List α) (w : List β),
      Format.many (fun a u => P a ∧ u = spell a) as w ↔ (∀ a ∈ as, P a) ∧ w = as.flatMap spell
  | [], w => by simp only [Format.many, List.not_mem_nil, false_implies, implies_true, true_and, List.flatMap_nil]
  | a :: as, w => by
    constructor
    · rintro ⟨u, v, ⟨ha, rfl⟩, has, rfl⟩
      obtain ⟨hall, rfl⟩ := (Format.many_iff_flatMap as v).mp has
      exact ⟨List.forall_mem_cons.mpr ⟨ha, hall⟩, rfl⟩
    · rintro ⟨hall, rfl⟩
      obtain ⟨ha, hall⟩ := List.forall_mem_cons.mp hall
      exact ⟨_, _, ⟨ha, rfl⟩, (Format.many_iff_flatMap as _).mpr ⟨hall, rfl⟩, rfl⟩

/-! ## Writers -/

/-- A writer: it appends to an output, or fails. -/
abbrev WriteM (ε β : Type) := StateT (List β) (Except ε)

/-- `m` appends `w` when `P` holds and fails when it does not, whatever was written before. -/
def Writes (m : WriteM ε β Unit) (P : Prop) (w : List β) : Prop :=
  ∀ out, (P → m.run out = .ok ((), out ++ w)) ∧ (¬ P → ∃ e, m.run out = .error e)

namespace Writes

variable {m m' : WriteM ε β Unit} {P P' : Prop} {w w' : List β}

/-- The writer that appends a fixed word. -/
theorem append (w : List β) : Writes (modify (· ++ w) : WriteM ε β Unit) True w :=
  fun _ => ⟨fun _ => rfl, fun h => (h trivial).elim⟩

theorem pure : Writes (Pure.pure () : WriteM ε β Unit) True [] := fun out =>
  ⟨fun _ => by rw [List.append_nil]; rfl, fun h => (h trivial).elim⟩

theorem throw (e : ε) (w : List β) : Writes (MonadExcept.throw e : WriteM ε β Unit) False w :=
  fun _ => ⟨False.elim, fun _ => ⟨e, rfl⟩⟩

/-- Writers in sequence append words in sequence, and fail when either does. -/
theorem seq (h : Writes m P w) (h' : Writes m' P' w') :
    Writes (m >>= fun _ => m') (P ∧ P') (w ++ w') := fun out => by
  refine ⟨fun ⟨hP, hP'⟩ => ?_, fun hn => ?_⟩
  · rw [StateT.run_bind, (h out).1 hP]
    change m'.run (out ++ w) = _
    rw [(h' _).1 hP', List.append_assoc]
  · by_cases hP : P
    · obtain ⟨e, he⟩ := (h' (out ++ w)).2 fun hP' => hn ⟨hP, hP'⟩
      refine ⟨e, ?_⟩
      rw [StateT.run_bind, (h out).1 hP]
      exact he
    · obtain ⟨e, he⟩ := (h out).2 hP
      refine ⟨e, ?_⟩
      rw [StateT.run_bind, he]
      rfl

theorem congr (h : Writes m P w) (hP : P ↔ P') (hw : P → w = w') : Writes m P' w' := fun out => by
  refine ⟨fun hp => ?_, fun hn => (h out).2 fun hp => hn (hP.mp hp)⟩
  rw [← hw (hP.mpr hp)]
  exact (h out).1 (hP.mpr hp)

/-- A writer over a list writes its members in order. -/
theorem forM {f : α → WriteM ε β Unit} {Q : α → Prop} (h : ∀ a, Writes (f a) (Q a) (spell a)) :
    ∀ as : List α, Writes (as.forM f) (∀ a ∈ as, Q a) (as.flatMap spell)
  | [] => Writes.pure.congr (by simp only [List.not_mem_nil, false_implies, implies_true]) fun _ => rfl
  | a :: as => ((h a).seq (Writes.forM h as)).congr List.forall_mem_cons.symm fun _ => rfl

/-- The whole output of a writer run from nothing. -/
theorem run_nil (h : Writes m P w) (hP : P) : m.run [] = .ok ((), w) := (h []).1 hP

/-- A writer succeeds exactly on what it accepts. -/
theorem ok_iff (h : Writes m P w) {out out' : List β} :
    m.run out = .ok ((), out') ↔ P ∧ out' = out ++ w := by
  constructor
  · intro hm
    by_cases hP : P
    · rw [(h out).1 hP] at hm
      cases hm
      exact ⟨hP, rfl⟩
    · obtain ⟨e, he⟩ := (h out).2 hP
      rw [he] at hm
      cases hm
  · rintro ⟨hP, rfl⟩
    exact (h out).1 hP

end Writes

end NfsEmbed.Lib
