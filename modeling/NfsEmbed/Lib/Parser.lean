import Mathlib.Tactic.Common

/-!
# Parsers of self-delimiting words

A parser takes what it needs from the front of its input and hands the rest on. `Parses p w a` says
that `p` recognises the word `w` as `a` whatever follows, which is what makes words that are simply
written one after the other readable again.
-/

namespace NfsEmbed.Lib

variable {β α γ : Type}

abbrev Parser (β α : Type) := StateT (List β) Option α

/-- `p` recognises `w` as `a`, whatever follows. -/
def Parses (p : Parser β α) (w : List β) (a : α) : Prop :=
  ∀ rest, p.run (w ++ rest) = some (a, rest)

namespace Parses

theorem pure (a : α) : Parses (Pure.pure a : Parser β α) [] a := fun _ => rfl

theorem bind {p : Parser β α} {k : α → Parser β γ} {u v : List β} {a : α} {b : γ}
    (hp : Parses p u a) (hk : Parses (k a) v b) : Parses (p >>= k) (u ++ v) b := fun rest => by
  rw [StateT.run_bind, List.append_assoc, hp]
  exact hk rest

theorem map {p : Parser β α} {w : List β} {a : α} (hp : Parses p w a) (f : α → γ) :
    Parses (p >>= fun a => Pure.pure (f a)) w (f a) :=
  List.append_nil w ▸ hp.bind (k := fun a => Pure.pure (f a)) (Parses.pure (f a))

/-- A parser that goes on with what it read. -/
theorem bind_nil {p : Parser β α} {k : α → Parser β γ} {w : List β} {a : α} {b : γ} (hp : Parses p w a)
    (hk : Parses (k a) [] b) : Parses (p >>= k) w b := by
  have h := hp.bind hk
  rwa [List.append_nil] at h

end Parses

namespace Parser

/-- The next `n` words. -/
def take (n : Nat) : Parser β (List β) := fun input =>
  if n ≤ input.length then some (input.take n, input.drop n) else none

theorem take_parses {n : Nat} {w : List β} (h : w.length = n) : Parses (take n) w w := fun rest => by
  subst h
  change (if _ then _ else _) = _
  rw [if_pos (by simp only [List.length_append, Nat.le_add_right]), List.take_left, List.drop_left]

/-! ## Linked lists -/

/-- Items until there is no next one, at most `fuel` of them. -/
def chain (next : Parser β (Option α)) : Nat → Parser β (List α)
  | 0 => failure
  | fuel + 1 => do
    match ← next with
    | none => return []
    | some a => return a :: (← chain next fuel)

/-- Items until there is no next one. An item takes at least one word of the input. -/
def chainAll (next : Parser β (Option α)) : Parser β (List α) := do
  chain next ((← get).length + 1)

variable {next : Parser β (Option γ)} {spell : α → List β} {f : α → γ} {stop : List β}

theorem chain_parses (hstop : Parses next stop none) :
    ∀ (as : List α) (fuel : Nat), as.length < fuel → (∀ a ∈ as, Parses next (spell a) (some (f a))) →
      Parses (chain next fuel) (as.flatMap spell ++ stop) (as.map f)
  | _, 0, hfuel, _ => absurd hfuel (Nat.not_lt_zero _)
  | [], fuel + 1, _, _ => by
    rw [List.flatMap_nil, List.nil_append, ← List.append_nil stop]
    exact hstop.bind (Parses.pure [])
  | a :: as, fuel + 1, hfuel, hitem => by
    have hrest := chain_parses hstop as fuel (Nat.lt_of_succ_lt_succ hfuel)
      fun b hb => hitem b (List.mem_cons_of_mem a hb)
    rw [List.flatMap_cons, List.append_assoc]
    exact (hitem a List.mem_cons_self).bind (hrest.map (f a :: ·))

theorem chainAll_parses (hstop : Parses next stop none) {as : List α}
    (hitem : ∀ a ∈ as, Parses next (spell a) (some (f a))) (hpos : ∀ a ∈ as, spell a ≠ []) :
    Parses (chainAll next) (as.flatMap spell ++ stop) (as.map f) := fun rest => by
  refine chain_parses hstop as _ ?_ hitem rest
  have hlength : as.length ≤ (as.flatMap spell).length := by
    induction as with
    | nil => exact Nat.le_refl 0
    | cons a as ih =>
      have hhead := List.length_pos_iff.mpr (hpos a List.mem_cons_self)
      have htail := ih (fun b hb => hitem b (List.mem_cons_of_mem a hb))
        fun b hb => hpos b (List.mem_cons_of_mem a hb)
      simp only [List.flatMap_cons, List.length_append, List.length_cons]
      omega
  simp only [List.length_append]
  omega

end Parser

end NfsEmbed.Lib
