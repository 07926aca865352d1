import Mathlib.Tactic.Common

/-!
# Reading from a stream

A reader takes what it needs from the stream of words that are still to come, or fails. `Consumes m w a`
says that `m` takes `w` for `a` whatever follows, and `Rejects m w e` that it fails with `e` on `w`.
-/

namespace NfsEmbed.Lib

variable {ε β α γ : Type}

abbrev StreamM (ε β : Type) := StateT (List β) (Except ε)

/-- `m` takes `w` off the stream and returns `a`, whatever follows. -/
def Consumes (m : StreamM ε β α) (w : List β) (a : α) : Prop := ∀ rest, m.run (w ++ rest) = .ok (a, rest)

namespace Consumes

theorem pure (a : α) : Consumes (Pure.pure a : StreamM ε β α) [] a := fun _ => rfl

theorem bind {m : StreamM ε β α} {k : α → StreamM ε β γ} {u v : List β} {a : α} {b : γ} (hm : Consumes m u a)
    (hk : Consumes (k a) v b) : Consumes (m >>= k) (u ++ v) b := by
  intro rest
  rw [StateT.run_bind, List.append_assoc, hm]
  exact hk rest

theorem map {m : StreamM ε β α} {w : List β} {a : α} (hm : Consumes m w a) (f : α → γ) :
    Consumes (m >>= fun a => Pure.pure (f a)) w (f a) := by
  intro rest
  rw [StateT.run_bind, hm]
  rfl

/-- A reader that goes on with what it took. -/
theorem bind_nil {m : StreamM ε β α} {k : α → StreamM ε β γ} {w : List β} {a : α} {b : γ} (hm : Consumes m w a)
    (hk : Consumes (k a) [] b) : Consumes (m >>= k) w b := by
  have h := hm.bind hk
  rwa [List.append_nil] at h

end Consumes

/-- `m` fails on a stream that starts with `w`. -/
def Rejects (m : StreamM ε β α) (w : List β) (e : ε) : Prop := ∀ rest, m.run (w ++ rest) = .error e

namespace Rejects

theorem throw (e : ε) : Rejects (MonadExcept.throw e : StreamM ε β α) [] e := fun _ => rfl

theorem bind {m : StreamM ε β α} {w : List β} {e : ε} (hm : Rejects m w e) (k : α → StreamM ε β γ) :
    Rejects (m >>= k) w e := by
  intro rest
  rw [StateT.run_bind, hm]
  rfl

/-- The failure comes after something that was read. -/
theorem after {m : StreamM ε β α} {k : α → StreamM ε β γ} {u v : List β} {a : α} {e : ε} (hm : Consumes m u a)
    (hk : Rejects (k a) v e) : Rejects (m >>= k) (u ++ v) e := by
  intro rest
  rw [StateT.run_bind, List.append_assoc, hm]
  exact hk rest

end Rejects

end NfsEmbed.Lib
