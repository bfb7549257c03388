/-
# `Lib.RingWindow` — the last bytes of a stream in a ring

A stream is written into a ring of `sz` cells, position `p` into cell `p % sz`.  The writer
announces how far it will write before it writes.  With `lo` announced and `hi` written,
the cells of the positions from `lo - sz` to `hi` hold the stream: what is stored next
falls into a cell whose old position is out of the window already.
-/
import Mathlib

namespace TX2SecureUart.RingWindow

variable {α : Type} {sz lo hi : Nat} {stream : Nat → α} {data : Nat → α}

/-- The window of the ring holds the stream. -/
def Fresh (sz lo hi : Nat) (stream data : Nat → α) : Prop :=
  ∀ p, lo ≤ p + sz → p < hi → data (p % sz) = stream p

theorem Fresh.empty : Fresh sz 0 0 stream data := by
  intro p _ hp
  exact absurd hp (Nat.not_lt_zero p)

/-- A smaller window. -/
theorem Fresh.mono {lo' hi' : Nat} (h : Fresh sz lo hi stream data) (hlo : lo ≤ lo') (hhi : hi' ≤ hi) :
    Fresh sz lo' hi' stream data := by
  intro p hp hlt
  exact h p (by omega) (by omega)

/-- Two positions less than a lap apart have different cells. -/
theorem mod_ne_of_lt {p q : Nat} (hpq : p < q) (hlap : q < p + sz) : p % sz ≠ q % sz := by
  intro h
  have hdvd : sz ∣ q - p := (Nat.modEq_iff_dvd' (Nat.le_of_lt hpq)).mp h
  have hle := Nat.le_of_dvd (by omega) hdvd
  omega

/-- The next position, of those announced, is stored. -/
theorem Fresh.store (h : Fresh sz lo hi stream data) (hlt : hi < lo) :
    Fresh sz lo (hi + 1) stream (Function.update data (hi % sz) (stream hi)) := by
  intro p hp hp'
  by_cases heq : p = hi
  · rw [heq, Function.update_self]
  · rw [Function.update_of_ne]
    · exact h p hp (by omega)
    · exact mod_ne_of_lt (by omega) (by omega)

end TX2SecureUart.RingWindow
