/-
# `Lib.RingQueue` — a queue in a ring with free-running counters

A producer appends to a stream.  It keeps the end of the stream in a ring of `sz` cells, the
`n`-th element in the cell `n % sz`, and says how far it is in a counter of 16 bits that is
never set back.  A consumer that is at most `sz` behind finds its next element.

When `sz` divides `2 ^ 16` the counter leads to the right cell after it has wrapped, too.
-/
import TX2SecureUart.Lib.RingWindow
import Mathlib

namespace TX2SecureUart.RingQueue

open RingWindow

variable {α : Type} {sz n : Nat} {stream : List α} {idx : UInt16} {cells : Nat → α}

/-- The counter stands for the length of the stream, and the ring holds its end. -/
structure Holds (sz : Nat) (stream : List α) (idx : UInt16) (cells : Nat → α) : Prop where
  idx_eq : idx = UInt16.ofNat stream.length
  fresh : Fresh sz stream.length stream.length (stream[·]?) (some ∘ cells)

theorem Holds.nil : Holds sz ([] : List α) 0 cells := ⟨rfl, Fresh.empty⟩

/-- The next element goes into the cell of its position. -/
theorem Holds.push (h : Holds sz stream idx cells) (x : α) :
    Holds sz (stream ++ [x]) (idx + 1) (Function.update cells (stream.length % sz) x) := by
  constructor
  · rw [h.idx_eq, List.length_append, List.length_singleton, UInt16.ofNat_add]
    rfl
  · have hnew : (stream ++ [x])[stream.length]? = some x := List.getElem?_concat_length
    have hold : Fresh sz (stream.length + 1) stream.length ((stream ++ [x])[·]?) (some ∘ cells) := by
      intro p hp hlt
      show _ = (stream ++ [x])[p]?
      rw [List.getElem?_append_left hlt]
      exact h.fresh p (Nat.le_of_succ_le hp) hlt
    have hstored := hold.store (Nat.lt_succ_self _)
    rw [Function.comp_update, ← hnew, List.length_append, List.length_singleton]
    exact hstored

/-- A consumer that is not too far behind reads the element that it is at. -/
theorem Holds.read (h : Holds sz stream idx cells) (hlt : n < stream.length)
    (hle : stream.length ≤ n + sz) : stream[n]? = some (cells (n % sz)) :=
  (h.fresh n hle hlt).symm

/-- What the counters of a producer and of a consumer are apart. -/
theorem ofNat_sub_ofNat {m : Nat} (h : n ≤ m) (hlt : m - n < 2 ^ 16) :
    (UInt16.ofNat m - UInt16.ofNat n).toNat = m - n := by
  have hsum : UInt16.ofNat m = UInt16.ofNat (m - n) + UInt16.ofNat n := by
    rw [← UInt16.ofNat_add, Nat.sub_add_cancel h]
  rw [hsum, UInt16.add_sub_cancel, UInt16.toNat_ofNat_of_lt' hlt]

theorem ofNat_eq_ofNat {m : Nat} (h : n ≤ m) (hlt : m - n < 2 ^ 16) :
    UInt16.ofNat n = UInt16.ofNat m ↔ n = m := by
  constructor
  · intro heq
    have hzero := ofNat_sub_ofNat h hlt
    rw [heq, UInt16.sub_self] at hzero
    exact Nat.le_antisymm h (Nat.sub_eq_zero_iff_le.mp hzero.symm)
  · rintro rfl
    rfl

/-- The counter leads to the cell of the position. -/
theorem ofNat_mod (hsz : sz ∣ 2 ^ 16) : (UInt16.ofNat n).toNat % sz = n % sz := by
  rw [UInt16.toNat_ofNat', Nat.mod_mod_of_dvd n hsz]

end TX2SecureUart.RingQueue
