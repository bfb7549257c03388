/-
# `Lib.Thermometer` — thermometer codes and masked updates

A thermometer code has all its ones at the bottom, `2 ^ n - 1`.  Every number up to it
is made of some of its ones, so in such a code order and inclusion of bits agree.

`(v & m) | (f & ~m)` replaces the bits of `f` under the mask `m`.
-/
import Mathlib

namespace TX2SecureUart.Bits

def Thermometer (x : Nat) : Prop := ∃ n, x = 2 ^ n - 1

theorem thermometer_of_and_succ {x : Nat} (h : x &&& (x + 1) = 0) : Thermometer x := by
  induction x using Nat.strongRecOn with
  | ind x ih =>
      -- by the last bit: an even number is its own successor without that bit
      rcases Nat.even_or_odd' x with ⟨k, rfl | rfl⟩
      · have hhalf : (2 * k &&& (2 * k + 1)) / 2 = k := by
          rw [Nat.and_div_two, Nat.mul_div_cancel_left k two_pos,
            show (2 * k + 1) / 2 = k by omega, Nat.and_self]
        rw [h] at hhalf
        exact ⟨0, by omega⟩
      · have hhalf : (2 * k + 1 &&& (2 * k + 1 + 1)) / 2 = k &&& (k + 1) := by
          rw [Nat.and_div_two, show (2 * k + 1) / 2 = k by omega,
            show (2 * k + 1 + 1) / 2 = k + 1 by omega]
        rw [h] at hhalf
        obtain ⟨n, hn⟩ := ih k (by omega) hhalf.symm
        refine ⟨n + 1, ?_⟩
        have hpos : 0 < 2 ^ n := Nat.two_pow_pos n
        rw [pow_succ]
        omega

/-- What is not above a thermometer code has none but its ones. -/
theorem Thermometer.or_of_le {a x : Nat} (h : Thermometer x) (hle : a ≤ x) : a ||| x = x := by
  obtain ⟨n, rfl⟩ := h
  have hpos : 0 < 2 ^ n := Nat.two_pow_pos n
  refine Nat.eq_of_testBit_eq ?_
  intro i
  rw [Nat.testBit_or, Nat.testBit_two_pow_sub_one]
  by_cases hi : i < n
  · rw [decide_eq_true hi, Bool.or_true]
  · have hlow : a < 2 ^ i :=
      lt_of_lt_of_le (by omega) (Nat.pow_le_pow_right two_pos (Nat.not_lt.mp hi))
    rw [decide_eq_false hi, Bool.or_false, Nat.testBit_lt_two_pow hlow]

/-! ## Masked updates -/

section Words

variable {w : Nat} (f v m : BitVec w)

theorem update_outside : ((v &&& m) ||| (f &&& ~~~m)) &&& ~~~m = f &&& ~~~m := by
  ext i
  simp only [BitVec.getElem_or, BitVec.getElem_and, BitVec.getElem_not]
  grind

theorem update_inside : ((v &&& m) ||| (f &&& ~~~m)) &&& m = v &&& m := by
  ext i
  simp only [BitVec.getElem_or, BitVec.getElem_and, BitVec.getElem_not]
  grind

/-- The update keeps the ones of the word when the new bits keep those under the mask. -/
theorem or_update (h : (f &&& m) ||| (v &&& m) = v &&& m) :
    f ||| ((v &&& m) ||| (f &&& ~~~m)) = (v &&& m) ||| (f &&& ~~~m) := by
  ext i hi
  have hbit := congrArg (fun x : BitVec w => x[i]) h
  simp only [BitVec.getElem_or, BitVec.getElem_and, BitVec.getElem_not] at hbit ⊢
  grind

end Words

end TX2SecureUart.Bits
