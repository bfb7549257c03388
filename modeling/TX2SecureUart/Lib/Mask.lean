/-
# `Lib.Mask` — rounding to an alignment with a bit mask

C rounds with masks: `ROUNDDOWN(a, b)` is `a & ~(b - 1)` and `ROUNDUP(a, b)` is
`(a + (b - 1)) & ~(b - 1)`.  For a power of two `b` these round to multiples;
the facts here hold for every mask, and say where the sum or the width of the
mask gets in the way.
-/
import Mathlib

namespace TX2SecureUart.Mask

section Words

variable {w : Nat}

/-- A word is its masked part and its cleared part. -/
theorem toNat_and_add_and_not (x m : BitVec w) :
    (x &&& m).toNat + (x &&& ~~~m).toNat = x.toNat := by
  have hz : (x &&& m) &&& (x &&& ~~~m) = 0#w := by
    ext i
    simp only [BitVec.getElem_and, BitVec.getElem_not, BitVec.getElem_zero]
    grind
  rw [← BitVec.toNat_add_of_and_eq_zero hz, BitVec.add_eq_or_of_and_eq_zero _ _ hz]
  congr 1
  ext i
  simp only [BitVec.getElem_or, BitVec.getElem_and, BitVec.getElem_not]
  grind

theorem toNat_and_not_le (x m : BitVec w) : (x &&& ~~~m).toNat ≤ x.toNat := by
  have := toNat_and_add_and_not x m
  omega

theorem toNat_and_le (x m : BitVec w) : (x &&& m).toNat ≤ m.toNat := by
  rw [BitVec.toNat_and]
  exact Nat.and_le_right

/-- A cleared word and its mask have no bit in common, so they add up. -/
theorem toNat_and_not_add_lt (x m : BitVec w) : (x &&& ~~~m).toNat + m.toNat < 2 ^ w := by
  have hz : (x &&& ~~~m) &&& m = 0#w := by
    ext i
    simp only [BitVec.getElem_and, BitVec.getElem_not, BitVec.getElem_zero]
    grind
  rw [← BitVec.toNat_add_of_and_eq_zero hz]
  exact BitVec.isLt _

/-- Rounding up does not go down as long as the sum fits. -/
theorem le_toNat_add_and_not {x m : BitVec w} (h : x.toNat + m.toNat < 2 ^ w) :
    x.toNat ≤ ((x + m) &&& ~~~m).toNat := by
  have hadd := toNat_and_add_and_not (x + m) m
  have hle := toNat_and_le (x + m) m
  rw [BitVec.toNat_add_of_lt h] at hadd
  omega

/-- With a mask of `k` ones, clearing rounds down to a multiple of `2 ^ k`. -/
theorem toNat_and_not_mask {m : BitVec w} {k : Nat} (hm : m.toNat = 2 ^ k - 1) (x : BitVec w) :
    (x &&& ~~~m).toNat = x.toNat / 2 ^ k * 2 ^ k := by
  have hadd := toNat_and_add_and_not x m
  rw [BitVec.toNat_and, hm, Nat.and_two_pow_sub_one_eq_mod] at hadd
  have hdiv := Nat.div_add_mod x.toNat (2 ^ k)
  rw [Nat.mul_comm] at hdiv
  omega

end Words

/-! ## The macros of `stdlib.h` at the kernel's types -/

/-- `ROUNDDOWN(a, b)` with both of 64 bits -/
def roundDown (a b : UInt64) : UInt64 := a &&& ~~~(b - 1)

/-- `ROUNDUP(a, b)` with both of 64 bits -/
def roundUp (a b : UInt64) : UInt64 := (a + (b - 1)) &&& ~~~(b - 1)

/-- `ROUNDDOWN(a, b)` with a `u_int` alignment: the complement is taken at 32
bits, so the upper half of the address is cleared with the rest. -/
def roundDown32 (a : UInt64) (b : UInt32) : UInt64 := a &&& (~~~(b - 1)).toUInt64

/-- `ROUNDUP(a, b)` with a `u_int` alignment. -/
def roundUp32 (a : UInt64) (b : UInt32) : UInt64 :=
  (a + (b - 1).toUInt64) &&& (~~~(b - 1)).toUInt64

theorem roundDown_le (a b : UInt64) : (roundDown a b).toNat ≤ a.toNat := by
  rw [roundDown, UInt64.toNat_and]
  exact Nat.and_le_left

theorem roundDown32_le (a : UInt64) (b : UInt32) : (roundDown32 a b).toNat ≤ a.toNat := by
  rw [roundDown32, UInt64.toNat_and]
  exact Nat.and_le_left

/-- What is left after the upper half is cleared is the 32-bit macro on the
lower half. -/
theorem toNat_and_not32 (x : UInt64) (m : UInt32) :
    (x &&& (~~~m).toUInt64).toNat = (x.toBitVec.setWidth 32 &&& ~~~m.toBitVec).toNat := by
  have hm : (~~~m).toNat < 2 ^ 32 := UInt32.toNat_lt _
  have hmod : (x.toNat &&& (~~~m).toNat) % 2 ^ 32 = x.toNat &&& (~~~m).toNat :=
    Nat.mod_eq_of_lt (lt_of_le_of_lt Nat.and_le_right hm)
  rw [UInt64.toNat_and, UInt32.toNat_toUInt64, BitVec.toNat_and, BitVec.toNat_setWidth,
    UInt64.toNat_toBitVec, ← UInt32.toBitVec_not, UInt32.toNat_toBitVec, ← hmod,
    Nat.and_mod_two_pow, Nat.mod_eq_of_lt hm]

/-- A rounded address and the mask fit 32 bits together. -/
theorem roundUp32_add_lt (a : UInt64) (b : UInt32) :
    (roundUp32 a b).toNat + (b - 1).toNat < 2 ^ 32 := by
  rw [roundUp32, toNat_and_not32]
  exact toNat_and_not_add_lt _ (b - 1).toBitVec

/-- Rounding up with a `u_int` alignment does not go down while the sum fits 32 bits. -/
theorem le_roundUp32 {a : UInt64} {b : UInt32} (h : a.toNat + (b - 1).toNat < 2 ^ 32) :
    a.toNat ≤ (roundUp32 a b).toNat := by
  have ha : (a.toBitVec.setWidth 32).toNat = a.toNat := by
    rw [BitVec.toNat_setWidth, UInt64.toNat_toBitVec]
    omega
  have hsum : (a + (b - 1).toUInt64).toBitVec.setWidth 32 =
      a.toBitVec.setWidth 32 + (b - 1).toBitVec := by
    apply BitVec.eq_of_toNat_eq
    simp only [BitVec.toNat_setWidth, BitVec.toNat_add, UInt64.toNat_toBitVec, UInt64.toNat_add,
      UInt32.toNat_toUInt64, UInt32.toNat_toBitVec]
    omega
  rw [roundUp32, toNat_and_not32, hsum, ← ha]
  apply le_toNat_add_and_not
  rw [ha]
  exact h

/-- `ROUNDDOWN` to a power of two. -/
theorem roundDown_toNat {b : UInt64} {k : Nat} (hb : (b - 1).toNat = 2 ^ k - 1) (a : UInt64) :
    (roundDown a b).toNat = a.toNat / 2 ^ k * 2 ^ k := by
  rw [roundDown, ← UInt64.toNat_toBitVec, UInt64.toBitVec_and, UInt64.toBitVec_not,
    toNat_and_not_mask (m := (b - 1).toBitVec) hb, UInt64.toNat_toBitVec]

/-- `ROUNDUP` to a power of two, of the sum as it comes out in 64 bits. -/
theorem roundUp_toNat {b : UInt64} {k : Nat} (hb : (b - 1).toNat = 2 ^ k - 1) (a : UInt64) :
    (roundUp a b).toNat = (a.toNat + (2 ^ k - 1)) % 2 ^ 64 / 2 ^ k * 2 ^ k := by
  have h := roundDown_toNat hb (a + (b - 1))
  rwa [roundDown, ← roundUp, UInt64.toNat_add, hb] at h

end TX2SecureUart.Mask
