/-
# `Storage.Arith` — the block arithmetic of `tegrabl_utils.h`

The macros on 64-bit and 32-bit values, as numbers: what `MOD_LOG2`,
`DIV_FLOOR_LOG2` and the shifts by the size of a block compute, and when a block
number and a count stay in the device.
-/
import TX2SecureUart.Storage.Blockdev

namespace TX2SecureUart.Storage

open Prog ByteStore

variable {dev : Bdev} {heap : Heap} {n : UInt64} {k : UInt32} {disk : Disk}

/-- Bytes of a block. -/
def Bdev.B (dev : Bdev) : Nat := 2 ^ dev.blockSizeLog2.toNat

theorem Bdev.B_pos (dev : Bdev) : 0 < dev.B := Nat.two_pow_pos _

theorem toNat_shift_mod (h : k.toNat < 64) : k.toUInt64.toNat % 64 = k.toNat := by
  rw [UInt32.toNat_toUInt64, Nat.mod_eq_of_lt h]

theorem one_shiftLeft_toNat (h : k.toNat < 64) : ((1 : UInt64) <<< k.toUInt64).toNat = 2 ^ k.toNat := by
  have hlt : 2 ^ k.toNat < 2 ^ 64 := Nat.pow_lt_pow_right (by norm_num) h
  rw [UInt64.toNat_shiftLeft, toNat_shift_mod h]
  show 1 <<< k.toNat % 2 ^ 64 = 2 ^ k.toNat
  rw [Nat.one_shiftLeft, Nat.mod_eq_of_lt hlt]

theorem modLog2_toNat (h : k.toNat < 64) : (modLog2 n k).toNat = n.toNat % 2 ^ k.toNat := by
  have hone := one_shiftLeft_toNat h
  have hpos : 0 < 2 ^ k.toNat := Nat.two_pow_pos _
  have hle : (1 : UInt64) ≤ 1 <<< k.toUInt64 := by
    rw [UInt64.le_iff_toNat_le, hone]
    exact hpos
  rw [modLog2, UInt64.toNat_and, UInt64.toNat_sub_of_le _ _ hle, hone]
  exact Nat.and_two_pow_sub_one_eq_mod _ _

theorem divFloorLog2_toNat (h : k.toNat < 64) :
    (divFloorLog2 n k).toNat = n.toNat / 2 ^ k.toNat := by
  rw [divFloorLog2, UInt64.toNat_shiftRight, toNat_shift_mod h, Nat.shiftRight_eq_div_pow]

theorem shiftLeft_toNat (h : k.toNat < 64) (hn : n.toNat * 2 ^ k.toNat < 2 ^ 64) :
    (n <<< k.toUInt64).toNat = n.toNat * 2 ^ k.toNat := by
  rw [UInt64.toNat_shiftLeft, toNat_shift_mod h, Nat.shiftLeft_eq, Nat.mod_eq_of_lt hn]

theorem modLog2_ne_zero (h : k.toNat < 64) : modLog2 n k ≠ 0 ↔ n.toNat % 2 ^ k.toNat ≠ 0 := by
  rw [← modLog2_toNat h, ne_eq, ne_eq, ← UInt64.toNat_inj]
  rfl

/-- A device with a byte in it has blocks of less than 2^64 bytes. -/
theorem Bdev.log2_lt (h : 0 < dev.size.toNat) : dev.blockSizeLog2.toNat < 64 := by
  by_contra hge
  have hle : 2 ^ 64 ≤ 2 ^ dev.blockSizeLog2.toNat := Nat.pow_le_pow_right (by norm_num) (by omega)
  have hlt := dev.size.toNat_lt
  rw [dev.size_eq] at h hlt
  have hbc : 0 < dev.blockCount.toNat := Nat.pos_of_mul_pos_right h
  have := Nat.mul_le_mul hbc hle
  omega

theorem Bdev.blockSize_toNat (h : dev.blockSizeLog2.toNat < 64) : dev.blockSize.toNat = dev.B :=
  one_shiftLeft_toNat h

theorem one_toNat (h : k.toNat < 32) : ((1 : UInt32) <<< k).toUInt64.toNat = 2 ^ k.toNat := by
  have hlt : 2 ^ k.toNat < 2 ^ 32 := Nat.pow_lt_pow_right (by norm_num) h
  rw [UInt32.toNat_toUInt64, UInt32.toNat_shiftLeft, Nat.mod_eq_of_lt h]
  show 1 <<< k.toNat % 2 ^ 32 = 2 ^ k.toNat
  rw [Nat.one_shiftLeft, Nat.mod_eq_of_lt hlt]

theorem oneBlock_run {σ : Type} (s : σ) (h : dev.blockSizeLog2.toNat < 32) :
    ∃ one : UInt64, one.toNat = dev.B ∧ oneBlock dev s = .ok one s := by
  have hlt : dev.blockSizeLog2 < 32 := UInt32.lt_iff_toNat_lt.mpr h
  refine ⟨_, one_toNat h, ?_⟩
  rw [oneBlock, if_pos hlt]
  rfl

theorem oneBlock_undefined (h : ¬ dev.blockSizeLog2.toNat < 32) :
    oneBlock dev disk = .error .undefined disk := by
  have hnlt : ¬ dev.blockSizeLog2 < 32 := fun hlt => h (UInt32.lt_iff_toNat_lt.mp hlt)
  rw [oneBlock, if_neg hnlt]
  rfl

/-- A range of blocks is in the device when its bytes are. -/
theorem ceil_le_iff (dev : Bdev) (start size : Nat) :
    start + (size + (dev.B - 1)) / dev.B ≤ dev.blockCount.toNat ↔
      start * dev.B + size ≤ dev.size.toNat := by
  have hsize : dev.size.toNat = dev.blockCount.toNat * dev.B := dev.size_eq
  have hpos := dev.B_pos
  have hup := Nat.div_add_mod (size + (dev.B - 1)) dev.B
  have hmod := Nat.mod_lt (size + (dev.B - 1)) hpos
  rw [hsize]
  constructor
  · intro h
    have hmul := Nat.mul_le_mul_right dev.B h
    rw [Nat.add_mul, Nat.mul_comm (_ / _)] at hmul
    omega
  · intro h
    by_contra hlt
    have hmul := Nat.mul_le_mul_right dev.B (Nat.succ_le_of_lt (Nat.lt_of_not_le hlt))
    rw [Nat.succ_mul, Nat.add_mul, Nat.mul_comm (_ / _)] at hmul
    omega

/-- An address that is a multiple of 8 satisfies the alignment of the device. -/
theorem bufferAligned_of_dvd (dev : Bdev) {buf : UInt64} (h : 8 ∣ buf.toNat) :
    bufferAligned dev buf = true := by
  have hdvd : dev.bufAlignSize.toNat ∣ buf.toNat := dev.align_dvd.trans h
  have hpow : ∃ a, dev.bufAlignSize.toNat = 2 ^ a := by
    have h8 : dev.bufAlignSize.toNat ∣ 2 ^ 3 := dev.align_dvd
    obtain ⟨a, _, ha⟩ := (Nat.dvd_prime_pow Nat.prime_two).mp h8
    exact ⟨a, ha⟩
  obtain ⟨a, ha⟩ := hpow
  have hone : (1 : UInt32) ≤ dev.bufAlignSize := by
    rw [UInt32.le_iff_toNat_le, ha]
    exact Nat.two_pow_pos a
  refine decide_eq_true (UInt64.toNat_inj.mp ?_)
  rw [modPow2, UInt64.toNat_and, UInt32.toNat_toUInt64, UInt32.toNat_sub_of_le _ _ hone, ha]
  show _ &&& (2 ^ a - 1) = 0
  rw [Nat.and_two_pow_sub_one_eq_mod, ← ha]
  exact Nat.mod_eq_zero_of_dvd hdvd

theorem heap_bufferAligned (dev : Bdev) (heap : Heap) (n : UInt64) :
    bufferAligned dev (heap.addr n) = true :=
  bufferAligned_of_dvd dev (heap.aligned n)

/-! ## Whole blocks -/

section

variable {buf : UInt64} {block count : UInt32} {data : List UInt8}

variable (dev block count) in
theorem count_in_device (h : block.toNat + count.toNat ≤ dev.blockCount.toNat) :
    ¬ (block > dev.blockCount ∨ block + count > dev.blockCount) := by
  have hbc := dev.blockCount.toNat_lt
  rintro (hgt | hgt)
  · have := UInt32.lt_iff_toNat_lt.mp hgt
    omega
  · have := UInt32.lt_iff_toNat_lt.mp hgt
    rw [UInt32.toNat_add, Nat.mod_eq_of_lt (by omega)] at this
    omega

variable (disk) in
theorem readBlock_run (hc : count ≠ 0) (hb : bufferAligned dev buf = true) (hr : dev.ref ≠ 0)
    (hrange : ¬ (block > dev.blockCount ∨ block + count > dev.blockCount)) :
    tegrablBlockdevReadBlock (exactDriver dev) dev buf block count disk =
      .ok (slice disk (block.toNat * dev.B) (count.toNat * dev.B)) disk := by
  have hrange : ¬ (decide (block > dev.blockCount) || decide (block + count > dev.blockCount)) = true := by
    simpa using hrange
  simp only [tegrablBlockdevReadBlock, if_neg hc, hb, Bool.not_true, Bool.false_eq_true, if_false,
    if_neg hr, if_neg hrange]
  rfl

variable (disk data) in
theorem writeBlock_run (hc : count ≠ 0) (hn : buf ≠ 0) (hb : bufferAligned dev buf = true)
    (hr : dev.ref ≠ 0) (hrange : ¬ (block > dev.blockCount ∨ block + count > dev.blockCount)) :
    tegrablBlockdevWriteBlock (exactDriver dev) dev buf data block count disk =
      .ok () (patch disk (block.toNat * dev.B) (data.take (count.toNat * dev.B))) := by
  have hrange : ¬ (decide (block > dev.blockCount) || decide (block + count > dev.blockCount)) = true := by
    simpa using hrange
  have hcn : ¬ (decide (count = 0) || decide (buf = 0)) = true := by
    simp [hc, hn]
  simp only [tegrablBlockdevWriteBlock, if_neg hcn, hb, Bool.not_true, Bool.false_eq_true, if_false,
    if_neg hr, if_neg hrange]
  rfl

end

end TX2SecureUart.Storage
