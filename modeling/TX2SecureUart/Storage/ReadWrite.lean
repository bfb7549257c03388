/-
# `Storage.ReadWrite` — a range of bytes, block by block

The three pieces of a read and of a write, each on its own: the end of the first
block, the whole blocks, the start of the last one.  For a range inside the
device the pieces of a read together are the bytes of the range, and the pieces
of a write put the buffer there and nothing else anywhere.
-/
import TX2SecureUart.Storage.Arith

namespace TX2SecureUart.Storage

open Prog ByteStore

variable {dev : Bdev} {heap : Heap} {disk : Disk} {offset len : UInt64} {r : Rest}
  {partialBuf : Option UInt64} {data : List UInt8}

/-! ## The first block -/

variable (heap len) in
/-- The scratch block is there when the range has an unaligned end. -/
theorem scratch_isSome (hk : dev.blockSizeLog2.toNat < 64)
    (h : offset.toNat % dev.B ≠ 0 ∨ len.toNat % dev.B ≠ 0) :
    ∃ n, scratch dev heap offset len = some (heap.addr n) := by
  refine ⟨dev.blockSize, if_pos ?_⟩
  rw [Bool.or_eq_true, decide_eq_true_eq, decide_eq_true_eq, modLog2_ne_zero hk, modLog2_ne_zero hk]
  exact h

/-- The block that a range in the device starts in. -/
theorem startBlock (hk : dev.blockSizeLog2.toNat < 64) (ho : offset.toNat < dev.size.toNat) :
    (divFloorLog2 offset dev.blockSizeLog2).toUInt32.toNat = offset.toNat / dev.B ∧
      offset.toNat / dev.B + 1 ≤ dev.blockCount.toNat := by
  have hlt : offset.toNat / dev.B < dev.blockCount.toNat := by
    rw [Nat.div_lt_iff_lt_mul dev.B_pos]
    rw [dev.size_eq] at ho
    exact ho
  refine ⟨?_, hlt⟩
  rw [UInt64.toNat_toUInt32, divFloorLog2_toNat hk]
  exact Nat.mod_eq_of_lt (Nat.lt_trans hlt dev.blockCount.toNat_lt)

/-- Where a range goes on after its first block. -/
structure AfterHead (dev : Bdev) (offset : UInt64) (buf len : UInt64) (t : Nat) (r : Rest) : Prop where
  le : t ≤ len.toNat
  left : r.len.toNat = len.toNat - t
  moved : r.buf = buf + (len - r.len)
  aligned : offset.toNat % dev.B = 0 → t = 0
  inside : r.block.toNat ≤ dev.blockCount.toNat
  boundary : t < len.toNat → r.block.toNat * dev.B = offset.toNat + t
  short : t < dev.B

/-- A range that starts with a block has no head. -/
theorem afterHead_nil (hk : dev.blockSizeLog2.toNat < 64) (ho : offset.toNat < dev.size.toNat)
    (hmod : offset.toNat % dev.B = 0) (buf len : UInt64) :
    AfterHead dev offset buf len 0 ⟨buf, len, (divFloorLog2 offset dev.blockSizeLog2).toUInt32⟩ := by
  obtain ⟨hblock, hlt⟩ := startBlock hk ho
  refine ⟨Nat.zero_le _, rfl, ?_, fun _ => rfl, ?_, ?_, dev.B_pos⟩
  · simp
  · rw [hblock]
    exact Nat.le_of_succ_le hlt
  · intro _
    rw [hblock]
    exact Nat.div_mul_cancel (Nat.dvd_of_mod_eq_zero hmod)

theorem tocopy_toNat (hk : dev.blockSizeLog2.toNat < 64) (offset len : UInt64) :
    (tocopy dev offset len).toNat = min (dev.B - offset.toNat % dev.B) len.toNat := by
  have hmod := modLog2_toNat (n := offset) hk
  have hsize := Bdev.blockSize_toNat hk
  have hlt : offset.toNat % dev.B < dev.B := Nat.mod_lt _ dev.B_pos
  have hle : modLog2 offset dev.blockSizeLog2 ≤ dev.blockSize := by
    rw [UInt64.le_iff_toNat_le, hmod, hsize]
    exact hlt.le
  have hsub : (dev.blockSize - modLog2 offset dev.blockSizeLog2).toNat
      = dev.B - offset.toNat % dev.B := by
    rw [UInt64.toNat_sub_of_le _ _ hle, hmod, hsize]
    rfl
  rw [← hsub, tocopy]
  by_cases h : dev.blockSize - modLog2 offset dev.blockSizeLog2 < len
  · rw [if_pos h, min_eq_left (UInt64.lt_iff_toNat_lt.mp h).le]
  · have hge : len.toNat ≤ (dev.blockSize - modLog2 offset dev.blockSizeLog2).toNat :=
      Nat.not_lt.mp fun hlt => h (UInt64.lt_iff_toNat_lt.mpr hlt)
    rw [if_neg h, min_eq_right hge]

/-- A range that starts inside a block takes the rest of that block. -/
theorem afterHead_cons (hk : dev.blockSizeLog2.toNat < 64) (ho : offset.toNat < dev.size.toNat)
    (hmod : offset.toNat % dev.B ≠ 0) (buf len : UInt64) :
    AfterHead dev offset buf len (tocopy dev offset len).toNat
      (Rest.skip ⟨buf, len, (divFloorLog2 offset dev.blockSizeLog2).toUInt32⟩ (tocopy dev offset len) 1)
      := by
  obtain ⟨hblock, hlt⟩ := startBlock hk ho
  have hpos := dev.B_pos
  have hbc := dev.blockCount.toNat_lt
  have hnext : ((divFloorLog2 offset dev.blockSizeLog2).toUInt32 + 1).toNat
      = offset.toNat / dev.B + 1 := by
    rw [UInt32.toNat_add, hblock]
    exact Nat.mod_eq_of_lt (by show _ + 1 < 2 ^ 32; omega)
  have hcopy := tocopy_toNat hk offset len
  have hmlt : offset.toNat % dev.B < dev.B := Nat.mod_lt _ hpos
  have hle : (tocopy dev offset len) ≤ len := by
    rw [UInt64.le_iff_toNat_le, hcopy]
    exact min_le_right _ _
  refine ⟨UInt64.le_iff_toNat_le.mp hle, UInt64.toNat_sub_of_le _ _ hle, ?_, fun h => absurd h hmod, ?_,
    ?_, ?_⟩
  · show buf + tocopy dev offset len = buf + (len - (len - tocopy dev offset len))
    rw [sub_sub_cancel]
  · show ((divFloorLog2 offset dev.blockSizeLog2).toUInt32 + 1).toNat ≤ _
    rw [hnext]
    exact hlt
  · intro ht
    show ((divFloorLog2 offset dev.blockSizeLog2).toUInt32 + 1).toNat * dev.B = _
    have hc : (tocopy dev offset len).toNat = dev.B - offset.toNat % dev.B := by
      rw [hcopy] at ht ⊢
      exact min_eq_left (by omega)
    have hsplit := Nat.div_add_mod offset.toNat dev.B
    rw [hnext, hc, Nat.succ_mul, Nat.mul_comm]
    omega
  · rw [hcopy]
    omega

theorem tocopy_window (hk : dev.blockSizeLog2.toNat < 64) (offset len : UInt64) :
    offset.toNat % dev.B + (tocopy dev offset len).toNat ≤ dev.B := by
  have hlt : offset.toNat % dev.B < dev.B := Nat.mod_lt _ dev.B_pos
  rw [tocopy_toNat hk]
  omega

variable (heap disk len) in
theorem readHead_run (hk : dev.blockSizeLog2.toNat < 64) (hr : dev.ref ≠ 0)
    (ho : offset.toNat < dev.size.toNat) (buf : UInt64) :
    ∃ t r, readHead (exactDriver dev) dev (scratch dev heap offset len) offset
        ⟨buf, len, (divFloorLog2 offset dev.blockSizeLog2).toUInt32⟩ disk
        = .ok (slice disk offset.toNat t, r) disk ∧ AfterHead dev offset buf len t r := by
  by_cases hmod : offset.toNat % dev.B = 0
  · refine ⟨0, _, ?_, afterHead_nil hk ho hmod buf len⟩
    have hz : ¬ modLog2 offset dev.blockSizeLog2 ≠ 0 := by
      rw [modLog2_ne_zero hk]
      exact not_not.mpr hmod
    rw [readHead, if_neg hz]
    rfl
  · obtain ⟨n, hn⟩ := scratch_isSome heap len hk (Or.inl hmod)
    obtain ⟨hblock, hin⟩ := startBlock hk ho
    have hrange := count_in_device dev
      (divFloorLog2 offset dev.blockSizeLog2).toUInt32 1 (by rw [hblock]; exact hin)
    have hread := readBlock_run disk (by decide) (heap_bufferAligned dev heap n) hr hrange
    refine ⟨(tocopy dev offset len).toNat, _, ?_, afterHead_cons hk ho hmod buf len⟩
    have hnz := (modLog2_ne_zero (n := offset) hk).mpr hmod
    have hcut : ((slice disk ((divFloorLog2 offset dev.blockSizeLog2).toUInt32.toNat * dev.B)
        ((1 : UInt32).toNat * dev.B)).drop (modLog2 offset dev.blockSizeLog2).toNat).take
          (tocopy dev offset len).toNat = slice disk offset.toNat (tocopy dev offset len).toNat := by
      have hone : (1 : UInt32).toNat * dev.B = dev.B := Nat.one_mul _
      have hm : (modLog2 offset dev.blockSizeLog2).toNat = offset.toNat % dev.B := modLog2_toNat hk
      rw [hone, hm, slice_window _ _ (tocopy_window hk offset len), hblock]
      congr 1
      rw [Nat.mul_comm]
      exact Nat.div_add_mod ..
    rw [readHead, if_pos hnz, run_bind, hn, Option.getD_some, hread]
    simp only [run_pure, hcut]

variable (disk) in
/-- The scratch block with a part replaced puts that part on the device. -/
theorem patch_overwrite (a m n : Nat) (xs : List UInt8) (h : m + xs.length ≤ n) :
    patch disk a ((overwrite (slice disk a n) m xs).take n) = patch disk (a + m) xs := by
  have hlen : (overwrite (slice disk a n) m xs).length = n := by
    simp only [overwrite, List.length_append, List.length_take, List.length_drop, length_slice]
    omega
  rw [List.take_of_length_le hlen.le, overwrite, patch_within h]

variable (heap disk) in
theorem writeHead_run (hk : dev.blockSizeLog2.toNat < 64) (hr : dev.ref ≠ 0)
    (ho : offset.toNat < dev.size.toNat) (hdata : data.length = len.toNat) (buf : UInt64) :
    ∃ t r, writeHead (exactDriver dev) dev (scratch dev heap offset len) offset data
        ⟨buf, len, (divFloorLog2 offset dev.blockSizeLog2).toUInt32⟩ disk
        = .ok (data.drop t, r) (patch disk offset.toNat (data.take t)) ∧
      AfterHead dev offset buf len t r := by
  by_cases hmod : offset.toNat % dev.B = 0
  · refine ⟨0, _, ?_, afterHead_nil hk ho hmod buf len⟩
    have hz : ¬ modLog2 offset dev.blockSizeLog2 ≠ 0 := by
      rw [modLog2_ne_zero hk]
      exact not_not.mpr hmod
    have hnil : patch disk offset.toNat (data.take 0) = disk := patch_slice disk offset.toNat 0
    rw [writeHead, if_neg hz, hnil]
    rfl
  · obtain ⟨n, hn⟩ := scratch_isSome heap len hk (Or.inl hmod)
    obtain ⟨hblock, hin⟩ := startBlock hk ho
    have hrange := count_in_device dev
      (divFloorLog2 offset dev.blockSizeLog2).toUInt32 1 (by rw [hblock]; exact hin)
    have hread := readBlock_run disk (by decide) (heap_bufferAligned dev heap n) hr hrange
    have hafter := afterHead_cons hk ho hmod buf len
    refine ⟨(tocopy dev offset len).toNat, _, ?_, hafter⟩
    have hnz := (modLog2_ne_zero (n := offset) hk).mpr hmod
    have hone : (1 : UInt32).toNat * dev.B = dev.B := Nat.one_mul _
    have hm : (modLog2 offset dev.blockSizeLog2).toNat = offset.toNat % dev.B := modLog2_toNat hk
    have htake : (data.take (tocopy dev offset len).toNat).length = (tocopy dev offset len).toNat := by
      rw [List.length_take, hdata]
      exact min_eq_left hafter.le
    have hput := patch_overwrite disk
      ((divFloorLog2 offset dev.blockSizeLog2).toUInt32.toNat * dev.B)
      (offset.toNat % dev.B) dev.B (data.take (tocopy dev offset len).toNat)
      (by rw [htake]; exact tocopy_window hk offset len)
    have hplace : (divFloorLog2 offset dev.blockSizeLog2).toUInt32.toNat * dev.B
        + offset.toNat % dev.B = offset.toNat := by
      rw [hblock, Nat.mul_comm]
      exact Nat.div_add_mod ..
    rw [hplace] at hput
    have hwrite := writeBlock_run disk
      (overwrite (slice disk ((divFloorLog2 offset dev.blockSizeLog2).toUInt32.toNat * dev.B)
        ((1 : UInt32).toNat * dev.B)) (modLog2 offset dev.blockSizeLog2).toNat
          (data.take (tocopy dev offset len).toNat))
      (by decide) (heap.nonnull n) (heap_bufferAligned dev heap n) hr hrange
    rw [hm, hone, hput] at hwrite
    rw [writeHead, if_pos hnz, run_bind, hn, Option.getD_some, hread]
    simp only [run_bind, hm, hone, hwrite, run_pure]

/-! ## The whole blocks -/

/-- What a range in the device has in whole blocks. -/
theorem middle_count (hk : dev.blockSizeLog2.toNat < 32)
    (hin : r.block.toNat * dev.B + r.len.toNat ≤ dev.size.toNat) :
    (divFloorLog2 r.len dev.blockSizeLog2).toUInt32.toNat = r.len.toNat / dev.B ∧
      r.block.toNat + r.len.toNat / dev.B ≤ dev.blockCount.toNat ∧
      ((divFloorLog2 r.len dev.blockSizeLog2) <<< dev.blockSizeLog2.toUInt64).toNat
        = r.len.toNat / dev.B * dev.B := by
  have hk' : dev.blockSizeLog2.toNat < 64 := by omega
  have hdiv := divFloorLog2_toNat (n := r.len) hk'
  have hmul : r.len.toNat / dev.B * dev.B ≤ r.len.toNat := Nat.div_mul_le_self _ _
  have hsum : r.block.toNat + r.len.toNat / dev.B ≤ dev.blockCount.toNat := by
    have hle : (r.block.toNat + r.len.toNat / dev.B) * dev.B ≤ dev.blockCount.toNat * dev.B := by
      rw [Nat.add_mul]
      rw [dev.size_eq] at hin
      exact Nat.le_trans (Nat.add_le_add_left hmul _) hin
    exact Nat.le_of_mul_le_mul_right hle dev.B_pos
  have hbc := dev.blockCount.toNat_lt
  have hlt := r.len.toNat_lt
  refine ⟨?_, hsum, ?_⟩
  · rw [UInt64.toNat_toUInt32, hdiv]
    exact Nat.mod_eq_of_lt (by show r.len.toNat / dev.B < 2 ^ 32; omega)
  · have hfit : (divFloorLog2 r.len dev.blockSizeLog2).toNat * 2 ^ dev.blockSizeLog2.toNat < 2 ^ 64 := by
      rw [hdiv]
      exact Nat.lt_of_le_of_lt hmul hlt
    rw [shiftLeft_toNat hk' hfit, hdiv]
    rfl

/-- Where a range goes on after its whole blocks. -/
structure AfterMiddle (dev : Bdev) (r r' : Rest) : Prop where
  left : r'.len.toNat = r.len.toNat % dev.B
  block : r'.block.toNat = r.block.toNat + r.len.toNat / dev.B

theorem afterMiddle_skip (hk : dev.blockSizeLog2.toNat < 32)
    (hin : r.block.toNat * dev.B + r.len.toNat ≤ dev.size.toNat) :
    AfterMiddle dev r (r.skip ((divFloorLog2 r.len dev.blockSizeLog2) <<< dev.blockSizeLog2.toUInt64)
      (divFloorLog2 r.len dev.blockSizeLog2).toUInt32) := by
  obtain ⟨hcount, hsum, hbytes⟩ := middle_count hk hin
  have hbc := dev.blockCount.toNat_lt
  have hmul : r.len.toNat / dev.B * dev.B ≤ r.len.toNat := Nat.div_mul_le_self _ _
  refine ⟨?_, ?_⟩
  · show (r.len - _).toNat = _
    rw [UInt64.toNat_sub_of_le _ _ (by rw [UInt64.le_iff_toNat_le, hbytes]; exact hmul), hbytes]
    have := Nat.div_add_mod r.len.toNat dev.B
    rw [Nat.mul_comm] at this
    omega
  · show (r.block + _).toNat = _
    rw [UInt32.toNat_add, hcount]
    exact Nat.mod_eq_of_lt (by show _ < 2 ^ 32; omega)

theorem afterMiddle_none (h : r.len.toNat < dev.B) : AfterMiddle dev r r :=
  ⟨(Nat.mod_eq_of_lt h).symm, by rw [Nat.div_eq_of_lt h, Nat.add_zero]⟩

/-- The checks that the whole blocks of a range in the device pass. -/
theorem middle_checks {one : UInt64} (hk : dev.blockSizeLog2.toNat < 32)
    (hin : r.block.toNat * dev.B + r.len.toNat ≤ dev.size.toNat) (hone : one.toNat = dev.B)
    (hge : dev.B ≤ r.len.toNat) :
    (divFloorLog2 r.len dev.blockSizeLog2).toUInt32 ≠ 0 ∧
      ¬ (r.block > dev.blockCount ∨
        r.block + (divFloorLog2 r.len dev.blockSizeLog2).toUInt32 > dev.blockCount) ∧
      r.len ≥ one ∧
      ¬ (divFloorLog2 r.len dev.blockSizeLog2) <<< dev.blockSizeLog2.toUInt64 > r.len := by
  obtain ⟨hcount, hsum, hbytes⟩ := middle_count hk hin
  have hpos : 0 < r.len.toNat / dev.B := Nat.div_pos hge dev.B_pos
  refine ⟨?_, count_in_device dev r.block _ (by rw [hcount]; exact hsum), ?_, ?_⟩
  · intro hz
    rw [hz] at hcount
    have hcount : 0 = r.len.toNat / dev.B := hcount
    omega
  · rw [ge_iff_le, UInt64.le_iff_toNat_le, hone]
    exact hge
  · rw [gt_iff_lt, UInt64.lt_iff_toNat_lt, hbytes]
    exact Nat.not_lt.mpr (Nat.div_mul_le_self _ _)

theorem not_ge_one {one : UInt64} (hone : one.toNat = dev.B) (hge : ¬ dev.B ≤ r.len.toNat) :
    ¬ r.len ≥ one := by
  rw [ge_iff_le, UInt64.le_iff_toNat_le, hone]
  exact hge

variable (heap disk) in
theorem readMiddle_run (hk : dev.blockSizeLog2.toNat < 32) (hr : dev.ref ≠ 0)
    (hin : r.block.toNat * dev.B + r.len.toNat ≤ dev.size.toNat) :
    ∃ r', readMiddle (exactDriver dev) dev heap r disk
        = .ok (slice disk (r.block.toNat * dev.B) (r.len.toNat / dev.B * dev.B), r') disk ∧
      AfterMiddle dev r r' := by
  obtain ⟨one, hone, hrun⟩ := oneBlock_run disk hk
  by_cases hge : dev.B ≤ r.len.toNat
  · obtain ⟨hcount, _, hbytes⟩ := middle_count hk hin
    obtain ⟨hcz, hrange, hlen, hfit⟩ := middle_checks hk hin hone hge
    refine ⟨_, ?_, afterMiddle_skip hk hin⟩
    simp only [readMiddle, run_bind, hrun, if_pos hlen, if_neg hfit]
    cases hb : bufferAligned dev r.buf with
    | true =>
        have hread := readBlock_run disk hcz hb hr hrange
        simp only [Bool.not_true, Bool.false_eq_true, if_false, run_bind, hread, run_pure, hcount]
    | false =>
        have hread := readBlock_run disk hcz (heap_bufferAligned dev heap
          (divFloorLog2 r.len dev.blockSizeLog2 * dev.blockSize)) hr hrange
        simp only [Bool.not_false, if_true, run_bind, hread, run_pure, hcount, hbytes,
          take_slice (le_refl _)]
  · have hlen := not_ge_one hone hge
    refine ⟨r, ?_, afterMiddle_none (Nat.lt_of_not_le hge)⟩
    rw [Nat.div_eq_of_lt (Nat.lt_of_not_le hge), Nat.zero_mul]
    simp only [readMiddle, run_bind, hrun, if_neg hlen, run_pure]
    rfl

variable (heap disk) in
theorem writeMiddle_run (hk : dev.blockSizeLog2.toNat < 32) (hr : dev.ref ≠ 0)
    (hin : r.block.toNat * dev.B + r.len.toNat ≤ dev.size.toNat)
    (hbuf : r.len ≠ 0 → r.buf ≠ 0) (hdata : data.length = r.len.toNat) :
    ∃ r', writeMiddle (exactDriver dev) dev heap data r disk
        = .ok (data.drop (r.len.toNat / dev.B * dev.B), r')
          (patch disk (r.block.toNat * dev.B) (data.take (r.len.toNat / dev.B * dev.B))) ∧
      AfterMiddle dev r r' := by
  obtain ⟨one, hone, hrun⟩ := oneBlock_run disk hk
  by_cases hge : dev.B ≤ r.len.toNat
  · obtain ⟨hcount, _, hbytes⟩ := middle_count hk hin
    obtain ⟨hcz, hrange, hlen, hfit⟩ := middle_checks hk hin hone hge
    have hne : r.buf ≠ 0 := by
      refine hbuf ?_
      intro hz
      rw [hz] at hge
      have hge : dev.B ≤ 0 := hge
      have := dev.B_pos
      omega
    refine ⟨_, ?_, afterMiddle_skip hk hin⟩
    simp only [writeMiddle, run_bind, hrun, if_pos hlen, if_neg hfit]
    cases hb : bufferAligned dev r.buf with
    | true =>
        have hwrite := writeBlock_run disk data hcz hne hb hr hrange
        rw [hcount] at hwrite
        simp only [Bool.not_true, Bool.false_eq_true, if_false, run_bind, hwrite, run_pure, hbytes]
    | false =>
        have hwrite := writeBlock_run disk
          (data.take (r.len.toNat / dev.B * dev.B)) hcz
          (heap.nonnull (divFloorLog2 r.len dev.blockSizeLog2 * dev.blockSize))
          (heap_bufferAligned dev heap _) hr hrange
        rw [hcount, List.take_take, Nat.min_self] at hwrite
        simp only [Bool.not_false, if_true, run_bind, hbytes, hwrite, run_pure]
  · have hlen := not_ge_one hone hge
    refine ⟨r, ?_, afterMiddle_none (Nat.lt_of_not_le hge)⟩
    have hnil : patch disk (r.block.toNat * dev.B) (data.take 0) = disk :=
      patch_slice disk (r.block.toNat * dev.B) 0
    rw [Nat.div_eq_of_lt (Nat.lt_of_not_le hge), Nat.zero_mul, hnil]
    simp only [writeMiddle, run_bind, hrun, if_neg hlen, run_pure]
    rfl

/-! ## The last block -/

theorem tail_inside (hin : r.block.toNat * dev.B + r.len.toNat ≤ dev.size.toNat) (hpos : 0 < r.len.toNat) :
    r.block.toNat + (1 : UInt32).toNat ≤ dev.blockCount.toNat := by
  rw [dev.size_eq] at hin
  have hlt : r.block.toNat * dev.B < dev.blockCount.toNat * dev.B := by
    show _ < dev.blockCount.toNat * 2 ^ dev.blockSizeLog2.toNat
    omega
  exact Nat.lt_of_mul_lt_mul_right hlt

variable (disk) in
theorem readTail_run (hr : dev.ref ≠ 0) (hlt : r.len.toNat < dev.B)
    (hin : r.block.toNat * dev.B + r.len.toNat ≤ dev.size.toNat)
    (hp : r.len.toNat ≠ 0 → ∃ n, partialBuf = some (heap.addr n)) :
    readTail (exactDriver dev) dev partialBuf r disk = .ok (slice disk (r.block.toNat * dev.B) r.len.toNat) disk := by
  by_cases hz : r.len.toNat = 0
  · have hle : ¬ r.len > 0 := by
      rw [gt_iff_lt, UInt64.lt_iff_toNat_lt, hz]
      exact Nat.lt_irrefl 0
    unfold readTail
    rw [if_neg hle, hz]
    rfl
  · obtain ⟨n, rfl⟩ := hp hz
    have hpos : r.len > 0 := by
      rw [gt_iff_lt, UInt64.lt_iff_toNat_lt]
      exact Nat.pos_of_ne_zero hz
    have hread := readBlock_run disk (by decide) (heap_bufferAligned dev heap n)
      hr (count_in_device _ _ _ (tail_inside hin (Nat.pos_of_ne_zero hz)))
    have hone : (1 : UInt32).toNat * dev.B = dev.B := Nat.one_mul _
    rw [hone] at hread
    unfold readTail
    rw [if_pos hpos]
    simp only [run_bind, hread, run_pure, take_slice hlt.le]

variable (disk) in
theorem writeTail_run (hr : dev.ref ≠ 0) (hlt : r.len.toNat < dev.B)
    (hin : r.block.toNat * dev.B + r.len.toNat ≤ dev.size.toNat)
    (hp : r.len.toNat ≠ 0 → ∃ n, partialBuf = some (heap.addr n)) (hdata : data.length = r.len.toNat) :
    writeTail (exactDriver dev) dev partialBuf data r disk = .ok () (patch disk (r.block.toNat * dev.B) data) := by
  by_cases hz : r.len.toNat = 0
  · have hle : ¬ r.len > 0 := by
      rw [gt_iff_lt, UInt64.lt_iff_toNat_lt, hz]
      exact Nat.lt_irrefl 0
    rw [hz] at hdata
    unfold writeTail
    rw [if_neg hle, List.length_eq_zero_iff.mp hdata]
    exact congrArg _ (patch_slice disk (r.block.toNat * dev.B) 0).symm
  · obtain ⟨n, rfl⟩ := hp hz
    have hpos : r.len > 0 := by
      rw [gt_iff_lt, UInt64.lt_iff_toNat_lt]
      exact Nat.pos_of_ne_zero hz
    have hrange := count_in_device _ _ _ (tail_inside hin (Nat.pos_of_ne_zero hz))
    have hread := readBlock_run disk (by decide) (heap_bufferAligned dev heap n)
      hr hrange
    have hone : (1 : UInt32).toNat * dev.B = dev.B := Nat.one_mul _
    rw [hone] at hread
    have htake : data.take r.len.toNat = data := List.take_of_length_le hdata.le
    have hput := patch_overwrite disk (r.block.toNat * dev.B) 0 dev.B data (by omega)
    have hwrite := writeBlock_run disk
      (overwrite (slice disk (r.block.toNat * dev.B) dev.B) 0 data) (by decide)
      (heap.nonnull n) (heap_bufferAligned dev heap n) hr hrange
    rw [hone, hput, Nat.add_zero] at hwrite
    unfold writeTail
    rw [if_pos hpos]
    simp only [run_bind, hread, htake, hwrite]

end TX2SecureUart.Storage
