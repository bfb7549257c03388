/-
# `Storage.Exact` — when a read or a write is the range that was asked for

`tegrabl_blockdev_read` and `tegrabl_blockdev_write` check `offset + len` in 64
bits.  A range in the device is moved exactly.  A range past the end is refused,
unless the sum wraps to something in the device: then the count of whole blocks
is cut to 32 bits, its sum with the first block wraps as well, and the call
succeeds, except when no whole block is left.
-/
import TX2SecureUart.Storage.ReadWrite

namespace TX2SecureUart.Storage

open Prog ByteStore

variable {dev : Bdev} {heap : Heap} {disk : Disk} {offset len : UInt64} {r : Rest} {t : Nat}
  {data : List UInt8} {buffer : Buffer len}

/-! ## Ranges in the device -/

theorem log2_lt_of_lt (ho : offset.toNat < dev.size.toNat) : dev.blockSizeLog2.toNat < 64 :=
  Bdev.log2_lt (Nat.zero_lt_of_lt ho)

theorem AfterHead.inside_range {buf : UInt64} (h : AfterHead dev offset buf len t r)
    (hin : offset.toNat + len.toNat ≤ dev.size.toNat) :
    r.block.toNat * dev.B + r.len.toNat ≤ dev.size.toNat := by
  have hle := h.le
  rw [h.left]
  by_cases ht : t < len.toNat
  · rw [h.boundary ht]
    omega
  · have hblock : r.block.toNat * dev.B ≤ dev.size.toNat := by
      rw [dev.size_eq]
      exact Nat.mul_le_mul_right dev.B h.inside
    omega

/-- A last block that is not whole has a scratch block to go through. -/
theorem AfterHead.scratch {buf : UInt64} {r' : Rest} (h : AfterHead dev offset buf len t r)
    (hk : dev.blockSizeLog2.toNat < 64) (hlen : r'.len.toNat = r.len.toNat % dev.B)
    (hne : r'.len.toNat ≠ 0) : ∃ n, scratch dev heap offset len = some (heap.addr n) := by
  refine scratch_isSome heap len hk ?_
  by_cases hmod : offset.toNat % dev.B = 0
  · have ht := h.aligned hmod
    rw [hlen, h.left, ht, Nat.sub_zero] at hne
    exact Or.inr hne
  · exact Or.inl hmod

theorem AfterHead.buf_ne_zero (h : AfterHead dev offset buffer.addr len t r) (hlt : t < len.toNat) :
    r.buf ≠ 0 := by
  have hle : r.len ≤ len := by
    rw [UInt64.le_iff_toNat_le, h.left]
    exact Nat.sub_le _ _
  have hsub : (len - r.len).toNat = t := by
    rw [UInt64.toNat_sub_of_le _ _ hle, h.left]
    omega
  have hfits := buffer.fits
  have hpos : 0 < buffer.addr.toNat := by
    refine Nat.pos_of_ne_zero ?_
    intro hz
    exact buffer.nonnull (UInt64.toNat_inj.mp hz)
  intro hz
  have hsum := congrArg UInt64.toNat h.moved
  rw [hz, UInt64.toNat_add, hsub, Nat.mod_eq_of_lt (by omega)] at hsum
  have hsum : 0 = buffer.addr.toNat + t := hsum
  omega

/-- The three pieces of a range join. -/
theorem AfterHead.pieces {buf : UInt64} {r' : Rest} (h : AfterHead dev offset buf len t r)
    (hm : AfterMiddle dev r r') :
    (t < len.toNat → r.block.toNat * dev.B = offset.toNat + t ∧
      r'.block.toNat * dev.B = offset.toNat + t + r.len.toNat / dev.B * dev.B) ∧
    t + r.len.toNat / dev.B * dev.B + r'.len.toNat = len.toNat := by
  have hsplit := Nat.div_add_mod r.len.toNat dev.B
  rw [Nat.mul_comm] at hsplit
  refine ⟨?_, ?_⟩
  · intro ht
    refine ⟨h.boundary ht, ?_⟩
    rw [hm.block, Nat.add_mul, h.boundary ht]
  · have hle := h.le
    have hleft := h.left
    rw [hm.left]
    omega

theorem slice_zero (d : Disk) (a : Nat) : slice d a 0 = [] := rfl

theorem defaultRead_inside (hr : dev.ref ≠ 0) (hk : dev.blockSizeLog2.toNat < 32)
    (ho : offset.toNat < dev.size.toNat) (hin : offset.toNat + len.toNat ≤ dev.size.toNat) :
    tegrablBlockdevDefaultRead (exactDriver dev) dev heap buffer.addr offset len disk
      = .ok (slice disk offset.toNat len.toNat) disk := by
  have hk' := log2_lt_of_lt ho
  obtain ⟨t, r, hhead, hh⟩ := readHead_run heap disk len hk' hr ho
    buffer.addr
  obtain ⟨r', hmid, hm⟩ := readMiddle_run heap disk hk hr (hh.inside_range hin)
  obtain ⟨hpieces, hsum⟩ := hh.pieces hm
  have hlt : r'.len.toNat < dev.B := by
    rw [hm.left]
    exact Nat.mod_lt _ dev.B_pos
  have hin' : r'.block.toNat * dev.B + r'.len.toNat ≤ dev.size.toNat := by
    have := hh.inside_range hin
    have hsplit := Nat.div_add_mod r.len.toNat dev.B
    rw [Nat.mul_comm] at hsplit
    rw [hm.left, hm.block, Nat.add_mul]
    omega
  have hpart : r'.len.toNat ≠ 0 → ∃ n, Storage.scratch dev heap offset len = some (heap.addr n) :=
    hh.scratch hk' hm.left
  have htail := readTail_run disk hr hlt hin' hpart
  have hjoin : slice disk offset.toNat t
      ++ slice disk (r.block.toNat * dev.B) (r.len.toNat / dev.B * dev.B)
      ++ slice disk (r'.block.toNat * dev.B) r'.len.toNat = slice disk offset.toNat len.toNat := by
    by_cases ht : t < len.toNat
    · obtain ⟨hb, hb'⟩ := hpieces ht
      rw [hb, hb', ← slice_add, Nat.add_assoc offset.toNat, ← slice_add, hsum]
    · have hle := hh.le
      have hm₀ : r.len.toNat / dev.B * dev.B = 0 := by omega
      have hl₀ : r'.len.toNat = 0 := by omega
      have ht : t = len.toNat := by omega
      rw [hm₀, hl₀, slice_zero, slice_zero, List.append_nil, List.append_nil, ht]
  rw [tegrablBlockdevDefaultRead, if_neg buffer.nonnull]
  simp only [run_bind, hhead, hmid, htail, run_pure, hjoin]

theorem defaultWrite_inside (hr : dev.ref ≠ 0) (hk : dev.blockSizeLog2.toNat < 32)
    (ho : offset.toNat < dev.size.toNat) (hin : offset.toNat + len.toNat ≤ dev.size.toNat)
    (hdata : data.length = len.toNat) :
    tegrablBlockdevDefaultWrite (exactDriver dev) dev heap buffer.addr data offset len disk
      = .ok () (patch disk offset.toNat data) := by
  have hk' := log2_lt_of_lt ho
  obtain ⟨t, r, hhead, hh⟩ := writeHead_run heap disk hk' hr ho hdata buffer.addr
  have hbuf : r.len ≠ 0 → r.buf ≠ 0 := by
    intro hne
    refine hh.buf_ne_zero ?_
    have hleft := hh.left
    have hpos : r.len.toNat ≠ 0 := fun hz => hne (UInt64.toNat_inj.mp hz)
    omega
  have hdrop : (data.drop t).length = r.len.toNat := by
    rw [List.length_drop, hdata, hh.left]
  obtain ⟨r', hmid, hm⟩ := writeMiddle_run heap
    (patch disk offset.toNat (data.take t)) hk hr (hh.inside_range hin) hbuf hdrop
  obtain ⟨hpieces, hsum⟩ := hh.pieces hm
  have hlt : r'.len.toNat < dev.B := by
    rw [hm.left]
    exact Nat.mod_lt _ dev.B_pos
  have hsplit := Nat.div_add_mod r.len.toNat dev.B
  rw [Nat.mul_comm] at hsplit
  have hin' : r'.block.toNat * dev.B + r'.len.toNat ≤ dev.size.toNat := by
    have := hh.inside_range hin
    rw [hm.left, hm.block, Nat.add_mul]
    omega
  have hdrop' : ((data.drop t).drop (r.len.toNat / dev.B * dev.B)).length = r'.len.toNat := by
    rw [List.length_drop, hdrop, hm.left]
    omega
  have hpart : r'.len.toNat ≠ 0 → ∃ n, Storage.scratch dev heap offset len = some (heap.addr n) :=
    hh.scratch hk' hm.left
  have htail := writeTail_run (patch (patch disk offset.toNat (data.take t))
    (r.block.toNat * dev.B) ((data.drop t).take (r.len.toNat / dev.B * dev.B))) hr hlt hin'
    hpart hdrop'
  have hle := hh.le
  have hjoin : patch (patch (patch disk offset.toNat (data.take t)) (r.block.toNat * dev.B)
      ((data.drop t).take (r.len.toNat / dev.B * dev.B))) (r'.block.toNat * dev.B)
        ((data.drop t).drop (r.len.toNat / dev.B * dev.B)) = patch disk offset.toNat data := by
    by_cases ht : t < len.toNat
    · obtain ⟨hb, hb'⟩ := hpieces ht
      have h₁ : (data.take t).length = t := by
        rw [List.length_take, hdata]
        exact min_eq_left hle
      have h₂ : ((data.drop t).take (r.len.toNat / dev.B * dev.B)).length
          = r.len.toNat / dev.B * dev.B := by
        rw [List.length_take, hdrop]
        exact min_eq_left (Nat.div_mul_le_self _ _)
      have hlast := patch_append (patch disk offset.toNat (data.take t)) (offset.toNat + t)
        ((data.drop t).take (r.len.toNat / dev.B * dev.B))
        ((data.drop t).drop (r.len.toNat / dev.B * dev.B))
      rw [h₂, List.take_append_drop] at hlast
      have hfirst := patch_append disk offset.toNat (data.take t) (data.drop t)
      rw [h₁, List.take_append_drop] at hfirst
      rw [hb, hb', ← hlast, ← hfirst]
    · have hm₀ : r.len.toNat / dev.B * dev.B = 0 := by omega
      have ht : t = len.toNat := by omega
      have hnil : data.drop t = [] := by
        rw [ht, ← hdata]
        exact List.drop_length
      have hall : data.take t = data := by
        rw [ht, ← hdata]
        exact List.take_length
      have hz : ∀ (d : Disk) (a : Nat), patch d a [] = d := fun d a => patch_slice d a 0
      rw [hnil, List.take_nil, List.drop_nil, hz, hz, hall]
  rw [tegrablBlockdevDefaultWrite, if_neg buffer.nonnull]
  simp only [run_bind, hhead, hmid, htail, hjoin]

/-! ## Ranges whose end wraps -/

/-- The first block that a range has from its start on. -/
def firstBlock (dev : Bdev) (offset : UInt64) : Nat := (offset.toNat + (dev.B - 1)) / dev.B

theorem AfterHead.block_eq {buf : UInt64} (h : AfterHead dev offset buf len t r) (ht : t < len.toNat) :
    r.block.toNat = firstBlock dev offset := by
  have hb := h.boundary ht
  have hshort := h.short
  have hpos := dev.B_pos
  refine (Nat.div_eq_of_lt_le ?_ ?_).symm
  · rw [hb]
    by_cases hmod : offset.toNat % dev.B = 0
    · rw [h.aligned hmod]
      omega
    · omega
  · rw [Nat.succ_mul, hb]
    omega

/-- The numbers of a range that wraps to the end `e`. -/
structure Wraps (dev : Bdev) (offset len : UInt64) (e : Nat) : Prop where
  start : offset.toNat < dev.size.toNat
  sum : offset.toNat + len.toNat = 2 ^ 64 + e
  stop : e ≤ dev.size.toNat

theorem Bdev.size_lt (hk : dev.blockSizeLog2.toNat < 32) : dev.size.toNat < 2 ^ 63 := by
  have hbc := dev.blockCount.toNat_lt
  have hB : dev.B ≤ 2 ^ 31 := Nat.pow_le_pow_right (by norm_num) (by omega)
  have hle := Nat.mul_le_mul (show dev.blockCount.toNat ≤ 4294967295 by omega) hB
  have hsize : dev.size.toNat = dev.blockCount.toNat * dev.B := dev.size_eq
  omega

/-- After its first block, such a range has 2^32 blocks more, several times over,
than to its end. -/
structure WrappedMiddle (dev : Bdev) (r : Rest) (e : Nat) : Prop where
  ge : dev.B ≤ r.len.toNat
  count : ((divFloorLog2 r.len dev.blockSizeLog2).toUInt32).toNat = (r.len.toNat / dev.B) % 2 ^ 32
  bytes : ((divFloorLog2 r.len dev.blockSizeLog2) <<< dev.blockSizeLog2.toUInt64).toNat
    = r.len.toNat / dev.B * dev.B
  sum : (r.block.toNat + r.len.toNat / dev.B) % 2 ^ 32 = e / dev.B
  left : r.len.toNat % dev.B = e % dev.B

theorem AfterHead.wrapped {buf : UInt64} {e : Nat} (h : AfterHead dev offset buf len t r)
    (hk : dev.blockSizeLog2.toNat < 32) (hw : Wraps dev offset len e) :
    t < len.toNat ∧ WrappedMiddle dev r e := by
  have hk' : dev.blockSizeLog2.toNat < 64 := by omega
  have hpos := dev.B_pos
  have hB : dev.B ≤ 2 ^ 31 := Nat.pow_le_pow_right (by norm_num) (by omega)
  have hsize := Bdev.size_lt hk
  have hbc := dev.blockCount.toNat_lt
  have hsum := hw.sum
  have hstart := hw.start
  have hstop := hw.stop
  have hshort := h.short
  have hleft := h.left
  have hrlt := r.len.toNat_lt
  have ht : t < len.toNat := by omega
  have hb := h.boundary ht
  have htotal : r.block.toNat * dev.B + r.len.toNat = 2 ^ (64 - dev.blockSizeLog2.toNat) * dev.B + e := by
    have hpow : 2 ^ (64 - dev.blockSizeLog2.toNat) * dev.B = 2 ^ 64 := by
      rw [Bdev.B, ← pow_add]
      congr 1
      omega
    rw [hpow, hb]
    omega
  have hdiv : r.block.toNat + r.len.toNat / dev.B = 2 ^ (64 - dev.blockSizeLog2.toNat) + e / dev.B := by
    have : (r.block.toNat * dev.B + r.len.toNat) / dev.B
        = (2 ^ (64 - dev.blockSizeLog2.toNat) * dev.B + e) / dev.B := by rw [htotal]
    rw [Nat.add_comm (r.block.toNat * dev.B), Nat.add_mul_div_right _ _ hpos,
      Nat.add_comm (_ * dev.B), Nat.add_mul_div_right _ _ hpos] at this
    omega
  have hmod : r.len.toNat % dev.B = e % dev.B := by
    have : (r.block.toNat * dev.B + r.len.toNat) % dev.B
        = (2 ^ (64 - dev.blockSizeLog2.toNat) * dev.B + e) % dev.B := by rw [htotal]
    rwa [Nat.mul_add_mod_self_right, Nat.mul_add_mod_self_right] at this
  have hend : e / dev.B < 2 ^ 32 := by
    have hle : e / dev.B ≤ dev.blockCount.toNat := by
      refine Nat.div_le_of_le_mul ?_
      have hsz : dev.size.toNat = dev.blockCount.toNat * dev.B := dev.size_eq
      rw [Nat.mul_comm, ← hsz]
      exact hstop
    omega
  refine ⟨ht, by omega, ?_, ?_, ?_, hmod⟩
  · rw [UInt64.toNat_toUInt32, divFloorLog2_toNat hk']
    rfl
  · have hfit : (divFloorLog2 r.len dev.blockSizeLog2).toNat * 2 ^ dev.blockSizeLog2.toNat < 2 ^ 64 := by
      rw [divFloorLog2_toNat hk']
      exact Nat.lt_of_le_of_lt (Nat.div_mul_le_self _ _) hrlt
    rw [shiftLeft_toNat hk' hfit, divFloorLog2_toNat hk']
    rfl
  · have hsplit : 2 ^ (64 - dev.blockSizeLog2.toNat) = 2 ^ 32 * 2 ^ (32 - dev.blockSizeLog2.toNat) := by
      rw [← pow_add]
      congr 1
      omega
    rw [hdiv, hsplit, Nat.mul_add_mod_self_left, Nat.mod_eq_of_lt hend]

/-- The cut count is 0 when the wrapped end lies in the first block. -/
theorem WrappedMiddle.count_zero {e : Nat} (h : WrappedMiddle dev r e)
    (hblock : r.block.toNat < 2 ^ 32) :
    (divFloorLog2 r.len dev.blockSizeLog2).toUInt32 = 0 ↔ e / dev.B = r.block.toNat := by
  have hsum := h.sum
  have hcount := h.count
  rw [← UInt32.toNat_inj, hcount]
  show r.len.toNat / dev.B % 2 ^ 32 = 0 ↔ _
  omega

theorem WrappedMiddle.range {e : Nat} (h : WrappedMiddle dev r e)
    (hin : r.block.toNat ≤ dev.blockCount.toNat) (he : e ≤ dev.size.toNat) :
    ¬ (r.block > dev.blockCount ∨
      r.block + (divFloorLog2 r.len dev.blockSizeLog2).toUInt32 > dev.blockCount) ∧
    (r.block + (divFloorLog2 r.len dev.blockSizeLog2).toUInt32).toNat = e / dev.B := by
  have hle : e / dev.B ≤ dev.blockCount.toNat := by
    refine Nat.div_le_of_le_mul ?_
    have hsz : dev.size.toNat = dev.blockCount.toNat * dev.B := dev.size_eq
    rw [Nat.mul_comm, ← hsz]
    exact he
  have hadd : (r.block + (divFloorLog2 r.len dev.blockSizeLog2).toUInt32).toNat = e / dev.B := by
    have hsum := h.sum
    rw [UInt32.toNat_add, h.count, Nat.add_mod_mod]
    exact hsum
  refine ⟨?_, hadd⟩
  rintro (hgt | hgt)
  · have := UInt32.lt_iff_toNat_lt.mp hgt
    omega
  · have := UInt32.lt_iff_toNat_lt.mp hgt
    omega

theorem readBlock_zero (dev : Bdev) (buf : UInt64) (block : UInt32) (disk : Disk) :
    tegrablBlockdevReadBlock (exactDriver dev) dev buf block 0 disk
      = .error (.err (tegrablError .blockDev .invalid 8)) disk := rfl

theorem writeBlock_zero (dev : Bdev) (buf : UInt64) (block : UInt32) (data : List UInt8) (disk : Disk) :
    tegrablBlockdevWriteBlock (exactDriver dev) dev buf data block 0 disk
      = .error (.err (tegrablError .blockDev .invalid 12)) disk := rfl

theorem wrapped_steps {e : Nat} {one : UInt64} (h : WrappedMiddle dev r e) (hone : one.toNat = dev.B) :
    r.len ≥ one ∧
      ¬ (divFloorLog2 r.len dev.blockSizeLog2) <<< dev.blockSizeLog2.toUInt64 > r.len := by
  refine ⟨?_, ?_⟩
  · rw [ge_iff_le, UInt64.le_iff_toNat_le, hone]
    exact h.ge
  · rw [gt_iff_lt, UInt64.lt_iff_toNat_lt, h.bytes]
    exact Nat.not_lt.mpr (Nat.div_mul_le_self _ _)

/-- Where a range whose end wraps goes on after the middle. -/
theorem WrappedMiddle.skip {e : Nat} (h : WrappedMiddle dev r e)
    (hin : r.block.toNat ≤ dev.blockCount.toNat) (he : e ≤ dev.size.toNat) :
    (r.skip ((divFloorLog2 r.len dev.blockSizeLog2) <<< dev.blockSizeLog2.toUInt64)
      (divFloorLog2 r.len dev.blockSizeLog2).toUInt32).len.toNat = e % dev.B ∧
    (r.skip ((divFloorLog2 r.len dev.blockSizeLog2) <<< dev.blockSizeLog2.toUInt64)
      (divFloorLog2 r.len dev.blockSizeLog2).toUInt32).block.toNat = e / dev.B := by
  refine ⟨?_, (h.range hin he).2⟩
  show (r.len - _).toNat = _
  rw [UInt64.toNat_sub_of_le _ _ (by
    rw [UInt64.le_iff_toNat_le, h.bytes]
    exact Nat.div_mul_le_self _ _), h.bytes, ← h.left]
  have := Nat.div_add_mod r.len.toNat dev.B
  rw [Nat.mul_comm] at this
  omega

variable (heap disk) in
theorem readMiddle_wrapped {e : Nat} (hk : dev.blockSizeLog2.toNat < 32) (hr : dev.ref ≠ 0)
    (h : WrappedMiddle dev r e) (hin : r.block.toNat ≤ dev.blockCount.toNat) (he : e ≤ dev.size.toNat) :
    (e / dev.B = r.block.toNat →
      readMiddle (exactDriver dev) dev heap r disk = .error (.err (tegrablError .blockDev .invalid 8)) disk) ∧
    (e / dev.B ≠ r.block.toNat → ∃ out r', readMiddle (exactDriver dev) dev heap r disk = .ok (out, r') disk ∧
      r'.len.toNat = e % dev.B ∧ r'.block.toNat = e / dev.B) := by
  obtain ⟨one, hone, hrun⟩ := oneBlock_run disk hk
  obtain ⟨hlen, hfit⟩ := wrapped_steps h hone
  have hbc := dev.blockCount.toNat_lt
  have hzero := h.count_zero (by omega)
  refine ⟨?_, ?_⟩
  · intro heq
    simp only [readMiddle, run_bind, hrun, if_pos hlen, if_neg hfit, hzero.mpr heq]
    cases bufferAligned dev r.buf <;>
      simp only [Bool.not_true, Bool.not_false, Bool.false_eq_true, if_true, if_false, run_bind,
        readBlock_zero]
  · intro hne
    have hcz : (divFloorLog2 r.len dev.blockSizeLog2).toUInt32 ≠ 0 := fun hz => hne (hzero.mp hz)
    have hrange := (h.range hin he).1
    simp only [readMiddle, run_bind, hrun, if_pos hlen, if_neg hfit]
    cases hb : bufferAligned dev r.buf with
    | true =>
        have hread := readBlock_run disk hcz hb hr hrange
        simp only [Bool.not_true, Bool.false_eq_true, if_false, run_bind, hread, run_pure]
        exact ⟨_, _, rfl, h.skip hin he⟩
    | false =>
        have hread := readBlock_run disk hcz (heap_bufferAligned dev heap
          (divFloorLog2 r.len dev.blockSizeLog2 * dev.blockSize)) hr hrange
        simp only [Bool.not_false, if_true, run_bind, hread, run_pure]
        exact ⟨_, _, rfl, h.skip hin he⟩

variable (heap disk data) in
theorem writeMiddle_wrapped {e : Nat} (hk : dev.blockSizeLog2.toNat < 32) (hr : dev.ref ≠ 0)
    (h : WrappedMiddle dev r e) (hin : r.block.toNat ≤ dev.blockCount.toNat) (he : e ≤ dev.size.toNat)
    (hbuf : r.buf ≠ 0) :
    (e / dev.B = r.block.toNat →
      writeMiddle (exactDriver dev) dev heap data r disk = .error (.err (tegrablError .blockDev .invalid 12)) disk) ∧
    (e / dev.B ≠ r.block.toNat → ∃ rest r' d, writeMiddle (exactDriver dev) dev heap data r disk = .ok (rest, r') d ∧
      r'.len.toNat = e % dev.B ∧ r'.block.toNat = e / dev.B ∧
      rest = data.drop (r.len.toNat / dev.B * dev.B)) := by
  obtain ⟨one, hone, hrun⟩ := oneBlock_run disk hk
  obtain ⟨hlen, hfit⟩ := wrapped_steps h hone
  have hbc := dev.blockCount.toNat_lt
  have hzero := h.count_zero (by omega)
  obtain ⟨hl, hblock⟩ := h.skip hin he
  refine ⟨?_, ?_⟩
  · intro heq
    simp only [writeMiddle, run_bind, hrun, if_pos hlen, if_neg hfit, hzero.mpr heq]
    cases bufferAligned dev r.buf <;>
      simp only [Bool.not_true, Bool.not_false, Bool.false_eq_true, if_true, if_false, run_bind,
        writeBlock_zero]
  · intro hne
    have hcz : (divFloorLog2 r.len dev.blockSizeLog2).toUInt32 ≠ 0 := fun hz => hne (hzero.mp hz)
    have hrange := (h.range hin he).1
    simp only [writeMiddle, run_bind, hrun, if_pos hlen, if_neg hfit]
    cases hb : bufferAligned dev r.buf with
    | true =>
        have hwrite := writeBlock_run disk data hcz hbuf hb hr hrange
        simp only [Bool.not_true, Bool.false_eq_true, if_false, run_bind, hwrite, run_pure, h.bytes]
        exact ⟨_, _, _, rfl, hl, hblock, rfl⟩
    | false =>
        have hwrite := writeBlock_run disk
          (data.take ((divFloorLog2 r.len dev.blockSizeLog2) <<<
            dev.blockSizeLog2.toUInt64).toNat) hcz
          (heap.nonnull (divFloorLog2 r.len dev.blockSizeLog2 * dev.blockSize))
          (heap_bufferAligned dev heap _) hr hrange
        rw [h.bytes] at hwrite
        simp only [Bool.not_false, if_true, run_bind, h.bytes, hwrite, run_pure]
        exact ⟨_, _, _, rfl, hl, hblock, rfl⟩

/-- A last block at the wrapped end is a block of the device. -/
theorem wrapped_tail {e : Nat} {r' : Rest} (he : e ≤ dev.size.toNat) (hl : r'.len.toNat = e % dev.B)
    (hb : r'.block.toNat = e / dev.B) :
    r'.len.toNat < dev.B ∧ r'.block.toNat * dev.B + r'.len.toNat ≤ dev.size.toNat := by
  refine ⟨?_, ?_⟩
  · rw [hl]
    exact Nat.mod_lt _ dev.B_pos
  · have := Nat.div_add_mod e dev.B
    rw [Nat.mul_comm] at this
    rw [hl, hb]
    omega

variable (heap disk buffer) in
theorem defaultRead_wrapped {e : Nat} (hr : dev.ref ≠ 0) (hk : dev.blockSizeLog2.toNat < 32)
    (hw : Wraps dev offset len e) :
    (e / dev.B = firstBlock dev offset → ∃ f t,
      tegrablBlockdevDefaultRead (exactDriver dev) dev heap buffer.addr offset len disk = .error (.err f) t) ∧
    (e / dev.B ≠ firstBlock dev offset → ∃ out t,
      tegrablBlockdevDefaultRead (exactDriver dev) dev heap buffer.addr offset len disk = .ok out t) := by
  have hk' : dev.blockSizeLog2.toNat < 64 := by omega
  obtain ⟨t, r, hhead, hh⟩ := readHead_run heap disk len hk' hr hw.start
    buffer.addr
  obtain ⟨ht, hm⟩ := hh.wrapped hk hw
  obtain ⟨hbad, hgood⟩ := readMiddle_wrapped heap disk hk hr hm hh.inside hw.stop
  rw [← hh.block_eq ht]
  refine ⟨?_, ?_⟩
  · intro heq
    refine ⟨tegrablError .blockDev .invalid 8, disk, ?_⟩
    rw [tegrablBlockdevDefaultRead, if_neg buffer.nonnull]
    simp only [run_bind, hhead, hbad heq]
  · intro hne
    obtain ⟨out, r', hmid, hl, hb⟩ := hgood hne
    obtain ⟨hlt, hin⟩ := wrapped_tail hw.stop hl hb
    have hpart : r'.len.toNat ≠ 0 → ∃ n, Storage.scratch dev heap offset len = some (heap.addr n) :=
      hh.scratch hk' (hl.trans hm.left.symm)
    have htail := readTail_run disk hr hlt hin hpart
    refine ⟨slice disk offset.toNat t ++ out ++ slice disk (r'.block.toNat * dev.B) r'.len.toNat, disk, ?_⟩
    rw [tegrablBlockdevDefaultRead, if_neg buffer.nonnull]
    simp only [run_bind, hhead, hmid, htail, run_pure]

theorem defaultWrite_wrapped {e : Nat} (hr : dev.ref ≠ 0) (hk : dev.blockSizeLog2.toNat < 32)
    (hw : Wraps dev offset len e) (hdata : data.length = len.toNat) :
    (e / dev.B = firstBlock dev offset → ∃ f t,
      tegrablBlockdevDefaultWrite (exactDriver dev) dev heap buffer.addr data offset len disk = .error (.err f) t) ∧
    (e / dev.B ≠ firstBlock dev offset → ∃ t,
      tegrablBlockdevDefaultWrite (exactDriver dev) dev heap buffer.addr data offset len disk = .ok () t) := by
  have hk' : dev.blockSizeLog2.toNat < 64 := by omega
  obtain ⟨t, r, hhead, hh⟩ := writeHead_run heap disk hk' hr hw.start hdata
    buffer.addr
  obtain ⟨ht, hm⟩ := hh.wrapped hk hw
  obtain ⟨hbad, hgood⟩ := writeMiddle_wrapped heap
    (patch disk offset.toNat (data.take t)) (data.drop t) hk hr hm hh.inside hw.stop (hh.buf_ne_zero ht)
  rw [← hh.block_eq ht]
  refine ⟨?_, ?_⟩
  · intro heq
    refine ⟨tegrablError .blockDev .invalid 12, patch disk offset.toNat (data.take t), ?_⟩
    rw [tegrablBlockdevDefaultWrite, if_neg buffer.nonnull]
    simp only [run_bind, hhead, hbad heq]
  · intro hne
    obtain ⟨rest, r', d, hmid, hl, hb, hrest⟩ := hgood hne
    obtain ⟨hlt, hin⟩ := wrapped_tail hw.stop hl hb
    have hpart : r'.len.toNat ≠ 0 → ∃ n, Storage.scratch dev heap offset len = some (heap.addr n) :=
      hh.scratch hk' (hl.trans hm.left.symm)
    have hlen : rest.length = r'.len.toNat := by
      have hsplit := Nat.div_add_mod r.len.toNat dev.B
      rw [Nat.mul_comm] at hsplit
      rw [hrest, List.length_drop, List.length_drop, hdata, ← hh.left, hl, ← hm.left]
      omega
    have htail := writeTail_run d hr hlt hin hpart hlen
    refine ⟨patch d (r'.block.toNat * dev.B) rest, ?_⟩
    rw [tegrablBlockdevDefaultWrite, if_neg buffer.nonnull]
    simp only [run_bind, hhead, hmid, htail]

/-! ## Blocks that are too large -/

variable (heap disk buffer) in
theorem defaultRead_undefined (hr : dev.ref ≠ 0) (hk : ¬ dev.blockSizeLog2.toNat < 32)
    (ho : offset.toNat < dev.size.toNat) :
    ∃ t, tegrablBlockdevDefaultRead (exactDriver dev) dev heap buffer.addr offset len disk = .error .undefined t := by
  obtain ⟨t, r, hhead, _⟩ := readHead_run heap disk len (log2_lt_of_lt ho)
    hr ho buffer.addr
  refine ⟨disk, ?_⟩
  rw [tegrablBlockdevDefaultRead, if_neg buffer.nonnull]
  simp only [run_bind, hhead, readMiddle, oneBlock_undefined hk]

/-! ## The calls -/

/-- The checks of a call let a range through when its sum, in 64 bits, is in the
device. -/
theorem checks_pass (ho : offset.toNat < dev.size.toNat)
    (hsum : (offset.toNat + len.toNat) % 2 ^ 64 ≤ dev.size.toNat) :
    ¬ (decide (offset ≥ dev.size) || decide (offset + len > dev.size)) = true := by
  rw [Bool.or_eq_true, decide_eq_true_eq, decide_eq_true_eq, ge_iff_le, UInt64.le_iff_toNat_le,
    gt_iff_lt, UInt64.lt_iff_toNat_lt, UInt64.toNat_add]
  omega

theorem checks_stop (h : dev.size.toNat ≤ offset.toNat ∨
    dev.size.toNat < (offset.toNat + len.toNat) % 2 ^ 64) :
    (decide (offset ≥ dev.size) || decide (offset + len > dev.size)) = true := by
  rw [Bool.or_eq_true, decide_eq_true_eq, decide_eq_true_eq, ge_iff_le, UInt64.le_iff_toNat_le,
    gt_iff_lt, UInt64.lt_iff_toNat_lt, UInt64.toNat_add]
  exact h

theorem read_passed (hl : len ≠ 0) (hr : dev.ref ≠ 0) (ho : offset.toNat < dev.size.toNat)
    (hsum : (offset.toNat + len.toNat) % 2 ^ 64 ≤ dev.size.toNat) :
    tegrablBlockdevRead (exactDriver dev) dev heap buffer.addr offset len disk
      = tegrablBlockdevDefaultRead (exactDriver dev) dev heap buffer.addr offset len disk := by
  rw [tegrablBlockdevRead, if_neg hl, if_neg hr, if_neg (checks_pass ho hsum)]

theorem write_passed (hl : len ≠ 0) (hr : dev.ref ≠ 0) (ho : offset.toNat < dev.size.toNat)
    (hsum : (offset.toNat + len.toNat) % 2 ^ 64 ≤ dev.size.toNat) :
    tegrablBlockdevWrite (exactDriver dev) dev heap buffer.addr data offset len disk
      = tegrablBlockdevDefaultWrite (exactDriver dev) dev heap buffer.addr data offset len disk := by
  rw [tegrablBlockdevWrite, if_neg hl, if_neg hr, if_neg (checks_pass ho hsum)]

/-- The read succeeds exactly on ranges in the device, and returns their bytes. -/
def ReadsExactly (dev : Bdev) (heap : Heap) (buffer : Buffer len) (offset : UInt64) (disk : Disk) :
    Prop :=
  (offset.toNat + len.toNat ≤ dev.size.toNat →
    tegrablBlockdevRead (exactDriver dev) dev heap buffer.addr offset len disk
      = .ok (slice disk offset.toNat len.toNat) disk) ∧
  (dev.size.toNat < offset.toNat + len.toNat →
    ∃ e t, tegrablBlockdevRead (exactDriver dev) dev heap buffer.addr offset len disk = .error (.err e) t)

/-- The write succeeds exactly on ranges in the device, and changes their bytes
and no others. -/
def WritesExactly (dev : Bdev) (heap : Heap) (buffer : Buffer len) (data : List UInt8)
    (offset : UInt64) (disk : Disk) : Prop :=
  (offset.toNat + len.toNat ≤ dev.size.toNat →
    tegrablBlockdevWrite (exactDriver dev) dev heap buffer.addr data offset len disk
      = .ok () (patch disk offset.toNat data)) ∧
  (dev.size.toNat < offset.toNat + len.toNat →
    ∃ e t, tegrablBlockdevWrite (exactDriver dev) dev heap buffer.addr data offset len disk = .error (.err e) t)

/-- A range in the device needs blocks of less than 4 GiB.  One past its end is
refused by the sum, unless that wraps into the device; then the wrapped end has to
lie in the block where the whole blocks of the range begin. -/
def RangeHeld (dev : Bdev) (offset len : UInt64) : Prop :=
  (offset.toNat + len.toNat ≤ dev.size.toNat → dev.blockSizeLog2.toNat < 32) ∧
  (∀ e, Wraps dev offset len e →
    dev.blockSizeLog2.toNat < 32 ∧ e / dev.B = firstBlock dev offset)

theorem wraps_passes {e : Nat} (hw : Wraps dev offset len e) :
    (offset.toNat + len.toNat) % 2 ^ 64 ≤ dev.size.toNat ∧
      dev.size.toNat < offset.toNat + len.toNat := by
  have hsum := hw.sum
  have hstop := hw.stop
  have hlt := dev.size.toNat_lt
  omega

theorem ne_zero_toNat (hl : len ≠ 0) : 0 < len.toNat :=
  Nat.pos_of_ne_zero fun hz => hl (UInt64.toNat_inj.mp hz)

/-- A range past the end either is stopped by the checks or wraps. -/
theorem stop_or_wraps (h : dev.size.toNat < offset.toNat + len.toNat) :
    (dev.size.toNat ≤ offset.toNat ∨ dev.size.toNat < (offset.toNat + len.toNat) % 2 ^ 64) ∨
      ∃ e, Wraps dev offset len e := by
  by_cases ho : dev.size.toNat ≤ offset.toNat
  · exact Or.inl (Or.inl ho)
  by_cases hs : dev.size.toNat < (offset.toNat + len.toNat) % 2 ^ 64
  · exact Or.inl (Or.inr hs)
  have hlt := len.toNat_lt
  have hlt' := offset.toNat_lt
  refine Or.inr ⟨offset.toNat + len.toNat - 2 ^ 64, by omega, by omega, by omega⟩

/-- For every device, range, buffer and content: read and write are exact if and
only if the range is one that the checks hold. -/
theorem blockdev_exact_iff (dev : Bdev) (heap : Heap) {len : UInt64} (buffer : Buffer len)
    (offset : UInt64) (data : List UInt8) (disk : Disk) (hl : len ≠ 0) (hr : dev.ref ≠ 0)
    (hdata : data.length = len.toNat) :
    ReadsExactly dev heap buffer offset disk ∧ WritesExactly dev heap buffer data offset disk ↔
      RangeHeld dev offset len := by
  have hpos := ne_zero_toNat hl
  constructor
  · rintro ⟨⟨hread, hpast⟩, _⟩
    refine ⟨?_, ?_⟩
    · intro hin
      by_contra hk
      have ho : offset.toNat < dev.size.toNat := by omega
      have hsum : (offset.toNat + len.toNat) % 2 ^ 64 ≤ dev.size.toNat :=
        Nat.le_trans (Nat.mod_le _ _) hin
      have hok := hread hin
      obtain ⟨t, hund⟩ := defaultRead_undefined heap disk buffer hr hk ho
      rw [read_passed hl hr ho hsum, hund] at hok
      cases hok
    · intro e hw
      obtain ⟨hsum, hlt⟩ := wraps_passes hw
      obtain ⟨f, t, herr⟩ := hpast hlt
      rw [read_passed hl hr hw.start hsum] at herr
      by_cases hk : dev.blockSizeLog2.toNat < 32
      · refine ⟨hk, ?_⟩
        by_contra hne
        obtain ⟨out, t', hok⟩ := (defaultRead_wrapped heap disk buffer hr hk hw).2 hne
        rw [hok] at herr
        cases herr
      · obtain ⟨t', hund⟩ := defaultRead_undefined heap disk buffer hr hk hw.start
        rw [hund] at herr
        cases herr
  · rintro ⟨hin, hwrap⟩
    refine ⟨⟨?_, ?_⟩, ?_, ?_⟩
    · intro h
      have ho : offset.toNat < dev.size.toNat := by omega
      rw [read_passed hl hr ho (Nat.le_trans (Nat.mod_le _ _) h)]
      exact defaultRead_inside hr (hin h) ho h
    · intro h
      obtain hstop | ⟨e, hw⟩ := stop_or_wraps h
      · refine ⟨tegrablError .blockDev .overflow 0, disk, ?_⟩
        rw [tegrablBlockdevRead, if_neg hl, if_neg hr, if_pos (checks_stop hstop)]
        rfl
      · obtain ⟨hk, heq⟩ := hwrap e hw
        rw [read_passed hl hr hw.start (wraps_passes hw).1]
        exact (defaultRead_wrapped heap disk buffer hr hk hw).1 heq
    · intro h
      have ho : offset.toNat < dev.size.toNat := by omega
      rw [write_passed hl hr ho (Nat.le_trans (Nat.mod_le _ _) h)]
      exact defaultWrite_inside hr (hin h) ho h hdata
    · intro h
      obtain hstop | ⟨e, hw⟩ := stop_or_wraps h
      · refine ⟨tegrablError .blockDev .overflow 2, disk, ?_⟩
        rw [tegrablBlockdevWrite, if_neg hl, if_neg hr, if_pos (checks_stop hstop)]
        rfl
      · obtain ⟨hk, heq⟩ := hwrap e hw
        rw [write_passed hl hr hw.start (wraps_passes hw).1]
        exact (defaultWrite_wrapped hr hk hw hdata).1 heq

/-- Four blocks of 512 bytes. -/
def fourBlocks : Bdev where
  ref := 1
  size := 2048
  blockSizeLog2 := 9
  blockCount := 4
  bufAlignSize := 4
  log2_ge := sector_log2_ge
  size_eq := by decide
  align_dvd := word_dvd

def fixedHeap : Heap where
  addr := fun _ => 4096
  nonnull := fun _ => page_nonnull
  aligned := fun _ => page_aligned

def smallBuffer : Buffer 1000 where
  addr := 6001
  nonnull := by decide
  fits := by decide

/-- 1000 bytes from byte 100 on, into an unaligned buffer. -/
theorem blockdev_exact_small : ReadsExactly fourBlocks fixedHeap smallBuffer 100 (fun _ => 7) ∧
    WritesExactly fourBlocks fixedHeap smallBuffer (List.replicate 1000 1) 100 (fun _ => 7) := by
  refine (blockdev_exact_iff fourBlocks fixedHeap smallBuffer 100 (List.replicate 1000 1) (fun _ => 7)
    (by decide) (by decide) List.length_replicate).mpr ⟨fun _ => by decide, ?_⟩
  intro e hw
  have hsum : 100 + 1000 = 2 ^ 64 + e := hw.sum
  omega

/-- All of the address space but its first 512 bytes. -/
def hugeBuffer : Buffer 0xFFFFFFFFFFFFFE00 where
  addr := 512
  nonnull := by decide
  fits := by decide

/-- 2^64 - 512 bytes from byte 1024 on: the end wraps to byte 512, and the read
succeeds. -/
theorem huge_read_succeeds : ¬ ∀ (dev : Bdev) (heap : Heap) (len : UInt64) (buffer : Buffer len)
    (offset : UInt64) (data : List UInt8) (disk : Disk), len ≠ 0 → dev.ref ≠ 0 →
    data.length = len.toNat →
    ReadsExactly dev heap buffer offset disk ∧ WritesExactly dev heap buffer data offset disk := by
  intro hall
  have hw : Wraps fourBlocks 1024 0xFFFFFFFFFFFFFE00 512 := ⟨by decide, by decide, by decide⟩
  have hr : fourBlocks.ref ≠ 0 := by decide
  have hl : (0xFFFFFFFFFFFFFE00 : UInt64) ≠ 0 := by decide
  obtain ⟨⟨_, hpast⟩, _⟩ := hall fourBlocks fixedHeap _ hugeBuffer 1024
    (List.replicate (0xFFFFFFFFFFFFFE00 : UInt64).toNat 0) (fun _ => 7) hl hr List.length_replicate
  obtain ⟨f, t, herr⟩ := hpast (wraps_passes hw).2
  have hne : 512 / fourBlocks.B ≠ firstBlock fourBlocks 1024 := by decide
  obtain ⟨out, t', hok⟩ := (defaultRead_wrapped fixedHeap (fun _ => 7) hugeBuffer hr
    (by decide) hw).2 hne
  rw [read_passed hl hr hw.start (wraps_passes hw).1, hok] at herr
  cases herr

end TX2SecureUart.Storage
