/-
# `Storage.GptTable` — the table that a device has

A GPT is a header of 92 bytes that is good, and the table it points to with a CRC
that matches.  For a header that the code looks at where it is, the code accepts
it exactly when it is one, and has the table, the rest of its last block and
zeros in the buffer.
-/
import TX2SecureUart.Storage.Gpt
import TX2SecureUart.Storage.Arith

namespace TX2SecureUart.Storage

open Prog ByteStore

variable {dev : Bdev} {heap : Heap} {disk : Disk}

/-! ## What a GPT is -/

/-- Signature, size, CRC, the LBAs in a device of so many blocks, and the limits
of the table. -/
structure HeaderGood (bytes : List UInt8) (blocks : Nat) : Prop where
  signature : (gptHeader bytes).signature = efiPart
  hdrSize : (gptHeader bytes).hdrSize = 0x5C
  crc : (gptHeader bytes).hdrCrc32 = tegrablUtilsCrc32 0 (clearCrc bytes)
  firstLba : (gptHeader bytes).firstLba.toNat < blocks
  lastLba : (gptHeader bytes).lastLba.toNat < blocks
  numEntries : (gptHeader bytes).numEntries.toNat ≤ 128
  entrySize : (gptHeader bytes).entrySize.toNat ≤ 128

instance (bytes : List UInt8) (blocks : Nat) : Decidable (HeaderGood bytes blocks) :=
  decidable_of_iff ((gptHeader bytes).signature = efiPart ∧ (gptHeader bytes).hdrSize = 0x5C ∧
      (gptHeader bytes).hdrCrc32 = tegrablUtilsCrc32 0 (clearCrc bytes) ∧
      (gptHeader bytes).firstLba.toNat < blocks ∧ (gptHeader bytes).lastLba.toNat < blocks ∧
      (gptHeader bytes).numEntries.toNat ≤ 128 ∧ (gptHeader bytes).entrySize.toNat ≤ 128)
    ⟨fun ⟨h₁, h₂, h₃, h₄, h₅, h₆, h₇⟩ => ⟨h₁, h₂, h₃, h₄, h₅, h₆, h₇⟩,
      fun ⟨h₁, h₂, h₃, h₄, h₅, h₆, h₇⟩ => ⟨h₁, h₂, h₃, h₄, h₅, h₆, h₇⟩⟩

/-- The header at byte `o`. -/
def headerAt (disk : Disk) (o : Nat) : GptHeader := gptHeader (slice disk o 92)

def GptHeader.tableSize (h : GptHeader) : Nat := h.numEntries.toNat * h.entrySize.toNat

/-- The blocks that a table takes. -/
def GptHeader.tableBlocks (h : GptHeader) (dev : Bdev) : Nat := (h.tableSize + (dev.B - 1)) / dev.B

/-- A table, and what is after it in its last block. -/
structure Gpt where
  numEntries : Nat
  entrySize : Nat
  table : List UInt8
  rest : List UInt8

/-- The table of the header at byte `o`. -/
def tableAt (dev : Bdev) (disk : Disk) (o : Nat) : Gpt where
  numEntries := (headerAt disk o).numEntries.toNat
  entrySize := (headerAt disk o).entrySize.toNat
  table := slice disk ((headerAt disk o).tableStartLba.toNat * dev.B) (headerAt disk o).tableSize
  rest := slice disk ((headerAt disk o).tableStartLba.toNat * dev.B + (headerAt disk o).tableSize)
    ((headerAt disk o).tableBlocks dev * dev.B - (headerAt disk o).tableSize)

/-- The GPT whose header is at byte `o` of the device. -/
def gptAt (dev : Bdev) (disk : Disk) (o : Nat) : Option Gpt :=
  if o + 92 ≤ dev.size.toNat ∧ HeaderGood (slice disk o 92) dev.blockCount.toNat ∧
      (headerAt disk o).tableStartLba.toNat * dev.B + (headerAt disk o).tableSize ≤ dev.size.toNat ∧
      (headerAt disk o).tableCrc32 = tegrablUtilsCrc32 0 (tableAt dev disk o).table then
    some (tableAt dev disk o)
  else none

/-- Where the header is: at the offset that is given, or in the second and in the
last block. -/
def gptPlaces (dev : Bdev) (offset : UInt64) : List Nat :=
  if offset > 0 then [offset.toNat] else [dev.B, dev.size.toNat - dev.B]

/-- The GPT of a device. -/
def findGpt (dev : Bdev) (disk : Disk) (offset : UInt64) : Option Gpt :=
  (gptPlaces dev offset).findSome? (gptAt dev disk)

/-- What the code has in its buffer. -/
def Gpt.area (g : Gpt) : List UInt8 :=
  g.table ++ g.rest ++ List.replicate (gptTableArea - (g.table.length + g.rest.length)) 0

/-! ## The header -/

/-- The call fails with an error. -/
def Refused {α : Type} (m : DiskM α) (disk : Disk) : Prop := ∃ e, m disk = .error (.err e) disk

theorem gptFail_refused {α : Type} (reason : ErrReason) (aux : Nat) :
    Refused (gptFail reason aux : DiskM α) disk := ⟨_, rfl⟩

theorem gptHeader_slice (disk : Disk) (o : Nat) {n : Nat} (h : 92 ≤ n) :
    gptHeader (slice disk o n) = headerAt disk o := by
  simp (disch := omega) only [headerAt, gptHeader, le32, le64, field, slice_window]

theorem clearCrc_slice (disk : Disk) (o : Nat) {n : Nat} (h : 92 ≤ n) :
    (clearCrc (slice disk o n)).take 92 = clearCrc (slice disk o 92) := by
  have hlen : (slice disk o 16 ++ [0, 0, 0, 0]).length = 20 := by
    rw [List.length_append, length_slice]
    rfl
  simp (disch := omega) only [clearCrc, take_slice, drop_slice]
  rw [List.take_append, hlen, List.take_of_length_le (by omega), take_slice (by omega)]

theorem blockCount_toNat (dev : Bdev) : dev.blockCount.toUInt64.toNat = dev.blockCount.toNat :=
  UInt32.toNat_toUInt64 _

/-- The check of the two LBAs. -/
theorem lbas_outside (dev : Bdev) (x y : UInt64) :
    (decide (x ≥ dev.blockCount.toUInt64) || decide (y ≥ dev.blockCount.toUInt64)) = true ↔
      dev.blockCount.toNat ≤ x.toNat ∨ dev.blockCount.toNat ≤ y.toNat := by
  rw [Bool.or_eq_true, decide_eq_true_eq, decide_eq_true_eq, ge_iff_le, ge_iff_le,
    UInt64.le_iff_toNat_le, UInt64.le_iff_toNat_le, blockCount_toNat]

/-- What `tegrabl_gpt_validate_header` lets through is good, once the limits of
the table hold as well. -/
theorem validateHeader_run (dev : Bdev) (disk : Disk) (o : Nat) {n : Nat} (hn : 92 ≤ n) :
    Refused (tegrablGptValidateHeader (slice disk o n) dev.blockCount.toUInt64) disk ∧
        ¬ HeaderGood (slice disk o 92) dev.blockCount.toNat ∨
      tegrablGptValidateHeader (slice disk o n) dev.blockCount.toUInt64 disk = .ok () disk ∧
        ((headerAt disk o).numEntries.toNat ≤ 128 → (headerAt disk o).entrySize.toNat ≤ 128 →
          HeaderGood (slice disk o 92) dev.blockCount.toNat) := by
  simp only [tegrablGptValidateHeader, gptHeader_slice disk o hn]
  by_cases hz : dev.blockCount.toUInt64 = 0
  · rw [if_pos hz]
    refine Or.inl ⟨gptFail_refused _ _, ?_⟩
    intro hg
    have hlt := hg.firstLba
    rw [← blockCount_toNat, hz] at hlt
    exact Nat.not_lt_zero _ hlt
  rw [if_neg hz]
  by_cases hsig : (headerAt disk o).signature ≠ efiPart
  · rw [if_pos hsig]
    exact Or.inl ⟨gptFail_refused _ _, fun hg => hsig hg.signature⟩
  rw [if_neg hsig]
  by_cases hsz : (headerAt disk o).hdrSize ≠ 0x5C
  · rw [if_pos hsz]
    exact Or.inl ⟨gptFail_refused _ _, fun hg => hsz hg.hdrSize⟩
  rw [if_neg hsz]
  have hclear : (clearCrc (slice disk o n)).take (headerAt disk o).hdrSize.toNat
      = clearCrc (slice disk o 92) := by
    rw [not_not.mp hsz]
    exact clearCrc_slice disk o hn
  rw [hclear]
  by_cases hcrc : (headerAt disk o).hdrCrc32 ≠ tegrablUtilsCrc32 0 (clearCrc (slice disk o 92))
  · rw [if_pos hcrc]
    exact Or.inl ⟨gptFail_refused _ _, fun hg => hcrc hg.crc⟩
  rw [if_neg hcrc]
  by_cases hlba : dev.blockCount.toNat ≤ (headerAt disk o).firstLba.toNat ∨
      dev.blockCount.toNat ≤ (headerAt disk o).lastLba.toNat
  · rw [if_pos ((lbas_outside dev _ _).mpr hlba)]
    refine Or.inl ⟨gptFail_refused _ _, ?_⟩
    intro hg
    have hf : (headerAt disk o).firstLba.toNat < dev.blockCount.toNat := hg.firstLba
    have hl : (headerAt disk o).lastLba.toNat < dev.blockCount.toNat := hg.lastLba
    omega
  · rw [if_neg fun h => hlba ((lbas_outside dev _ _).mp h)]
    refine Or.inr ⟨rfl, ?_⟩
    intro hn he
    exact ⟨not_not.mp hsig, not_not.mp hsz, not_not.mp hcrc,
      Nat.lt_of_not_le fun hf => hlba (Or.inl hf), Nat.lt_of_not_le fun hl => hlba (Or.inr hl), hn, he⟩

/-! ## Reading a header and its table -/

theorem divCeilLog2_toNat {n : UInt64} {k : UInt32} (hk : k.toNat < 64)
    (h : n.toNat + (2 ^ k.toNat - 1) < 2 ^ 64) :
    (divCeilLog2 n k).toNat = (n.toNat + (2 ^ k.toNat - 1)) / 2 ^ k.toNat := by
  have hone := one_shiftLeft_toNat hk
  have hpos : 0 < 2 ^ k.toNat := Nat.two_pow_pos _
  have hle : (1 : UInt64) ≤ 1 <<< k.toUInt64 := by
    rw [UInt64.le_iff_toNat_le, hone]
    exact hpos
  have hsum : (n + (1 <<< k.toUInt64) - 1).toNat = n.toNat + (2 ^ k.toNat - 1) := by
    rw [add_sub_assoc, UInt64.toNat_add, UInt64.toNat_sub_of_le _ _ hle, hone]
    exact Nat.mod_eq_of_lt h
  rw [divCeilLog2, UInt64.toNat_shiftRight, toNat_shift_mod hk, Nat.shiftRight_eq_div_pow, hsum]

/-- A range of blocks that the block numbers can hold is read when it is in the
device. -/
theorem readBlock_cases (dev : Bdev) (disk : Disk) (block count : UInt32) {buf : UInt64}
    (hb : bufferAligned dev buf = true) (hr : dev.ref ≠ 0) (hc : count ≠ 0)
    (hfit : block.toNat + count.toNat < 2 ^ 32) :
    (block.toNat + count.toNat ≤ dev.blockCount.toNat →
      underModule .gpt (tegrablBlockdevReadBlock (exactDriver dev) dev buf block count) disk
        = .ok (slice disk (block.toNat * dev.B) (count.toNat * dev.B)) disk) ∧
    (¬ block.toNat + count.toNat ≤ dev.blockCount.toNat →
      Refused (underModule .gpt (tegrablBlockdevReadBlock (exactDriver dev) dev buf block count)) disk) := by
  refine ⟨?_, ?_⟩
  · intro hin
    rw [underModule, readBlock_run disk hc hb hr (count_in_device dev block count hin)]
  · intro hout
    have hpast : (decide (block > dev.blockCount) || decide (block + count > dev.blockCount)) = true := by
      rw [Bool.or_eq_true, decide_eq_true_eq, decide_eq_true_eq, gt_iff_lt, gt_iff_lt,
        UInt32.lt_iff_toNat_lt, UInt32.lt_iff_toNat_lt, UInt32.toNat_add, Nat.mod_eq_of_lt hfit]
      omega
    refine ⟨(tegrablError .blockDev .overflow 1).setHighestModule .gpt, ?_⟩
    simp only [underModule, tegrablBlockdevReadBlock, if_neg hc, hb, Bool.not_true,
      Bool.false_eq_true, if_false, if_neg hr, if_pos hpast]
    rfl

/-- The table starts a block after the buffer does. -/
theorem table_bufferAligned (dev : Bdev) (heap : Heap) (n : UInt64) (hk : dev.blockSizeLog2.toNat < 64) :
    bufferAligned dev (heap.addr n + dev.blockSize) = true := by
  refine bufferAligned_of_dvd dev ?_
  have hblock : 8 ∣ dev.blockSize.toNat := by
    rw [Bdev.blockSize_toNat hk]
    exact Nat.pow_dvd_pow 2 (show 3 ≤ _ by have := dev.log2_ge; omega)
  rw [UInt64.toNat_add]
  exact (Nat.dvd_mod_iff (by norm_num)).mpr ((heap.aligned n).add hblock)

theorem tableSize_toNat {h : GptHeader} (hn : h.numEntries.toNat ≤ 128) (he : h.entrySize.toNat ≤ 128) :
    (h.numEntries * h.entrySize).toNat = h.tableSize ∧ h.tableSize ≤ gptTableArea := by
  have hle : h.tableSize ≤ 128 * 128 := Nat.mul_le_mul hn he
  refine ⟨?_, hle⟩
  rw [UInt32.toNat_mul]
  exact Nat.mod_eq_of_lt (by show h.tableSize < 2 ^ 32; omega)

/-- Blocks of up to 16 KiB: the blocks of a table are no longer than its part of
the buffer. -/
theorem tableBlocks_le (dev : Bdev) {h : GptHeader} (hk : dev.blockSizeLog2.toNat ≤ 14)
    (hs : h.tableSize ≤ gptTableArea) : h.tableBlocks dev * dev.B ≤ gptTableArea := by
  have hpow : 2 ^ (14 - dev.blockSizeLog2.toNat) * dev.B = gptTableArea := by
    rw [Bdev.B, ← pow_add, Nat.sub_add_cancel hk]
    rfl
  have hpos := dev.B_pos
  have hle : h.tableBlocks dev ≤ 2 ^ (14 - dev.blockSizeLog2.toNat) := by
    refine (Nat.div_le_iff_le_mul_add_pred hpos).mpr ?_
    rw [Nat.mul_comm, hpow]
    omega
  rw [← hpow]
  exact Nat.mul_le_mul_right dev.B hle

theorem tableBlocks_covers (dev : Bdev) (h : GptHeader) : h.tableSize ≤ h.tableBlocks dev * dev.B := by
  have hup := Nat.div_add_mod (h.tableSize + (dev.B - 1)) dev.B
  have hmod := Nat.mod_lt (h.tableSize + (dev.B - 1)) dev.B_pos
  rw [Nat.mul_comm] at hup
  show _ ≤ (h.tableSize + (dev.B - 1)) / dev.B * dev.B
  omega

theorem gptAt_eq_some {o : Nat} {g : Gpt} (h : gptAt dev disk o = some g) :
    o + 92 ≤ dev.size.toNat ∧ HeaderGood (slice disk o 92) dev.blockCount.toNat ∧
      (headerAt disk o).tableStartLba.toNat * dev.B + (headerAt disk o).tableSize ≤ dev.size.toNat ∧
      (headerAt disk o).tableCrc32 = tegrablUtilsCrc32 0 (tableAt dev disk o).table ∧
      g = tableAt dev disk o := by
  rw [gptAt] at h
  split at h
  next hc => exact ⟨hc.1, hc.2.1, hc.2.2.1, hc.2.2.2, (Option.some.inj h).symm⟩
  next => cases h

/-- The table of a good header: read when it is in the device and its CRC
matches. -/
theorem readTable_cases (dev : Bdev) (heap : Heap) (disk : Disk) (n : UInt64) {o : Nat} (hr : dev.ref ≠ 0)
    (hk : dev.blockSizeLog2.toNat ≤ 14) (hgood : HeaderGood (slice disk o 92) dev.blockCount.toNat)
    (htable : (headerAt disk o).tableStartLba.toNat + (headerAt disk o).tableBlocks dev < 2 ^ 32) :
    Refused (gptReadTable dev (heap.addr n) (headerAt disk o)) disk ∧
        (∀ g, gptAt dev disk o = some g → g.table = []) ∨
      gptReadTable dev (heap.addr n) (headerAt disk o) disk = .ok (tableAt dev disk o).area disk ∧
        (headerAt disk o).tableStartLba.toNat * dev.B + (headerAt disk o).tableSize ≤ dev.size.toNat ∧
        (headerAt disk o).tableCrc32 = tegrablUtilsCrc32 0 (tableAt dev disk o).table := by
  have hk' : dev.blockSizeLog2.toNat < 64 := by omega
  have hB : dev.B ≤ 2 ^ 14 := Nat.pow_le_pow_right (by norm_num) hk
  have hne : (headerAt disk o).numEntries.toNat ≤ 128 := hgood.numEntries
  have hes : (headerAt disk o).entrySize.toNat ≤ 128 := hgood.entrySize
  obtain ⟨hsize, harea⟩ := tableSize_toNat hne hes
  have hblocks := tableBlocks_le dev hk harea
  have hcover := tableBlocks_covers dev (headerAt disk o)
  have hstart : (headerAt disk o).tableStartLba.toUInt32.toNat = (headerAt disk o).tableStartLba.toNat := by
    rw [UInt64.toNat_toUInt32]
    exact Nat.mod_eq_of_lt (by omega)
  have hcount : (divCeilLog2 ((headerAt disk o).numEntries * (headerAt disk o).entrySize).toUInt64
      dev.blockSizeLog2).toUInt32.toNat = (headerAt disk o).tableBlocks dev := by
    have hs : ((headerAt disk o).numEntries * (headerAt disk o).entrySize).toUInt64.toNat
        = (headerAt disk o).tableSize := by
      rw [UInt32.toNat_toUInt64, hsize]
    have harea : (headerAt disk o).tableSize ≤ 16384 := harea
    rw [UInt64.toNat_toUInt32, divCeilLog2_toNat hk' (by rw [hs]; show _ + (dev.B - 1) < _; omega), hs]
    show (headerAt disk o).tableBlocks dev % 2 ^ 32 = _
    exact Nat.mod_eq_of_lt (by omega)
  have hlimits : ¬ (headerAt disk o).numEntries.toNat > gptMaxPartitionEntries ∧
      ¬ (headerAt disk o).entrySize.toNat > 128 := ⟨Nat.not_lt.mpr hne, Nat.not_lt.mpr hes⟩
  unfold gptReadTable
  rw [if_neg hlimits.1, if_neg hlimits.2]
  simp only [Refused, run_bind]
  by_cases hz : (headerAt disk o).tableBlocks dev = 0
  · have hc : (divCeilLog2 ((headerAt disk o).numEntries * (headerAt disk o).entrySize).toUInt64
        dev.blockSizeLog2).toUInt32 = 0 := UInt32.toNat_inj.mp (hcount.trans hz)
    rw [hc]
    refine Or.inl ⟨⟨(tegrablError .blockDev .invalid 8).setHighestModule .gpt, rfl⟩, ?_⟩
    intro g hg
    obtain ⟨_, _, _, _, rfl⟩ := gptAt_eq_some hg
    rw [hz] at hcover
    show slice disk _ (headerAt disk o).tableSize = []
    rw [Nat.eq_zero_of_le_zero (by omega : (headerAt disk o).tableSize ≤ 0)]
    rfl
  have hc : (divCeilLog2 ((headerAt disk o).numEntries * (headerAt disk o).entrySize).toUInt64
      dev.blockSizeLog2).toUInt32 ≠ 0 := by
    intro h
    rw [h] at hcount
    exact hz hcount.symm
  obtain ⟨hread, hout⟩ := readBlock_cases dev disk (headerAt disk o).tableStartLba.toUInt32
    (divCeilLog2 ((headerAt disk o).numEntries * (headerAt disk o).entrySize).toUInt64
      dev.blockSizeLog2).toUInt32 (table_bufferAligned dev heap n hk') hr hc
    (by rw [hstart, hcount]; exact htable)
  have hfits : (headerAt disk o).tableStartLba.toNat + (headerAt disk o).tableBlocks dev
      ≤ dev.blockCount.toNat ↔ (headerAt disk o).tableStartLba.toNat * dev.B
        + (headerAt disk o).tableSize ≤ dev.size.toNat := ceil_le_iff dev _ _
  rw [hstart, hcount, hfits] at hread hout
  by_cases hin : (headerAt disk o).tableStartLba.toNat * dev.B + (headerAt disk o).tableSize
      ≤ dev.size.toNat
  case neg =>
    obtain ⟨e, herr⟩ := hout hin
    refine Or.inl ⟨⟨e, ?_⟩, ?_⟩
    · rw [herr]
    · intro g hg
      exact absurd (gptAt_eq_some hg).2.2.1 hin
  have hsplit := Nat.add_sub_cancel' hcover
  have hjoin : slice disk ((headerAt disk o).tableStartLba.toNat * dev.B)
      ((headerAt disk o).tableBlocks dev * dev.B) = (tableAt dev disk o).table ++ (tableAt dev disk o).rest := by
    rw [← hsplit, slice_add]
    rfl
  have hlen : ¬ (slice disk ((headerAt disk o).tableStartLba.toNat * dev.B)
      ((headerAt disk o).tableBlocks dev * dev.B)).length > gptTableArea := by
    rw [length_slice]
    exact Nat.not_lt.mpr hblocks
  have htake : (slice disk ((headerAt disk o).tableStartLba.toNat * dev.B)
      ((headerAt disk o).tableBlocks dev * dev.B)).take
        ((headerAt disk o).numEntries * (headerAt disk o).entrySize).toNat = (tableAt dev disk o).table := by
    rw [hsize, take_slice hcover]
    rfl
  rw [hread hin]
  dsimp only
  rw [if_neg hlen, htake]
  by_cases hcrc : (headerAt disk o).tableCrc32 ≠ tegrablUtilsCrc32 0 (tableAt dev disk o).table
  · rw [if_pos hcrc]
    refine Or.inl ⟨gptFail_refused _ _, ?_⟩
    intro g hg
    exact absurd (gptAt_eq_some hg).2.2.2.1 hcrc
  · rw [if_neg hcrc]
    refine Or.inr ⟨?_, hin, not_not.mp hcrc⟩
    rw [hjoin, List.length_append]
    rfl

/-- The code and `gptAt` agree on a header that starts with a block, but for an
empty table, which the code refuses. -/
theorem readValidate_cases (dev : Bdev) (heap : Heap) (disk : Disk) {o : UInt64} (hr : dev.ref ≠ 0)
    (hk : dev.blockSizeLog2.toNat ≤ 14) (hmod : o.toNat % dev.B = 0) (hlow : o.toNat / dev.B + 1 < 2 ^ 32)
    (htable : HeaderGood (slice disk o.toNat 92) dev.blockCount.toNat →
      (headerAt disk o.toNat).tableStartLba.toNat + (headerAt disk o.toNat).tableBlocks dev < 2 ^ 32) :
    Refused (tegrablGptReadValidate dev heap o) disk ∧
        (∀ g, gptAt dev disk o.toNat = some g → g.table = []) ∨
      ∃ g, gptAt dev disk o.toNat = some g ∧
        tegrablGptReadValidate dev heap o disk = .ok g.area disk := by
  have hk' : dev.blockSizeLog2.toNat < 64 := by omega
  have hpos := dev.B_pos
  have hB : dev.B ≤ 2 ^ 14 := Nat.pow_le_pow_right (by norm_num) hk
  have h92 : 2 ^ 9 ≤ dev.B := Nat.pow_le_pow_right (by norm_num) dev.log2_ge
  have hplace : o.toNat / dev.B * dev.B = o.toNat := by
    have hsplit := Nat.div_add_mod o.toNat dev.B
    rw [Nat.mul_comm]
    omega
  have hblock : (divCeilLog2 o dev.blockSizeLog2).toUInt32.toNat = o.toNat / dev.B := by
    have hmul := Nat.mul_le_mul (show o.toNat / dev.B ≤ 2 ^ 32 by omega) hB
    have hup : (o.toNat + (dev.B - 1)) / dev.B = o.toNat / dev.B := by
      refine Nat.div_eq_of_lt_le ?_ ?_
      · omega
      · rw [Nat.succ_mul]
        omega
    rw [UInt64.toNat_toUInt32, divCeilLog2_toNat hk' (by show _ + (dev.B - 1) < _; omega)]
    show (o.toNat + (dev.B - 1)) / dev.B % 2 ^ 32 = _
    rw [hup]
    exact Nat.mod_eq_of_lt (by omega)
  have hone : (1 : UInt32).toNat * dev.B = dev.B := Nat.one_mul _
  obtain ⟨hread, hout⟩ := readBlock_cases dev disk (divCeilLog2 o dev.blockSizeLog2).toUInt32 1
    (heap_bufferAligned dev heap (UInt64.ofNat gptTableArea + dev.blockSize).toUInt32.toUInt64) hr
    (by decide) (by rw [hblock]; exact hlow)
  rw [hblock, hplace, hone] at hread
  rw [hblock] at hout
  by_cases hin : o.toNat / dev.B + (1 : UInt32).toNat ≤ dev.blockCount.toNat
  case neg =>
    obtain ⟨e, herr⟩ := hout hin
    refine Or.inl ⟨⟨e, ?_⟩, ?_⟩
    · simp only [tegrablGptReadValidate, run_bind, herr]
    · intro g hg
      obtain ⟨hdev, _⟩ := gptAt_eq_some hg
      have hsize : dev.size.toNat = dev.blockCount.toNat * dev.B := dev.size_eq
      refine absurd ?_ hin
      have hlt : o.toNat / dev.B < dev.blockCount.toNat := by
        rw [Nat.div_lt_iff_lt_mul hpos]
        omega
      exact hlt
  have hrun := hread hin
  have hn : 92 ≤ dev.B := by omega
  obtain ⟨⟨e, herr⟩, hbad⟩ | ⟨hok, hgood⟩ := validateHeader_run dev disk o.toNat hn
  · refine Or.inl ⟨⟨e, ?_⟩, ?_⟩
    · simp only [tegrablGptReadValidate, run_bind, hrun, herr]
    · intro g hg
      exact absurd (gptAt_eq_some hg).2.1 hbad
  have hstep : tegrablGptReadValidate dev heap o disk = gptReadTable dev
      (heap.addr (UInt64.ofNat gptTableArea + dev.blockSize).toUInt32.toUInt64) (headerAt disk o.toNat)
      disk := by
    simp only [tegrablGptReadValidate, run_bind, hrun, hok, gptHeader_slice disk o.toNat hn]
  simp only [Refused, hstep]
  by_cases hlimits : (headerAt disk o.toNat).numEntries.toNat ≤ 128 ∧
      (headerAt disk o.toNat).entrySize.toNat ≤ 128
  case neg =>
    refine Or.inl ⟨?_, ?_⟩
    · unfold gptReadTable
      by_cases hne : (headerAt disk o.toNat).numEntries.toNat > gptMaxPartitionEntries
      · rw [if_pos hne]
        exact gptFail_refused _ _
      · rw [if_neg hne, if_pos (Nat.lt_of_not_le fun he => hlimits ⟨Nat.not_lt.mp hne, he⟩)]
        exact gptFail_refused _ _
    · intro g hg
      have hg' := (gptAt_eq_some hg).2.1
      exact absurd ⟨hg'.numEntries, hg'.entrySize⟩ hlimits
  have hheader := hgood hlimits.1 hlimits.2
  obtain hno | ⟨hread', hfits, hcrc⟩ := readTable_cases dev heap disk
    (UInt64.ofNat gptTableArea + dev.blockSize).toUInt32.toUInt64 hr hk hheader (htable hheader)
  · exact Or.inl hno
  · refine Or.inr ⟨tableAt dev disk o.toNat, if_pos ⟨?_, hheader, hfits, hcrc⟩, hread'⟩
    have hsize : dev.size.toNat = dev.blockCount.toNat * dev.B := dev.size_eq
    have hmul := Nat.mul_le_mul_right dev.B hin
    rw [Nat.add_mul, hplace, hone, ← hsize] at hmul
    omega

end TX2SecureUart.Storage
