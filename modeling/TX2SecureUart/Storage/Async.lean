/-
# `Storage.Async` — transfers of sectors beside reads and writes

The two ways to move whole sectors of a partition: seek and read or write, and
`tegrabl_partition_async_read` and `_write`, which describe a transfer for the
driver.  Both work on the same store here: the caller's buffer and an exact
device, whose driver carries a described transfer out to its end.
-/
import TX2SecureUart.Storage.Exact
import TX2SecureUart.Storage.Isolation

namespace TX2SecureUart.Storage

open Prog ByteStore

/-- `partition->offset`, the bytes of the caller's buffer, and the device. -/
structure Store where
  offset : UInt64
  mem : List UInt8
  disk : Disk

abbrev StoreM := EStateM Fault Store

def onDisk {α : Type} (m : DiskM α) : StoreM α := fun s =>
  match m s.disk with
  | .ok a d => .ok a { s with disk := d }
  | .error f d => .error f { s with disk := d }

def storeFail {α : Type} (reason : ErrReason) (aux : Nat) : StoreM α :=
  throw (.err (tegrablError .partitionManager reason aux))

variable (dev : Bdev) (heap : Heap) (info : PartitionInfo)

/-! ## Seek, read and write -/

/-- `tegrabl_partition_seek` -/
def storeSeek (offset : Int64) (origin : UInt32) : StoreM Unit := fun s =>
  match tegrablPartitionSeek info offset origin ⟨s.offset, []⟩ with
  | .ok _ t => .ok () { s with offset := t.offset }
  | .error f t => .error f { s with offset := t.offset }

/-- `tegrabl_partition_read` -/
def storeRead (buf numBytes : UInt64) : StoreM Unit := do
  if buf = 0 || numBytes = 0 then storeFail .invalid 4
  else
    let s ← get
    if info.totalSize < numBytes + s.offset then storeFail .overflow 1
    else
      let offset := s.offset + info.base dev
      let bytes ← onDisk (underModule .partitionManager
        (tegrablBlockdevRead (exactDriver dev) dev heap buf offset numBytes))
      modify fun s => { s with mem := bytes, offset := s.offset + numBytes }

/-- `tegrabl_partition_write`; the offset moves also when the write fails. -/
def storeWrite (buf numBytes : UInt64) : StoreM Unit := do
  if buf = 0 || numBytes = 0 then storeFail .invalid 2
  else
    let s ← get
    if info.totalSize < numBytes + s.offset then storeFail .overflow 0
    else
      let offset := s.offset + info.base dev
      set { s with offset := s.offset + numBytes }
      onDisk (underModule .partitionManager
        (tegrablBlockdevWrite (exactDriver dev) dev heap buf s.mem offset numBytes))

/-- `num_sectors` sectors from `start_sector` on, in bytes. -/
def seekAndRead (buf startSector numSectors : UInt64) : StoreM Unit := do
  storeSeek info (startSector * dev.blockSize).toInt64 0
  storeRead dev heap info buf (numSectors * dev.blockSize)

def seekAndWrite (buf startSector numSectors : UInt64) : StoreM Unit := do
  storeSeek info (startSector * dev.blockSize).toInt64 0
  storeWrite dev heap info buf (numSectors * dev.blockSize)

/-! ## Described transfers -/

/-- A driver that moves what a transfer describes. -/
def exactXfer (kind : AccessKind) (block count : UInt32) : StoreM Unit :=
  match kind with
  | .read => modify fun s =>
      { s with
        mem := slice s.disk (block.toNat * 2 ^ dev.blockSizeLog2.toNat)
            (count.toNat * 2 ^ dev.blockSizeLog2.toNat) ++
          s.mem.drop (count.toNat * 2 ^ dev.blockSizeLog2.toNat) }
  | .write => modify fun s =>
      { s with
        disk := patch s.disk (block.toNat * 2 ^ dev.blockSizeLog2.toNat)
          (s.mem.take (count.toNat * 2 ^ dev.blockSizeLog2.toNat)) }
  | .erase => pure ()

def storeHooks : Hooks Store where
  readBlock block count := onDisk ((exactDriver dev).readBlock block count)
  writeBlock bytes block count := onDisk ((exactDriver dev).writeBlock bytes block count)
  erase _ _ := pure ()
  xfer := exactXfer dev

/-- What the two functions share, over any driver: `kind` is the `xfer_type`. -/
def describeXfer {σ : Type} (drv : Hooks σ) (kind : AccessKind) (aux : Nat)
    (buf startSector numSectors : UInt64) : EStateM Fault σ Unit := do
  if buf = 0 || numSectors = 0 then throw (.err (tegrablError .partitionManager .invalid aux))
  else if info.numSectors < startSector + numSectors then
    throw (.err (tegrablError .partitionManager .invalid (aux + 2)))
  else
    let startBlock := (info.startSector + startSector).toUInt32
    tegrablBlockdevXfer drv dev kind startBlock numSectors.toUInt32

/-- `tegrabl_partition_async_read` -/
def asyncRead (buf startSector numSectors : UInt64) : StoreM Unit :=
  describeXfer dev info (storeHooks dev) .read 7 buf startSector numSectors

/-- `tegrabl_partition_async_write`: its `xfer_type` is `TEGRABL_BLOCKDEV_READ` too. -/
def asyncWrite (buf startSector numSectors : UInt64) : StoreM Unit :=
  describeXfer dev info (storeHooks dev) .read 11 buf startSector numSectors

/-- The calls of `Storage.Partition` describe the same transfers. -/
theorem partitionAsync_describes (b : Behaviour) (aux : Nat) (buf startSector numSectors : UInt64) :
    partitionAsync b dev info aux buf startSector numSectors =
      describeXfer dev info b.hooks .read aux buf startSector numSectors := rfl

/-! ## Requests -/

/-- The sizes of a partition fit the types that they have. -/
structure PartitionInfo.Sized (dev : Bdev) (info : PartitionInfo) : Prop where
  total : info.totalSize.toNat = info.numSectors.toNat * dev.B
  fits : (info.startSector.toNat + info.numSectors.toNat) * dev.B < 2 ^ 63

/-- Sectors of a partition of an open device, and a buffer for them. -/
structure Request (startSector numSectors : UInt64) (s : Store) : Prop where
  sized : info.Sized dev
  ref : dev.ref ≠ 0
  block : dev.blockSizeLog2.toNat < 32
  some : numSectors ≠ 0
  inside : startSector.toNat + numSectors.toNat ≤ info.numSectors.toNat
  room : s.mem.length = numSectors.toNat * dev.B

/-- What a call does to buffer and device, and whether it succeeds. -/
def effect (m : StoreM Unit) (s : Store) : Bool × List UInt8 × Disk :=
  match m s with
  | .ok _ t => (true, t.mem, t.disk)
  | .error _ t => (false, t.mem, t.disk)

/-- Where the sectors of a request are on the device. -/
def firstSector (startSector : UInt64) : Nat := info.startSector.toNat + startSector.toNat

/-- The two ways to move the sectors do the same. -/
def AsyncAsSync (startSector numSectors : UInt64) (buffer : Buffer (numSectors * dev.blockSize))
    (s : Store) : Prop :=
  effect (asyncRead dev info buffer.addr startSector numSectors) s =
      effect (seekAndRead dev heap info buffer.addr startSector numSectors) s ∧
    effect (asyncWrite dev info buffer.addr startSector numSectors) s =
      effect (seekAndWrite dev heap info buffer.addr startSector numSectors) s

/-- An entry of a GPT that ends below 2^63 bytes. -/
theorem publishEntry_sized {e : GptEntry} (h : e.taken = true)
    (hk : dev.blockSizeLog2.toNat < 64) (hfits : (e.lastLba.toNat + 1) * dev.B < 2 ^ 63) :
    (publishEntry dev e).Sized dev := by
  have hpos := dev.B_pos
  have hlast : e.lastLba.toNat + 1 < 2 ^ 63 :=
    Nat.lt_of_le_of_lt (Nat.le_mul_of_pos_right _ hpos) hfits
  have hlt : e.firstLba < e.lastLba := by
    rw [GptEntry.taken, decide_eq_true_eq] at h
    exact h
  have hlt' := UInt64.lt_iff_toNat_lt.mp hlt
  have hone : (1 : UInt64).toNat = 1 := rfl
  have hsub : (e.lastLba - e.firstLba).toNat = e.lastLba.toNat - e.firstLba.toNat :=
    UInt64.toNat_sub_of_le _ _ (UInt64.le_of_lt hlt)
  have hnum : (e.lastLba - e.firstLba + 1).toNat = e.lastLba.toNat - e.firstLba.toNat + 1 := by
    rw [UInt64.toNat_add, hsub, hone]
    exact Nat.mod_eq_of_lt (by omega)
  have hend : e.firstLba.toNat + (e.lastLba - e.firstLba + 1).toNat = e.lastLba.toNat + 1 := by
    omega
  refine ⟨?_, ?_⟩
  · refine shiftLeft_toNat hk ?_
    have hle : (e.lastLba - e.firstLba + 1).toNat * dev.B ≤ (e.lastLba.toNat + 1) * dev.B :=
      Nat.mul_le_mul_right _ (by omega)
    exact Nat.lt_of_le_of_lt hle (by omega)
  · show (e.firstLba.toNat + (e.lastLba - e.firstLba + 1).toNat) * dev.B < _
    rw [hend]
    exact hfits

section

variable {dev heap info} {start n : UInt64} {s : Store}

theorem toInt_toInt64 (x : UInt64) (h : x.toNat < 2 ^ 63) : x.toInt64.toInt = x.toNat := by
  show x.toBitVec.toInt = x.toNat
  exact BitVec.toInt_eq_toNat_of_lt (by show 2 * x.toNat < 2 ^ 64; omega)

/-- The sizes of a request in bytes. -/
structure Bytes (dev : Bdev) (info : PartitionInfo) (start n : UInt64) : Prop where
  seek : (start * dev.blockSize).toNat = start.toNat * dev.B
  num : (n * dev.blockSize).toNat = n.toNat * dev.B
  base : (info.base dev).toNat = info.startSector.toNat * dev.B
  offset : (start * dev.blockSize + info.base dev).toNat = firstSector info start * dev.B
  total : start.toNat * dev.B + n.toNat * dev.B ≤ info.totalSize.toNat
  fits : (firstSector info start + n.toNat) * dev.B < 2 ^ 63

theorem Request.bytes (h : Request dev info start n s) : Bytes dev info start n := by
  have hk : dev.blockSizeLog2.toNat < 64 := by have := h.block; omega
  have hsize := Bdev.blockSize_toNat hk
  have hfits := h.sized.fits
  have hin := Nat.mul_le_mul_right dev.B h.inside
  rw [Nat.add_mul] at hfits hin
  have hfirst : firstSector info start * dev.B =
      info.startSector.toNat * dev.B + start.toNat * dev.B := Nat.add_mul _ _ _
  have hstart : (start * dev.blockSize).toNat = start.toNat * dev.B := by
    rw [UInt64.toNat_mul, hsize]
    exact Nat.mod_eq_of_lt (by omega)
  have hnum : (n * dev.blockSize).toNat = n.toNat * dev.B := by
    rw [UInt64.toNat_mul, hsize]
    exact Nat.mod_eq_of_lt (by omega)
  have hbase : (info.base dev).toNat = info.startSector.toNat * dev.B :=
    base_toNat hk (by rw [PartitionInfo.start]; omega)
  refine ⟨hstart, hnum, hbase, ?_, ?_, ?_⟩
  · rw [UInt64.toNat_add, hstart, hbase, hfirst, Nat.add_comm (start.toNat * dev.B)]
    exact Nat.mod_eq_of_lt (by omega)
  · rw [h.sized.total]
    exact hin
  · rw [Nat.add_mul, hfirst]
    omega

/-! ## The synchronous way -/

theorem Request.seek (h : Request dev info start n s) :
    storeSeek info (start * dev.blockSize).toInt64 0 s =
      .ok () { s with offset := start * dev.blockSize } := by
  have hb := h.bytes
  have hfits := hb.fits
  have htotal := hb.total
  rw [Nat.add_mul] at hfits
  have hfirst : firstSector info start * dev.B =
      info.startSector.toNat * dev.B + start.toNat * dev.B := Nat.add_mul _ _ _
  have hlt : (start * dev.blockSize).toNat < 2 ^ 63 := by
    rw [hb.seek]
    omega
  have hsum : (0 : Int) + (start * dev.blockSize).toInt64.toInt = ((start * dev.blockSize).toNat : Int) := by
    rw [toInt_toInt64 _ hlt, zero_add]
  have hseek : tegrablPartitionSeek info (start * dev.blockSize).toInt64 0 ⟨s.offset, []⟩ =
      .ok () ⟨start * dev.blockSize, []⟩ := by
    have hint : FitsInt64 ((start * dev.blockSize).toNat : Int) := by
      constructor <;> omega
    have hback : UInt64.ofNat ((start * dev.blockSize).toNat : Int).toNat = start * dev.blockSize := by
      rw [Int.toNat_natCast, UInt64.ofNat_toNat]
    have hpast : ¬ info.totalSize < start * dev.blockSize := by
      rw [UInt64.lt_iff_toNat_lt, hb.seek]
      omega
    show (if ¬ FitsInt64 (0 + (start * dev.blockSize).toInt64.toInt) then throw .undefined
      else if 0 + (start * dev.blockSize).toInt64.toInt < 0 then partFail .underflow 0
      else if info.totalSize < UInt64.ofNat (0 + (start * dev.blockSize).toInt64.toInt).toNat then
        partFail .overflow 2
      else set (⟨UInt64.ofNat (0 + (start * dev.blockSize).toInt64.toInt).toNat, []⟩ : PartState) :
        PartM Unit) ⟨s.offset, []⟩ = _
    rw [hsum, if_neg (not_not.mpr hint), if_neg (by omega), hback, if_neg hpast]
    rfl
  rw [storeSeek, hseek]

theorem Request.bytes_ne_zero (h : Request dev info start n s) : n * dev.blockSize ≠ 0 := by
  intro hz
  have hnum := h.bytes.num
  rw [hz] at hnum
  have hnum : 0 = n.toNat * dev.B := hnum
  rcases Nat.mul_eq_zero.mp hnum.symm with hn | hB
  · exact h.some (UInt64.toNat_inj.mp hn)
  · exact absurd hB (Nat.pos_iff_ne_zero.mp dev.B_pos)

theorem Request.total_not_lt (h : Request dev info start n s) :
    ¬ info.totalSize < n * dev.blockSize + start * dev.blockSize := by
  have hb := h.bytes
  have hfits := hb.fits
  have htotal := hb.total
  have hlt := info.totalSize.toNat_lt
  rw [UInt64.lt_iff_toNat_lt, UInt64.toNat_add, hb.seek, hb.num]
  have hmod := Nat.mod_le (n.toNat * dev.B + start.toNat * dev.B) (2 ^ 64)
  omega

/-- A read, after the checks of the partition manager. -/
theorem Request.seekAndRead (h : Request dev info start n s) (buffer : Buffer (n * dev.blockSize)) :
    seekAndRead dev heap info buffer.addr start n s =
      (do let bytes ← onDisk (underModule .partitionManager (tegrablBlockdevRead (exactDriver dev) dev
            heap buffer.addr (start * dev.blockSize + info.base dev) (n * dev.blockSize)))
          modify fun s => { s with mem := bytes, offset := s.offset + n * dev.blockSize } :
          StoreM Unit) { s with offset := start * dev.blockSize } := by
  have hz : ¬ (decide (buffer.addr = 0) || decide (n * dev.blockSize = 0)) = true := by
    rw [Bool.or_eq_true, decide_eq_true_eq, decide_eq_true_eq, not_or]
    exact ⟨buffer.nonnull, h.bytes_ne_zero⟩
  rw [Storage.seekAndRead, run_bind, h.seek]
  show storeRead dev heap info buffer.addr (n * dev.blockSize) _ = _
  rw [storeRead, if_neg hz, run_bind]
  show (if info.totalSize < n * dev.blockSize + start * dev.blockSize then storeFail .overflow 1
    else _ : StoreM Unit) _ = _
  rw [if_neg h.total_not_lt]

theorem Request.seekAndWrite (h : Request dev info start n s) (buffer : Buffer (n * dev.blockSize)) :
    seekAndWrite dev heap info buffer.addr start n s =
      onDisk (underModule .partitionManager (tegrablBlockdevWrite (exactDriver dev) dev heap
        buffer.addr s.mem (start * dev.blockSize + info.base dev) (n * dev.blockSize)))
        { s with offset := start * dev.blockSize + n * dev.blockSize } := by
  have hz : ¬ (decide (buffer.addr = 0) || decide (n * dev.blockSize = 0)) = true := by
    rw [Bool.or_eq_true, decide_eq_true_eq, decide_eq_true_eq, not_or]
    exact ⟨buffer.nonnull, h.bytes_ne_zero⟩
  rw [Storage.seekAndWrite, run_bind, h.seek]
  show storeWrite dev heap info buffer.addr (n * dev.blockSize) _ = _
  rw [storeWrite, if_neg hz, run_bind]
  show (if info.totalSize < n * dev.blockSize + start * dev.blockSize then storeFail .overflow 0
    else _ : StoreM Unit) _ = _
  rw [if_neg h.total_not_lt]
  rfl

variable (heap) in
/-- The sectors are on the device. -/
theorem Request.sync_inside (h : Request dev info start n s) (buffer : Buffer (n * dev.blockSize))
    (hin : firstSector info start + n.toNat ≤ dev.blockCount.toNat) :
    effect (Storage.seekAndRead dev heap info buffer.addr start n) s =
        (true, slice s.disk (firstSector info start * dev.B) (n.toNat * dev.B), s.disk) ∧
      effect (Storage.seekAndWrite dev heap info buffer.addr start n) s =
        (true, s.mem, patch s.disk (firstSector info start * dev.B) s.mem) := by
  have hb := h.bytes
  have hle := Nat.mul_le_mul_right dev.B hin
  have hsize : dev.size.toNat = dev.blockCount.toNat * dev.B := dev.size_eq
  have hnpos : 0 < n.toNat * dev.B := by
    rw [← hb.num]
    exact ne_zero_toNat h.bytes_ne_zero
  rw [Nat.add_mul] at hle
  have hrange : (start * dev.blockSize + info.base dev).toNat + (n * dev.blockSize).toNat ≤
      dev.size.toNat := by
    rw [hb.offset, hb.num, hsize]
    exact hle
  have ho : (start * dev.blockSize + info.base dev).toNat < dev.size.toNat := by
    rw [hb.num] at hrange
    omega
  have hread : tegrablBlockdevRead (exactDriver dev) dev heap buffer.addr
      (start * dev.blockSize + info.base dev) (n * dev.blockSize) s.disk =
      .ok (slice s.disk (firstSector info start * dev.B) (n.toNat * dev.B)) s.disk := by
    rw [read_passed h.bytes_ne_zero h.ref ho (Nat.le_trans (Nat.mod_le _ _) hrange),
      defaultRead_inside h.ref h.block ho hrange, hb.offset, hb.num]
  have hwrite : tegrablBlockdevWrite (exactDriver dev) dev heap buffer.addr s.mem
      (start * dev.blockSize + info.base dev) (n * dev.blockSize) s.disk =
      .ok () (patch s.disk (firstSector info start * dev.B) s.mem) := by
    rw [write_passed h.bytes_ne_zero h.ref ho (Nat.le_trans (Nat.mod_le _ _) hrange),
      defaultWrite_inside h.ref h.block ho hrange (h.room.trans hb.num.symm), hb.offset]
  constructor
  · rw [effect, h.seekAndRead buffer, run_bind, onDisk, underModule, hread]
    rfl
  · rw [effect, h.seekAndWrite buffer, onDisk, underModule, hwrite]

variable (heap) in
/-- The sectors go past the end of the device. -/
theorem Request.sync_past (h : Request dev info start n s) (buffer : Buffer (n * dev.blockSize))
    (hpast : dev.blockCount.toNat < firstSector info start + n.toNat) :
    effect (Storage.seekAndRead dev heap info buffer.addr start n) s = (false, s.mem, s.disk) ∧
      effect (Storage.seekAndWrite dev heap info buffer.addr start n) s =
        (false, s.mem, s.disk) := by
  have hb := h.bytes
  have hfits := hb.fits
  have hlt := Nat.mul_lt_mul_of_pos_right hpast dev.B_pos
  have hsize : dev.size.toNat = dev.blockCount.toNat * dev.B := dev.size_eq
  have hsum : firstSector info start * dev.B + n.toNat * dev.B =
      (firstSector info start + n.toNat) * dev.B := (Nat.add_mul _ _ _).symm
  have hstop : (decide (start * dev.blockSize + info.base dev ≥ dev.size) ||
      decide (start * dev.blockSize + info.base dev + n * dev.blockSize > dev.size)) = true := by
    refine checks_stop (.inr ?_)
    rw [hb.offset, hb.num, hsum, Nat.mod_eq_of_lt (by omega), hsize]
    exact hlt
  constructor
  · rw [effect, h.seekAndRead buffer, run_bind, onDisk, underModule, tegrablBlockdevRead,
      if_neg h.bytes_ne_zero, if_neg h.ref, if_pos hstop]
    rfl
  · rw [effect, h.seekAndWrite buffer, onDisk, underModule, tegrablBlockdevWrite,
      if_neg h.bytes_ne_zero, if_neg h.ref, if_pos hstop]
    rfl

/-! ## The described transfer -/

variable (dev info start n) in
/-- The range check of `tegrabl_blockdev_xfer`, on the 32 bits that the transfer
describes. -/
def Refused32 : Prop := pastEnd dev (info.startSector + start).toUInt32 n.toUInt32 = true

theorem Request.sectors_not_lt (h : Request dev info start n s) : ¬ info.numSectors < start + n := by
  have hin := h.inside
  have hlt := info.numSectors.toNat_lt
  rw [UInt64.lt_iff_toNat_lt, UInt64.toNat_add, Nat.mod_eq_of_lt (by omega)]
  omega

theorem Request.describes (h : Request dev info start n s) (kind : AccessKind) (aux : Nat)
    (buffer : Buffer (n * dev.blockSize)) :
    describeXfer dev info (storeHooks dev) kind aux buffer.addr start n =
      tegrablBlockdevXfer (storeHooks dev) dev kind (info.startSector + start).toUInt32
        n.toUInt32 := by
  have hz : ¬ (decide (buffer.addr = 0) || decide (n = 0)) = true := by
    rw [Bool.or_eq_true, decide_eq_true_eq, decide_eq_true_eq, not_or]
    exact ⟨buffer.nonnull, h.some⟩
  rw [describeXfer, if_neg hz, if_neg h.sectors_not_lt]

theorem Request.async_refused (h : Request dev info start n s) (aux : Nat)
    (buffer : Buffer (n * dev.blockSize)) (hpast : Refused32 dev info start n) :
    effect (describeXfer dev info (storeHooks dev) .read aux buffer.addr start n) s =
      (false, s.mem, s.disk) := by
  have hpast' : pastEnd dev (info.startSector + start).toUInt32 n.toUInt32 = true := hpast
  rw [effect, h.describes, tegrablBlockdevXfer, if_pos hpast']
  rfl

theorem Request.async_carried (h : Request dev info start n s) (aux : Nat)
    (buffer : Buffer (n * dev.blockSize)) (hpast : ¬ Refused32 dev info start n) :
    effect (describeXfer dev info (storeHooks dev) .read aux buffer.addr start n) s =
      (true, slice s.disk ((info.startSector + start).toUInt32.toNat * dev.B)
        (n.toUInt32.toNat * dev.B) ++ s.mem.drop (n.toUInt32.toNat * dev.B), s.disk) := by
  have hpast' : ¬ pastEnd dev (info.startSector + start).toUInt32 n.toUInt32 = true := hpast
  rw [effect, h.describes, tegrablBlockdevXfer, if_neg hpast', if_neg h.ref]
  rfl

/-- On the device the 32 bits are enough. -/
theorem Request.async_inside (h : Request dev info start n s) (aux : Nat)
    (buffer : Buffer (n * dev.blockSize))
    (hin : firstSector info start + n.toNat ≤ dev.blockCount.toNat) :
    effect (describeXfer dev info (storeHooks dev) .read aux buffer.addr start n) s =
      (true, slice s.disk (firstSector info start * dev.B) (n.toNat * dev.B), s.disk) := by
  have hcount := dev.blockCount.toNat_lt
  have hsum : info.startSector.toNat + start.toNat = firstSector info start := rfl
  have hnum : n.toUInt32.toNat = n.toNat := by
    rw [UInt64.toNat_toUInt32]
    exact Nat.mod_eq_of_lt (by omega)
  have hblock : (info.startSector + start).toUInt32.toNat = firstSector info start := by
    rw [UInt64.toNat_toUInt32, UInt64.toNat_add, hsum, Nat.mod_eq_of_lt (by omega)]
    exact Nat.mod_eq_of_lt (by omega)
  have hpast : ¬ Refused32 dev info start n := by
    rw [Refused32, pastEnd, Bool.or_eq_true, decide_eq_true_eq, decide_eq_true_eq]
    exact count_in_device dev _ _ (by rw [hblock, hnum]; exact hin)
  have hdrop : s.mem.drop (n.toNat * dev.B) = [] := List.drop_of_length_le h.room.le
  rw [h.async_carried aux buffer hpast, hblock, hnum, hdrop, List.append_nil]

/-! ## Both ways -/

/-- On the device the read is the same, and the write is if there is nothing to
write. -/
theorem Request.inside_iff (h : Request dev info start n s) (buffer : Buffer (n * dev.blockSize))
    (hin : firstSector info start + n.toNat ≤ dev.blockCount.toNat) :
    AsyncAsSync dev heap info start n buffer s ↔
      s.mem = slice s.disk (firstSector info start * dev.B) (n.toNat * dev.B) := by
  obtain ⟨hread, hwrite⟩ := h.sync_inside heap buffer hin
  rw [AsyncAsSync, asyncRead, asyncWrite, h.async_inside 7 buffer hin, h.async_inside 11 buffer hin,
    hread, hwrite]
  constructor
  · rintro ⟨-, hsame⟩
    exact (congrArg (fun e => e.2.1) hsame).symm
  · intro hmem
    refine ⟨rfl, ?_⟩
    rw [hmem, patch_slice]

/-- Past the end both ways fail, unless the 32 bits are those of sectors on the
device. -/
theorem Request.past_iff (h : Request dev info start n s) (buffer : Buffer (n * dev.blockSize))
    (hpast : dev.blockCount.toNat < firstSector info start + n.toNat) :
    AsyncAsSync dev heap info start n buffer s ↔ Refused32 dev info start n := by
  obtain ⟨hread, hwrite⟩ := h.sync_past heap buffer hpast
  rw [AsyncAsSync, asyncRead, asyncWrite, hread, hwrite]
  constructor
  · rintro ⟨hsame, -⟩
    by_contra hnot
    rw [h.async_carried 7 buffer hnot] at hsame
    cases congrArg Prod.fst hsame
  · intro hrefused
    exact ⟨h.async_refused 7 buffer hrefused, h.async_refused 11 buffer hrefused⟩

end

/-- The transfers do what a read and a write do, on the device, exactly when what
is to be written is there already, and past its end exactly when the range check
sees it. -/
theorem async_as_sync_iff (start n : UInt64) (buffer : Buffer (n * dev.blockSize)) (s : Store)
    (h : Request dev info start n s) :
    AsyncAsSync dev heap info start n buffer s ↔
      (firstSector info start + n.toNat ≤ dev.blockCount.toNat ∧
        s.mem = slice s.disk (firstSector info start * dev.B) (n.toNat * dev.B)) ∨
      (dev.blockCount.toNat < firstSector info start + n.toNat ∧ Refused32 dev info start n) := by
  rcases Nat.lt_or_ge dev.blockCount.toNat (firstSector info start + n.toNat) with hpast | hin
  · rw [h.past_iff buffer hpast]
    constructor
    · exact fun hrefused => .inr ⟨hpast, hrefused⟩
    · rintro (⟨hin, -⟩ | ⟨-, hrefused⟩)
      · exact absurd hpast (Nat.not_lt.mpr hin)
      · exact hrefused
  · rw [h.inside_iff buffer hin]
    constructor
    · exact fun hmem => .inl ⟨hin, hmem⟩
    · rintro (⟨-, hmem⟩ | ⟨hpast, -⟩)
      · exact hmem
      · exact absurd hpast (Nat.not_lt.mpr hin)

/-- Two sectors from the second on. -/
def twoSectors : PartitionInfo where
  name := []
  guid := []
  ptypeGuid := []
  startSector := 1
  numSectors := 2
  totalSize := 1024

def sectorBuffer : Buffer (1 * fourBlocks.blockSize) where
  addr := 4096
  nonnull := page_nonnull
  fits := by decide

/-- A sector of sevens, and the same on all of the device. -/
def sevens (disk : UInt8) : Store := ⟨0, List.replicate 512 7, fun _ => disk⟩

theorem sevens_request (disk : UInt8) : Request fourBlocks twoSectors 0 1 (sevens disk) where
  sized := ⟨by decide, by decide⟩
  ref := by decide
  block := by decide
  some := by decide
  inside := by decide
  room := List.length_replicate

theorem slice_const (b : UInt8) (off len : Nat) : slice (fun _ => b) off len = List.replicate len b := by
  rw [slice, List.map_const', List.length_range]

theorem async_as_sync_sevens :
    AsyncAsSync fourBlocks fixedHeap twoSectors 0 1 sectorBuffer (sevens 7) := by
  refine (async_as_sync_iff fourBlocks fixedHeap twoSectors 0 1 sectorBuffer (sevens 7)
    (sevens_request 7)).mpr (.inl ⟨by decide, ?_⟩)
  have hlen : (1 : UInt64).toNat * fourBlocks.B = 512 := by decide
  have hdisk : (sevens 7).disk = fun _ => 7 := rfl
  rw [hdisk, slice_const, hlen, sevens]

/-- On a device of zeros the asynchronous write writes nothing. -/
theorem async_write_reads :
    ¬ AsyncAsSync fourBlocks fixedHeap twoSectors 0 1 sectorBuffer (sevens 0) := by
  have hin : firstSector twoSectors 0 + (1 : UInt64).toNat ≤ fourBlocks.blockCount.toNat := by
    decide
  rw [(sevens_request 0).inside_iff sectorBuffer hin]
  have hlen : (1 : UInt64).toNat * fourBlocks.B = 512 := by decide
  have hdisk : (sevens 0).disk = fun _ => 0 := rfl
  rw [hdisk, slice_const, hlen, sevens, List.replicate_inj]
  rintro ⟨-, hzero | hbyte⟩
  · cases hzero
  · cases hbyte

end TX2SecureUart.Storage
