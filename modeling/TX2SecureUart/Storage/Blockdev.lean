/-
# `Storage.Blockdev` — reads and writes of a block device

`tegrabl_blockdev.c` with the default hooks: a range of bytes is moved as the end
of a first block, whole blocks, and the start of a last block, over one scratch
block.  The driver is an exact copy of blocks, and the allocator gives addresses
that are multiples of 8.

A `Bdev` is what `tegrabl_blockdev_initialize_bdev` and a driver make: `size` is
`block_count` blocks, and `buf_align_size` is one that
`TEGRABL_BLOCKDEV_MEM_ALIGN_SIZE` satisfies.
-/
import TX2SecureUart.Storage.Err
import TX2SecureUart.Lib.ByteStore

namespace TX2SecureUart.Storage

open Prog ByteStore

structure Bdev where
  ref : UInt32
  size : UInt64
  blockSizeLog2 : UInt32
  blockCount : UInt32
  bufAlignSize : UInt32
  log2_ge : 9 ≤ blockSizeLog2.toNat
  size_eq : size.toNat = blockCount.toNat * 2 ^ blockSizeLog2.toNat
  align_dvd : bufAlignSize.toNat ∣ 8

/-- Where `tegrabl_alloc_align` puts a buffer of so many bytes. -/
structure Heap where
  addr : UInt64 → UInt64
  nonnull : ∀ n, addr n ≠ 0
  aligned : ∀ n, 8 ∣ (addr n).toNat

theorem page_nonnull : (4096 : UInt64) ≠ 0 := by decide

theorem page_aligned : 8 ∣ (4096 : UInt64).toNat := by decide

theorem sector_log2_ge : 9 ≤ (9 : UInt32).toNat := by decide

theorem word_dvd : (4 : UInt32).toNat ∣ 8 := by decide

/-- The caller's buffer of `len` bytes. -/
structure Buffer (len : UInt64) where
  addr : UInt64
  nonnull : addr ≠ 0
  fits : addr.toNat + len.toNat ≤ 2 ^ 64

/-- The hooks of a driver, over the state that they work on. -/
structure Driver (σ : Type) where
  readBlock : UInt32 → UInt32 → EStateM Fault σ (List UInt8)
  /-- The bytes are those of the blocks. -/
  writeBlock : List UInt8 → UInt32 → UInt32 → EStateM Fault σ Unit

abbrev Disk := Nat → UInt8

abbrev DiskM := EStateM Fault Disk

def fail {σ α : Type} (reason : ErrReason) (aux : Nat) : EStateM Fault σ α :=
  throw (.err (tegrablError .blockDev reason aux))

/-- `MOD_LOG2` -/
def modLog2 (n : UInt64) (logd : UInt32) : UInt64 := n &&& ((1 <<< logd.toUInt64) - 1)

/-- `DIV_FLOOR_LOG2` -/
def divFloorLog2 (n : UInt64) (logd : UInt32) : UInt64 := n >>> logd.toUInt64

/-- `MOD_POW2` of an address. -/
def modPow2 (n : UInt64) (d : UInt32) : UInt64 := n &&& (d - 1).toUInt64

/-- `TEGRABL_BLOCKDEV_BLOCK_SIZE` -/
def Bdev.blockSize (dev : Bdev) : UInt64 := 1 <<< dev.blockSizeLog2.toUInt64

/-- A driver that copies blocks exactly. -/
def exactDriver (dev : Bdev) : Driver Disk where
  readBlock block count := do
    let disk ← get
    pure (slice disk (block.toNat * 2 ^ dev.blockSizeLog2.toNat)
      (count.toNat * 2 ^ dev.blockSizeLog2.toNat))
  writeBlock bytes block _ :=
    modify fun disk => patch disk (block.toNat * 2 ^ dev.blockSizeLog2.toNat) bytes

section

variable {σ : Type} (drv : Driver σ) (dev : Bdev) (heap : Heap)

def bufferAligned (buf : UInt64) : Bool := modPow2 buf dev.bufAlignSize = 0

/-! ## Whole blocks -/

def tegrablBlockdevReadBlock (buf : UInt64) (block count : UInt32) : EStateM Fault σ (List UInt8) := do
  if count = 0 then fail .invalid 8
  else if !bufferAligned dev buf then fail .invalid 25
  else if dev.ref = 0 then fail .invalid 9
  else if block > dev.blockCount || block + count > dev.blockCount then fail .overflow 1
  else underModule .blockDev (drv.readBlock block count)

/-- `data` are the bytes at `buf`. -/
def tegrablBlockdevWriteBlock (buf : UInt64) (data : List UInt8) (block count : UInt32) :
    EStateM Fault σ Unit := do
  if count = 0 || buf = 0 then fail .invalid 12
  else if !bufferAligned dev buf then fail .invalid 26
  else if block > dev.blockCount || block + count > dev.blockCount then fail .overflow 3
  else if dev.ref = 0 then fail .invalid 13
  else
    let bytes := data.take (count.toNat * 2 ^ dev.blockSizeLog2.toNat)
    underModule .blockDev (drv.writeBlock bytes block count)

/-! ## The pieces of a range -/

/-- What is left of a range: where in the buffer, how much, and the next block. -/
structure Rest where
  buf : UInt64
  len : UInt64
  block : UInt32

def Rest.skip (r : Rest) (bytes : UInt64) (blocks : UInt32) : Rest :=
  ⟨r.buf + bytes, r.len - bytes, r.block + blocks⟩

/-- The scratch block, for a range that does not start or end with a block. -/
def scratch (offset len : UInt64) : Option UInt64 :=
  if modLog2 offset dev.blockSizeLog2 ≠ 0 || modLog2 len dev.blockSizeLog2 ≠ 0 then
    some (heap.addr dev.blockSize)
  else none

/-- How much of the first block a range takes. -/
def tocopy (offset len : UInt64) : UInt64 :=
  if dev.blockSize - modLog2 offset dev.blockSizeLog2 < len then
    dev.blockSize - modLog2 offset dev.blockSizeLog2
  else len

/-- `1U << dev->block_size_log2` -/
def oneBlock : EStateM Fault σ UInt64 :=
  if dev.blockSizeLog2 < 32 then pure ((1 : UInt32) <<< dev.blockSizeLog2).toUInt64
  else throw .undefined

/-! ## Reading -/

def readHead (partialBuf : Option UInt64) (offset : UInt64) (r : Rest) :
    EStateM Fault σ (List UInt8 × Rest) := do
  if modLog2 offset dev.blockSizeLog2 ≠ 0 then
    let bytes ← tegrablBlockdevReadBlock drv dev (partialBuf.getD 0) r.block 1
    let blockOffset := modLog2 offset dev.blockSizeLog2
    let n := tocopy dev offset r.len
    pure ((bytes.drop blockOffset.toNat).take n.toNat, r.skip n 1)
  else pure ([], r)

def readMiddle (r : Rest) : EStateM Fault σ (List UInt8 × Rest) := do
  let one ← oneBlock dev
  if r.len ≥ one then
    let blockCount := divFloorLog2 r.len dev.blockSizeLog2
    let bytes := blockCount <<< dev.blockSizeLog2.toUInt64
    if bytes > r.len then fail .invalid 1
    else if !bufferAligned dev r.buf then
      let data ← tegrablBlockdevReadBlock drv dev (heap.addr (blockCount * dev.blockSize)) r.block
        blockCount.toUInt32
      pure (data.take bytes.toNat, r.skip bytes blockCount.toUInt32)
    else
      let data ← tegrablBlockdevReadBlock drv dev r.buf r.block blockCount.toUInt32
      pure (data, r.skip bytes blockCount.toUInt32)
  else pure ([], r)

def readTail (partialBuf : Option UInt64) (r : Rest) : EStateM Fault σ (List UInt8) := do
  if r.len > 0 then
    match partialBuf with
    | none => fail .noMemory 0
    | some scratch =>
        let bytes ← tegrablBlockdevReadBlock drv dev scratch r.block 1
        pure (bytes.take r.len.toNat)
  else pure []

/-- Returns the bytes that end up in the buffer. -/
def tegrablBlockdevDefaultRead (buffer offset len : UInt64) : EStateM Fault σ (List UInt8) := do
  if buffer = 0 then fail .invalid 0
  else
    let partialBuf := scratch dev heap offset len
    let block := (divFloorLog2 offset dev.blockSizeLog2).toUInt32
    let (head, r) ← readHead drv dev partialBuf offset ⟨buffer, len, block⟩
    let (middle, r) ← readMiddle drv dev heap r
    let tail ← readTail drv dev partialBuf r
    pure (head ++ middle ++ tail)

def tegrablBlockdevRead (buf offset len : UInt64) : EStateM Fault σ (List UInt8) := do
  if len = 0 then fail .invalid 6
  else if dev.ref = 0 then fail .invalid 7
  else if offset ≥ dev.size || offset + len > dev.size then fail .overflow 0
  else tegrablBlockdevDefaultRead drv dev heap buf offset len

/-! ## Writing -/

/-- The scratch block with `data` copied into it. -/
def overwrite (block : List UInt8) (off : Nat) (data : List UInt8) : List UInt8 :=
  block.take off ++ data ++ block.drop (off + data.length)

/-- `data` are the bytes at `r.buf`; returns the ones after the first block. -/
def writeHead (partialBuf : Option UInt64) (offset : UInt64) (data : List UInt8) (r : Rest) :
    EStateM Fault σ (List UInt8 × Rest) := do
  if modLog2 offset dev.blockSizeLog2 ≠ 0 then
    let bytes ← tegrablBlockdevReadBlock drv dev (partialBuf.getD 0) r.block 1
    let blockOffset := modLog2 offset dev.blockSizeLog2
    let n := tocopy dev offset r.len
    tegrablBlockdevWriteBlock drv dev (partialBuf.getD 0)
      (overwrite bytes blockOffset.toNat (data.take n.toNat)) r.block 1
    pure (data.drop n.toNat, r.skip n 1)
  else pure (data, r)

def writeMiddle (data : List UInt8) (r : Rest) : EStateM Fault σ (List UInt8 × Rest) := do
  let one ← oneBlock dev
  if r.len ≥ one then
    let blockCount := divFloorLog2 r.len dev.blockSizeLog2
    let bytes := blockCount <<< dev.blockSizeLog2.toUInt64
    if bytes > r.len then fail .invalid 3
    else
      if !bufferAligned dev r.buf then
        tegrablBlockdevWriteBlock drv dev (heap.addr (blockCount * dev.blockSize))
          (data.take bytes.toNat) r.block blockCount.toUInt32
      else
        tegrablBlockdevWriteBlock drv dev r.buf data r.block blockCount.toUInt32
      pure (data.drop bytes.toNat, r.skip bytes blockCount.toUInt32)
  else pure (data, r)

def writeTail (partialBuf : Option UInt64) (data : List UInt8) (r : Rest) : EStateM Fault σ Unit := do
  if r.len > 0 then
    match partialBuf with
    | none => fail .noMemory 0
    | some scratch =>
        let bytes ← tegrablBlockdevReadBlock drv dev scratch r.block 1
        tegrablBlockdevWriteBlock drv dev scratch (overwrite bytes 0 (data.take r.len.toNat)) r.block 1
  else pure ()

def tegrablBlockdevDefaultWrite (buffer : UInt64) (data : List UInt8) (offset len : UInt64) :
    EStateM Fault σ Unit := do
  if buffer = 0 then fail .invalid 2
  else
    let partialBuf := scratch dev heap offset len
    let block := (divFloorLog2 offset dev.blockSizeLog2).toUInt32
    let (data, r) ← writeHead drv dev partialBuf offset data ⟨buffer, len, block⟩
    let (data, r) ← writeMiddle drv dev heap data r
    writeTail drv dev partialBuf data r

def tegrablBlockdevWrite (buf : UInt64) (data : List UInt8) (offset len : UInt64) : EStateM Fault σ Unit := do
  if len = 0 then fail .invalid 10
  else if dev.ref = 0 then fail .invalid 11
  else if offset ≥ dev.size || offset + len > dev.size then fail .overflow 2
  else tegrablBlockdevDefaultWrite drv dev heap buf data offset len

end

end TX2SecureUart.Storage
