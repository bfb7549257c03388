/-
# `Storage.Gpt` — `tegrabl_gpt.c`

A header says where the table is and what its CRC is; `tegrabl_gpt_publish` turns
the entries of the table into partitions.  Every attempt to read has a zeroed
buffer of its own: `*buf` is set only by the one that succeeds.
-/
import TX2SecureUart.Storage.Blockdev
import TX2SecureUart.Storage.Crc32
import TX2SecureUart.Lib.LeBytes

namespace TX2SecureUart.Storage

open Prog ByteStore

/-! ## What is on the device -/

/-- The bytes of a field. -/
def field (b : List UInt8) (off n : Nat) : List UInt8 := (b.drop off).take n

def le16 (b : List UInt8) (off : Nat) : UInt16 := UInt16.ofNat (leNat (field b off 2))

def le32 (b : List UInt8) (off : Nat) : UInt32 := UInt32.ofNat (leNat (field b off 4))

def le64 (b : List UInt8) (off : Nat) : UInt64 := UInt64.ofNat (leNat (field b off 8))

/-- `struct tegrabl_gpt_header` -/
structure GptHeader where
  signature : List UInt8
  hdrSize : UInt32
  hdrCrc32 : UInt32
  firstLba : UInt64
  lastLba : UInt64
  tableStartLba : UInt64
  numEntries : UInt32
  entrySize : UInt32
  tableCrc32 : UInt32

def gptHeader (b : List UInt8) : GptHeader where
  signature := field b 0 8
  hdrSize := le32 b 12
  hdrCrc32 := le32 b 16
  firstLba := le64 b 40
  lastLba := le64 b 48
  tableStartLba := le64 b 72
  numEntries := le32 b 80
  entrySize := le32 b 84
  tableCrc32 := le32 b 88

def gptMaxPartitionName : Nat := 36

def gptMaxPartitionEntries : Nat := 128

/-- `struct tegrabl_gpt_entry` -/
structure GptEntry where
  ptypeGuid : List UInt8
  uniqueGuid : List UInt8
  firstLba : UInt64
  lastLba : UInt64
  pname : List UInt16

def gptEntry (b : List UInt8) : GptEntry where
  ptypeGuid := field b 0 16
  uniqueGuid := field b 16 16
  firstLba := le64 b 32
  lastLba := le64 b 40
  pname := (List.range gptMaxPartitionName).map fun i => le16 b (56 + 2 * i)

/-- `struct tegrabl_partition_info`; the GUIDs are the characters of the strings. -/
structure PartitionInfo where
  name : List UInt8
  guid : List UInt8
  ptypeGuid : List UInt8
  startSector : UInt64
  numSectors : UInt64
  totalSize : UInt64

/-! ## Reading and validating -/

/-- `"EFI PART"` -/
def efiPart : List UInt8 := [0x45, 0x46, 0x49, 0x20, 0x50, 0x41, 0x52, 0x54]

/-- The header with its CRC field cleared. -/
def clearCrc (b : List UInt8) : List UInt8 := b.take 16 ++ [0, 0, 0, 0] ++ b.drop 20

def gptFail {α : Type} (reason : ErrReason) (aux : Nat) : DiskM α :=
  throw (.err (tegrablError .gpt reason aux))

def tegrablGptValidateHeader (buf : List UInt8) (totalBlocks : UInt64) : DiskM Unit := do
  let hdr := gptHeader buf
  if totalBlocks = 0 then gptFail .invalid 0
  else if hdr.signature ≠ efiPart then gptFail .verifyFailed 0
  else if hdr.hdrSize ≠ 0x5C then gptFail .invalid 1
  else if hdr.hdrCrc32 ≠ tegrablUtilsCrc32 0 ((clearCrc buf).take hdr.hdrSize.toNat) then
    gptFail .verifyFailed 1
  else if hdr.firstLba ≥ totalBlocks || hdr.lastLba ≥ totalBlocks then gptFail .invalid 2
  else pure ()

/-- `DIV_CEIL_LOG2` -/
def divCeilLog2 (n : UInt64) (logd : UInt32) : UInt64 :=
  (n + (1 <<< logd.toUInt64) - 1) >>> logd.toUInt64

/-- The part of the buffer that is for the table. -/
def gptTableArea : Nat := 128 * gptMaxPartitionEntries

variable (dev : Bdev) (heap : Heap)

/-- The second half of `tegrabl_gpt_read_validate`: returns the table part of the
buffer.  A table whose blocks are longer than that part is written past its end. -/
def gptReadTable (buffer : UInt64) (hdr : GptHeader) : DiskM (List UInt8) := do
  if hdr.numEntries.toNat > gptMaxPartitionEntries then gptFail .tooLarge 1
  else if hdr.entrySize.toNat > 128 then gptFail .tooLarge 2
  else
    let tableSize := hdr.numEntries * hdr.entrySize
    let entries ← underModule .gpt (tegrablBlockdevReadBlock (exactDriver dev) dev (buffer + dev.blockSize)
      hdr.tableStartLba.toUInt32 (divCeilLog2 tableSize.toUInt64 dev.blockSizeLog2).toUInt32)
    if entries.length > gptTableArea then throw .undefined
    else if hdr.tableCrc32 ≠ tegrablUtilsCrc32 0 (entries.take tableSize.toNat) then
      gptFail .verifyFailed 2
    else pure (entries ++ List.replicate (gptTableArea - entries.length) 0)

def tegrablGptReadValidate (offset : UInt64) : DiskM (List UInt8) := do
  let size := (UInt64.ofNat gptTableArea + dev.blockSize).toUInt32
  let buffer := heap.addr size.toUInt64
  let hdrBlock ← underModule .gpt (tegrablBlockdevReadBlock (exactDriver dev) dev buffer
    (divCeilLog2 offset dev.blockSizeLog2).toUInt32 1)
  tegrablGptValidateHeader hdrBlock dev.blockCount.toUInt64
  gptReadTable dev buffer (gptHeader hdrBlock)

/-- The attempts one after the other, until one succeeds. -/
def gptReadFirst : List UInt64 → DiskM (List UInt8)
  | [] => gptFail .notFound 0
  | o :: os => fun disk =>
      match tegrablGptReadValidate dev heap o disk with
      | .error (.err _) t => gptReadFirst os t
      | r => r

def tegrablGptRead (offset : UInt64) : DiskM (List UInt8) :=
  let blockSize := dev.blockSize.toUInt32.toUInt64
  if offset > 0 then gptReadFirst dev heap [offset]
  else gptReadFirst dev heap [blockSize, dev.size - blockSize]

/-! ## Publishing -/

def hexDigit (n : UInt8) : UInt8 := if n > 9 then 0x61 + n - 10 else 0x30 + n

def setHex (guid : UInt8) : List UInt8 := [hexDigit (guid >>> 4), hexDigit (guid &&& 0x0F)]

/-- The order of the bytes in the string. -/
def guidToStr (guid : List UInt8) : List UInt8 :=
  let hex := fun (is : List Nat) => is.flatMap fun i => setHex (guid.getD i 0)
  hex [3, 2, 1, 0] ++ [0x2D] ++ hex [5, 4] ++ [0x2D] ++ hex [7, 6] ++ [0x2D] ++ hex [8, 9] ++ [0x2D]
    ++ hex [10, 11, 12, 13, 14, 15]

/-- One partition, from its entry. -/
def publishEntry (e : GptEntry) : PartitionInfo where
  name := e.pname.map fun u => (u &&& 0xFF).toUInt8
  guid := guidToStr e.uniqueGuid
  ptypeGuid := guidToStr e.ptypeGuid
  startSector := e.firstLba
  numSectors := e.lastLba - e.firstLba + 1
  totalSize := (e.lastLba - e.firstLba + 1) <<< dev.blockSizeLog2.toUInt64

/-- The second loop: fills the array, and stops when it is full. -/
def publishLoop (numEntries : Nat) : List PartitionInfo → List GptEntry → List PartitionInfo
  | done, [] => done
  | done, e :: es =>
      if e.lastLba ≤ e.firstLba then publishLoop numEntries done es
      else if (done ++ [publishEntry dev e]).length = numEntries then done ++ [publishEntry dev e]
      else publishLoop numEntries (done ++ [publishEntry dev e]) es

/-- `entries[k]` -/
def entryAt (area : List UInt8) (k : Nat) : GptEntry := gptEntry (field area (128 * k) 128)

/-- An entry that both loops count. -/
def GptEntry.taken (e : GptEntry) : Bool := decide (e.lastLba > e.firstLba)

/-- The partitions in a buffer; `tegrabl_malloc` of no bytes is `NULL`. -/
def gptPublishArea (area : List UInt8) : DiskM (List PartitionInfo) :=
  let entries := (List.range gptMaxPartitionEntries).map (entryAt area)
  let numEntries := entries.countP GptEntry.taken
  if numEntries = 0 then gptFail .noMemory 1
  else pure (publishLoop dev numEntries [] entries)

def tegrablGptPublish (offset : UInt64) : DiskM (List PartitionInfo) := do
  let area ← tegrablGptRead dev heap offset
  gptPublishArea dev area

end TX2SecureUart.Storage
