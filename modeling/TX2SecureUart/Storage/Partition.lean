/-
# `Storage.Partition` — `tegrabl_partition_manager.c`

Reads, writes, seeks and erasures of one open partition, over a device that may
fail in any access and that records what it was asked for.

A signed sum that does not fit 64 bits is undefined, like the shift `1U << k` in
the block layer.
-/
import TX2SecureUart.Storage.Gpt
import TX2SecureUart.Lib.Machine

namespace TX2SecureUart.Storage

open Prog

/-! ## The device -/

inductive AccessKind where
  | read
  | write
  | erase
deriving DecidableEq

/-- What a hook of the driver was asked for. -/
structure Access where
  kind : AccessKind
  block : UInt32
  count : UInt32
deriving DecidableEq

/-- An open partition: `partition->offset`, and the accesses so far. -/
structure PartState where
  offset : UInt64
  log : List Access

abbrev PartM := EStateM Fault PartState

/-- How the device behaves during a call. -/
structure Behaviour where
  fails : Access → Option TegrablErr
  data : Access → List UInt8

def Behaviour.access (b : Behaviour) (a : Access) : PartM Unit := do
  modify fun s => { s with log := s.log ++ [a] }
  if let some e := b.fails a then throw (.err e)

/-- The hooks of the driver of the partition's device. -/
structure Hooks (σ : Type) extends Driver σ where
  erase : UInt32 → UInt32 → EStateM Fault σ Unit
  /-- A transfer of the given kind. -/
  xfer : AccessKind → UInt32 → UInt32 → EStateM Fault σ Unit

def Behaviour.hooks (b : Behaviour) : Hooks PartState where
  readBlock block count := do
    b.access ⟨.read, block, count⟩
    pure (b.data ⟨.read, block, count⟩)
  writeBlock _ block count := b.access ⟨.write, block, count⟩
  erase block count := b.access ⟨.erase, block, count⟩
  xfer kind block count := b.access ⟨kind, block, count⟩

/-! ## Erasing and transfers of blocks -/

section

variable {σ : Type} (drv : Hooks σ) (dev : Bdev)

/-- The range check that erasures and transfers share. -/
def pastEnd (block count : UInt32) : Bool := block > dev.blockCount || block + count > dev.blockCount

def tegrablBlockdevErase (block count : UInt32) : EStateM Fault σ Unit := do
  if count = 0 then fail .invalid 14
  else if pastEnd dev block count then fail .overflow 4
  else if dev.ref = 0 then fail .invalid 15
  else underModule .blockDev (drv.erase block count)

def tegrablBlockdevXfer (kind : AccessKind) (block count : UInt32) : EStateM Fault σ Unit := do
  if pastEnd dev block count then fail .overflow 5
  else if dev.ref = 0 then fail .invalid 23
  else underModule .blockDev (drv.xfer kind block count)

end

/-! ## The calls -/

variable (b : Behaviour) (dev : Bdev) (heap : Heap) (info : PartitionInfo)

def partFail {α : Type} (reason : ErrReason) (aux : Nat) : PartM α :=
  throw (.err (tegrablError .partitionManager reason aux))

/-- Where a partition is on the device, in bytes. -/
def PartitionInfo.base (info : PartitionInfo) (dev : Bdev) : UInt64 :=
  info.startSector <<< dev.blockSizeLog2.toUInt64

def tegrablPartitionErase : PartM Unit :=
  underModule .partitionManager (tegrablBlockdevErase b.hooks dev info.startSector.toUInt32
    info.numSectors.toUInt32)

/-- `partition->offset += num_bytes` after a call, whether or not it failed. -/
def thenMove (numBytes : UInt64) (call : PartM Unit) : PartM Unit := fun s =>
  match call s with
  | .ok _ t => .ok () { t with offset := t.offset + numBytes }
  | .error (.err e) t => .error (.err e) { t with offset := t.offset + numBytes }
  | .error .undefined t => .error .undefined t

def tegrablPartitionWrite (buf : UInt64) (data : List UInt8) (numBytes : UInt64) : PartM Unit := do
  if buf = 0 || numBytes = 0 then partFail .invalid 2
  else
    let s ← get
    if info.totalSize < numBytes + s.offset then partFail .overflow 0
    else
      let offset := s.offset + info.base dev
      thenMove numBytes (underModule .partitionManager
        (tegrablBlockdevWrite b.hooks.toDriver dev heap buf data offset numBytes))

def tegrablPartitionRead (buf numBytes : UInt64) : PartM (List UInt8) := do
  if buf = 0 || numBytes = 0 then partFail .invalid 4
  else
    let s ← get
    if info.totalSize < numBytes + s.offset then partFail .overflow 1
    else
      let offset := s.offset + info.base dev
      let bytes ← underModule .partitionManager
        (tegrablBlockdevRead b.hooks.toDriver dev heap buf offset numBytes)
      modify fun s => { s with offset := s.offset + numBytes }
      pure bytes

/-- Where a seek counts from: `TEGRABL_PARTITION_SEEK_SET`, `_CUR` and `_END`. -/
def seekBase (info : PartitionInfo) (s : PartState) (origin : UInt32) : Option Int :=
  if origin = 0 then some 0
  else if origin = 1 then some s.offset.toInt64.toInt
  else if origin = 2 then some info.totalSize.toInt64.toInt
  else none

/-- The sums that an `int64_t` holds. -/
def FitsInt64 (x : Int) : Prop := -2 ^ 63 ≤ x ∧ x < 2 ^ 63

instance (x : Int) : Decidable (FitsInt64 x) := inferInstanceAs (Decidable (_ ∧ _))

def tegrablPartitionSeek (offset : Int64) (origin : UInt32) : PartM Unit := do
  let s ← get
  match seekBase info s origin with
  | none => partFail .invalid 6
  | some base =>
      let newOffset := base + offset.toInt
      if ¬ FitsInt64 newOffset then throw .undefined
      else if newOffset < 0 then partFail .underflow 0
      else if info.totalSize < UInt64.ofNat newOffset.toNat then partFail .overflow 2
      else set { s with offset := UInt64.ofNat newOffset.toNat }

/-- `tegrabl_partition_async_read` and `_write` differ in the numbers of their
errors: both transfers are `TEGRABL_BLOCKDEV_READ`. -/
def partitionAsync (aux : Nat) (buf startSector numSectors : UInt64) : PartM Unit := do
  if buf = 0 || numSectors = 0 then partFail .invalid aux
  else if info.numSectors < startSector + numSectors then partFail .invalid (aux + 2)
  else
    let startBlock := (info.startSector + startSector).toUInt32
    tegrablBlockdevXfer b.hooks dev .read startBlock numSectors.toUInt32

def tegrablPartitionAsyncRead (buf startSector numSectors : UInt64) : PartM Unit :=
  partitionAsync b dev info 7 buf startSector numSectors

def tegrablPartitionAsyncWrite (buf startSector numSectors : UInt64) : PartM Unit :=
  partitionAsync b dev info 11 buf startSector numSectors

/-! ## The system -/

inductive PartAct where
  | read (buf numBytes : UInt64)
  | write (buf : UInt64) (data : List UInt8) (numBytes : UInt64)
  | seek (offset : Int64) (origin : UInt32)
  | erase
  | asyncRead (buf startSector numSectors : UInt64)
  | asyncWrite (buf startSector numSectors : UInt64)

def PartAct.run : PartAct → PartM Unit
  | .read buf n => do let _ ← tegrablPartitionRead b dev heap info buf n
  | .write buf data n => tegrablPartitionWrite b dev heap info buf data n
  | .seek offset origin => tegrablPartitionSeek info offset origin
  | .erase => tegrablPartitionErase b dev info
  | .asyncRead buf start n => tegrablPartitionAsyncRead b dev info buf start n
  | .asyncWrite buf start n => tegrablPartitionAsyncWrite b dev info buf start n

/-- A call as its caller sees it: the error is what it returns. -/
def PartAct.call (a : PartAct) : PartM (Option TegrablErr) := fun s =>
  match a.run b dev heap info s with
  | .ok _ t => .ok none t
  | .error (.err e) t => .ok (some e) t
  | .error .undefined t => .error .undefined t

/-- A buffer that is not `NULL` is as long as it is said to be. -/
def PartAct.Allowed : PartAct → Prop
  | .read buf n => buf.toNat + n.toNat ≤ 2 ^ 64
  | .write buf data n => buf.toNat + n.toNat ≤ 2 ^ 64 ∧ data.length = n.toNat
  | _ => True

/-- The partition just opened, and any sequence of calls, on a device that
behaves in each as it likes. -/
def partition : Machine Fault PartState (PartAct × Behaviour) where
  init := ⟨0, []⟩
  run a := do let _ ← a.1.call a.2 dev heap info
  Enabled _ a := a.1.Allowed

end TX2SecureUart.Storage
