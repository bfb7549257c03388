/-
# `Bcache.Cache` — the block cache of the boot loader

`bcache.c`: a fixed number of blocks over a block device, each in one of two
intrusive lists.  `free_list` has the blocks that were never used, `lru_list`
the others, the longest unused first.  A block that is looked up goes to the
tail; a block that is needed is the first one nobody holds, written back if it
is dirty.

The device answers every transfer from `replies`: done, or failed, with
anything left in the bytes that were to be filled.  `LK_DEBUGLEVEL` is 2 in the
build, so a failed `DEBUG_ASSERT` panics.  The counters of `bcache_dump` are
left out, and `malloc` succeeds.
-/
import TX2SecureUart.Lib.Prog
import TX2SecureUart.Lib.ListNode
import TX2SecureUart.Lib.ByteStore

namespace TX2SecureUart.Bcache

open Prog ListNode ByteStore

/-- The fields of `struct bcache` that only `bcache_create` sets. -/
structure Geometry where
  blockSize : UInt64
  count : Nat
  fsOffset : UInt64

/-- A list head of the cache, or the node of a block. -/
inductive Node where
  | freeList
  | lruList
  | block (i : Nat)
deriving DecidableEq

/-- `struct bcache_block`, its node apart; `data` are the bytes at `ptr`. -/
structure Block where
  blocknum : UInt32
  refCount : Int
  isDirty : Bool
  data : List UInt8

inductive Reply where
  | done
  | failed (left : Nat → UInt8)

inductive Stop where
  /-- A `DEBUG_ASSERT` that panics. -/
  | debugAssert
  /-- A list that leads to NULL or to a node that is no block, or does not end. -/
  | stray
deriving DecidableEq

structure Cache where
  links : Links Node
  blocks : Nat → Block
  disk : Nat → UInt8
  replies : Nat → Reply

abbrev BcacheM := EStateM Stop Cache

/-- `ERR_GENERIC` -/
def errGeneric : Int := -1

/-! ## The device and the lists -/

def tegrablBlockdevRead (off : UInt64) (len : Nat) (i : Nat) : BcacheM Bool := do
  let s ← get
  match s.replies 0 with
  | .done =>
      set { s with
        blocks := Function.update s.blocks i { s.blocks i with data := slice s.disk off.toNat len }
        replies := fun k => s.replies (k + 1) }
      pure true
  | .failed left =>
      set { s with
        blocks := Function.update s.blocks i { s.blocks i with data := slice left 0 len }
        replies := fun k => s.replies (k + 1) }
      pure false

def tegrablBlockdevWrite (data : List UInt8) (off : UInt64) : BcacheM Bool := do
  let s ← get
  match s.replies 0 with
  | .done =>
      set { s with disk := patch s.disk off.toNat data, replies := fun k => s.replies (k + 1) }
      pure true
  | .failed left =>
      set { s with
        disk := patch s.disk off.toNat (slice left 0 data.length)
        replies := fun k => s.replies (k + 1) }
      pure false

/-- An operation on the lists; one that follows NULL stops. -/
def onLinks (f : Links Node → Option (Links Node)) : BcacheM Unit := do
  match f (← get).links with
  | some L => modify fun s => { s with links := L }
  | none => throw .stray

def setBlock (i : Nat) (f : Block → Block) : BcacheM Unit :=
  modify fun s => { s with blocks := Function.update s.blocks i (f (s.blocks i)) }

/-- What a test reads of a node. -/
def Cache.entry (s : Cache) (p : Block → Bool) : Node → Option Bool
  | .block i => some (p (s.blocks i))
  | _ => none

/-- `list_for_every_entry(&cache->lru_list, ..)`, up to the first block that meets
`p`.  A walk over more nodes than there are does not end. -/
def Cache.search (g : Geometry) (s : Cache) (p : Block → Bool) : Option (Option Node) :=
  s.links.find .lruList (s.entry p) (g.count + 3) (s.links.next .lruList)

def searchLru (g : Geometry) (p : Block → Bool) : BcacheM (Option Nat) := do
  match (← get).search g p with
  | some none => pure none
  | some (some (.block i)) => pure (some i)
  | _ => throw .stray

/-! ## The operations -/

variable (g : Geometry)

/-- `bcache_create` over a device; `blocks` is what `malloc` left in the blocks. -/
def bcacheCreate (blocks : Nat → Block) (disk : Nat → UInt8) (replies : Nat → Reply) :
    Option Cache := do
  let clear : Links Node := ⟨fun _ => none, fun _ => none⟩
  let links := (clear.listInitialize .freeList).listInitialize .lruList
  let links ← (List.range g.count).foldlM (fun L i => L.listAddHead .freeList (.block i)) links
  return { links, disk, replies
           blocks := fun i => { blocks i with refCount := 0, isDirty := false } }

def flushBlock (i : Nat) : BcacheM Int := do
  let block := (← get).blocks i
  let done ← tegrablBlockdevWrite block.data (block.blocknum.toUInt64 * g.blockSize)
  if done then
    setBlock i fun b => { b with isDirty := false }
    pure 0
  else
    pure errGeneric

/-- Takes a block out of the lru list and adds it at the tail. -/
def moveToTail (i : Nat) : BcacheM (Option Nat) := do
  onLinks fun L => L.listDelete (.block i)
  onLinks fun L => L.listAddTail .lruList (.block i)
  pure (some i)

/-- The block with this number, moved to the tail. -/
def findBlock (blocknum : UInt32) : BcacheM (Option Nat) := do
  match ← searchLru g fun b => b.blocknum = blocknum with
  | some i => moveToTail i
  | none => pure none

def listRemoveHeadType : BcacheM (Option Nat) := do
  match (← get).links.listRemoveHead .freeList with
  | some (some (.block i), L) =>
      modify fun s => { s with links := L }
      pure (some i)
  | some (none, _) => pure none
  | _ => throw .stray

/-- The first block on the free list, else the first one nobody holds. -/
def allocBlock : BcacheM (Option Nat) := do
  match ← listRemoveHeadType with
  | some i =>
      setBlock i fun b => { b with refCount := 0 }
      onLinks fun L => L.listAddTail .lruList (.block i)
      pure (some i)
  | none =>
      match ← searchLru g fun b => b.refCount = 0 with
      | some i =>
          if ((← get).blocks i).isDirty then
            let err ← flushBlock g i
            if err ≠ 0 then pure none else moveToTail i
          else moveToTail i
      | none => pure none

/-- `find_or_fill_block`, from the miss on. -/
def fillBlock (blocknum : UInt32) : BcacheM (Option Nat) := do
  match ← allocBlock g with
  | none => throw .debugAssert
  | some i =>
      setBlock i fun b => { b with blocknum }
      let done ← tegrablBlockdevRead (g.fsOffset + blocknum.toUInt64 * g.blockSize)
        g.blockSize.toNat i
      if done then
        pure (some i)
      else
        -- the block is still in the lru list
        onLinks fun L => L.listAddTail .freeList (.block i)
        pure none

def findOrFillBlock (blocknum : UInt32) : BcacheM (Option Nat) := do
  match ← findBlock g blocknum with
  | some i => pure (some i)
  | none => fillBlock g blocknum

/-- Returns 0 and the bytes copied to `buf`, or −1. -/
def bcacheReadBlock (blocknum : UInt32) : BcacheM (Int × Option (List UInt8)) := do
  match ← findOrFillBlock g blocknum with
  | none => pure (-1, none)
  | some i => pure (0, some ((← get).blocks i).data)

/-- Returns 0 and the block that `*ptr` points into, or −1. -/
def bcacheGetBlock (blocknum : UInt32) : BcacheM (Int × Option Nat) := do
  match ← findOrFillBlock g blocknum with
  | none => pure (-1, none)
  | some i =>
      setBlock i fun b => { b with refCount := b.refCount + 1 }
      pure (0, some i)

def bcachePutBlock (blocknum : UInt32) : BcacheM Int := do
  match ← findBlock g blocknum with
  | none => throw .debugAssert
  | some i =>
      if ((← get).blocks i).refCount > 0 then
        setBlock i fun b => { b with refCount := b.refCount - 1 }
        pure 0
      else
        throw .debugAssert

def bcacheMarkBlockDirty (blocknum : UInt32) : BcacheM Int := do
  match ← findBlock g blocknum with
  | none => pure (-1)
  | some i =>
      setBlock i fun b => { b with isDirty := true }
      pure 0

/-- `memset(block->ptr, 0, cache->block_size)`, and the block is dirty. -/
def zeroData (i : Nat) : BcacheM Int := do
  setBlock i fun b => { b with data := List.replicate g.blockSize.toNat 0, isDirty := true }
  pure 0

def bcacheZeroBlock (blocknum : UInt32) : BcacheM Int := do
  match ← findBlock g blocknum with
  | some i => zeroData g i
  | none =>
      match ← allocBlock g with
      | none => pure (-1)
      | some i =>
          setBlock i fun b => { b with blocknum }
          zeroData g i

/-- The loop of `bcache_flush`, from the node `cur` on. -/
def flushFrom : Nat → Option Node → BcacheM Int
  | fuel + 1, some (.block i) => do
      if ((← get).blocks i).isDirty then
        let err ← flushBlock g i
        if err ≠ 0 then pure err
        else flushFrom fuel ((← get).links.next (.block i))
      else flushFrom fuel ((← get).links.next (.block i))
  | _ + 1, some .lruList => pure 0
  | _, _ => throw .stray

def bcacheFlush : BcacheM Int := do
  flushFrom g (g.count + 3) ((← get).links.next .lruList)

end TX2SecureUart.Bcache
