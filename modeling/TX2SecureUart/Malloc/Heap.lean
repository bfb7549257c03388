/-
# `Malloc.Heap` — the heaps of the boot loader

`tegrabl_malloc.c`.  A heap is a range of memory.  Its free blocks are linked to each other through
headers in the blocks themselves, in the order of their addresses; a block that is given away has a
header before the area of the caller.

Memory is a store of bytes, and all that is in a header is read from it.  A program stops where
the source hangs, and where an assertion fails.  A loop goes along the free list at most once, so
it has as much fuel as the heap has bytes.
-/
import TX2SecureUart.Lib.Prog
import TX2SecureUart.Lib.WordStore

namespace TX2SecureUart.Malloc

open Prog ByteStore WordStore

/-! ## State -/

/-- The types of heaps -/
inductive HeapType where
  | default
  | dma
deriving DecidableEq

/-- `struct tegrabl_heap_info` -/
structure HeapInfo where
  maxSize : Nat
  freeSize : Nat
  start : Nat
  /-- `end` -/
  stop : Nat
  freeList : Nat

structure Heaps where
  mem : Nat → UInt8
  heapInfo : HeapType → HeapInfo

inductive Stop where
  /-- `tegrabl_hang` -/
  | hang
  /-- `TEGRABL_ASSERT` -/
  | assertFailed
  /-- The loop has not come to its end. -/
  | looping
deriving DecidableEq

abbrev HeapM := EStateM Stop Heaps

/-- `FREE_MAGIC` -/
def freeMagic : Nat := 0xDEEFBEEE

/-- `ALLOC_MAGIC` -/
def allocMagic : Nat := 0xDEADBEEE

/-- `sizeof(tegrabl_heap_free_block_t)`, and `MIN_SIZE` -/
def minSize : Nat := 32

/-- `sizeof(tegrabl_heap_alloc_block_t)` -/
def allocHeader : Nat := 24

/-! ## Numbers of 64 bits -/

def w64 (n : Nat) : Nat := n % 2 ^ 64

def sub64 (a b : Nat) : Nat := w64 (a + 2 ^ 64 - b)

/-- `ROUND_UP` to the size of a pointer -/
def roundUp8 (n : Nat) : Nat := w64 (n + 7) / 8 * 8

theorem w64_of_lt {n : Nat} (h : n < 2 ^ 64) : w64 n = n := Nat.mod_eq_of_lt h

theorem sub64_of_le {a b : Nat} (h : b ≤ a) (ha : a < 2 ^ 64) : sub64 a b = a - b := by
  have hsum : a + 2 ^ 64 - b = a - b + 2 ^ 64 := by omega
  rw [sub64, w64, hsum, Nat.add_mod_right, Nat.mod_eq_of_lt (by omega)]

theorem roundUp8_of_lt {n : Nat} (h : n + 7 < 2 ^ 64) : n ≤ roundUp8 n ∧ roundUp8 n < n + 8 := by
  rw [roundUp8, w64_of_lt h]
  omega

/-! ## Headers -/

/-- A free block and one that is given away both begin with `magic` and `size`; after these the one
has `prev` and `next`, and the other has `start`. -/
def magicOf (d : Nat → UInt8) (p : Nat) : Nat := word d 4 p

def sizeOf (d : Nat → UInt8) (p : Nat) : Nat := word d 8 (p + 8)

def prevOf (d : Nat → UInt8) (p : Nat) : Nat := word d 8 (p + 16)

def startOf (d : Nat → UInt8) (p : Nat) : Nat := word d 8 (p + 16)

def nextOf (d : Nat → UInt8) (p : Nat) : Nat := word d 8 (p + 24)

def read (f : (Nat → UInt8) → Nat → Nat) (p : Nat) : HeapM Nat := do
  let s ← get
  pure (f s.mem p)

/-- A store of `n` bytes at `p` -/
def write (n p v : Nat) : HeapM Unit := modify fun s => { s with mem := setWord s.mem n p v }

def setMagic (p v : Nat) : HeapM Unit := write 4 p v

def setSize (p v : Nat) : HeapM Unit := write 8 (p + 8) v

def setPrev (p v : Nat) : HeapM Unit := write 8 (p + 16) v

def setStart (p v : Nat) : HeapM Unit := write 8 (p + 16) v

def setNext (p v : Nat) : HeapM Unit := write 8 (p + 24) v

/-- `p->prev`, if there is a block at `p` -/
def putPrev (p v : Nat) : HeapM Unit := if p = 0 then pure () else setPrev p v

def putNext (p v : Nat) : HeapM Unit := if p = 0 then pure () else setNext p v

def info (t : HeapType) : HeapM HeapInfo := do
  let s ← get
  pure (s.heapInfo t)

def modifyInfo (t : HeapType) (f : HeapInfo → HeapInfo) : HeapM Unit :=
  modify fun s => { s with heapInfo := Function.update s.heapInfo t (f (s.heapInfo t)) }

def hangIf (c : Prop) [Decidable c] : HeapM Unit := if c then throw .hang else pure ()

def assert (c : Prop) [Decidable c] : HeapM Unit := if c then pure () else throw .assertFailed

/-! ## Making a heap -/

inductive HeapErr where
  | tooSmall
  | alreadyExists
deriving DecidableEq

def initHeap (t : HeapType) (start size : Nat) : HeapM Unit := do
  setPrev start 0
  setNext start 0
  setSize start size
  setMagic start freeMagic
  modifyInfo t fun _ => ⟨size, size, start, w64 (start + size), start⟩

/-- `tegrabl_heap_init` -/
def tegrablHeapInit (t : HeapType) (start size : Nat) : HeapM (Option HeapErr) := do
  let h ← info t
  if size < minSize then pure (some .tooSmall)
  else if h.freeList ≠ 0 then pure (some .alreadyExists)
  else do
    initHeap t start size
    pure none

/-! ## Checks -/

def checkNext (prev cur : Nat) : HeapM Unit :=
  if prev = 0 then pure ()
  else do
    let next ← read nextOf prev
    hangIf (next ≠ cur)

def checkPrev (next cur : Nat) : HeapM Unit :=
  if next = 0 then pure ()
  else do
    let prev ← read prevOf next
    hangIf (prev ≠ cur)

/-- `check_link` -/
def checkLink (cur prev next : Nat) (t : HeapType) : HeapM Unit := do
  let size ← read sizeOf cur
  let h ← info t
  hangIf (w64 (cur + size) < cur)
  hangIf (cur < h.start ∨ h.stop < w64 (cur + size))
  checkNext prev cur
  checkPrev next cur

/-- `validate_allocated_block` -/
def validateAllocatedBlock (block : Nat) (t : HeapType) : HeapM Unit := do
  let start ← read startOf block
  let size ← read sizeOf block
  let magic ← read magicOf block
  let h ← info t
  hangIf (w64 (start + size) < start ∨ block < start ∨ w64 (start + size) < block)
  hangIf (magic ≠ allocMagic)
  hangIf (start < h.start ∨ h.stop < w64 (start + size))
  hangIf (w64 (size + h.freeSize) < h.freeSize ∨ h.maxSize < w64 (size + h.freeSize))

/-! ## Splitting -/

/-- The block was the first one of the list. -/
def moveHead (t : HeapType) (block new : Nat) : HeapM Unit :=
  modifyInfo t fun h => if block = h.freeList then { h with freeList := new } else h

/-- `tegrabl_heap_split_block` with a rest that is too small to be a block -/
def takeWhole (t : HeapType) (block prev next : Nat) : HeapM Unit := do
  moveHead t block next
  putPrev next prev
  putNext prev next

/-- `tegrabl_heap_split_block` with a rest that becomes a block -/
def takePart (t : HeapType) (block size rest prev next : Nat) : HeapM Unit := do
  let new := w64 (block + size)
  setPrev new prev
  setNext new next
  putNext prev new
  putPrev next new
  setSize new rest
  setMagic new freeMagic
  setSize block size
  let h ← info t
  hangIf (h.freeSize < size)
  moveHead t block new

def take (t : HeapType) (block size rest prev next : Nat) : HeapM Unit :=
  if rest ≤ minSize then takeWhole t block prev next
  else takePart t block size rest prev next

/-- `tegrabl_heap_split_block` -/
def tegrablHeapSplitBlock (t : HeapType) (block size : Nat) : HeapM Nat := do
  assert (block ≠ 0)
  let blockSize ← read sizeOf block
  let prev ← read prevOf block
  let next ← read nextOf block
  checkLink block prev next t
  setPrev block 0
  setNext block 0
  take t block size (sub64 blockSize size) prev next
  let taken ← read sizeOf block
  modifyInfo t fun h => { h with freeSize := sub64 h.freeSize taken }
  pure block

/-! ## `tegrabl_malloc` -/

/-- The loop of `tegrabl_generic_malloc`: the first block with more than `size` bytes -/
def firstFit (size : Nat) : Nat → Nat → HeapM Nat
  | 0, _ => throw .looping
  | fuel + 1, block =>
      if block = 0 then pure 0
      else do
        let magic ← read magicOf block
        assert (magic = freeMagic)
        let blockSize ← read sizeOf block
        if size < blockSize then pure block
        else do
          let next ← read nextOf block
          firstFit size fuel next

/-- The block is given away. -/
def giveBlock (t : HeapType) (size block : Nat) : HeapM Nat :=
  if block = 0 then pure 0
  else do
    let block ← tegrablHeapSplitBlock t block size
    setStart block block
    setMagic block allocMagic
    pure (w64 (block + allocHeader))

/-- `tegrabl_generic_malloc` -/
def tegrablGenericMalloc (t : HeapType) (size : Nat) : HeapM Nat := do
  let h ← info t
  if size = 0 ∨ h.freeSize < size then pure 0
  else if w64 (roundUp8 size + allocHeader) < size then pure 0
  else do
    let block ← firstFit (max (w64 (roundUp8 size + allocHeader)) minSize) (h.maxSize + 1) h.freeList
    giveBlock t (max (w64 (roundUp8 size + allocHeader)) minSize) block

/-- The heap that a call for a type uses. -/
def route (t : HeapType) : HeapM HeapType := do
  let h ← info .dma
  pure (if h.freeList = 0 then .default else t)

/-- `tegrabl_malloc` -/
def tegrablMalloc (size : Nat) : HeapM Nat := tegrablGenericMalloc .default size

/-- `tegrabl_alloc` -/
def tegrablAlloc (t : HeapType) (size : Nat) : HeapM Nat := do
  let t ← route t
  tegrablGenericMalloc t size

/-- `memset` to zero, unless there is no memory -/
def clear (p size : Nat) : HeapM Unit :=
  if p = 0 then pure ()
  else modify fun s => { s with mem := patch s.mem p (List.replicate size 0) }

/-- `tegrabl_calloc` -/
def tegrablCalloc (nmemb size : Nat) : HeapM Nat := do
  let h ← info .default
  if size = 0 then pure 0
  else if h.maxSize / size < nmemb then pure 0
  else do
    assert (w64 (size * nmemb) / size = nmemb)
    let p ← tegrablMalloc (w64 (size * nmemb))
    clear p (w64 (size * nmemb))
    pure p

/-! ## `tegrabl_free` -/

/-- The part of `tegrabl_heap_merge_with_next` for blocks without a gap -/
def joinNext (cur next curSize : Nat) : HeapM Unit := do
  let nextSize ← read sizeOf next
  setSize cur (w64 (curSize + nextSize))
  let nextNext ← read nextOf next
  setNext cur nextNext
  putPrev nextNext cur

/-- `tegrabl_heap_merge_with_next` -/
def tegrablHeapMergeWithNext (cur next : Nat) : HeapM Unit := do
  let curSize ← read sizeOf cur
  hangIf (w64 (cur + curSize) < cur ∨ next < w64 (cur + curSize))
  if w64 (cur + curSize) = next then joinNext cur next curSize else pure ()

def mergeNext (block next : Nat) : HeapM Unit :=
  if next = 0 then pure () else tegrablHeapMergeWithNext block next

def mergePrev (block prev : Nat) : HeapM Nat :=
  if prev = 0 then pure block
  else do
    tegrablHeapMergeWithNext prev block
    pure prev

/-- `tegrabl_heap_merge_blocks` -/
def tegrablHeapMergeBlocks (block : Nat) : HeapM Nat := do
  let next ← read nextOf block
  let prev ← read prevOf block
  mergeNext block next
  mergePrev block prev

/-- The second loop of `tegrabl_generic_free` -/
def mergeLoop : Nat → Nat → HeapM Nat
  | 0, _ => throw .looping
  | fuel + 1, block => do
      let merged ← tegrablHeapMergeBlocks block
      if merged = block then pure block
      else mergeLoop fuel merged

/-- The first loop of `tegrabl_generic_free`: the free blocks before and behind `ptr` -/
def findPlace (ptr : Nat) : Nat → Nat → Nat → HeapM (Nat × Nat)
  | 0, _, _ => throw .looping
  | fuel + 1, prev, block =>
      if block ≠ 0 ∧ block < ptr then do
        let next ← read nextOf block
        findPlace ptr fuel block next
      else pure (prev, block)

/-- `tegrabl_generic_free`, with a pointer -/
def freeBlock (t : HeapType) (ptr : Nat) : HeapM Nat := do
  validateAllocatedBlock (sub64 ptr allocHeader) t
  let block ← read startOf (sub64 ptr allocHeader)
  let size ← read sizeOf (sub64 ptr allocHeader)
  setSize block size
  let h ← info t
  let place ← findPlace ptr (h.maxSize + 1) 0 h.freeList
  putNext place.1 block
  setPrev block place.1
  setNext block place.2
  setMagic block freeMagic
  putPrev place.2 block
  let merged ← mergeLoop (h.maxSize + 1) block
  modifyInfo t fun h => { h with freeSize := w64 (h.freeSize + size) }
  pure merged

/-- `tegrabl_generic_free` -/
def tegrablGenericFree (t : HeapType) (ptr : Nat) : HeapM Nat :=
  if ptr = 0 then pure 0 else freeBlock t ptr

/-- `update_free_list_head` -/
def updateFreeListHead (t : HeapType) (block : Nat) : HeapM Unit :=
  modifyInfo t fun h =>
    if h.freeList = 0 ∨ block < h.freeList then { h with freeList := block } else h

def updateHead (t : HeapType) (block : Nat) : HeapM Unit :=
  if block = 0 then pure () else updateFreeListHead t block

/-- `tegrabl_dealloc` -/
def tegrablDealloc (t : HeapType) (ptr : Nat) : HeapM Unit := do
  let t ← route t
  let block ← tegrablGenericFree t ptr
  updateHead t block

/-- `tegrabl_free` -/
def tegrablFree (ptr : Nat) : HeapM Unit := tegrablDealloc .default ptr

/-! ## `tegrabl_memalign` -/

/-- How far the area of a block is from the next aligned address behind its first one -/
def alignGap (block alignment : Nat) : Nat :=
  sub64 alignment (w64 (block + allocHeader) % alignment)

/-- The loop of `get_free_block` -/
def getFreeBlock (alignment size : Nat) : Nat → Nat → HeapM Nat
  | 0, _ => throw .looping
  | fuel + 1, block =>
      if block = 0 then pure 0
      else do
        let blockSize ← read sizeOf block
        let magic ← read magicOf block
        assert (magic = freeMagic)
        if blockSize < size ∨ blockSize < w64 (alignGap block alignment + size) then do
          let next ← read nextOf block
          getFreeBlock alignment size fuel next
        else pure block

/-- The block behind the one that was split -/
def nextAfterSplit (t : HeapType) (prev next : Nat) : HeapM Nat :=
  if prev = 0 ∧ next = 0 then do
    let h ← info t
    pure h.freeList
  else if next = 0 then read nextOf prev
  else do
    let p ← read prevOf next
    pure (if p ≠ prev then p else next)

def linkPrev (next prev block : Nat) : HeapM Unit :=
  if next = 0 then pure ()
  else do
    let p ← read prevOf next
    assert (p = prev)
    setPrev next block

def linkNext (prev next block : Nat) : HeapM Unit :=
  if prev = 0 then pure ()
  else do
    let n ← read nextOf prev
    assert (n = next)
    setNext prev block

/-- The part of `tegrabl_memalign_generic` for a gap that is large enough to be a free block -/
def freeGap (t : HeapType) (block prev next gap size : Nat) : HeapM Unit := do
  let next ← nextAfterSplit t prev next
  setSize (w64 (block + gap)) size
  setStart (w64 (block + gap)) (w64 (block + gap))
  setNext block next
  setPrev block prev
  setSize block gap
  setMagic block freeMagic
  modifyInfo t fun h => { h with freeSize := w64 (h.freeSize + gap) }
  linkPrev next prev block
  linkNext prev next block
  updateFreeListHead t block

def keepGap (t : HeapType) (block prev next gap size : Nat) : HeapM Unit :=
  if gap < minSize then pure () else freeGap t block prev next gap size

/-- `tegrabl_memalign_generic`, with a block -/
def alignBlock (t : HeapType) (alignment size block : Nat) : HeapM Nat := do
  let prev ← read prevOf block
  let next ← read nextOf block
  let taken ← tegrablHeapSplitBlock t block (w64 (size + alignGap block alignment))
  assert (taken = block)
  let blockSize ← read sizeOf block
  setSize (w64 (block + alignGap block alignment)) blockSize
  setMagic (w64 (block + alignGap block alignment)) allocMagic
  setStart (w64 (block + alignGap block alignment)) block
  keepGap t block prev next (alignGap block alignment) size
  assert (w64 (block + allocHeader + alignGap block alignment) % alignment = 0)
  pure (w64 (block + allocHeader + alignGap block alignment))

/-- `tegrabl_memalign_generic` -/
def tegrablMemalignGeneric (t : HeapType) (alignment size : Nat) : HeapM Nat := do
  let h ← info t
  if size = 0 then pure 0
  else do
    let block ← getFreeBlock alignment (max (w64 (roundUp8 size + allocHeader)) minSize)
      (h.maxSize + 1) h.freeList
    if block = 0 then pure 0
    else alignBlock t alignment (max (w64 (roundUp8 size + allocHeader)) minSize) block

/-- `is_size_alignment_valid` -/
def HeapInfo.isSizeAlignmentValid (h : HeapInfo) (alignment size : Nat) : Bool :=
  decide (size ≤ h.maxSize ∧ alignment ≤ h.maxSize ∧ w64 (size + alignment) ≤ h.maxSize ∧
    size ≤ w64 (size + alignment) ∧ alignment ≤ w64 (size + alignment))

def memalignIn (t : HeapType) (alignment size : Nat) : HeapM Nat := do
  let h ← info t
  if h.isSizeAlignmentValid alignment size = true then tegrablMemalignGeneric t alignment size
  else pure 0

/-- `tegrabl_alloc_align` -/
def tegrablAllocAlign (t : HeapType) (alignment size : Nat) : HeapM Nat := do
  let t ← route t
  memalignIn t alignment size

/-- `tegrabl_memalign` -/
def tegrablMemalign (alignment size : Nat) : HeapM Nat := memalignIn .default alignment size

end TX2SecureUart.Malloc
