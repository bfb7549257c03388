/-
# `AddrSpace.Pmm` — pages of the physical allocator under a mapping

`sys_mmap` and `sys_munmap` with the page allocator of `pmm.c`.  A device-memory
request takes pages from the allocator and maps them; `uthread_unmap` gives
pages back by a flag of the record, read in the name space of the `mmap` flags.

`obtained` is no part of the program: for a record, the pages that were taken
from the allocator for it.
-/
import TX2SecureUart.AddrSpace.Layout

namespace TX2SecureUart.AddrSpace

open Mask UserSpace

/-! ## The allocator -/

/-- `MMAP_FLAG_IO_HANDLE` -/
def mmapFlagIoHandle : UInt32 := 0x1

/-- `MMAP_FLAG_DEVICE_MEM` -/
def mmapFlagDeviceMem : UInt32 := 0x2

/-- `pmm_arena_t`; a page is known by its address. -/
structure Arena where
  base : Paddr
  size : UInt64
  freeList : List Paddr

/-- The address belongs to the arena. -/
def Arena.holds (a : Arena) (addr : Paddr) : Bool :=
  a.base ≤ addr && addr ≤ a.base + a.size - 1

/-- `address_to_page` -/
def addressToPage (arenas : List Arena) (addr : Paddr) : Option Paddr :=
  (arenas.find? (·.holds addr)).map (fun a => a.base + (addr - a.base) / pageSize * pageSize)

/-- `pmm_alloc_pages`: the pages, and the arenas without them.  The loop leaves
at the first arena that runs out. -/
def pmmAllocPages (count : Nat) : List Arena → List Paddr × List Arena
  | [] => ([], [])
  | a :: rest => (a.freeList.take count, { a with freeList := a.freeList.drop count } :: rest)

/-- `pmm_free_page` -/
def pmmFreePage (page : Paddr) : List Arena → List Arena
  | [] => []
  | a :: rest =>
      if a.holds page then { a with freeList := page :: a.freeList } :: rest
      else a :: pmmFreePage page rest

/-- `pmm_free` -/
def pmmFree (pages : List Paddr) (arenas : List Arena) : List Arena :=
  pages.foldl (fun as p => pmmFreePage p as) arenas

/-! ## The system calls -/

/-- A thread with the allocator its pages come from. -/
structure Mem where
  ut : Uthread
  arenas : List Arena
  obtained : Vaddr → Option (List Paddr)

/-- A record that a call adds to those of `ut` is noted with its pages. -/
def noteRecord (obtained : Vaddr → Option (List Paddr)) (ut : Uthread)
    (pages : Option (List Paddr)) : Vaddr → Option (List Paddr) :=
  fun a => if ut.mapList.any (fun m => m.vaddr == a) then obtained a else pages

/-- The flags that `uthread_pmm_alloc_and_map` maps with. -/
def pmmMapFlags (flags : UInt32) : UInt32 :=
  utmW ||| utmR ||| (if hasFlag flags mmapFlagDeviceMem then utmDevice else 0)

/-- `alloc_size`, a `uint32_t` -/
def allocSize (size : UInt32) : UInt64 := (roundUp size.toUInt64 pageSize).toUInt32.toUInt64

/-- `uthread_pmm_alloc_and_map`, `none` where the mapping panics. -/
def uthreadPmmAllocAndMap (s : Mem) (env : Env) (size flags align : UInt32) :
    Option (Int × Mem) :=
  let count := (allocSize size / pageSize).toUInt32.toNat
  match pmmAllocPages count s.arenas with
  | (pages, arenas) =>
      if pages.length ≠ count then some (errGeneric, { s with arenas := pmmFree pages arenas })
      else if !env.mallocPfn then some (errGeneric, { s with arenas := pmmFree pages arenas })
      else
        match uthreadMap s.ut env 0 pages (allocSize size) (pmmMapFlags flags) align with
        | none => none
        | some (err, _, ut) =>
            if err ≠ noError then
              some (err, ⟨ut, pmmFree pages arenas, noteRecord s.obtained s.ut none⟩)
            else some (noError, ⟨ut, arenas, noteRecord s.obtained s.ut (some pages)⟩)

/-- `TRUSTY_APP_CONFIG_KEY_MAP_MEM` -/
def trustyAppConfigKeyMapMem : UInt32 := 3

/-- The walk of `trusty_app_setup_mmio` over the configuration blob: offset and
size of the region. -/
def mmioRegion (mmioId : UInt32) : List UInt32 → Option (UInt32 × UInt32)
  | key :: a :: rest =>
      if key == trustyAppConfigKeyMapMem then
        match rest with
        | offset :: size :: rest =>
            if a == mmioId then some (offset, size) else mmioRegion mmioId rest
        | _ => none
      else mmioRegion mmioId rest
  | _ => none

/-- `ROUNDUP(x, PAGE_SIZE)` stored in a 32-bit variable -/
def roundUpPage32 (x : UInt32) : UInt32 := (roundUp x.toUInt64 pageSize).toUInt32

/-- `trusty_app_setup_mmio` -/
def trustyAppSetupMmio (s : Mem) (env : Env) (configBlob : List UInt32) (mmioId mapSize : UInt32) :
    Option (Int × Mem) :=
  match mmioRegion mmioId configBlob with
  | none => some (errNotFound, s)
  | some (offset, size) =>
      if roundUpPage32 size < roundUpPage32 mapSize then some (errInvalidArgs, s)
      else
        match uthreadMap s.ut env 0 [offset.toUInt64] (roundUpPage32 mapSize).toUInt64
          (utmW ||| utmR ||| utmIo ||| utmPhysContig) utMapAlign4KB with
        | none => none
        | some (err, _, ut) =>
            some (err, { s with ut, obtained := noteRecord s.obtained s.ut none })

/-- `sys_mmap` -/
def sysMmap (s : Mem) (env : Env) (configBlob : List UInt32) (uaddr size flags handle : UInt32) :
    Option (Int × Mem) :=
  if hasFlag flags mmapFlagDeviceMem then uthreadPmmAllocAndMap s env size flags 1
  else if flags != mmapFlagIoHandle || uaddr != 0 then some (errInvalidArgs, s)
  else trustyAppSetupMmio s env configBlob handle size

/-- The number of entries that `uthread_unmap_locked` reads of `pfn_list`. -/
def unmapReads (mp : UthreadMap) : Nat :=
  if hasFlag mp.flags mmapFlagDeviceMem then (mp.size / pageSize).toNat else 0

/-- The pages that `uthread_unmap_locked` frees.  Beyond the end of `pfn_list` it
reads what the heap holds there. -/
def unmapFrees (arenas : List Arena) (heap : Nat → Paddr) (mp : UthreadMap) : List Paddr :=
  (List.range (unmapReads mp)).filterMap
    (fun i => addressToPage arenas (mp.pfnList.getD i (heap i)))

/-- The record that `uthread_unmap` takes away. -/
def unmapTarget (ut : Uthread) (vaddr : Vaddr) (size : UInt64) :
    Option (List UthreadMap × UthreadMap × List UthreadMap) :=
  if vaddr == 0 then none
  else
    match uthreadMapFind ut vaddr size with
    | none => none
    | some (before, mp, after) =>
        if outOfRange mp.vaddr mp.size then none else some (before, mp, after)

/-- `sys_munmap` -/
def sysMunmap (s : Mem) (env : Env) (uaddr size : UInt32) : Int × Mem :=
  match uthreadUnmap s.ut uaddr.toUInt64 size.toUInt64 with
  | (err, ut) =>
      match unmapTarget s.ut uaddr.toUInt64 size.toUInt64 with
      | none => (err, { s with ut })
      | some (_, mp, _) =>
          (err, { s with ut, arenas := pmmFree (unmapFrees s.arenas env.heap mp) s.arenas })

/-! ## Runs -/

/-- What can happen to the mappings of an application: its own calls, and
mappings and grants that the kernel makes for it. -/
inductive MemAction where
  | mmap (uaddr size flags handle : UInt32)
  | munmap (uaddr size : UInt32)
  | map (va : Vaddr) (pfnList : List Paddr) (size : UInt64) (flags align : UInt32)
  | grant (vaddrSrc : Vaddr) (size : UInt64) (flags : UInt32) (source : GrantSource)

/-- One action, `none` where it panics. -/
def MemAction.run (configBlob : List UInt32) (s : Mem) (env : Env) : MemAction → Option Mem
  | .mmap uaddr size flags handle =>
      match sysMmap s env configBlob uaddr size flags handle with
      | none => none
      | some (_, s') => some s'
  | .munmap uaddr size =>
      match sysMunmap s env uaddr size with
      | (_, s') => some s'
  | .map va pfnList size flags align =>
      match uthreadMap s.ut env va pfnList size flags align with
      | none => none
      | some (_, _, ut) => some { s with ut, obtained := noteRecord s.obtained s.ut none }
  | .grant vaddrSrc size flags source =>
      match uthreadGrantPages s.ut env vaddrSrc size flags source with
      | (_, _, ut) => some { s with ut, obtained := noteRecord s.obtained s.ut none }

/-- The states of all runs whose actions meet the condition. -/
def MemReachable (configBlob : List UInt32) (ok : Mem → MemAction → Prop) : Mem → Mem → Prop :=
  Relation.ReflTransGen (fun s s' => ∃ a env, ok s a ∧ a.run configBlob s env = some s')

/-- Nothing has been mapped by the application yet, and the free lists hold pages
of their arenas, each once. -/
structure MemStart (s : Mem) : Prop where
  layout : Layout s.ut.mapList
  obtained : ∀ v, s.obtained v = none
  nodup : (s.arenas.flatMap (·.freeList)).Nodup
  pages : ∀ p ∈ s.arenas.flatMap (·.freeList), addressToPage s.arenas p = some p

end TX2SecureUart.AddrSpace
