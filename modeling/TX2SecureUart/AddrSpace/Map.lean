/-
# `AddrSpace.Map` — the mapping records of a user thread

`uthread.c`: a list of mapping records sorted by address, a first-fit search
from below for secure memory, a search from above for non-secure memory, and
`ns_va_bottom` between the two.

The address space is that of the t186 project, 32 MB.
-/
import TX2SecureUart.Lib.Mask
import TX2SecureUart.UserSpace.Map
import TX2SecureUart.Err

namespace TX2SecureUart.AddrSpace

open Mask UserSpace

/-! ## Constants -/

/-- `paddr_t` -/
abbrev Paddr := UInt64

/-- `PAGE_SIZE` -/
def pageSize : UInt64 := 4096

/-- `MAX_USR_VA`, with `MMU_USER_SIZE_SHIFT` 25 -/
def maxUsrVa : Vaddr := 0x2000000

/-- `UT_MAP_ALIGN_4KB` -/
def utMapAlign4KB : UInt32 := 4096

/-- `UT_MAP_ALIGN_1MB` -/
def utMapAlign1MB : UInt64 := 0x100000

/-- `UTM_R` -/
def utmR : UInt32 := 0x1

/-- `UTM_W` -/
def utmW : UInt32 := 0x2

/-- `UTM_X` -/
def utmX : UInt32 := 0x4

/-- `UTM_STACK` -/
def utmStack : UInt32 := 0x10

/-- `UTM_PHYS_CONTIG` -/
def utmPhysContig : UInt32 := 0x20

/-- `UTM_NS_MEM` -/
def utmNsMem : UInt32 := 0x40

/-- `UTM_IO` -/
def utmIo : UInt32 := 0x80

/-- `UTM_FIXED` -/
def utmFixed : UInt32 := 0x100

/-- `UTM_DEVICE` -/
def utmDevice : UInt32 := 0x200

/-! ## Records and threads -/

/-- `uthread_map_t` -/
structure UthreadMap extends UserSpace.UthreadMap where
  flags : UInt32
  align : UInt32
  pfnList : List Paddr
deriving DecidableEq

/-- The leaf entry for each page of the user address space, or `none` where the
entry is invalid. -/
abbrev PageTable := Nat → Option UInt64

/-- `uthread_t`, as far as mappings go.  The page table is there from the first
mapping on, which `uthread_create` makes. -/
structure Uthread where
  startStack : Vaddr
  mapList : List UthreadMap
  nsVaBottom : Vaddr
  pageTable : PageTable

/-- What lookups read of a thread. -/
def Uthread.toUserSpace (ut : Uthread) : UserSpace.Uthread :=
  ⟨ut.mapList.map (·.toUthreadMap)⟩

/-- `mp->vaddr + mp->size` -/
def UthreadMap.stop (mp : UthreadMap) : Vaddr := mp.vaddr + mp.size

def hasFlag (flags flag : UInt32) : Bool := flags &&& flag != 0

def UthreadMap.isNs (mp : UthreadMap) : Bool := hasFlag mp.flags utmNsMem

/-! ## Finding room -/

/-- `MIN` -/
def minVa (a b : Vaddr) : Vaddr := if a < b then a else b

/-- `MAX` -/
def maxVa (a b : Vaddr) : Vaddr := if b < a then a else b

/-- The loop of `uthread_find_va_space_ns`, over the list from its tail. -/
def findNsLoop (nsVaBottom : Vaddr) (size : UInt64) (align : UInt32) :
    Vaddr → List UthreadMap → Option Vaddr
  | start, [] => some start
  | start, mp :: rest =>
      if mp.stop ≤ start then
        if nsVaBottom ≤ start then some start
        else if roundDown start utMapAlign1MB < mp.stop then none
        else some start
      else if !mp.isNs then none
      else findNsLoop nsVaBottom size align
        (minVa start (roundDown32 (mp.vaddr - size) align)) rest

/-- `uthread_find_va_space_ns` -/
def findVaSpaceNs (ut : Uthread) (size : UInt64) (align : UInt32) : Vaddr :=
  match findNsLoop ut.nsVaBottom size align (roundDown32 (maxUsrVa - size) align)
      ut.mapList.reverse with
  | none => 0
  | some start => if start < ut.startStack || start + size < start then 0 else start

/-- The loop of `uthread_find_va_space_sec`. -/
def findSecLoop (size : UInt64) (align : UInt32) : Vaddr → List UthreadMap → Vaddr
  | start, [] => start
  | start, mp :: rest =>
      if start + size ≤ mp.vaddr then start
      else findSecLoop size align (maxVa start (roundUp32 mp.stop align)) rest

/-- `uthread_find_va_space_sec` -/
def findVaSpaceSec (ut : Uthread) (size : UInt64) (align : UInt32) : Vaddr :=
  let start := findSecLoop size align (roundUp32 ut.startStack align) ut.mapList
  if ut.nsVaBottom < start + size || start + size < start then 0 else start

/-- `uthread_find_va_space` -/
def findVaSpace (ut : Uthread) (size : UInt64) (flags align : UInt32) : Vaddr :=
  if hasFlag flags utmNsMem then findVaSpaceNs ut size align
  else findVaSpaceSec ut size align

/-! ## Adding, finding and removing records -/

/-- The list walk of `uthread_map_alloc`. -/
def insertMap (mp : UthreadMap) : List UthreadMap → Option (List UthreadMap)
  | [] => some [mp]
  | lst :: rest =>
      if mp.vaddr < lst.vaddr then
        if lst.vaddr < mp.stop then none else some (mp :: lst :: rest)
      else if mp.vaddr < lst.stop then none
      else (insertMap mp rest).map (lst :: ·)

/-- `npages` of `uthread_map_alloc`, a `uint32_t` -/
def allocPages (size : UInt64) (flags : UInt32) : Nat :=
  if hasFlag flags utmPhysContig then 1 else (size / pageSize).toUInt32.toNat

/-- The record that `uthread_map_alloc` fills in. -/
def newMap (vaddr : Vaddr) (pfnList : List Paddr) (size : UInt64) (flags align : UInt32) :
    UthreadMap :=
  { vaddr, size, flags, align, pfnList := pfnList.take (allocPages size flags) }

/-- `new_ns` of `uthread_map_alloc` -/
def newNs (nsVaBottom : Vaddr) (mp : UthreadMap) : Vaddr :=
  if mp.isNs && mp.vaddr < nsVaBottom then roundDown mp.vaddr utMapAlign1MB
  else nsVaBottom

/-- `uthread_map_alloc`; `malloc` says whether the record is allocated. -/
def uthreadMapAlloc (ut : Uthread) (malloc : Bool) (vaddr : Vaddr) (pfnList : List Paddr)
    (size : UInt64) (flags align : UInt32) : Except Int (Uthread × UthreadMap) :=
  if vaddr + size ≤ vaddr then .error errInvalidArgs
  else if !malloc then .error errNoMemory
  else
    let mp := newMap vaddr pfnList size flags align
    match insertMap mp ut.mapList with
    | none => .error errInvalidArgs
    | some mapList => .ok ({ ut with mapList, nsVaBottom := newNs ut.nsVaBottom mp }, mp)

/-- The list cut at the first record with the property. -/
def cutAt (p : UthreadMap → Bool) :
    List UthreadMap → Option (List UthreadMap × UthreadMap × List UthreadMap)
  | [] => none
  | mp :: rest =>
      if p mp then some ([], mp, rest)
      else (cutAt p rest).map (fun c => (mp :: c.1, c.2))

/-- `uthread_map_find`: the record, between those before and those after it. -/
def uthreadMapFind (ut : Uthread) (vaddr : Vaddr) (size : UInt64) :
    Option (List UthreadMap × UthreadMap × List UthreadMap) :=
  if vaddr + size < vaddr then none
  else cutAt (fun mp => mp.covers vaddr size) ut.mapList

/-- `ns_va_bottom` after `uthread_map_remove` -/
def bottomWithout (nsVaBottom : Vaddr) (before : List UthreadMap) (mp : UthreadMap)
    (after : List UthreadMap) : Vaddr :=
  if mp.isNs && !(before.getLast?.any (·.isNs)) then
    match after with
    | [] => maxUsrVa
    | item :: _ => roundDown item.vaddr utMapAlign1MB
  else nsVaBottom

/-- `uthread_map_remove` of a record found by `uthread_map_find` -/
def uthreadMapRemove (ut : Uthread) (before : List UthreadMap) (mp : UthreadMap)
    (after : List UthreadMap) : Uthread :=
  { ut with mapList := before ++ after, nsVaBottom := bottomWithout ut.nsVaBottom before mp after }

/-! ## What the pieces do -/

theorem cutAt_eq {p : UthreadMap → Bool} {l before after : List UthreadMap} {mp : UthreadMap}
    (h : cutAt p l = some (before, mp, after)) : l = before ++ mp :: after ∧ p mp = true := by
  induction l generalizing before with
  | nil => simp [cutAt] at h
  | cons a rest ih =>
      rw [cutAt] at h
      split at h
      · cases h
        exact ⟨rfl, by assumption⟩
      · obtain ⟨⟨b, m, a'⟩, hc, heq⟩ := Option.map_eq_some_iff.mp h
        cases heq
        obtain ⟨hl, hp⟩ := ih hc
        exact ⟨congrArg (a :: ·) hl, hp⟩

theorem cutAt_isSome (p : UthreadMap → Bool) (l : List UthreadMap) :
    (cutAt p l).isSome = l.any p := by
  induction l with
  | nil => rfl
  | cons a rest ih =>
      rw [cutAt, List.any_cons]
      split
      · simp [*]
      · simp [*]

/-- The lookup agrees with the one that only sees addresses. -/
theorem uthreadMapFind_isSome (ut : Uthread) (vaddr : Vaddr) (size : UInt64) :
    (uthreadMapFind ut vaddr size).isSome = uthreadIsValidRange ut.toUserSpace vaddr size := by
  unfold uthreadMapFind uthreadIsValidRange UserSpace.uthreadMapFind
  split
  · rfl
  · rw [cutAt_isSome, Bool.eq_iff_iff, List.find?_isSome]
    simp [Uthread.toUserSpace]

/-- A record added is added among the others. -/
theorem insertMap_perm {mp : UthreadMap} {l l' : List UthreadMap} (h : insertMap mp l = some l') :
    l'.Perm (mp :: l) := by
  induction l generalizing l' with
  | nil =>
      cases h
      exact List.Perm.refl _
  | cons lst rest ih =>
      rw [insertMap] at h
      split at h
      · split at h
        · cases h
        · cases h
          exact List.Perm.refl _
      · split at h
        · cases h
        · obtain ⟨t, ht, rfl⟩ := Option.map_eq_some_iff.mp h
          exact ((ih ht).cons lst).trans (List.Perm.swap mp lst rest)

/-- What an allocated record leaves behind: one more record, and perhaps a
lower `ns_va_bottom`. -/
theorem uthreadMapAlloc_ok {ut ut' : Uthread} {malloc : Bool} {vaddr : Vaddr}
    {pfnList : List Paddr} {size : UInt64} {flags align : UInt32} {mp : UthreadMap}
    (h : uthreadMapAlloc ut malloc vaddr pfnList size flags align = .ok (ut', mp)) :
    vaddr < vaddr + size ∧ mp = newMap vaddr pfnList size flags align ∧
      ∃ l, insertMap mp ut.mapList = some l ∧
        ut' = { ut with mapList := l, nsVaBottom := newNs ut.nsVaBottom mp } := by
  rw [uthreadMapAlloc] at h
  split at h
  · cases h
  rename_i hwrap
  split at h
  · cases h
  dsimp only at h
  split at h
  · cases h
  · rename_i l hl
    cases h
    exact ⟨UInt64.not_le.mp hwrap, rfl, l, hl, rfl⟩

end TX2SecureUart.AddrSpace
