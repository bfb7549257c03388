/-
# `AddrSpace.Calls` — mapping, granting and unmapping

The page table as `arm64/mmu.c` keeps it, seen page by page, the `arch` layer
over it, and the three calls of `uthread.c` that change an address space.

What the allocators answer is a parameter of each call, and so is what the
address translation of the processor finds.
-/
import TX2SecureUart.AddrSpace.Map

namespace TX2SecureUart.AddrSpace

open Mask UserSpace

/-- What a call meets: whether the record and the page list are allocated,
whether the page tables for the `pg`-th entry are, what the heap held before,
and what `par_el1` reads after a translation. -/
structure Env where
  malloc : Bool
  mallocPfn : Bool
  ptAlloc : Nat → Bool
  heap : Nat → Paddr
  par : Vaddr → UInt64

/-! ## The page table -/

/-- The page lies in the range, which starts and ends on a page. -/
def pageIn (vaddr : Vaddr) (size : UInt64) (p : Nat) : Bool :=
  vaddr.toNat / 4096 ≤ p && p * 4096 < vaddr.toNat + size.toNat

/-- The range check of `arm64_mmu_map` and `arm64_mmu_unmap`.  The subtraction
wraps only where the second test holds, so it is written over `Nat`. -/
def outOfRange (vaddr : Vaddr) (size : UInt64) : Bool :=
  maxUsrVa.toNat - size.toNat < vaddr.toNat || maxUsrVa.toNat < size.toNat

/-- The alignment check of `arm64_mmu_map_pt`. -/
def unaligned (vaddr : Vaddr) (paddr : Paddr) (size : UInt64) : Bool :=
  (vaddr ||| paddr ||| size) &&& 0xFFF != 0

/-- The leaf entry for page `p` of a range that starts at `vaddr`. -/
def leafEntry (vaddr : Vaddr) (paddr : Paddr) (attrs : UInt64) (p : Nat) : UInt64 :=
  (paddr + UInt64.ofNat ((p - vaddr.toNat / 4096) * 4096)) ||| attrs

/-- `arm64_mmu_map`: a range with an entry in use, or for which a table cannot
be allocated, is undone up to there, so that nothing of it stays. -/
def arm64MmuMap (t : PageTable) (ptAlloc : Bool) (vaddr : Vaddr) (paddr : Paddr) (size : UInt64)
    (attrs : UInt64) : Int × PageTable :=
  if outOfRange vaddr size then (errInvalidArgs, t)
  else if unaligned vaddr paddr size then (errInvalidArgs, t)
  else if !ptAlloc || (List.range' (vaddr.toNat / 4096) (size.toNat / 4096)).any
      (fun p => (t p).isSome) then (errGeneric, t)
  else (noError, fun p => if pageIn vaddr size p then some (leafEntry vaddr paddr attrs p) else t p)

/-- `arm64_mmu_unmap` -/
def arm64MmuUnmap (t : PageTable) (vaddr : Vaddr) (size : UInt64) : Int × PageTable :=
  if outOfRange vaddr size then (errInvalidArgs, t)
  else (noError, fun p => if pageIn vaddr size p then none else t p)

/-! ## `arch/arm64/uthread.c` -/

/-- `MMU_PTE_ATTR_NON_GLOBAL | MMU_PTE_ATTR_AF` -/
def mmuPteAttrBase : UInt64 := 0xC00

/-- `MMU_PTE_ATTR_NON_SECURE` -/
def mmuPteAttrNonSecure : UInt64 := 0x20

/-- `MMU_PTE_ATTR_AP_P_RW_U_RW` -/
def mmuPteAttrApRw : UInt64 := 0x40

/-- `MMU_PTE_ATTR_AP_P_RO_U_RO` -/
def mmuPteAttrApRo : UInt64 := 0xC0

/-- `MMU_PTE_ATTR_STRONGLY_ORDERED` -/
def mmuPteAttrStronglyOrdered : UInt64 := 0x0

/-- `MMU_PTE_ATTR_DEVICE` -/
def mmuPteAttrDevice : UInt64 := 0x4

/-- `MMU_PTE_ATTR_NORMAL_MEMORY` -/
def mmuPteAttrNormalMemory : UInt64 := 0x8

/-- `MMU_PTE_ATTR_SH_INNER_SHAREABLE` -/
def mmuPteAttrShInner : UInt64 := 0x300

/-- `MMU_PTE_ATTR_UXN | MMU_PTE_ATTR_PXN` -/
def mmuPteAttrXn : UInt64 := 0x60000000000000

/-- The attributes that both mapping functions start from. -/
def pteAttrOf (flags : UInt32) : UInt64 :=
  mmuPteAttrBase ||| (if hasFlag flags utmNsMem then mmuPteAttrNonSecure else 0) |||
    (if hasFlag flags utmW then mmuPteAttrApRw else mmuPteAttrApRo)

/-- `pte_attr` of `arch_uthread_map` -/
def mapAttr (flags : UInt32) : UInt64 :=
  pteAttrOf flags |||
    (if hasFlag flags utmIo then mmuPteAttrStronglyOrdered
      else if hasFlag flags utmDevice then mmuPteAttrDevice
      else mmuPteAttrShInner ||| mmuPteAttrNormalMemory) |||
    (if !hasFlag flags utmX || hasFlag flags utmNsMem then mmuPteAttrXn else 0)

/-- The assertions of `arch_uthread_map`: IO and device memory is not executable. -/
def mapAsserts (flags : UInt32) : Bool :=
  !((hasFlag flags utmIo || hasFlag flags utmDevice) && hasFlag flags utmX)

/-- The address of the `pg`-th entry of a record. -/
def entryAddr (mp : UthreadMap) (entrySize : UInt64) (pg : Nat) : Vaddr :=
  mp.vaddr + UInt64.ofNat pg * entrySize

/-- The mapping loop of `arch_uthread_map` with `n` entries to go from `pg` on:
the error, the number of entries mapped, and the table. -/
def mapEntries (mp : UthreadMap) (ptAlloc : Nat → Bool) (entrySize : UInt64) :
    Nat → Nat → PageTable → Int × Nat × PageTable
  | 0, pg, t => (noError, pg, t)
  | n + 1, pg, t =>
      match arm64MmuMap t (ptAlloc pg) (entryAddr mp entrySize pg) (mp.pfnList.getD pg 0)
        entrySize (mapAttr mp.flags) with
      | (err, t') =>
          if err ≠ noError then (err, pg, t) else mapEntries mp ptAlloc entrySize n (pg + 1) t'

/-- The loop at `err_undo_maps`, over the entries `0 .. n - 1`. -/
def undoEntries (mp : UthreadMap) (entrySize : UInt64) : Nat → PageTable → PageTable
  | 0, t => t
  | n + 1, t => (arm64MmuUnmap (undoEntries mp entrySize n t) (entryAddr mp entrySize n) entrySize).2

/-- `entry_size` -/
def entrySizeOf (mp : UthreadMap) : UInt64 :=
  if hasFlag mp.flags utmPhysContig then mp.size else pageSize

/-- `arch_uthread_map`; `none` where an assertion fails. -/
def archUthreadMap (t : PageTable) (ptAlloc : Nat → Bool) (mp : UthreadMap) :
    Option (Int × PageTable) :=
  if !mapAsserts mp.flags then none
  else
    match mapEntries mp ptAlloc (entrySizeOf mp) (mp.size / entrySizeOf mp).toNat 0 t with
    | (err, pg, t') =>
        if err ≠ noError then some (err, undoEntries mp (entrySizeOf mp) pg t')
        else some (noError, t')

/-- `arch_uthread_unmap` -/
def archUthreadUnmap (t : PageTable) (mp : UthreadMap) : Int × PageTable :=
  arm64MmuUnmap t mp.vaddr mp.size

/-- `mair_to_cb` -/
def mairToCb : List UInt64 :=
  [0x4, 0x2, 0x2, 0x2, 0x0, 0x1, 0x3, 0x1, 0x2, 0x2, 0x2, 0x2, 0x3, 0x1, 0x3, 0x1]

/-- What `arch_uthread_translate_map` finds out about one source page. -/
structure PageInfo where
  inner : UInt64
  outer : UInt64
  shareable : UInt64
  physaddr : Paddr

/-- A page of the non-secure world, described by its page table entry.  The
function leaves with `err` as it is, which is `NO_ERROR` still, where the entry
does not allow the write or has attributes it does not know. -/
def nsPageInfo (flags : UInt32) (pte : UInt64) : Except Int PageInfo :=
  if hasFlag flags utmW && (pte >>> 6) &&& 0x3 != 0x1 then .error noError
  else
    let outer := mairToCb.getD ((pte >>> 52) &&& 0xF).toNat 0
    let inner := mairToCb.getD ((pte >>> 48) &&& 0xF).toNat 0
    if outer &&& 0x4 != 0 then .error noError
    else if inner &&& 0x4 != 0 then .error noError
    else .ok ⟨inner, outer, (pte >>> 8) &&& 0x3, pte &&& 0xFFFFFFFFF000⟩

/-- A page of the current thread, as the processor translates it. -/
def secPageInfo (par : UInt64) : Except Int PageInfo :=
  if par &&& 0x1 != 0 then .error errNotValid
  else .ok ⟨(par >>> 56) &&& 0xF, (par >>> 60) &&& 0xF, (par >>> 7) &&& 0x3, par &&& 0xFFFFFF000⟩

/-- `pte_attr` once the first page is known. -/
def firstAttr (attr : UInt64) (info : PageInfo) : UInt64 :=
  attr ||| (if info.shareable != 0 then mmuPteAttrShInner else 0) |||
    (if info.inner ||| info.outer != 0 then mmuPteAttrNormalMemory else 0)

/-- The attributes are those of the first page. -/
def PageInfo.sameAttrs (first info : PageInfo) : Bool :=
  info.inner == first.inner && info.outer == first.outer && info.shareable == first.shareable

/-- The loop of `arch_uthread_translate_map` with `n` pages to go from `pg` on:
the error, the pages mapped, and the table.  `first` is the first page, if there
was one. -/
def translateLoop (page : Nat → Except Int PageInfo) (ptAlloc : Nat → Bool) (vt : Vaddr)
    (attr : UInt64) : Nat → Nat → Option PageInfo → PageTable → Int × List Paddr × PageTable
  | 0, _, _, t => (noError, [], t)
  | n + 1, pg, first, t =>
      match page pg with
      | .error e => (e, [], t)
      | .ok info =>
          let first' := first.getD info
          if !first'.sameAttrs info then (errNotValid, [], t)
          else
            match arm64MmuMap t (ptAlloc pg) (vt + UInt64.ofNat pg * pageSize) info.physaddr
              pageSize (firstAttr attr first') with
            | (err, t') =>
                if err ≠ noError then (err, [], t)
                else
                  match translateLoop page ptAlloc vt attr n (pg + 1) (some first') t' with
                  | (err, pfns, t'') => (err, info.physaddr :: pfns, t'')

/-- `arch_uthread_translate_map` -/
def archUthreadTranslateMap (t : PageTable) (env : Env) (vaddrSrc : Vaddr) (vaddrTarget : Vaddr)
    (npages : Nat) (flags : UInt32) (nsPteList : Option (List UInt64)) :
    Int × List Paddr × PageTable :=
  let page : Nat → Except Int PageInfo := fun pg =>
    match nsPteList with
    | some ptes => nsPageInfo flags (ptes.getD pg 0)
    | none => secPageInfo (env.par (vaddrSrc + UInt64.ofNat pg * pageSize))
  translateLoop page env.ptAlloc vaddrTarget (pteAttrOf flags) npages 0 none t

/-! ## The calls -/

/-- What a call returns: the error, the address, and the thread. -/
abbrev Answer := Int × Vaddr × Uthread

/-- `*vaddrp` once `uthread_map` has chosen it. -/
def mapVa (ut : Uthread) (va : Vaddr) (size : UInt64) (flags align : UInt32) : Vaddr :=
  if hasFlag flags utmFixed then va else findVaSpace ut size flags align

/-- `uthread_map`, `none` where it panics; `va` is `*vaddrp` before the call. -/
def uthreadMap (ut : Uthread) (env : Env) (va : Vaddr) (pfnList : List Paddr) (size : UInt64)
    (flags align : UInt32) : Option Answer :=
  if size &&& 0xFFF != 0 then some (errNotValid, va, ut)
  else
    let vaddr := mapVa ut va size flags align
    if !hasFlag flags utmFixed && vaddr == 0 then some (errNoMemory, vaddr, ut)
    else
      match uthreadMapAlloc ut env.malloc vaddr pfnList size flags align with
      | .error e => some (e, vaddr, ut)
      | .ok (ut', mp) =>
          match archUthreadMap ut'.pageTable env.ptAlloc mp with
          | none => none
          | some (err, t) => some (err, vaddr, { ut' with pageTable := t })

/-- Where the pages that are granted come from: the current thread, or the
non-secure world with its list of entries. -/
inductive GrantSource where
  | uthread (src : Uthread)
  | ns (ptes : Option (List UInt64))

/-- The flags and the alignment of the granted mapping, or the error: what
`uthread_grant_pages` reads from the source. -/
def grantFlags (source : GrantSource) (vaddrSrc : Vaddr) (size : UInt64) (flags : UInt32) :
    Except Int (UInt32 × UInt32) :=
  match source with
  | .ns none => .error errInvalidArgs
  | .ns (some _) => .ok (flags ||| utmNsMem, utMapAlign4KB)
  | .uthread src =>
      match uthreadMapFind src vaddrSrc size with
      | none => .error errInvalidArgs
      | some (_, mp, _) => .ok (if mp.isNs then flags ||| utmNsMem else flags, mp.align)

/-- The entries handed to `arch_uthread_translate_map`. -/
def GrantSource.ptes : GrantSource → Option (List UInt64)
  | .uthread _ => none
  | .ns ptes => ptes

/-- `pfn_list` after the translation: what was not filled in is what the heap held. -/
def pfnsOf (env : Env) (npages : Nat) (pfns : List Paddr) : List Paddr :=
  (List.range npages).map (fun i => pfns.getD i (env.heap i))

/-- The flags of a granted mapping: a single page is contiguous. -/
def contigFlags (npages : Nat) (flags : UInt32) : UInt32 :=
  if npages == 1 then flags ||| utmPhysContig else flags

/-- The mapping that `uthread_grant_pages` is about to make. -/
structure GrantPlan where
  vaddr : Vaddr
  size : UInt64
  npages : Nat
  flags : UInt32
  align : UInt32

/-- `uthread_grant_pages` up to the address, with `vaddr_src` rounded down and
`offset` what is left of it. -/
def grantPlan (ut : Uthread) (vaddrSrc offset : Vaddr) (size : UInt64) (flags : UInt32)
    (source : GrantSource) : Except Int GrantPlan :=
  match grantFlags source vaddrSrc size flags with
  | .error e => .error e
  | .ok (flags, align) =>
      let size := roundUp (size + offset) pageSize
      let npages := (size / pageSize).toUInt32.toNat
      let flags := contigFlags npages flags
      let vaddr := findVaSpace ut size flags align
      if vaddr == 0 then .error errNoMemory else .ok ⟨vaddr, size, npages, flags, align⟩

/-- The call of `arch_uthread_translate_map` in `uthread_grant_pages`. -/
def grantTranslate (ut : Uthread) (env : Env) (vaddrSrc : Vaddr) (source : GrantSource)
    (plan : GrantPlan) : Int × List Paddr × PageTable :=
  archUthreadTranslateMap ut.pageTable env vaddrSrc plan.vaddr plan.npages plan.flags source.ptes

/-- The call of `uthread_map_alloc` in `uthread_grant_pages`. -/
def grantAlloc (ut : Uthread) (env : Env) (plan : GrantPlan) (pfns : List Paddr) :
    Except Int (Uthread × UthreadMap) :=
  uthreadMapAlloc ut env.malloc plan.vaddr (pfnsOf env plan.npages pfns) plan.size plan.flags
    plan.align

/-- `uthread_grant_pages` into `ut` -/
def uthreadGrantPages (ut : Uthread) (env : Env) (vaddrSrc : Vaddr) (size : UInt64)
    (flags : UInt32) (source : GrantSource) : Answer :=
  if size == 0 then (noError, 0, ut)
  else
    let offset := vaddrSrc &&& 0xFFF
    let vaddrSrc := roundDown vaddrSrc pageSize
    match grantPlan ut vaddrSrc offset size flags source with
    | .error e => (e, 0, ut)
    | .ok plan =>
        if !env.mallocPfn then (errNoMemory, plan.vaddr, ut)
        else
          match grantTranslate ut env vaddrSrc source plan with
          | (err, pfns, t) =>
              if err ≠ noError then (err, plan.vaddr, { ut with pageTable := t })
              else
                match grantAlloc { ut with pageTable := t } env plan pfns with
                | .error e => (e, plan.vaddr + offset, { ut with pageTable := t })
                | .ok (ut', _) => (noError, plan.vaddr + offset, ut')

/-- `uthread_unmap` of the record found. -/
def unmapRecord (ut : Uthread) (before : List UthreadMap) (mp : UthreadMap)
    (after : List UthreadMap) : Int × Uthread :=
  match archUthreadUnmap ut.pageTable mp with
  | (err, t) =>
      if err ≠ noError then (err, ut)
      else (noError, uthreadMapRemove { ut with pageTable := t } before mp after)

/-- `uthread_unmap` as far as the address space goes. -/
def uthreadUnmap (ut : Uthread) (vaddr : Vaddr) (size : UInt64) : Int × Uthread :=
  if vaddr == 0 then (errInvalidArgs, ut)
  else
    match uthreadMapFind ut vaddr size with
    | none => (errNotFound, ut)
    | some (before, mp, after) => unmapRecord ut before mp after

/-! ## Runs -/

/-- A call on the address space of one thread. -/
inductive Call where
  | map (va : Vaddr) (pfnList : List Paddr) (size : UInt64) (flags align : UInt32)
  | grant (vaddrSrc : Vaddr) (size : UInt64) (flags : UInt32) (source : GrantSource)
  | unmap (vaddr : Vaddr) (size : UInt64)

/-- What the call returns and leaves, `none` where it panics. -/
def Call.run (ut : Uthread) (env : Env) : Call → Option (Int × Uthread)
  | .map va pfnList size flags align =>
      match uthreadMap ut env va pfnList size flags align with
      | none => none
      | some (err, _, ut') => some (err, ut')
  | .grant vaddrSrc size flags source =>
      match uthreadGrantPages ut env vaddrSrc size flags source with
      | (err, _, ut') => some (err, ut')
  | .unmap vaddr size => some (uthreadUnmap ut vaddr size)

/-- One call that meets the condition. -/
def Step (ok : Uthread → Env → Call → Prop) (ut ut' : Uthread) : Prop :=
  ∃ c env e, ok ut env c ∧ c.run ut env = some (e, ut')

/-- What the calls of a run make of a thread. -/
def Reachable (ok : Uthread → Env → Call → Prop) : Uthread → Uthread → Prop :=
  Relation.ReflTransGen (Step ok)

/-- A thread as `uthread_create` starts it, before its stack is mapped. -/
def Uthread.init (startStack : Vaddr) : Uthread := ⟨startStack, [], maxUsrVa, fun _ => none⟩

/-- What the steps keep holds along a run. -/
theorem Reachable.invariant {ok : Uthread → Env → Call → Prop} {I : Uthread → Prop}
    {ut ut' : Uthread} (h : Reachable ok ut ut') (h0 : I ut)
    (hstep : ∀ s s' env c e, I s → ok s env c → c.run s env = some (e, s') → I s') : I ut' := by
  induction h with
  | refl => exact h0
  | tail _ hst ih =>
      obtain ⟨c, env, e, hok, hrun⟩ := hst
      exact hstep _ _ env c e ih hok hrun

/-! ## Runs on given calls -/

/-- Every allocation succeeds. -/
def Env.all : Env := ⟨true, true, fun _ => true, fun _ => 0, fun _ => 0⟩

/-- What a list of calls makes of a thread, `none` where one panics. -/
def runCalls (e : Env) (ut : Uthread) : List Call → Option Uthread
  | [] => some ut
  | c :: rest => (c.run ut e).bind (fun r => runCalls e r.2 rest)

theorem reachable_of_runCalls {ok : Uthread → Env → Call → Prop} {e : Env} {c : List Call}
    {ut ut' : Uthread} (hok : ∀ s, ∀ a ∈ c, ok s e a) (h : runCalls e ut c = some ut') :
    Reachable ok ut ut' := by
  induction c generalizing ut with
  | nil =>
      cases h
      exact Relation.ReflTransGen.refl
  | cons a rest ih =>
      obtain ⟨⟨r, s⟩, hrun, hrest⟩ := Option.bind_eq_some_iff.mp h
      exact Relation.ReflTransGen.head ⟨a, e, r, hok ut a (List.mem_cons_self ..), hrun⟩
        (ih (fun t b hb => hok t b (List.mem_cons_of_mem _ hb)) hrest)

end TX2SecureUart.AddrSpace
