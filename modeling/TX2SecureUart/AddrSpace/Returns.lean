/-
# `AddrSpace.Returns` — what `munmap` gives back

The pages on the free lists and those under the records made by
`uthread_pmm_alloc_and_map` are all different, as long as every record that is
unmapped either is one of those or gives nothing back.  `uthread_unmap` tells
them apart by `MMAP_FLAG_DEVICE_MEM`, which in a record is `UTM_W`.
-/
import TX2SecureUart.AddrSpace.Undo
import TX2SecureUart.AddrSpace.Pmm

namespace TX2SecureUart.AddrSpace

open Mask UserSpace

/-! ## The allocator -/

/-- All pages on the free lists. -/
def freePages (arenas : List Arena) : List Paddr := arenas.flatMap (·.freeList)

/-- Where a page lies does not depend on what is free. -/
theorem addressToPage_freeList (a : Arena) (freeList : List Paddr) (rest : List Arena)
    (q : Paddr) :
    addressToPage ({ a with freeList } :: rest) q = addressToPage (a :: rest) q := by
  have hholds : ({ a with freeList } : Arena).holds q = a.holds q := rfl
  rw [addressToPage, addressToPage, List.find?_cons, List.find?_cons, hholds]
  cases a.holds q <;> rfl

theorem addressToPage_pmmFreePage (arenas : List Arena) (p q : Paddr) :
    addressToPage (pmmFreePage p arenas) q = addressToPage arenas q := by
  induction arenas with
  | nil => rfl
  | cons a rest ih =>
      rw [pmmFreePage]
      split
      · exact addressToPage_freeList a _ rest q
      · simp only [addressToPage, List.find?_cons] at ih ⊢
        split
        · rfl
        · exact ih

theorem addressToPage_pmmFree (pages : List Paddr) (arenas : List Arena) (q : Paddr) :
    addressToPage (pmmFree pages arenas) q = addressToPage arenas q := by
  induction pages generalizing arenas with
  | nil => rfl
  | cons p rest ih =>
      rw [pmmFree, List.foldl_cons]
      exact (ih _).trans (addressToPage_pmmFreePage arenas p q)

/-- A page freed goes on one free list. -/
theorem pmmFreePage_perm {arenas : List Arena} {p : Paddr}
    (h : (addressToPage arenas p).isSome = true) :
    (freePages (pmmFreePage p arenas)).Perm (p :: freePages arenas) := by
  induction arenas with
  | nil => simp [addressToPage] at h
  | cons a rest ih =>
      rw [pmmFreePage]
      split
      · exact List.Perm.refl _
      · rename_i hno
        have hrest : (addressToPage rest p).isSome = true := by
          simpa [addressToPage, List.find?_cons, hno] using h
        exact ((ih hrest).append_left a.freeList).trans List.perm_middle

theorem pmmFree_perm {pages : List Paddr} {arenas : List Arena}
    (h : ∀ p ∈ pages, (addressToPage arenas p).isSome = true) :
    (freePages (pmmFree pages arenas)).Perm (pages ++ freePages arenas) := by
  induction pages generalizing arenas with
  | nil => exact List.Perm.refl _
  | cons p rest ih =>
      rw [pmmFree, List.foldl_cons]
      have hrest : ∀ q ∈ rest, (addressToPage (pmmFreePage p arenas) q).isSome = true := by
        intro q hq
        rw [addressToPage_pmmFreePage]
        exact h q (List.mem_cons_of_mem _ hq)
      refine (ih hrest).trans ?_
      exact ((pmmFreePage_perm (h p (List.mem_cons_self ..))).append_left rest).trans
        List.perm_middle

variable {arenas arenas' : List Arena} {pages : List Paddr} {count : Nat}

theorem addressToPage_pmmAllocPages (h : pmmAllocPages count arenas = (pages, arenas'))
    (q : Paddr) : addressToPage arenas' q = addressToPage arenas q := by
  cases arenas with
  | nil =>
      cases h
      rfl
  | cons a rest =>
      cases h
      exact addressToPage_freeList a _ rest q

/-- What is allocated leaves the free lists. -/
theorem pmmAllocPages_eq (h : pmmAllocPages count arenas = (pages, arenas')) :
    pages ++ freePages arenas' = freePages arenas := by
  cases arenas with
  | nil =>
      cases h
      rfl
  | cons a rest =>
      cases h
      simp only [freePages, List.flatMap_cons]
      rw [← List.append_assoc, List.take_append_drop]

/-! ## The invariant -/

/-- The pages under the records of `uthread_pmm_alloc_and_map`. -/
def ownedPages (obtained : Vaddr → Option (List Paddr)) (l : List UthreadMap) : List Paddr :=
  l.flatMap (fun mp => (obtained mp.vaddr).getD [])

/-- Records with pages look as `uthread_pmm_alloc_and_map` makes them, and every
page is free or under one record. -/
structure MemInv (s : Mem) : Prop where
  layout : Layout s.ut.mapList
  record : ∀ mp ∈ s.ut.mapList, ∀ pages, s.obtained mp.vaddr = some pages →
    hasFlag mp.flags mmapFlagDeviceMem = true ∧ mp.pfnList = pages ∧
      (mp.size / pageSize).toNat = pages.length
  pages : ∀ p ∈ freePages s.arenas ++ ownedPages s.obtained s.ut.mapList,
    addressToPage s.arenas p = some p
  nodup : (freePages s.arenas ++ ownedPages s.obtained s.ut.mapList).Nodup

theorem MemStart.inv {s : Mem} (h : MemStart s) : MemInv s := by
  have hnone : ownedPages s.obtained s.ut.mapList = [] := by
    simp [ownedPages, h.obtained]
  refine ⟨h.layout, ?_, ?_, ?_⟩
  · intro mp _ pages hp
    simp [h.obtained] at hp
  · rw [hnone, List.append_nil]
    exact h.pages
  · rw [hnone, List.append_nil]
    exact h.nodup

variable {obtained : Vaddr → Option (List Paddr)} {ut : Uthread} {l : List UthreadMap}
  {mp : UthreadMap} {o : Option (List Paddr)}

/-- Noting a new record leaves the old ones as they are. -/
theorem noteRecord_of_mem (h : mp ∈ ut.mapList) :
    noteRecord obtained ut o mp.vaddr = obtained mp.vaddr := by
  rw [noteRecord, if_pos (List.any_eq_true.mpr ⟨mp, h, by simp⟩)]

theorem noteRecord_new (hl : Layout l) (hins : insertMap mp ut.mapList = some l) :
    noteRecord obtained ut o mp.vaddr = o := by
  rw [noteRecord, if_neg]
  intro hany
  obtain ⟨m, hm, heq⟩ := List.any_eq_true.mp hany
  have hmem := (insertMap_perm hins).mem_iff.mpr (List.mem_cons_of_mem _ hm)
  have hmp := (insertMap_perm hins).mem_iff.mpr (List.mem_cons_self ..)
  have hva : m.vaddr = mp.vaddr := by simpa using heq
  rcases hl.insert_apart hins hm with hle | hle
  · rw [← hva] at hle
    exact absurd (hl.fits m hmem) (UInt64.not_lt.mpr hle)
  · rw [hva] at hle
    exact absurd (hl.fits mp hmp) (UInt64.not_lt.mpr hle)

theorem ownedPages_note (hsub : ∀ m ∈ l, m ∈ ut.mapList) :
    ownedPages (noteRecord obtained ut o) l = ownedPages obtained l := by
  rw [ownedPages, ownedPages, List.flatMap_congr]
  intro m hm
  rw [noteRecord_of_mem (hsub m hm)]

/-- A record added brings its pages. -/
theorem ownedPages_insert (hl : Layout l) (hins : insertMap mp ut.mapList = some l) :
    (ownedPages (noteRecord obtained ut o) l).Perm
      (o.getD [] ++ ownedPages obtained ut.mapList) := by
  refine ((insertMap_perm hins).flatMap_right _).trans ?_
  rw [List.flatMap_cons, noteRecord_new hl hins]
  exact (List.Perm.of_eq (ownedPages_note (fun _ hm => hm))).append_left _

theorem ownedPages_remove {before after : List UthreadMap} :
    (ownedPages obtained (before ++ mp :: after)).Perm
      ((obtained mp.vaddr).getD [] ++ ownedPages obtained (before ++ after)) := by
  simp only [ownedPages, List.flatMap_append, List.flatMap_cons]
  rw [← List.append_assoc, ← List.append_assoc]
  exact List.Perm.append_right _ List.perm_append_comm

/-- A change to the thread that brings no pages, beside one to the allocator that
keeps the free pages. -/
theorem MemInv.change_none {s : Mem} {ut' : Uthread} {fixed : Bool} (h : MemInv s)
    (hc : Change s.ut fixed ut') (hgeo : ∀ q, addressToPage arenas q = addressToPage s.arenas q)
    (hfree : (freePages arenas).Perm (freePages s.arenas)) :
    MemInv ⟨ut', arenas, noteRecord s.obtained s.ut none⟩ := by
  have hl := hc.layout h.layout
  have hsub : (ownedPages (noteRecord s.obtained s.ut none) ut'.mapList).Subperm
      (ownedPages s.obtained s.ut.mapList) := by
    cases hc with
    | table t => exact (List.Perm.of_eq (ownedPages_note (fun _ hm => hm))).subperm
    | insert t hfits hins _ =>
        have hperm : (ownedPages (noteRecord s.obtained s.ut none) _).Perm
            (Option.getD none [] ++ _) := ownedPages_insert hl hins
        exact hperm.subperm
    | @remove before after mp t hlist _ =>
        have hmem : ∀ m ∈ before ++ after, m ∈ s.ut.mapList := by
          intro m hm
          rw [hlist]
          rcases List.mem_append.mp hm with hm | hm
          · exact List.mem_append_left _ hm
          · exact List.mem_append_right _ (List.mem_cons_of_mem _ hm)
        rw [ownedPages_note hmem, hlist]
        exact (List.sublist_append_right _ _).subperm.trans ownedPages_remove.symm.subperm
  have hall := hfree.subperm.append hsub
  refine ⟨hl, ?_, ?_, ?_⟩
  · intro m hm pages hp
    dsimp only at hm hp
    cases hc with
    | table t =>
        rw [noteRecord_of_mem (show m ∈ s.ut.mapList from hm)] at hp
        exact h.record m hm pages hp
    | insert t hfits hins _ =>
        rcases List.mem_cons.mp ((insertMap_perm hins).mem_iff.mp hm) with rfl | hm
        · rw [noteRecord_new hl hins] at hp
          cases hp
        · rw [noteRecord_of_mem hm] at hp
          exact h.record m hm pages hp
    | remove t hlist _ =>
        have hm' : m ∈ s.ut.mapList := by
          rw [hlist]
          rcases List.mem_append.mp hm with hm | hm
          · exact List.mem_append_left _ hm
          · exact List.mem_append_right _ (List.mem_cons_of_mem _ hm)
        rw [noteRecord_of_mem hm'] at hp
        exact h.record m hm' pages hp
  · intro p hp
    dsimp only at hp ⊢
    rw [hgeo]
    exact h.pages p (hall.subset hp)
  · obtain ⟨m, hperm, hsubl⟩ := hall
    exact hperm.nodup_iff.mp (h.nodup.sublist hsubl)

/-! ## The calls -/

theorem allocSize_lt (size : UInt32) : (allocSize size).toNat < 2 ^ 32 := by
  rw [allocSize, UInt32.toNat_toUInt64]
  exact UInt32.toNat_lt _

theorem pmmMapFlags_write (flags : UInt32) :
    hasFlag (pmmMapFlags flags) mmapFlagDeviceMem = true ∧
      hasFlag (pmmMapFlags flags) utmPhysContig = false := by
  rw [pmmMapFlags]
  cases hasFlag flags mmapFlagDeviceMem with
  | true => decide
  | false => decide

/-- A record with the pages just allocated. -/
theorem MemInv.alloc {s : Mem} {v : Vaddr} {size flags align : UInt32} {t : PageTable} {b : Vaddr}
    (h : MemInv s) (halloc : pmmAllocPages count s.arenas = (pages, arenas))
    (hlen : pages.length = (allocSize size / pageSize).toUInt32.toNat)
    (hmp : mp = newMap v pages (allocSize size) (pmmMapFlags flags) align)
    (hfits : mp.vaddr < mp.stop) (hins : insertMap mp s.ut.mapList = some l) :
    MemInv ⟨{ s.ut with mapList := l, nsVaBottom := b, pageTable := t }, arenas,
      noteRecord s.obtained s.ut (some pages)⟩ := by
  have hl := h.layout.insert hfits hins
  have hperm : (ownedPages (noteRecord s.obtained s.ut (some pages)) l).Perm
      (pages ++ ownedPages s.obtained s.ut.mapList) := ownedPages_insert hl hins
  have hgeo := addressToPage_pmmAllocPages halloc
  have hall : (freePages arenas ++ ownedPages (noteRecord s.obtained s.ut (some pages)) l).Perm
      (freePages s.arenas ++ ownedPages s.obtained s.ut.mapList) := by
    refine (hperm.append_left _).trans ?_
    rw [← pmmAllocPages_eq halloc, ← List.append_assoc]
    exact List.Perm.append_right _ List.perm_append_comm
  refine ⟨hl, ?_, ?_, ?_⟩
  · intro m hm ps hp
    dsimp only at hm hp
    rcases List.mem_cons.mp ((insertMap_perm hins).mem_iff.mp hm) with rfl | hm
    · rw [noteRecord_new hl hins, Option.some.injEq] at hp
      subst hp
      have hlt := allocSize_lt size
      have hsize : (allocSize size / pageSize).toUInt32.toNat =
          (allocSize size / pageSize).toNat := by
        rw [UInt64.toNat_toUInt32, UInt64.toNat_div, pageSize_toNat]
        exact Nat.mod_eq_of_lt (by omega)
      obtain ⟨hwrite, hcontig⟩ := pmmMapFlags_write flags
      subst hmp
      refine ⟨hwrite, ?_, ?_⟩
      · rw [newMap, allocPages, hcontig, if_neg (by decide), ← hlen]
        exact List.take_length
      · rw [hlen, hsize]
        rfl
    · rw [noteRecord_of_mem hm] at hp
      exact h.record m hm ps hp
  · intro p hp
    dsimp only at hp ⊢
    rw [hgeo]
    exact h.pages p (hall.mem_iff.mp hp)
  · exact hall.nodup_iff.mpr h.nodup

theorem MemInv.pmmAllocAndMap {s s' : Mem} {env : Env} {size flags align : UInt32} {e : Int}
    (h : MemInv s) (hrun : uthreadPmmAllocAndMap s env size flags align = some (e, s')) :
    MemInv s' := by
  cases halloc : pmmAllocPages (allocSize size / pageSize).toUInt32.toNat s.arenas with
  | mk pages arenas =>
      have hgeo := addressToPage_pmmAllocPages halloc
      have hback : ∀ q, addressToPage (pmmFree pages arenas) q = addressToPage s.arenas q :=
        fun q => (addressToPage_pmmFree pages arenas q).trans (hgeo q)
      have hfree : (freePages (pmmFree pages arenas)).Perm (freePages s.arenas) := by
        rw [← pmmAllocPages_eq halloc]
        refine pmmFree_perm ?_
        intro p hp
        have hmem : p ∈ freePages s.arenas := by
          rw [← pmmAllocPages_eq halloc]
          exact List.mem_append_left _ hp
        rw [hgeo, h.pages p (List.mem_append_left _ hmem)]
        rfl
      have hundo : MemInv { s with arenas := pmmFree pages arenas } := by
        have hall := hfree.append_right (ownedPages s.obtained s.ut.mapList)
        refine ⟨h.layout, h.record, ?_, hall.nodup_iff.mpr h.nodup⟩
        intro p hp
        dsimp only at hp ⊢
        rw [hback]
        exact h.pages p (hall.mem_iff.mp hp)
      simp only [uthreadPmmAllocAndMap, halloc] at hrun
      split at hrun
      · cases hrun
        exact hundo
      rename_i hlen
      split at hrun
      · cases hrun
        exact hundo
      cases hmap : uthreadMap s.ut env 0 pages (allocSize size) (pmmMapFlags flags) align with
      | none => simp [hmap] at hrun
      | some a =>
          obtain ⟨err, v, ut'⟩ := a
          simp only [hmap] at hrun
          split at hrun
          · cases hrun
            exact h.change_none (change_of_map hmap) hback hfree
          · rename_i hok
            cases hrun
            rcases uthreadMap_cases hmap with ⟨hrec, -⟩ | ⟨ut₁, mp, t, hrec, -, rfl⟩
            · rw [not_not.mp hok] at hrec
              rw [mapRecord] at hrec
              split at hrec
              · cases hrec
              split at hrec
              · cases hrec
              exact absurd rfl (uthreadMapAlloc_error hrec)
            · rw [mapRecord] at hrec
              split at hrec
              · cases hrec
              split at hrec
              · cases hrec
              obtain ⟨hfits, hmp, l, hins, rfl⟩ := uthreadMapAlloc_ok hrec
              have hfits' : mp.vaddr < mp.stop := by
                rw [hmp]
                exact hfits
              exact h.alloc halloc (not_not.mp hlen) hmp hfits' hins

theorem MemInv.setupMmio {s s' : Mem} {env : Env} {configBlob : List UInt32}
    {mmioId mapSize : UInt32} {e : Int} (h : MemInv s)
    (hrun : trustyAppSetupMmio s env configBlob mmioId mapSize = some (e, s')) : MemInv s' := by
  rw [trustyAppSetupMmio] at hrun
  split at hrun
  · cases hrun
    exact h
  split at hrun
  · cases hrun
    exact h
  split at hrun
  · cases hrun
  · rename_i hmap
    cases hrun
    exact h.change_none (change_of_map hmap) (fun _ => rfl) (List.Perm.refl _)

theorem MemInv.sysMmap {s s' : Mem} {env : Env} {configBlob : List UInt32}
    {uaddr size flags handle : UInt32} {e : Int} (h : MemInv s)
    (hrun : sysMmap s env configBlob uaddr size flags handle = some (e, s')) : MemInv s' := by
  rw [AddrSpace.sysMmap] at hrun
  split at hrun
  · exact h.pmmAllocAndMap hrun
  split at hrun
  · cases hrun
    exact h
  · exact h.setupMmio hrun

/-! ## Unmapping -/

section Unmap

variable {s : Mem} {env : Env} {uaddr size : UInt32} {before after : List UthreadMap}

/-- `address_to_page` finds a page that lies in some arena again. -/
theorem addressToPage_page {addr p : Paddr} (h : addressToPage arenas addr = some p) :
    (addressToPage arenas p).isSome = true := by
  rw [addressToPage, Option.map_eq_some_iff] at h
  obtain ⟨a, hfind, rfl⟩ := h
  have hmem := List.mem_of_find?_eq_some hfind
  have hholds := List.find?_some hfind
  rw [addressToPage, Option.isSome_map, List.find?_isSome]
  refine ⟨a, hmem, ?_⟩
  simp only [Arena.holds, Bool.and_eq_true, decide_eq_true_eq, UInt64.le_iff_toNat_le] at hholds ⊢
  obtain ⟨hlow, hhigh⟩ := hholds
  have hsub : (addr - a.base).toNat = addr.toNat - a.base.toNat :=
    UInt64.toNat_sub_of_le _ _ (UInt64.le_iff_toNat_le.mpr hlow)
  have hlt := addr.toNat_lt
  have hpage : (a.base + (addr - a.base) / pageSize * pageSize).toNat =
      a.base.toNat + (addr.toNat - a.base.toNat) / 4096 * 4096 := by
    rw [UInt64.toNat_add, UInt64.toNat_mul, UInt64.toNat_div, hsub, pageSize_toNat]
    rw [Nat.mod_eq_of_lt (by omega), Nat.mod_eq_of_lt (by omega)]
  rw [hpage]
  omega

theorem sysMunmap_none (env : Env) (h : unmapTarget s.ut uaddr.toUInt64 size.toUInt64 = none) :
    ∃ e, sysMunmap s env uaddr size = (e, s) := by
  rw [unmapTarget] at h
  rw [sysMunmap, uthreadUnmap, unmapTarget]
  split at h
  · rename_i hv
    rw [if_pos hv, if_pos hv]
    exact ⟨_, rfl⟩
  rename_i hv
  rw [if_neg hv, if_neg hv]
  cases hfind : uthreadMapFind s.ut uaddr.toUInt64 size.toUInt64 with
  | none => exact ⟨_, rfl⟩
  | some c =>
      obtain ⟨before, mp, after⟩ := c
      rw [hfind] at h
      dsimp only at h ⊢
      split at h
      · rename_i hout
        have harch : archUthreadUnmap s.ut.pageTable mp = (errInvalidArgs, s.ut.pageTable) := by
          rw [archUthreadUnmap, arm64MmuUnmap, if_pos hout]
        rw [if_pos hout, unmapRecord, harch]
        exact ⟨_, rfl⟩
      · cases h

theorem sysMunmap_some (env : Env)
    (h : unmapTarget s.ut uaddr.toUInt64 size.toUInt64 = some (before, mp, after)) :
    s.ut.mapList = before ++ mp :: after ∧
      ∃ t, sysMunmap s env uaddr size = (noError,
        { s with ut := uthreadMapRemove { s.ut with pageTable := t } before mp after,
                 arenas := pmmFree (unmapFrees s.arenas env.heap mp) s.arenas }) := by
  have htarget := h
  rw [unmapTarget] at h
  split at h
  · cases h
  rename_i hv
  cases hfind : uthreadMapFind s.ut uaddr.toUInt64 size.toUInt64 with
  | none =>
      rw [hfind] at h
      cases h
  | some c =>
      obtain ⟨b, m, a⟩ := c
      rw [hfind] at h
      dsimp only at h
      split at h
      · cases h
      rename_i hin
      cases h
      have hlist : s.ut.mapList = before ++ mp :: after := by
        rw [uthreadMapFind] at hfind
        split at hfind
        · cases hfind
        · exact (cutAt_eq hfind).1
      refine ⟨hlist, (archUthreadUnmap s.ut.pageTable mp).2, ?_⟩
      have harch : archUthreadUnmap s.ut.pageTable mp =
          (noError, (archUthreadUnmap s.ut.pageTable mp).2) := by
        rw [archUthreadUnmap, arm64MmuUnmap, if_neg hin]
      rw [sysMunmap, htarget, uthreadUnmap, if_neg hv, hfind]
      dsimp only
      rw [unmapRecord, harch]
      rfl

/-- The pages freed, where `pfn_list` is long enough. -/
theorem unmapFrees_eq {heap : Nat → Paddr} (h : unmapReads mp ≤ mp.pfnList.length) :
    unmapFrees arenas heap mp =
      (mp.pfnList.take (unmapReads mp)).filterMap (addressToPage arenas) := by
  have hlist : (List.range (unmapReads mp)).map (fun i => mp.pfnList.getD i (heap i)) =
      mp.pfnList.take (unmapReads mp) := by
    apply List.ext_getElem
    · simpa using h
    · intro i hi _
      have hi' : i < mp.pfnList.length := by
        have : i < unmapReads mp := by simpa using hi
        omega
      simp [List.getD_eq_getElem?_getD, hi']
  rw [unmapFrees, ← hlist, List.filterMap_map]
  rfl

/-- The records whose unmapping gives back what was obtained for them: those of
`uthread_pmm_alloc_and_map`, those without the bit, and those with the bit whose
`pfn_list` is read within its bounds and names no page of the allocator. -/
def CleanUnmap (s : Mem) (mp : UthreadMap) : Prop :=
  (s.obtained mp.vaddr).isSome = true ∨ hasFlag mp.flags mmapFlagDeviceMem = false ∨
    (unmapReads mp ≤ mp.pfnList.length ∧
      ∀ pfn ∈ mp.pfnList.take (unmapReads mp), addressToPage s.arenas pfn = none)

/-- Every record that the action takes away is one of those. -/
def MemAction.Clean (s : Mem) (a : MemAction) : Prop :=
  match a with
  | .munmap uaddr size =>
      ∀ before mp after,
        unmapTarget s.ut uaddr.toUInt64 size.toUInt64 = some (before, mp, after) → CleanUnmap s mp
  | _ => True

/-- The call puts on the free lists what was obtained for the record, each page
once, and reads no entry that the record does not have. -/
def ReturnsObtained (s : Mem) (env : Env) (uaddr size : UInt32) (mp : UthreadMap) : Prop :=
  (freePages (sysMunmap s env uaddr size).2.arenas).Perm
      ((s.obtained mp.vaddr).getD [] ++ freePages s.arenas) ∧
    ((s.obtained mp.vaddr).getD []).Nodup ∧ unmapReads mp ≤ mp.pfnList.length

theorem MemInv.obtained_nodup (h : MemInv s) (hm : mp ∈ s.ut.mapList) :
    ((s.obtained mp.vaddr).getD []).Nodup := by
  have howned := (List.nodup_append.mp h.nodup).2.1
  exact (List.nodup_flatMap.mp howned).1 mp hm

/-- A record of `uthread_pmm_alloc_and_map` gives back its pages. -/
theorem MemInv.frees_of_obtained (h : MemInv s) (hm : mp ∈ s.ut.mapList)
    (hp : s.obtained mp.vaddr = some pages) (heap : Nat → Paddr) :
    unmapReads mp ≤ mp.pfnList.length ∧ unmapFrees s.arenas heap mp = pages := by
  obtain ⟨hflag, hlist, hcount⟩ := h.record mp hm pages hp
  have hreads : unmapReads mp = mp.pfnList.length := by
    rw [unmapReads, if_pos hflag, hcount, hlist]
  refine ⟨hreads.le, ?_⟩
  rw [unmapFrees_eq hreads.le, hreads, List.take_length, hlist]
  have hpages : ∀ p ∈ pages, addressToPage s.arenas p = some p := by
    intro p hmem
    refine h.pages p (List.mem_append_right _ (List.mem_flatMap.mpr ⟨mp, hm, ?_⟩))
    rw [hp]
    exact hmem
  calc pages.filterMap (addressToPage s.arenas) = pages.filterMap some :=
        List.filterMap_congr hpages
    _ = pages := List.filterMap_some

/-- A clean record gives back what was obtained for it. -/
theorem CleanUnmap.frees (h : CleanUnmap s mp) (hinv : MemInv s) (hm : mp ∈ s.ut.mapList)
    (heap : Nat → Paddr) :
    unmapReads mp ≤ mp.pfnList.length ∧
      unmapFrees s.arenas heap mp = (s.obtained mp.vaddr).getD [] := by
  cases hp : s.obtained mp.vaddr with
  | some pages => exact hinv.frees_of_obtained hm hp heap
  | none =>
      rcases h with hsome | hflag | ⟨hreads, hnone⟩
      · rw [hp] at hsome
        cases hsome
      · have hreads : unmapReads mp = 0 := by
          rw [unmapReads, if_neg (by rw [hflag]; decide)]
        refine ⟨by omega, ?_⟩
        rw [unmapFrees, hreads]
        rfl
      · refine ⟨hreads, ?_⟩
        rw [unmapFrees_eq hreads]
        exact List.filterMap_eq_nil_iff.mpr hnone

/-- What is freed lies in some arena. -/
theorem unmapFrees_isSome {heap : Nat → Paddr} :
    ∀ p ∈ unmapFrees arenas heap mp, (addressToPage arenas p).isSome = true := by
  intro p hp
  obtain ⟨i, -, hi⟩ := List.mem_filterMap.mp hp
  exact addressToPage_page hi

/-- A record that is removed cleanly leaves the invariant. -/
theorem MemInv.sysMunmap (h : MemInv s) (hok : (MemAction.munmap uaddr size).Clean s) :
    MemInv (sysMunmap s env uaddr size).2 := by
  cases ht : unmapTarget s.ut uaddr.toUInt64 size.toUInt64 with
  | none =>
      obtain ⟨e, hrun⟩ := sysMunmap_none env ht
      rw [hrun]
      exact h
  | some c =>
      obtain ⟨before, mp, after⟩ := c
      obtain ⟨hlist, t, hrun⟩ := sysMunmap_some env ht
      have hsub : (before ++ after).Sublist s.ut.mapList := by
        rw [hlist]
        exact (List.sublist_cons_self mp after).append_left before
      have hm : mp ∈ s.ut.mapList := by
        rw [hlist]
        exact List.mem_append_right _ (List.mem_cons_self ..)
      have hfrees := (CleanUnmap.frees (hok before mp after ht) h hm env.heap).2
      have hall : (freePages (pmmFree (unmapFrees s.arenas env.heap mp) s.arenas) ++
          ownedPages s.obtained (before ++ after)).Perm
            (freePages s.arenas ++ ownedPages s.obtained s.ut.mapList) := by
        have hback : (freePages (pmmFree (unmapFrees s.arenas env.heap mp) s.arenas)).Perm _ :=
          pmmFree_perm unmapFrees_isSome
        refine (hback.append_right _).trans ?_
        rw [hfrees, hlist]
        refine (List.perm_append_comm.append_right _).trans ?_
        rw [List.append_assoc]
        exact ownedPages_remove.symm.append_left _
      rw [hrun]
      refine ⟨h.layout.sublist hsub, ?_, ?_, hall.nodup_iff.mpr h.nodup⟩
      · intro m hm ps hp
        exact h.record m (hsub.subset hm) ps hp
      · intro p hp
        dsimp only at hp ⊢
        rw [addressToPage_pmmFree]
        exact h.pages p (hall.mem_iff.mp hp)

end Unmap

/-! ## Runs -/

/-- One action, all of whose removals are clean, keeps the invariant. -/
theorem MemAction.inv {configBlob : List UInt32} {s s' : Mem} {env : Env} {a : MemAction}
    (h : MemInv s) (hok : a.Clean s) (hrun : a.run configBlob s env = some s') : MemInv s' := by
  cases a with
  | mmap uaddr size flags handle =>
      rw [run] at hrun
      split at hrun
      · cases hrun
      · rename_i hmmap
        cases hrun
        exact h.sysMmap hmmap
  | munmap uaddr size =>
      have hs : s' = (AddrSpace.sysMunmap s env uaddr size).2 := (Option.some.inj hrun).symm
      rw [hs]
      exact h.sysMunmap hok
  | map va pfnList size flags align =>
      rw [run] at hrun
      split at hrun
      · cases hrun
      · rename_i hmap
        cases hrun
        exact h.change_none (change_of_map hmap) (fun _ => rfl) (List.Perm.refl _)
  | grant vaddrSrc size flags source =>
      rw [run] at hrun
      split at hrun
      rename_i hgrant
      cases hrun
      exact h.change_none (change_of_grant hgrant) (fun _ => rfl) (List.Perm.refl _)

/-- The invariant holds along every run whose removals are clean. -/
theorem MemReachable.inv {configBlob : List UInt32} {s s' : Mem}
    (h : MemReachable configBlob (fun s a => a.Clean s) s s') (h0 : MemInv s) : MemInv s' := by
  induction h with
  | refl => exact h0
  | tail _ hstep ih =>
      obtain ⟨a, env, hok, hrun⟩ := hstep
      exact a.inv ih hok hrun

/-- A record removed after such a run gives back exactly what was obtained for
it if and only if it is clean too. -/
theorem munmap_returns_iff (configBlob : List UInt32) (s₀ s : Mem) (env : Env)
    (uaddr size : UInt32) (before after : List UthreadMap) (mp : UthreadMap) (h₀ : MemStart s₀)
    (hrun : MemReachable configBlob (fun s a => a.Clean s) s₀ s)
    (htarget : unmapTarget s.ut uaddr.toUInt64 size.toUInt64 = some (before, mp, after)) :
    ReturnsObtained s env uaddr size mp ↔ CleanUnmap s mp := by
  have hinv := hrun.inv h₀.inv
  obtain ⟨hlist, t, hmunmap⟩ := sysMunmap_some env htarget
  have hm : mp ∈ s.ut.mapList := by
    rw [hlist]
    exact List.mem_append_right _ (List.mem_cons_self ..)
  have hback : (freePages (sysMunmap s env uaddr size).2.arenas).Perm
      (unmapFrees s.arenas env.heap mp ++ freePages s.arenas) := by
    rw [hmunmap]
    exact pmmFree_perm unmapFrees_isSome
  constructor
  · intro h
    obtain ⟨hperm, -, hreads⟩ := h
    cases hp : s.obtained mp.vaddr with
    | some pages => exact .inl (by rw [hp]; rfl)
    | none =>
        rw [hp, Option.getD_none, List.nil_append] at hperm
        have hlen := (hback.symm.trans hperm).length_eq
        rw [List.length_append] at hlen
        have hnil : unmapFrees s.arenas env.heap mp = [] := List.length_eq_zero_iff.mp (by omega)
        rw [unmapFrees_eq hreads] at hnil
        exact .inr (.inr ⟨hreads, List.filterMap_eq_nil_iff.mp hnil⟩)
  · intro h
    obtain ⟨hreads, hfrees⟩ := h.frees hinv hm env.heap
    refine ⟨?_, hinv.obtained_nodup hm, hreads⟩
    rw [← hfrees]
    exact hback

/-! ## Two mappings of two pages -/

/-- An application without mappings, and four free pages. -/
def fourPages : Mem where
  ut := Uthread.init 0x100000
  arenas := [⟨0x80000000, 0x4000, [0x80000000, 0x80001000, 0x80002000, 0x80003000]⟩]
  obtained := fun _ => none

theorem fourPages_start : MemStart fourPages := by
  have hall : ((fourPages.arenas.flatMap (·.freeList)).all
      (fun p => addressToPage fourPages.arenas p == some p)) = true := by decide +kernel
  refine ⟨Layout.nil, fun _ => rfl, by decide +kernel, ?_⟩
  intro p hp
  exact beq_iff_eq.mp (List.all_eq_true.mp hall p hp)

/-- Two pages of device memory. -/
def deviceMmap : MemAction := .mmap 0 0x2000 mmapFlagDeviceMem 0

/-- The second region of the configuration, which is no memory of the allocator. -/
def ioMmap : MemAction := .mmap 0 0x2000 mmapFlagIoHandle 7

/-- A region of two pages with the id 7. -/
def ioBlob : List UInt32 := [trustyAppConfigKeyMapMem, 7, 0x3100000, 0x2000]

/-- The state after the call. -/
def afterMmap (a : MemAction) : Mem := (a.run ioBlob fourPages Env.all).getD fourPages

theorem afterMmap_reachable {ok : Mem → MemAction → Prop} {a : MemAction} (hok : ok fourPages a)
    (h : (a.run ioBlob fourPages Env.all).isSome = true) :
    MemReachable ioBlob ok fourPages (afterMmap a) := by
  obtain ⟨s, hs⟩ := Option.isSome_iff_exists.mp h
  refine Relation.ReflTransGen.single ⟨a, Env.all, hok, ?_⟩
  rw [afterMmap, hs, Option.getD_some]

theorem munmap_returns_iff_device :
    ReturnsObtained (afterMmap deviceMmap) Env.all 0x100000 0x2000
        (newMap 0x100000 [0x80000000, 0x80001000] 0x2000 (pmmMapFlags mmapFlagDeviceMem) 1) ↔
      CleanUnmap (afterMmap deviceMmap)
        (newMap 0x100000 [0x80000000, 0x80001000] 0x2000 (pmmMapFlags mmapFlagDeviceMem) 1) :=
  munmap_returns_iff ioBlob fourPages (afterMmap deviceMmap) Env.all 0x100000 0x2000 [] []
    _ fourPages_start (afterMmap_reachable trivial (by decide +kernel)) (by decide +kernel)

/-- An IO mapping of two pages has one entry and the bit of `UTM_W`; unmapping it
reads a second one. -/
theorem ioMmap_read_beyond :
    ¬∀ (configBlob : List UInt32) (s₀ s : Mem) (env : Env) (uaddr size : UInt32)
      (before after : List UthreadMap) (mp : UthreadMap), MemStart s₀ →
      MemReachable configBlob (fun _ _ => True) s₀ s →
      unmapTarget s.ut uaddr.toUInt64 size.toUInt64 = some (before, mp, after) →
      ReturnsObtained s env uaddr size mp := by
  intro h
  have hret := h ioBlob fourPages (afterMmap ioMmap) Env.all 0x100000 0x2000 [] []
    (newMap 0x100000 [0x3100000] 0x2000 (utmW ||| utmR ||| utmIo ||| utmPhysContig) utMapAlign4KB)
    fourPages_start (afterMmap_reachable trivial (by decide +kernel)) (by decide +kernel)
  exact absurd hret.2.2 (by decide +kernel)

end TX2SecureUart.AddrSpace
