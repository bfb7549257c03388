/-
# `AddrSpace.Dma` — the physical blocks behind a range

`sys_prepare_dma` walks a range of user addresses and stores, for each piece of it that
lies in one page, the physical address and the size of the piece.
-/
import TX2SecureUart.AddrSpace.Assigns
import TX2SecureUart.Lib.ByteStore
import TX2SecureUart.Lib.LeBytes
import TX2SecureUart.Lib.Tiling

namespace TX2SecureUart.AddrSpace

open Mask UserSpace ByteStore Tiling

/-! ## The call -/

/-- `user_addr_t` -/
abbrev UserAddr := UInt32

/-- `DMA_FLAG_MULTI_PMEM` -/
def dmaFlagMultiPmem : UInt32 := 0x4

/-- `DMA_FLAG_ALLOW_PARTIAL` -/
def dmaFlagAllowPartial : UInt32 := 0x8

/-- `struct dma_pmem` -/
structure DmaPmem where
  paddr : Paddr
  size : UInt32
  pad : UInt32
deriving DecidableEq

/-- The structure as it lies in memory. -/
def DmaPmem.bytes (e : DmaPmem) : List UInt8 :=
  leBytes 8 e.paddr.toNat ++ (leBytes 4 e.size.toNat ++ leBytes 4 e.pad.toNat)

/-- `sizeof(struct dma_pmem)` -/
def sizeofDmaPmem : UInt32 := 16

/-- What the call meets: the thread, the user addresses that take a store, what lies in the heap
behind a list of pages, and what `kpmem.pad` held on the stack. -/
structure DmaEnv where
  ut : Uthread
  writable : Nat → Bool
  heap : Nat → Paddr
  pad : UInt32

/-- `arch_copy_to_user`, byte by byte up to the first fault. -/
def copyToUser (writable : Nat → Bool) : Nat → List UInt8 → (Nat → UInt8) → Int × (Nat → UInt8)
  | _, [], mem => (noError, mem)
  | a, b :: bs, mem =>
      if writable a then copyToUser writable (a + 1) bs (patch mem a [b]) else (errFault, mem)

/-- `uthread_virt_to_phys` -/
def uthreadVirtToPhys (env : DmaEnv) (vaddr : Vaddr) : Except Int Paddr :=
  match uthreadMapFind env.ut vaddr 0 with
  | none => .error errInvalidArgs
  | some (_, mp, _) =>
      if hasFlag mp.flags utmPhysContig then
        .ok (mp.pfnList.getD 0 (env.heap 0) + (vaddr - mp.vaddr))
      else
        let pg := ((vaddr - mp.vaddr) / pageSize).toUInt32.toNat
        .ok (mp.pfnList.getD pg (env.heap pg) + (vaddr &&& (pageSize - 1)))

/-- `MIN(left, PAGE_SIZE - (paddr & (PAGE_SIZE - 1)))` -/
def pieceSize (left : UInt32) (paddr : Paddr) : UInt32 :=
  if left.toUInt64 < pageSize - (paddr &&& (pageSize - 1)) then left
  else (pageSize - (paddr &&& (pageSize - 1))).toUInt32

/-- What the loop of `sys_prepare_dma` changes. -/
structure DmaState where
  mappedSize : UInt32
  pmem : UserAddr
  entries : UInt32
  mem : Nat → UInt8

/-- One round of the loop, which ends the call where it fails. -/
def dmaRound (env : DmaEnv) (uaddr size : UInt32) (s : DmaState) :
    Except (Int × (Nat → UInt8)) DmaState :=
  match uthreadVirtToPhys env (uaddr.toUInt64 + s.mappedSize.toUInt64) with
  | .error ret => .error (ret, s.mem)
  | .ok paddr =>
      let piece := pieceSize (size - s.mappedSize) paddr
      match copyToUser env.writable s.pmem.toNat (DmaPmem.bytes ⟨paddr, piece, env.pad⟩) s.mem with
      | (ret, mem) =>
          if ret ≠ noError then .error (ret, mem)
          else .ok ⟨s.mappedSize + piece, s.pmem + sizeofDmaPmem, s.entries + 1, mem⟩

/-- The loop, for at most `fuel` rounds; `none` where it is not over by then. -/
def dmaLoop (env : DmaEnv) (uaddr size flags : UInt32) :
    Nat → DmaState → Option (Except (Int × (Nat → UInt8)) DmaState)
  | 0, _ => none
  | fuel + 1, s =>
      match dmaRound env uaddr size s with
      | .error r => some (.error r)
      | .ok s' =>
          if s'.mappedSize < size && hasFlag flags dmaFlagMultiPmem then
            dmaLoop env uaddr size flags fuel s'
          else some (.ok s')

/-- What `sys_prepare_dma` returns after the loop. -/
def dmaResult (size flags : UInt32) : Except (Int × (Nat → UInt8)) DmaState → Int × (Nat → UInt8)
  | .error r => r
  | .ok s =>
      if !hasFlag flags dmaFlagAllowPartial && s.mappedSize != size then (errBadLen, s.mem)
      else (s.entries.toNat, s.mem)

/-- `sys_prepare_dma`, without the maintenance of the cache; `none` where the loop is not over
after `fuel` rounds. -/
def sysPrepareDma (env : DmaEnv) (fuel : Nat) (uaddr size flags : UInt32) (pmem : UserAddr)
    (mem : Nat → UInt8) : Option (Int × (Nat → UInt8)) :=
  if size == 0 || !uthreadIsValidRange env.ut.toUserSpace uaddr.toUInt64 size.toUInt64 then
    some (errInvalidArgs, mem)
  else (dmaLoop env uaddr size flags fuel ⟨0, pmem, 0, mem⟩).map (dmaResult size flags)

/-! ## Storing an entry -/

theorem copyToUser_ok {writable : Nat → Bool} {a : Nat} {bs : List UInt8} {mem mem' : Nat → UInt8}
    (h : copyToUser writable a bs mem = (noError, mem')) : mem' = patch mem a bs := by
  induction bs generalizing a mem with
  | nil =>
    cases h
    funext p
    simp [patch]
  | cons b bs ih =>
    rw [copyToUser] at h
    split at h
    · rw [ih h, show b :: bs = [b] ++ bs by rfl, patch_append]
      rfl
    · cases h

@[simp] theorem length_bytes (e : DmaPmem) : e.bytes.length = 16 := by
  simp [DmaPmem.bytes]

/-- The address of the entry with the number `i`. -/
def entryAt (pmem : UserAddr) (i : Nat) : Nat := (pmem.toNat + 16 * i) % 2 ^ 32

/-- The entries lie one behind the other in memory, from `pmem` on. -/
def Stored (pmem : UserAddr) (es : List DmaPmem) (mem : Nat → UInt8) : Prop :=
  ∀ (i : Nat) (e : DmaPmem), es[i]? = some e → slice mem (entryAt pmem i) 16 = e.bytes

theorem Stored.nil (pmem : UserAddr) (mem : Nat → UInt8) : Stored pmem [] mem := by
  intro i e h
  simp at h

/-- An entry stored behind the others leaves them as they are, where all of them fit below
the address at which they would begin again. -/
theorem Stored.concat {pmem : UserAddr} {es : List DmaPmem} {mem : Nat → UInt8} (h : Stored pmem es mem)
    (e : DmaPmem) (hfit : es.length < 2 ^ 28 - 1) :
    Stored pmem (es ++ [e]) (patch mem (entryAt pmem es.length) e.bytes) := by
  intro i e' he'
  rcases Nat.lt_or_ge i es.length with hi | hi
  · rw [List.getElem?_append_left hi] at he'
    rw [slice_patch_of_disjoint, h i e' he']
    rw [length_bytes, entryAt, entryAt]
    omega
  · have hlen := (List.getElem?_eq_some_iff.mp he').1
    rw [List.length_append, List.length_singleton] at hlen
    obtain rfl : i = es.length := by omega
    rw [List.getElem?_concat_length] at he'
    cases he'
    have := slice_patch mem (entryAt pmem es.length) e.bytes
    rwa [length_bytes] at this

/-! ## The bytes behind a range -/

/-- The range lies inside the record. -/
def Inside (mp : UthreadMap) (uaddr size : UInt32) : Prop :=
  mp.vaddr.toNat ≤ uaddr.toNat ∧ uaddr.toNat + size.toNat ≤ mp.vaddr.toNat + mp.size.toNat

/-- What the loop uses of the physical bytes behind a range: the lookup finds them, those of one
page follow each other, and the first one lies `off` bytes into its page. -/
structure Physical (env : DmaEnv) (mp : UthreadMap) (uaddr size : UInt32) (off : Nat)
    (phys : Nat → Paddr) : Prop where
  found : ∀ k < size.toNat, uthreadVirtToPhys env (uaddr.toUInt64 + UInt64.ofNat k) = .ok (phys k)
  assigned : ∀ k < size.toNat, Assigns mp (uaddr.toUInt64 + UInt64.ofNat k) (phys k)
  follows : ∀ k j, k + j < size.toNat → (phys k).toNat % 4096 + j < 4096 →
    phys (k + j) = phys k + UInt64.ofNat j
  offset : ∀ k < size.toNat, (phys k).toNat % 4096 = (off + k) % 4096

section
variable {env : DmaEnv} {mp : UthreadMap} {uaddr size : UInt32} {k : Nat}

theorem addr_toNat (hk : k < size.toNat) : (uaddr.toUInt64 + UInt64.ofNat k).toNat = uaddr.toNat + k := by
  have hu : uaddr.toNat < 2 ^ 32 := uaddr.toNat_lt
  have hs : size.toNat < 2 ^ 32 := size.toNat_lt
  rw [UInt64.toNat_add, UInt32.toNat_toUInt64, UInt64.toNat_ofNat']
  omega

theorem Inside.holds (h : Inside mp uaddr size) (hfits : mp.vaddr < mp.stop) (hk : k < size.toNat) :
    mp.toUthreadMap.Holds (uaddr.toUInt64 + UInt64.ofNat k) := by
  obtain ⟨hlo, hhi⟩ := h
  have hstop := (stop_toNat hfits).1
  rw [UthreadMap.stop] at hstop
  refine ⟨?_, ?_⟩
  · rw [UInt64.le_iff_toNat_le, addr_toNat hk]
    omega
  · rw [UInt64.lt_iff_toNat_lt, addr_toNat hk, hstop]
    omega

/-- How far into the record an address of the range lies. -/
theorem Inside.dist (h : Inside mp uaddr size) (hk : k < size.toNat) :
    (uaddr.toUInt64 + UInt64.ofNat k - mp.vaddr).toNat = uaddr.toNat + k - mp.vaddr.toNat := by
  have hle : mp.vaddr ≤ uaddr.toUInt64 + UInt64.ofNat k := by
    rw [UInt64.le_iff_toNat_le, addr_toNat hk]
    exact Nat.le_add_right_of_le h.1
  rw [UInt64.toNat_sub_of_le _ _ hle, addr_toNat hk]

/-- In a contiguous record everything follows the first page. -/
theorem physical_contig (hl : Layout env.ut.mapList) (hmp : mp ∈ env.ut.mapList)
    (hin : Inside mp uaddr size) (hcontig : hasFlag mp.flags utmPhysContig = true) {first : Paddr}
    (hfirst : mp.pfnList.head? = some first) :
    Physical env mp uaddr size ((first + (uaddr.toUInt64 - mp.vaddr)).toNat % 4096)
      (fun k => first + (uaddr.toUInt64 + UInt64.ofNat k - mp.vaddr)) where
  found := by
    intro k hk
    obtain ⟨before, after, hfind⟩ := uthreadMapFind_of_holds hl hmp (hin.holds (hl.fits mp hmp) hk)
    have hget : mp.pfnList.getD 0 (env.heap 0) = first := by
      rw [List.getD_eq_getElem?_getD, ← List.head?_eq_getElem?, hfirst]
      rfl
    simp only [uthreadVirtToPhys, hfind, if_pos hcontig, hget]
  assigned := by
    intro k hk
    have hd : uaddr.toUInt64 + UInt64.ofNat k - mp.vaddr < mp.size := by
      rw [UInt64.lt_iff_toNat_lt, hin.dist hk]
      have := hin.1
      have := hin.2
      omega
    have hassign := Assigns.contig hcontig hfirst hd
    rwa [add_comm, UInt64.sub_add_cancel] at hassign
  follows := by
    intro k j _ _
    show first + (uaddr.toUInt64 + UInt64.ofNat (k + j) - mp.vaddr) = _
    rw [UInt64.ofNat_add]
    grind
  offset := by
    intro k _
    have hsum : first + (uaddr.toUInt64 + UInt64.ofNat k - mp.vaddr) =
        first + (uaddr.toUInt64 - mp.vaddr) + UInt64.ofNat k := by grind
    show (first + (uaddr.toUInt64 + UInt64.ofNat k - mp.vaddr)).toNat % 4096 = _
    rw [hsum, UInt64.toNat_add _ (UInt64.ofNat k), UInt64.toNat_ofNat']
    omega

/-- The number of the page in the list, and the distance into it. -/
theorem Inside.page (h : Inside mp uaddr size) (hk : k < size.toNat) :
    ((uaddr.toUInt64 + UInt64.ofNat k - mp.vaddr) / pageSize).toUInt32.toNat =
        (uaddr.toNat + k - mp.vaddr.toNat) / 4096 ∧
      ((uaddr.toUInt64 + UInt64.ofNat k) &&& (pageSize - 1)).toNat = (uaddr.toNat + k) % 4096 := by
  have hu : uaddr.toNat < 2 ^ 32 := uaddr.toNat_lt
  have hs : size.toNat < 2 ^ 32 := size.toNat_lt
  refine ⟨?_, ?_⟩
  · rw [UInt64.toNat_toUInt32, UInt64.toNat_div, h.dist hk, pageSize_toNat]
    omega
  · rw [UInt64.toNat_and, addr_toNat hk, show (pageSize - 1).toNat = 2 ^ 12 - 1 by decide,
      Nat.and_two_pow_sub_one_eq_mod]

/-- Where a listed page is found. -/
theorem Backed.page (hb : Backed mp) (hin : Inside mp uaddr size)
    (hpaged : hasFlag mp.flags utmPhysContig = false) (hk : k < size.toNat) :
    ∃ page, mp.pfnList[(uaddr.toNat + k - mp.vaddr.toNat) / 4096]? = some page ∧
      page.toNat % 4096 = 0 := by
  obtain ⟨-, hpages, hlen⟩ := hb.paged hpaged
  have hlt : (uaddr.toNat + k - mp.vaddr.toNat) / 4096 < mp.pfnList.length := by
    have := hin.1
    have := hin.2
    omega
  exact ⟨_, List.getElem?_eq_getElem hlt, hpages _ (List.getElem_mem hlt)⟩

/-- The physical address by the list of pages. -/
def listed (mp : UthreadMap) (heap : Nat → Paddr) (a : Nat) : Paddr :=
  mp.pfnList.getD ((a - mp.vaddr.toNat) / 4096) (heap ((a - mp.vaddr.toNat) / 4096)) +
    UInt64.ofNat (a % 4096)

theorem listed_toNat {page : Paddr} {heap : Nat → Paddr} {a : Nat}
    (hpage : mp.pfnList[(a - mp.vaddr.toNat) / 4096]? = some page) (halign : page.toNat % 4096 = 0) :
    (listed mp heap a).toNat = page.toNat + a % 4096 := by
  have hp : page.toNat < 2 ^ 64 := page.toNat_lt
  rw [listed, List.getD_eq_getElem?_getD, hpage, Option.getD_some, UInt64.toNat_add,
    UInt64.toNat_ofNat']
  omega

/-- In a record that lists its pages, a page is followed to its end. -/
theorem physical_paged (hl : Layout env.ut.mapList) (hmp : mp ∈ env.ut.mapList) (hb : Backed mp)
    (hin : Inside mp uaddr size) (hpaged : hasFlag mp.flags utmPhysContig = false) :
    Physical env mp uaddr size (uaddr.toNat % 4096) (fun k => listed mp env.heap (uaddr.toNat + k)) where
  found := by
    intro k hk
    obtain ⟨before, after, hfind⟩ := uthreadMapFind_of_holds hl hmp (hin.holds (hl.fits mp hmp) hk)
    obtain ⟨hpg, hoff⟩ := hin.page hk
    have hd : (uaddr.toUInt64 + UInt64.ofNat k) &&& (pageSize - 1) =
        UInt64.ofNat ((uaddr.toNat + k) % 4096) := by
      rw [← hoff, UInt64.ofNat_toNat]
    simp only [uthreadVirtToPhys, hfind, hpaged, Bool.false_eq_true, if_false, hpg, hd, listed]
  assigned := by
    intro k hk
    obtain ⟨page, hpage, -⟩ := hb.page hin hpaged hk
    have hlow := hin.1
    have hd : UInt64.ofNat ((uaddr.toNat + k) % 4096) < pageSize := by
      rw [UInt64.lt_iff_toNat_lt, UInt64.toNat_ofNat', pageSize_toNat]
      omega
    have haddr : pageAddr mp.vaddr ((uaddr.toNat + k - mp.vaddr.toNat) / 4096) +
        UInt64.ofNat ((uaddr.toNat + k) % 4096) = uaddr.toUInt64 + UInt64.ofNat k := by
      have hv := (hb.paged hpaged).1
      have hu : uaddr.toNat < 2 ^ 32 := uaddr.toNat_lt
      have hs : size.toNat < 2 ^ 32 := size.toNat_lt
      apply UInt64.toNat_inj.mp
      rw [addr_toNat hk, UInt64.toNat_add, pageAddr_toNat (by omega), UInt64.toNat_ofNat']
      omega
    have hassign := Assigns.paged hpaged hpage hd
    rw [haddr] at hassign
    show Assigns mp _ (listed mp env.heap (uaddr.toNat + k))
    rwa [listed, List.getD_eq_getElem?_getD, hpage, Option.getD_some]
  follows := by
    intro k j hkj hfit
    obtain ⟨page, hpage, halign⟩ := hb.page hin hpaged (show k < size.toNat by omega)
    have hlow := hin.1
    have hv := (hb.paged hpaged).1
    rw [listed_toNat hpage halign] at hfit
    have hsame : (uaddr.toNat + (k + j) - mp.vaddr.toNat) / 4096 =
        (uaddr.toNat + k - mp.vaddr.toNat) / 4096 := by omega
    have hnext : (uaddr.toNat + (k + j)) % 4096 = (uaddr.toNat + k) % 4096 + j := by omega
    show listed mp env.heap (uaddr.toNat + (k + j)) = listed mp env.heap (uaddr.toNat + k) + _
    rw [listed, listed, hsame, hnext, UInt64.ofNat_add, add_assoc]
  offset := by
    intro k hk
    obtain ⟨page, hpage, halign⟩ := hb.page hin hpaged hk
    rw [listed_toNat hpage halign]
    omega

theorem exists_physical (hl : Layout env.ut.mapList) (hmp : mp ∈ env.ut.mapList) (hb : Backed mp)
    (hin : Inside mp uaddr size) : ∃ off < 4096, ∃ phys, Physical env mp uaddr size off phys := by
  cases hcontig : hasFlag mp.flags utmPhysContig with
  | true =>
    have hhead := List.head?_eq_some_head (hb.contig hcontig)
    exact ⟨_, Nat.mod_lt _ (by decide), _, physical_contig hl hmp hin hcontig hhead⟩
  | false => exact ⟨_, Nat.mod_lt _ (by decide), _, physical_paged hl hmp hb hin hcontig⟩

end

/-! ## One round -/

theorem pieceSize_toNat (left : UInt32) (paddr : Paddr) :
    (pieceSize left paddr).toNat = min left.toNat (4096 - paddr.toNat % 4096) := by
  have hoff : (paddr &&& (pageSize - 1)).toNat = paddr.toNat % 4096 := by
    rw [UInt64.toNat_and, show (pageSize - 1).toNat = 2 ^ 12 - 1 by decide,
      Nat.and_two_pow_sub_one_eq_mod]
  have hle : paddr &&& (pageSize - 1) ≤ pageSize := by
    rw [UInt64.le_iff_toNat_le, hoff, pageSize_toNat]
    omega
  have hrest : (pageSize - (paddr &&& (pageSize - 1))).toNat = 4096 - paddr.toNat % 4096 := by
    rw [UInt64.toNat_sub_of_le _ _ hle, hoff, pageSize_toNat]
  unfold pieceSize
  split
  · rename_i hlt
    rw [UInt64.lt_iff_toNat_lt, UInt32.toNat_toUInt64, hrest] at hlt
    omega
  · rename_i hge
    rw [UInt64.lt_iff_toNat_lt, UInt32.toNat_toUInt64, hrest] at hge
    rw [UInt64.toNat_toUInt32, hrest]
    omega

/-- The entry is one piece of a physical page, and describes each byte of the range. -/
structure Describes (mp : UthreadMap) (r : Range) (e : DmaPmem) : Prop where
  nonempty : 0 < e.size.toNat
  onePage : e.paddr.toNat % 4096 + e.size.toNat ≤ 4096
  bytes : ∀ j < r.2, Assigns mp (UInt64.ofNat (r.1 + j)) (e.paddr + UInt64.ofNat j)

/-- The ranges that the entries stand for, from `uaddr` on. -/
def ranges (uaddr : UInt32) (es : List DmaPmem) : List Range :=
  consecutive uaddr.toNat (es.map (fun e => e.size.toNat))

/-- How many bytes the entries stand for. -/
def total (es : List DmaPmem) : Nat := (es.map (fun e => e.size.toNat)).sum

theorem ranges_concat (uaddr : UInt32) (es : List DmaPmem) (e : DmaPmem) :
    ranges uaddr (es ++ [e]) = ranges uaddr es ++ [(uaddr.toNat + total es, e.size.toNat)] := by
  rw [ranges, List.map_append, consecutive_append]
  rfl

theorem total_concat (es : List DmaPmem) (e : DmaPmem) : total (es ++ [e]) = total es + e.size.toNat := by
  simp [total]

/-- What holds each time the loop is entered or left with the entries written.  All but the first
piece start on a physical page, so that a piece which is not the last one ends where a page does. -/
structure Emitted (mp : UthreadMap) (uaddr size : UInt32) (pmem : UserAddr) (off : Nat)
    (es : List DmaPmem) (s : DmaState) : Prop where
  count : s.entries.toNat = es.length
  mapped : s.mappedSize.toNat = total es
  within : total es ≤ size.toNat
  next : s.pmem.toNat = entryAt pmem es.length
  stored : Stored pmem es s.mem
  described : List.Forall₂ (Describes mp) (ranges uaddr es) es
  pages : es ≠ [] → total es < size.toNat → off + total es = 4096 * es.length

section
variable {env : DmaEnv} {mp : UthreadMap} {uaddr size : UInt32} {pmem : UserAddr} {off : Nat}
  {phys : Nat → Paddr} {es : List DmaPmem} {s s' : DmaState}

theorem copyToUser_err {writable : Nat → Bool} {a : Nat} {bs : List UInt8} {mem : Nat → UInt8}
    (h : (copyToUser writable a bs mem).1 ≠ noError) : (copyToUser writable a bs mem).1 = errFault := by
  induction bs generalizing a mem with
  | nil => exact absurd rfl h
  | cons b bs ih =>
    rw [copyToUser] at h ⊢
    split
    · rename_i hw
      rw [if_pos hw] at h
      exact ih h
    · rfl

/-- A round writes the piece up to the end of the page or of the range, or meets a fault. -/
theorem dmaRound_eq (hp : Physical env mp uaddr size off phys) (hlt : s.mappedSize.toNat < size.toNat) :
    ∃ e : DmaPmem, e.paddr = phys s.mappedSize.toNat ∧
      e.size.toNat = min (size.toNat - s.mappedSize.toNat) (4096 - e.paddr.toNat % 4096) ∧
      ((∃ mem, dmaRound env uaddr size s = .error (errFault, mem)) ∨
        dmaRound env uaddr size s = .ok ⟨s.mappedSize + e.size, s.pmem + sizeofDmaPmem, s.entries + 1,
          patch s.mem s.pmem.toNat e.bytes⟩) := by
  have hm : UInt64.ofNat s.mappedSize.toNat = s.mappedSize.toUInt64 := by
    apply UInt64.toNat_inj.mp
    have : s.mappedSize.toNat < 2 ^ 32 := s.mappedSize.toNat_lt
    rw [UInt64.toNat_ofNat', UInt32.toNat_toUInt64]
    omega
  have hfound := hp.found _ hlt
  rw [hm] at hfound
  have hleft : (size - s.mappedSize).toNat = size.toNat - s.mappedSize.toNat :=
    UInt32.toNat_sub_of_le _ _ (UInt32.le_iff_toNat_le.mpr (Nat.le_of_lt hlt))
  refine ⟨⟨phys s.mappedSize.toNat, pieceSize (size - s.mappedSize) (phys s.mappedSize.toNat), env.pad⟩,
    rfl, ?_, ?_⟩
  · rw [pieceSize_toNat, hleft]
  · have hfault := @copyToUser_err env.writable s.pmem.toNat (DmaPmem.bytes ⟨phys s.mappedSize.toNat,
      pieceSize (size - s.mappedSize) (phys s.mappedSize.toNat), env.pad⟩) s.mem
    simp only [dmaRound, hfound]
    cases hcopy : copyToUser env.writable s.pmem.toNat (DmaPmem.bytes ⟨phys s.mappedSize.toNat,
      pieceSize (size - s.mappedSize) (phys s.mappedSize.toNat), env.pad⟩) s.mem with
    | mk ret mem =>
      rw [hcopy] at hfault
      by_cases hret : ret = noError
      · subst hret
        rw [copyToUser_ok hcopy]
        exact .inr rfl
      · refine .inl ⟨mem, ?_⟩
        rw [if_pos hret]
        exact congrArg (fun r => Except.error (r, mem)) (hfault hret)

/-- What one round keeps. -/
theorem Emitted.round (hp : Physical env mp uaddr size off phys) (hoff : off < 4096)
    (hs : Emitted mp uaddr size pmem off es s) (hlt : total es < size.toNat) {e : DmaPmem}
    (hpaddr : e.paddr = phys (total es))
    (hsize : e.size.toNat = min (size.toNat - total es) (4096 - e.paddr.toNat % 4096)) :
    Emitted mp uaddr size pmem off (es ++ [e])
      ⟨s.mappedSize + e.size, s.pmem + sizeofDmaPmem, s.entries + 1,
        patch s.mem s.pmem.toNat e.bytes⟩ := by
  have hsz : size.toNat < 2 ^ 32 := size.toNat_lt
  have hfew : 4096 * es.length < 4096 + 2 ^ 32 := by
    by_cases hes : es = []
    · subst hes
      decide
    · have := hs.pages hes hlt
      omega
  have hphase := hp.offset _ hlt
  rw [← hpaddr] at hphase
  refine ⟨?_, ?_, ?_, ?_, ?_, ?_, ?_⟩
  · rw [UInt32.toNat_add, hs.count, List.length_append, List.length_singleton,
      show (1 : UInt32).toNat = 1 by rfl]
    omega
  · rw [UInt32.toNat_add, hs.mapped, total_concat]
    omega
  · rw [total_concat]
    omega
  · rw [UInt32.toNat_add, hs.next, entryAt, entryAt, List.length_append, List.length_singleton,
      show sizeofDmaPmem.toNat = 16 by rfl]
    omega
  · show Stored pmem (es ++ [e]) (patch s.mem s.pmem.toNat e.bytes)
    rw [hs.next]
    exact hs.stored.concat e (by omega)
  · rw [ranges_concat]
    refine List.rel_append hs.described (List.Forall₂.cons ⟨by omega, by omega, ?_⟩ List.Forall₂.nil)
    intro j hj
    have hj : j < e.size.toNat := hj
    have hassign := hp.assigned (total es + j) (by omega)
    rw [hp.follows (total es) j (by omega) (by rw [← hpaddr]; omega), ← hpaddr] at hassign
    have haddr : uaddr.toUInt64 + UInt64.ofNat (total es + j) =
        UInt64.ofNat (uaddr.toNat + total es + j) := by
      rw [Nat.add_assoc, UInt64.ofNat_add uaddr.toNat]
      congr 1
      apply UInt64.toNat_inj.mp
      have : uaddr.toNat < 2 ^ 32 := uaddr.toNat_lt
      rw [UInt64.toNat_ofNat', UInt32.toNat_toUInt64]
      omega
    rwa [haddr] at hassign
  · intro _ hmore
    rw [total_concat] at hmore ⊢
    rw [List.length_append, List.length_singleton]
    by_cases hes : es = []
    · subst hes
      rw [show total [] = 0 by rfl] at hsize hphase hmore ⊢
      simp only [List.length_nil]
      omega
    · have := hs.pages hes hlt
      omega

/-! ## The loop -/

/-- The loop ends: with a fault, or with the last piece of the range where more than one piece is
asked for, and with the first one otherwise. -/
theorem dmaLoop_emitted (flags : UInt32) (hp : Physical env mp uaddr size off phys) (hoff : off < 4096)
    {fuel : Nat} (hs : Emitted mp uaddr size pmem off es s) (hlt : total es < size.toNat)
    (hfuel : size.toNat ≤ fuel + total es) :
    ∃ r, dmaLoop env uaddr size flags fuel s = some r ∧
      ((∃ mem, r = .error (errFault, mem)) ∨
        ∃ es' s', r = .ok s' ∧ Emitted mp uaddr size pmem off (es ++ es') s' ∧
          (hasFlag flags dmaFlagMultiPmem = true → total (es ++ es') = size.toNat) ∧
          (hasFlag flags dmaFlagMultiPmem = false → es'.length = 1)) := by
  induction fuel generalizing es s with
  | zero => omega
  | succ fuel ih =>
    obtain ⟨e, hpaddr, hsize, hround⟩ := dmaRound_eq hp (hs.mapped ▸ hlt)
    rw [hs.mapped] at hpaddr hsize
    have hs' := hs.round hp hoff hlt hpaddr hsize
    rcases hround with ⟨mem, herr⟩ | hok
    · refine ⟨.error (errFault, mem), ?_, .inl ⟨mem, rfl⟩⟩
      simp only [dmaLoop, herr]
    · have hmapped := hs'.mapped
      have hwithin := hs'.within
      have hpos : 0 < e.size.toNat := by omega
      have htotal := total_concat es e
      simp only [dmaLoop, hok]
      split
      · rename_i hgo
        rw [Bool.and_eq_true, decide_eq_true_eq, UInt32.lt_iff_toNat_lt, hmapped] at hgo
        obtain ⟨r, hr, hcases⟩ := ih hs' hgo.1 (by omega)
        refine ⟨r, hr, ?_⟩
        rcases hcases with hfault | ⟨es', s', rfl, hes', hmulti, -⟩
        · exact .inl hfault
        · rw [List.append_assoc] at hes' hmulti
          refine .inr ⟨_, s', rfl, hes', hmulti, ?_⟩
          intro hsingle
          rw [hsingle] at hgo
          exact absurd hgo.2 Bool.false_ne_true
      · rename_i hstop
        refine ⟨_, rfl, .inr ⟨[e], _, rfl, hs', ?_, fun _ => rfl⟩⟩
        intro hmulti
        rw [hmulti, Bool.and_true, decide_eq_true_eq, UInt32.lt_iff_toNat_lt, hmapped] at hstop
        omega

/-- Before the first round nothing is written. -/
theorem Emitted.start (mp : UthreadMap) (uaddr size : UInt32) (pmem : UserAddr) (off : Nat)
    (mem : Nat → UInt8) : Emitted mp uaddr size pmem off [] ⟨0, pmem, 0, mem⟩ where
  count := rfl
  mapped := rfl
  within := Nat.zero_le _
  next := by
    have : pmem.toNat < 2 ^ 32 := pmem.toNat_lt
    show pmem.toNat = (pmem.toNat + 16 * 0) % 2 ^ 32
    omega
  stored := Stored.nil pmem mem
  described := List.Forall₂.nil
  pages := fun h => absurd rfl h

end

/-! ## The result -/

variable (env : DmaEnv) (uaddr size flags : UInt32) (pmem : UserAddr) (mem : Nat → UInt8) in
/-- The call ends for every range inside a mapping.  Where it succeeds, it returns the number of
the entries that lie at `pmem`.  The entries describe ranges one behind the other from `uaddr` on,
each a piece of one physical page, byte by byte as the mapping assigns them.  They describe `size`
bytes where more than one entry is asked for; otherwise there is one, and it describes `size` bytes
or a part is allowed. -/
theorem sysPrepareDma_describes {mp : UthreadMap} (hl : Layout env.ut.mapList)
    (hmp : mp ∈ env.ut.mapList) (hb : Backed mp) (hin : Inside mp uaddr size) :
    ∃ ret mem', sysPrepareDma env size.toNat uaddr size flags pmem mem = some (ret, mem') ∧
      (0 ≤ ret → ∃ es : List DmaPmem, ret = es.length ∧ Stored pmem es mem' ∧
        List.Forall₂ (Describes mp) (ranges uaddr es) es ∧
        (hasFlag flags dmaFlagMultiPmem = true → total es = size.toNat) ∧
        (hasFlag flags dmaFlagMultiPmem = false → es.length = 1 ∧
          (total es = size.toNat ∨ hasFlag flags dmaFlagAllowPartial = true))) := by
  have hfail : ∀ e : Int, e < 0 → ¬0 ≤ e := fun e he h => absurd he (not_lt.mpr h)
  rw [sysPrepareDma]
  split
  · exact ⟨errInvalidArgs, mem, rfl, fun h => absurd h (hfail _ (by decide))⟩
  rename_i hargs
  have hpos : total [] < size.toNat := by
    rw [Bool.or_eq_true, not_or, beq_iff_eq] at hargs
    exact Nat.pos_of_ne_zero (fun h0 => hargs.1 (UInt32.toNat_inj.mp h0))
  obtain ⟨off, hoff, phys, hp⟩ := exists_physical hl hmp hb hin
  obtain ⟨r, hr, hcases⟩ := dmaLoop_emitted flags hp hoff (Emitted.start mp uaddr size pmem off mem) hpos
    (show size.toNat ≤ size.toNat + total [] from Nat.le_refl _)
  rw [hr]
  rcases hcases with ⟨mem', rfl⟩ | ⟨es, s, rfl, hes, hmulti, hsingle⟩
  · exact ⟨errFault, mem', rfl, fun h => absurd h (hfail _ (by decide))⟩
  · rw [List.nil_append] at hes hmulti
    show ∃ ret mem', some (dmaResult size flags (.ok s)) = some (ret, mem') ∧ _
    rw [dmaResult]
    split
    · exact ⟨errBadLen, s.mem, rfl, fun h => absurd h (hfail _ (by decide))⟩
    · rename_i hlen
      refine ⟨_, s.mem, rfl, ?_⟩
      intro _
      refine ⟨es, congrArg Int.ofNat hes.count, hes.stored, hes.described, hmulti, ?_⟩
      intro hflag
      refine ⟨hsingle hflag, ?_⟩
      cases hpart : hasFlag flags dmaFlagAllowPartial with
      | true => exact .inr rfl
      | false =>
        rw [hpart, Bool.not_false, Bool.true_and, bne_iff_ne, not_not] at hlen
        rw [← hes.mapped, hlen]
        exact .inl rfl

/-- Two pages that do not follow each other in memory. -/
def listedRecord : UthreadMap :=
  newMap 0x10000 [0x80005000, 0x80001000] 0x2000 (utmR ||| utmW) utMapAlign4KB

/-- A thread with that mapping only, all of it writable. -/
def listedEnv : DmaEnv :=
  { ut := { startStack := 0x1000000, mapList := [listedRecord], nsVaBottom := maxUsrVa,
            pageTable := fun _ => none }
    writable := fun a => 0x10000 ≤ a && a < 0x12000
    heap := fun _ => 0
    pad := 0 }

theorem listedEnv_layout : Layout listedEnv.ut.mapList :=
  ⟨by decide, List.pairwise_singleton _ _⟩

theorem listedRecord_pages : listedRecord.pfnList = [0x80005000, 0x80001000] := by decide

theorem listedRecord_size : listedRecord.size.toNat = 0x2000 := by decide

theorem listedRecord_vaddr : listedRecord.vaddr.toNat = 0x10000 := by decide

theorem listedRecord_backed : Backed listedRecord where
  contig := by
    intro h
    exact absurd h (by decide)
  paged := by
    intro _
    rw [listedRecord_vaddr, listedRecord_pages, listedRecord_size]
    refine ⟨rfl, ?_, Nat.le_refl _⟩
    intro page hpage
    simp only [List.mem_cons, List.not_mem_nil, or_false] at hpage
    rcases hpage with rfl | rfl
    · rfl
    · rfl

theorem listedRecord_inside : Inside listedRecord 0x10FFD 6 := by
  rw [Inside, listedRecord_vaddr, listedRecord_size]
  decide

/-- A range across the end of the first page. -/
theorem sysPrepareDma_describes_crossing :
    ∃ mem', sysPrepareDma listedEnv (6 : UInt32).toNat 0x10FFD 6 dmaFlagMultiPmem 0x10000 (fun _ => 0) =
        some (2, mem') ∧
      ∃ es : List DmaPmem, es.length = 2 ∧ Stored 0x10000 es mem' ∧
        List.Forall₂ (Describes listedRecord) (ranges 0x10FFD es) es ∧ total es = 6 := by
  obtain ⟨ret, mem', hcall, hret⟩ := sysPrepareDma_describes listedEnv 0x10FFD 6 dmaFlagMultiPmem 0x10000
    (fun _ => 0) listedEnv_layout (List.mem_singleton.mpr rfl) listedRecord_backed listedRecord_inside
  have htwo : (sysPrepareDma listedEnv (6 : UInt32).toNat 0x10FFD 6 dmaFlagMultiPmem 0x10000
      (fun _ => 0)).map Prod.fst = some 2 := by decide +kernel
  rw [hcall] at htwo
  obtain rfl : ret = 2 := Option.some.inj htwo
  obtain ⟨es, hlen, hstored, hdescribed, htotal, -⟩ := hret (by decide)
  exact ⟨mem', hcall, es, by omega, hstored, hdescribed, htotal (by decide)⟩

end TX2SecureUart.AddrSpace
