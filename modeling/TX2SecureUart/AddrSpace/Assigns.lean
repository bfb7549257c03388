/-
# `AddrSpace.Assigns` — the physical byte behind an address

A record puts a physical byte behind each address of its range: behind the first page where
it is contiguous, in one of the pages that it lists otherwise.  That is what the page table
says once `arch_uthread_map` has accepted it.
-/
import TX2SecureUart.AddrSpace.Mmio

namespace TX2SecureUart.AddrSpace

open Mask UserSpace

/-! ## What a mapping assigns -/

/-- The record puts the physical byte behind the user address. -/
inductive Assigns (mp : UthreadMap) : Vaddr → Paddr → Prop
  | contig {first : Paddr} {d : UInt64} : hasFlag mp.flags utmPhysContig = true →
      mp.pfnList.head? = some first → d < mp.size → Assigns mp (mp.vaddr + d) (first + d)
  | paged {page : Paddr} {pg : Nat} {d : UInt64} : hasFlag mp.flags utmPhysContig = false →
      mp.pfnList[pg]? = some page → d < pageSize → Assigns mp (pageAddr mp.vaddr pg + d) (page + d)

/-- A contiguous record has its first page.  One that lists its pages starts on a page, and lists
as many whole ones as it is long. -/
structure Backed (mp : UthreadMap) : Prop where
  contig : hasFlag mp.flags utmPhysContig = true → mp.pfnList ≠ []
  paged : hasFlag mp.flags utmPhysContig = false → mp.vaddr.toNat % 4096 = 0 ∧
    (∀ page ∈ mp.pfnList, page.toNat % 4096 = 0) ∧ mp.size.toNat ≤ mp.pfnList.length * 4096

theorem Layout.eq_of_holds {l : List UthreadMap} (h : Layout l) {a b : UthreadMap} (ha : a ∈ l)
    (hb : b ∈ l) {v : Vaddr} (hva : a.toUthreadMap.Holds v) (hvb : b.toUthreadMap.Holds v) : a = b := by
  have hapart : ∀ {x y : UthreadMap}, x.stop ≤ y.vaddr → x.toUthreadMap.Holds v →
      y.toUthreadMap.Holds v → False := by
    intro x y hxy hx hy
    exact UInt64.lt_irrefl v (UInt64.lt_of_lt_of_le hx.2 (UInt64.le_trans hxy hy.1))
  have hsame := List.Pairwise.forall_of_forall_of_flip
    (R := fun x y : UthreadMap => x.toUthreadMap.Holds v → y.toUthreadMap.Holds v → x = y)
    (fun x _ _ _ => rfl) (h.sorted.imp (fun hxy hx hy => (hapart hxy hx hy).elim))
    (h.sorted.imp (fun hxy hy hx => (hapart hxy hx hy).elim))
  exact hsame ha hb hva hvb

/-- The lookup of an address finds the record that holds it. -/
theorem uthreadMapFind_of_holds {ut : Uthread} {mp : UthreadMap} (hl : Layout ut.mapList)
    (hmp : mp ∈ ut.mapList) {v : Vaddr} (hv : mp.toUthreadMap.Holds v) :
    ∃ before after, uthreadMapFind ut v 0 = some (before, mp, after) := by
  have hcovers : mp.covers v 0 = true := by
    simp only [UserSpace.UthreadMap.covers, UInt64.add_zero, Bool.and_eq_true, decide_eq_true_eq]
    exact ⟨hv, UInt64.le_of_lt hv.2⟩
  have hsome := cutAt_isSome (fun m => m.covers v 0) ut.mapList
  rw [List.any_eq_true.mpr ⟨mp, hmp, hcovers⟩] at hsome
  obtain ⟨⟨before, m, after⟩, hcut⟩ := Option.isSome_iff_exists.mp hsome
  obtain ⟨hlist, hm⟩ := cutAt_eq hcut
  have hmem : m ∈ ut.mapList := by
    rw [hlist]
    exact List.mem_append_right _ (List.mem_cons_self ..)
  simp only [UserSpace.UthreadMap.covers, Bool.and_eq_true, decide_eq_true_eq] at hm
  obtain rfl := hl.eq_of_holds hmem hmp hm.1 hv
  refine ⟨before, after, ?_⟩
  rw [uthreadMapFind, if_neg (by simp), hcut]

/-! ## The mapping in the page table -/

section
variable {t t' : PageTable} {mp : UthreadMap} {size : UInt64} {n k pg p : Nat}

theorem arm64MmuMap_entry {ptAlloc : Bool} {v : Vaddr} {paddr : Paddr} {attrs : UInt64}
    (h : arm64MmuMap t ptAlloc v paddr size attrs = (noError, t')) (hp : pageIn v size p = true) :
    ∃ pte, t' p = some pte ∧ Maps paddr size attrs v p pte := by
  have hmapped := arm64MmuMap_ok h
  refine arm64MmuMap_changes h ?_
  rw [hmapped.free p hp]
  exact Option.isSome_iff_ne_none.mp (hmapped.isSome p hp)

/-- Entries that are there stay. -/
theorem mapEntries_keeps {al : Nat → Bool} (hr : mapEntries mp al size n pg t = (noError, k, t'))
    (hp : (t p).isSome = true) : t' p = t p := by
  induction n generalizing pg t with
  | zero =>
    cases hr
    rfl
  | succ n ih =>
    cases hm : arm64MmuMap t (al pg) (entryAddr mp size pg) (mp.pfnList.getD pg 0) size
        (mapAttr mp.flags) with
    | mk err s =>
      simp only [mapEntries, hm] at hr
      split at hr
      · rename_i hne
        exact absurd (Prod.mk.inj hr).1 hne
      · rename_i hok
        rw [not_not.mp hok] at hm
        have hmapped := arm64MmuMap_ok hm
        have hout : pageIn (entryAddr mp size pg) size p = false := by
          cases hq : pageIn (entryAddr mp size pg) size p with
          | false => rfl
          | true => simp [hmapped.free p hq] at hp
        have hkeep := hmapped.other p hout
        rw [ih hr (by rw [hkeep]; exact hp), hkeep]

/-- Every page of every entry leads behind the entry's page in the list. -/
theorem mapEntries_entry {al : Nat → Bool} (hr : mapEntries mp al size n pg t = (noError, k, t')) {i : Nat}
    (hi : i < n) (hp : pageIn (entryAddr mp size (pg + i)) size p = true) :
    ∃ pte, t' p = some pte ∧
      Maps (mp.pfnList.getD (pg + i) 0) size (mapAttr mp.flags) (entryAddr mp size (pg + i)) p pte := by
  induction n generalizing pg t i with
  | zero => exact absurd hi (Nat.not_lt_zero i)
  | succ n ih =>
    cases hm : arm64MmuMap t (al pg) (entryAddr mp size pg) (mp.pfnList.getD pg 0) size
        (mapAttr mp.flags) with
    | mk err s =>
      simp only [mapEntries, hm] at hr
      split at hr
      · rename_i hne
        exact absurd (Prod.mk.inj hr).1 hne
      · rename_i hok
        rw [not_not.mp hok] at hm
        cases i with
        | zero =>
          obtain ⟨pte, hpte, hmaps⟩ := arm64MmuMap_entry hm hp
          refine ⟨pte, ?_, hmaps⟩
          rw [mapEntries_keeps hr (by rw [hpte]; rfl), hpte]
        | succ i =>
          rw [show pg + (i + 1) = pg + 1 + i by omega] at hp ⊢
          exact ih hr (Nat.lt_of_succ_lt_succ hi) hp

theorem archUthreadMap_entry {al : Nat → Bool} (h : archUthreadMap t al mp = some (noError, t')) {i : Nat}
    (hi : i < (mp.size / entrySizeOf mp).toNat)
    (hp : pageIn (entryAddr mp (entrySizeOf mp) i) (entrySizeOf mp) p = true) :
    ∃ pte, t' p = some pte ∧
      Maps (mp.pfnList.getD i 0) (entrySizeOf mp) (mapAttr mp.flags) (entryAddr mp (entrySizeOf mp) i)
        p pte := by
  cases hr : mapEntries mp al (entrySizeOf mp) (mp.size / entrySizeOf mp).toNat 0 t with
  | mk err r =>
    obtain ⟨k, s⟩ := r
    simp only [archUthreadMap, hr] at h
    split at h
    · cases h
    split at h
    · rename_i hne
      exact absurd (Prod.mk.inj (Option.some.inj h)).1 hne
    · rename_i hok
      cases h
      rw [not_not.mp hok] at hr
      have := mapEntries_entry hr hi (p := p) (by rw [Nat.zero_add]; exact hp)
      rwa [Nat.zero_add] at this

end

section
variable {t t' : PageTable} {mp : UthreadMap}

/-- How many entries a record takes, and where they are. -/
theorem entries_contig (hfits : mp.vaddr < mp.stop) (hcontig : hasFlag mp.flags utmPhysContig = true) :
    entrySizeOf mp = mp.size ∧ (mp.size / mp.size).toNat = 1 ∧ entryAddr mp mp.size 0 = mp.vaddr := by
  refine ⟨if_pos hcontig, ?_, ?_⟩
  · rw [UInt64.toNat_div, Nat.div_self (stop_toNat hfits).2]
  · simp [entryAddr]

theorem entries_paged (hpaged : hasFlag mp.flags utmPhysContig = false) :
    entrySizeOf mp = pageSize ∧ (mp.size / pageSize).toNat = mp.size.toNat / 4096 := by
  refine ⟨if_neg (by rw [hpaged]; exact Bool.false_ne_true), ?_⟩
  rw [UInt64.toNat_div, pageSize_toNat]

/-- A mapping that `arch_uthread_map` accepts, with a page for each of its entries. -/
structure Accepted (t t' : PageTable) (mp : UthreadMap) : Prop where
  fits : mp.vaddr < mp.stop
  whole : mp.size.toNat % 4096 = 0
  listed : mp.pfnList.length = (mp.size / entrySizeOf mp).toNat
  mapped : ∃ al, archUthreadMap t al mp = some (noError, t')

theorem Accepted.vaddr_aligned (h : Accepted t t' mp) : mp.vaddr.toNat % 4096 = 0 := by
  obtain ⟨al, hmap⟩ := h.mapped
  exact (archUthreadMap_pages hmap h.fits h.whole).1

/-- The entries of a record that lists its pages. -/
theorem Accepted.paged (h : Accepted t t' mp) (hpaged : hasFlag mp.flags utmPhysContig = false) {i : Nat}
    {page : Paddr} (hpage : mp.pfnList[i]? = some page) :
    page.toNat % 4096 = 0 ∧
      t' (mp.vaddr.toNat / 4096 + i) = some (page ||| mapAttr mp.flags) := by
  obtain ⟨hsize, hn⟩ := entries_paged hpaged
  have hv := h.vaddr_aligned
  have hstop : mp.vaddr.toNat + mp.size.toNat < 2 ^ 64 := by
    rw [← (stop_toNat h.fits).1]
    exact mp.stop.toNat_lt
  have hi : i < mp.size.toNat / 4096 := by
    rw [← hn, ← hsize, ← h.listed]
    exact (List.getElem?_eq_some_iff.mp hpage).1
  have haddr : (entryAddr mp pageSize i).toNat = mp.vaddr.toNat + i * 4096 :=
    pageAddr_toNat (v := mp.vaddr) (by omega)
  obtain ⟨al, hmap⟩ := h.mapped
  obtain ⟨pte, hpte, hmaps⟩ := archUthreadMap_entry hmap (i := i) (p := mp.vaddr.toNat / 4096 + i)
    (by rw [hsize, hn]; exact hi) (by rw [hsize, pageIn_iff, haddr, pageSize_toNat]; omega)
  have hget : mp.pfnList.getD i 0 = page := by
    rw [List.getD_eq_getElem?_getD, hpage, Option.getD_some]
  rw [hsize, hget] at hmaps
  refine ⟨(unaligned_false hmaps.aligned).2.1, ?_⟩
  rw [hpte, hmaps.entry, leafEntry, haddr,
    show mp.vaddr.toNat / 4096 + i - (mp.vaddr.toNat + i * 4096) / 4096 = 0 by omega]
  simp

/-- An accepted mapping has its pages. -/
theorem Accepted.backed (h : Accepted t t' mp) : Backed mp where
  contig := by
    intro hcontig hnil
    obtain ⟨hsize, hone, -⟩ := entries_contig h.fits hcontig
    have hlen := h.listed
    rw [hsize, hone, hnil] at hlen
    cases hlen
  paged := by
    intro hpaged
    obtain ⟨hsize, hn⟩ := entries_paged hpaged
    refine ⟨h.vaddr_aligned, ?_, ?_⟩
    · intro page hpage
      obtain ⟨i, hi⟩ := List.getElem?_of_mem hpage
      exact (h.paged hpaged hi).1
    · have := h.whole
      rw [h.listed, hsize, hn]
      omega

/-- What a mapping assigns is what its entries in the page table say. -/
theorem Accepted.assigns (h : Accepted t t' mp) {a : Vaddr} (ha : mp.toUthreadMap.Holds a) :
    ∃ page : Paddr, page.toNat % 4096 = 0 ∧
      t' (a.toNat / 4096) = some (page ||| mapAttr mp.flags) ∧
      Assigns mp a (page + UInt64.ofNat (a.toNat % 4096)) := by
  have hv := h.vaddr_aligned
  have ha64 : a.toNat < 2 ^ 64 := a.toNat_lt
  obtain ⟨hlo, hhi⟩ := ha
  have hstop := (stop_toNat h.fits).1
  rw [UthreadMap.stop] at hstop
  rw [UInt64.le_iff_toNat_le] at hlo
  rw [UInt64.lt_iff_toNat_lt, hstop] at hhi
  cases hcontig : hasFlag mp.flags utmPhysContig with
  | true =>
    obtain ⟨hsize, hone, hzero⟩ := entries_contig h.fits hcontig
    obtain ⟨al, hmap⟩ := h.mapped
    obtain ⟨pte, hpte, hmaps⟩ := archUthreadMap_entry hmap (i := 0) (p := a.toNat / 4096)
      (by rw [hsize, hone]; exact Nat.zero_lt_one) (by rw [hsize, hzero, pageIn_iff]; omega)
    rw [hsize, hzero] at hmaps
    have hfirst := List.head?_eq_some_head (h.backed.contig hcontig)
    have hget : mp.pfnList.getD 0 0 = mp.pfnList.head (h.backed.contig hcontig) := by
      rw [List.getD_eq_getElem?_getD, ← List.head?_eq_getElem?, hfirst]
      rfl
    rw [hget] at hmaps
    have halign := (unaligned_false hmaps.aligned).2.1
    have hd : a - mp.vaddr < mp.size := by
      rw [UInt64.lt_iff_toNat_lt, UInt64.toNat_sub_of_le _ _ (UInt64.le_iff_toNat_le.mpr hlo)]
      omega
    have hsplit : UInt64.ofNat ((a.toNat / 4096 - mp.vaddr.toNat / 4096) * 4096) +
        UInt64.ofNat (a.toNat % 4096) = a - mp.vaddr := by
      apply UInt64.toNat_inj.mp
      rw [← UInt64.ofNat_add, UInt64.toNat_ofNat',
        UInt64.toNat_sub_of_le _ _ (UInt64.le_iff_toNat_le.mpr hlo)]
      omega
    refine ⟨mp.pfnList.head (h.backed.contig hcontig) +
      UInt64.ofNat ((a.toNat / 4096 - mp.vaddr.toNat / 4096) * 4096), ?_, ?_, ?_⟩
    · rw [UInt64.toNat_add, UInt64.toNat_ofNat']
      omega
    · rw [hpte, hmaps.entry, leafEntry]
    · have hassign := Assigns.contig hcontig hfirst hd
      rw [add_comm, UInt64.sub_add_cancel] at hassign
      rwa [add_assoc, hsplit]
  | false =>
    obtain ⟨-, -, hlen⟩ := h.backed.paged hcontig
    have hlt : (a.toNat - mp.vaddr.toNat) / 4096 < mp.pfnList.length := by omega
    have hpage := List.getElem?_eq_getElem hlt
    obtain ⟨halign, hentry⟩ := h.paged hcontig hpage
    refine ⟨_, halign, ?_, ?_⟩
    · rw [← hentry]
      congr 1
      omega
    · have hd : UInt64.ofNat (a.toNat % 4096) < pageSize := by
        rw [UInt64.lt_iff_toNat_lt, UInt64.toNat_ofNat', pageSize_toNat]
        omega
      have hassign := Assigns.paged hcontig hpage hd
      have haddr : pageAddr mp.vaddr ((a.toNat - mp.vaddr.toNat) / 4096) + UInt64.ofNat (a.toNat % 4096)
          = a := by
        apply UInt64.toNat_inj.mp
        rw [UInt64.toNat_add, pageAddr_toNat (by omega), UInt64.toNat_ofNat']
        omega
      rwa [haddr] at hassign

end

end TX2SecureUart.AddrSpace
