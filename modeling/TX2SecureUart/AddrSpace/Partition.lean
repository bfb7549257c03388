/-
# `AddrSpace.Partition` — secure below, non-secure above

Where the kernel chooses every address, `ns_va_bottom` separates the secure
records from the non-secure ones, and since it lies on a 1 MB boundary no
section holds both.
-/
import TX2SecureUart.AddrSpace.Layout

namespace TX2SecureUart.AddrSpace

open Mask UserSpace

/-- A thread as the loader leaves it: fixed secure mappings at or below
`start_stack`, which `arch_uthread_map` has accepted. -/
structure Start (ut : Uthread) : Prop where
  layout : Layout ut.mapList
  fixed : ∀ mp ∈ ut.mapList, hasFlag mp.flags utmFixed = true
  secure : ∀ mp ∈ ut.mapList, mp.isNs = false
  below : ∀ mp ∈ ut.mapList, mp.stop ≤ ut.startStack
  mapped : ∀ mp ∈ ut.mapList, outOfRange mp.vaddr mp.size = false
  bottom : ut.nsVaBottom = maxUsrVa

/-- `ns_va_bottom` separates the records. -/
structure Partition (ut : Uthread) : Prop where
  layout : Layout ut.mapList
  secure : ∀ mp ∈ ut.mapList, mp.isNs = false → mp.stop ≤ ut.nsVaBottom
  ns : ∀ mp ∈ ut.mapList, mp.isNs = true → ut.nsVaBottom ≤ mp.vaddr
  aligned : ut.nsVaBottom.toNat % 2 ^ 20 = 0

/-! ## Rounding to a section -/

theorem roundDown1MB_toNat (v : Vaddr) :
    (roundDown v utMapAlign1MB).toNat = v.toNat / 2 ^ 20 * 2 ^ 20 :=
  roundDown_toNat (by decide) v

theorem roundDown1MB_aligned (v : Vaddr) : (roundDown v utMapAlign1MB).toNat % 2 ^ 20 = 0 := by
  rw [roundDown1MB_toNat]
  exact Nat.mul_mod_left _ _

theorem roundDown1MB_le (v : Vaddr) : roundDown v utMapAlign1MB ≤ v :=
  UInt64.le_iff_toNat_le.mpr (roundDown_le v utMapAlign1MB)

/-- A section boundary not above an address is not above its section. -/
theorem le_roundDown1MB {b v : Vaddr} (hb : b.toNat % 2 ^ 20 = 0) (h : b ≤ v) :
    b ≤ roundDown v utMapAlign1MB := by
  rw [UInt64.le_iff_toNat_le] at h ⊢
  rw [roundDown1MB_toNat]
  omega

/-- A range the page table takes ends inside the user address space. -/
theorem le_maxUsrVa {v : Vaddr} {size : UInt64} (h : outOfRange v size = false) :
    v.toNat + size.toNat ≤ maxUsrVa.toNat := by
  rw [outOfRange, Bool.or_eq_false_iff, decide_eq_false_iff_not, decide_eq_false_iff_not] at h
  omega

/-! ## The searches respect the boundary -/

variable {bottom start r : Vaddr} {size : UInt64} {align : UInt32} {l : List UthreadMap}

/-- Where the search from above ends below `ns_va_bottom`, every secure record
ends at or below the section it ends in. -/
theorem findNsLoop_room (hs : l.Pairwise (fun a b => b.stop ≤ a.vaddr))
    (hfits : ∀ m ∈ l, m.vaddr < m.stop) (h : findNsLoop bottom size align start l = some r)
    (hr : r < bottom) {mp : UthreadMap} (hmem : mp ∈ l) (hsec : mp.isNs = false) :
    mp.stop ≤ roundDown r utMapAlign1MB := by
  induction l generalizing start with
  | nil => simp at hmem
  | cons a rest ih =>
      obtain ⟨hhead, hrest⟩ := List.pairwise_cons.mp hs
      rw [findNsLoop] at h
      split at h
      · split at h
        · cases h
          exact absurd hr (UInt64.not_lt.mpr (by assumption))
        · split at h
          · cases h
          · rename_i hroom
            cases h
            have ha : a.stop ≤ roundDown r utMapAlign1MB := UInt64.not_lt.mp hroom
            rcases List.mem_cons.mp hmem with rfl | hmem
            · exact ha
            · have hlt := hfits a (List.mem_cons_self ..)
              exact UInt64.le_trans (hhead mp hmem) (UInt64.le_trans (UInt64.le_of_lt hlt) ha)
      · split at h
        · cases h
        · rename_i hns
          rcases List.mem_cons.mp hmem with rfl | hmem
          · simp [hsec] at hns
          · exact ih hrest (fun m hm => hfits m (List.mem_cons_of_mem _ hm)) h hmem

theorem findVaSpaceNs_room {ut : Uthread} (hl : Layout ut.mapList)
    (hv : findVaSpaceNs ut size align ≠ 0) (hlt : findVaSpaceNs ut size align < ut.nsVaBottom)
    {mp : UthreadMap} (hmem : mp ∈ ut.mapList) (hsec : mp.isNs = false) :
    mp.stop ≤ roundDown (findVaSpaceNs ut size align) utMapAlign1MB := by
  rw [findVaSpaceNs] at hv hlt ⊢
  cases hloop : findNsLoop ut.nsVaBottom size align (roundDown32 (maxUsrVa - size) align)
      ut.mapList.reverse with
  | none => simp [hloop] at hv
  | some start =>
      simp only [hloop] at hv hlt ⊢
      split at hv
      · simp at hv
      rename_i hok
      rw [if_neg hok] at hlt ⊢
      exact findNsLoop_room (List.pairwise_reverse.mpr hl.sorted)
        (fun m hm => hl.fits m (List.mem_reverse.mp hm)) hloop hlt
        (List.mem_reverse.mpr hmem) hsec

theorem findVaSpaceSec_le {ut : Uthread} (hv : findVaSpaceSec ut size align ≠ 0) :
    findVaSpaceSec ut size align + size ≤ ut.nsVaBottom := by
  rw [findVaSpaceSec] at hv ⊢
  generalize findSecLoop size align (roundUp32 ut.startStack align) ut.mapList = start at hv ⊢
  split at hv
  · simp at hv
  rename_i hok
  rw [if_neg hok]
  simp only [Bool.or_eq_true, decide_eq_true_eq, not_or, UInt64.not_lt] at hok
  exact hok.1

/-! ## Every call keeps the partition -/

theorem Start.partition {ut : Uthread} (h : Start ut) : Partition ut := by
  refine ⟨h.layout, ?_, ?_, ?_⟩
  · intro mp hmp _
    have hle := le_maxUsrVa (h.mapped mp hmp)
    rw [h.bottom, UInt64.le_iff_toNat_le, UthreadMap.stop, UInt64.toNat_add]
    have := Nat.mod_le (mp.vaddr.toNat + mp.size.toNat) (2 ^ 64)
    omega
  · intro mp hmp hns
    simp [h.secure mp hmp] at hns
  · rw [h.bottom]
    rfl

theorem Partition.table {ut : Uthread} (h : Partition ut) (t : PageTable) :
    Partition { ut with pageTable := t } :=
  ⟨h.layout, h.secure, h.ns, h.aligned⟩

theorem newNs_of_secure {b : Vaddr} {mp : UthreadMap} (h : mp.isNs = false) :
    newNs b mp = b := by
  simp [newNs, h]

/-- A secure record goes below `ns_va_bottom`. -/
theorem Partition.insert_secure {ut : Uthread} {mp : UthreadMap} {l : List UthreadMap}
    (h : Partition ut) (t : PageTable) (hfits : mp.vaddr < mp.stop)
    (hins : insertMap mp ut.mapList = some l) (hsec : mp.isNs = false)
    (hle : mp.stop ≤ ut.nsVaBottom) :
    Partition { ut with mapList := l, nsVaBottom := newNs ut.nsVaBottom mp, pageTable := t } := by
  have hperm := insertMap_perm hins
  rw [newNs_of_secure hsec]
  refine ⟨h.layout.insert hfits hins, ?_, ?_, h.aligned⟩
  · intro m hm hmsec
    rcases List.mem_cons.mp (hperm.mem_iff.mp hm) with rfl | hm
    · exact hle
    · exact h.secure m hm hmsec
  · intro m hm hmns
    rcases List.mem_cons.mp (hperm.mem_iff.mp hm) with rfl | hm
    · simp [hsec] at hmns
    · exact h.ns m hm hmns

/-- A non-secure record goes above `ns_va_bottom`, or takes it down to a section
that no secure record reaches. -/
theorem Partition.insert_ns {ut : Uthread} {mp : UthreadMap} {l : List UthreadMap}
    (h : Partition ut) (t : PageTable) (hfits : mp.vaddr < mp.stop)
    (hins : insertMap mp ut.mapList = some l) (hns : mp.isNs = true)
    (hroom : mp.vaddr < ut.nsVaBottom → ∀ m ∈ ut.mapList, m.isNs = false →
      m.stop ≤ roundDown mp.vaddr utMapAlign1MB) :
    Partition { ut with mapList := l, nsVaBottom := newNs ut.nsVaBottom mp, pageTable := t } := by
  have hperm := insertMap_perm hins
  refine ⟨h.layout.insert hfits hins, ?_, ?_, ?_⟩
  · intro m hm hmsec
    rcases List.mem_cons.mp (hperm.mem_iff.mp hm) with rfl | hm
    · simp [hns] at hmsec
    · dsimp only
      rw [newNs]
      split
      · rename_i hlt
        exact hroom (by simpa [hns] using hlt) m hm hmsec
      · exact h.secure m hm hmsec
  · intro m hm hmns
    dsimp only
    rw [newNs]
    split
    · rename_i hlt
      have hlt : mp.vaddr < ut.nsVaBottom := by simpa [hns] using hlt
      rcases List.mem_cons.mp (hperm.mem_iff.mp hm) with rfl | hm
      · exact roundDown1MB_le _
      · exact UInt64.le_trans (roundDown1MB_le _)
          (UInt64.le_trans (UInt64.le_of_lt hlt) (h.ns m hm hmns))
    · rename_i hlt
      rcases List.mem_cons.mp (hperm.mem_iff.mp hm) with rfl | hm
      · simpa [hns] using hlt
      · exact h.ns m hm hmns
  · dsimp only
    rw [newNs]
    split
    · exact roundDown1MB_aligned _
    · exact h.aligned

/-- What stands after a non-secure record is non-secure. -/
theorem Partition.after_ns {ut : Uthread} {before after : List UthreadMap} {mp m : UthreadMap}
    (h : Partition ut) (hlist : ut.mapList = before ++ mp :: after) (hns : mp.isNs = true)
    (hm : m ∈ after) : m.isNs = true := by
  have hmem : m ∈ ut.mapList := by simp [hlist, hm]
  have hmp : mp ∈ ut.mapList := by simp [hlist]
  have hsorted := h.layout.sorted
  rw [hlist] at hsorted
  have hlt := (List.pairwise_cons.mp (List.pairwise_append.mp hsorted).2.1).1 m hm
  cases hsec : m.isNs with
  | true => rfl
  | false =>
      have h1 := h.secure m hmem hsec
      have h2 := h.ns mp hmp hns
      have h3 := h.layout.fits mp hmp
      have h4 := h.layout.fits m hmem
      rw [UInt64.le_iff_toNat_le] at h1 h2 hlt
      rw [UInt64.lt_iff_toNat_lt] at h3 h4
      omega

/-- What stands before a record whose predecessor is not non-secure is secure. -/
theorem Partition.before_secure {ut : Uthread} {before after : List UthreadMap}
    {mp m : UthreadMap} (h : Partition ut) (hlist : ut.mapList = before ++ mp :: after)
    (hprev : before.getLast?.any (·.isNs) = false) (hm : m ∈ before) : m.isNs = false := by
  obtain ⟨init, prev, rfl⟩ : ∃ init prev, before = init ++ [prev] :=
    ⟨before.dropLast, _, (List.dropLast_concat_getLast (List.ne_nil_of_mem hm)).symm⟩
  have hpsec : prev.isNs = false := by simpa using hprev
  rcases List.mem_append.mp hm with hm | hm
  · have hmem : m ∈ ut.mapList := by simp [hlist, hm]
    have hp : prev ∈ ut.mapList := by simp [hlist]
    have hsorted := h.layout.sorted
    rw [hlist, List.append_assoc] at hsorted
    have hlt := (List.pairwise_append.mp hsorted).2.2 m hm prev (by simp)
    cases hns : m.isNs with
    | false => rfl
    | true =>
        have h1 := h.secure prev hp hpsec
        have h2 := h.ns m hmem hns
        have h3 := h.layout.fits prev hp
        have h4 := h.layout.fits m hmem
        rw [UInt64.le_iff_toNat_le] at h1 h2 hlt
        rw [UInt64.lt_iff_toNat_lt] at h3 h4
        omega
  · rw [List.mem_singleton.mp hm]
    exact hpsec

/-- `uthread_map_remove` moves `ns_va_bottom` up to a section boundary, and only
past the record removed. -/
theorem Partition.bottom_le {ut : Uthread} {before after : List UthreadMap} {mp : UthreadMap}
    (h : Partition ut) (hlist : ut.mapList = before ++ mp :: after)
    (hrange : outOfRange mp.vaddr mp.size = false) :
    ut.nsVaBottom ≤ bottomWithout ut.nsVaBottom before mp after ∧
      (bottomWithout ut.nsVaBottom before mp after).toNat % 2 ^ 20 = 0 := by
  have hmp : mp ∈ ut.mapList := by simp [hlist]
  unfold bottomWithout
  split
  · rename_i hcond
    rw [Bool.and_eq_true] at hcond
    have hbot := h.ns mp hmp hcond.1
    cases after with
    | nil =>
        refine ⟨?_, rfl⟩
        change ut.nsVaBottom ≤ maxUsrVa
        have hmax := le_maxUsrVa hrange
        rw [UInt64.le_iff_toNat_le] at hbot ⊢
        omega
    | cons item rest =>
        refine ⟨le_roundDown1MB h.aligned ?_, roundDown1MB_aligned _⟩
        exact h.ns item (by simp [hlist]) (h.after_ns hlist hcond.1 (List.mem_cons_self ..))
  · exact ⟨UInt64.le_refl _, h.aligned⟩

theorem Partition.remove {ut : Uthread} {before after : List UthreadMap} {mp : UthreadMap}
    (h : Partition ut) (t : PageTable) (hlist : ut.mapList = before ++ mp :: after)
    (hrange : outOfRange mp.vaddr mp.size = false) :
    Partition { ut with mapList := before ++ after,
                        nsVaBottom := bottomWithout ut.nsVaBottom before mp after,
                        pageTable := t } := by
  obtain ⟨hle, haligned⟩ := h.bottom_le hlist hrange
  have hsub : (before ++ after).Sublist ut.mapList := by
    rw [hlist]
    exact List.Sublist.append (List.Sublist.refl _) (List.sublist_cons_self ..)
  refine ⟨h.layout.sublist hsub, ?_, ?_, haligned⟩
  · intro m hm hsec
    exact UInt64.le_trans (h.secure m (hsub.subset hm) hsec) hle
  · intro m hm hns
    dsimp only
    unfold bottomWithout
    split
    · rename_i hcond
      rw [Bool.and_eq_true, Bool.not_eq_true'] at hcond
      rcases List.mem_append.mp hm with hm | hm
      · simp [h.before_secure hlist hcond.2 hm] at hns
      · cases after with
        | nil => simp at hm
        | cons item rest =>
            refine UInt64.le_trans (roundDown1MB_le _) ?_
            rcases List.mem_cons.mp hm with rfl | hm
            · exact UInt64.le_refl _
            · have hsorted := (h.layout.sublist hsub).sorted
              have hpair := (List.pairwise_append.mp hsorted).2.1
              have hfit := h.layout.fits item (by simp [hlist])
              exact UInt64.le_trans (UInt64.le_of_lt hfit) ((List.pairwise_cons.mp hpair).1 m hm)
    · exact h.ns m (hsub.subset hm) hns

theorem Change.partition {ut ut' : Uthread} (h : Change ut false ut') (hp : Partition ut) :
    Partition ut' := by
  cases h with
  | table t => exact hp.table t
  | @insert mp l t hfits hins hfind =>
      obtain ⟨hva, hne⟩ := hfind rfl
      rw [findVaSpace] at hva
      cases hns : mp.isNs with
      | true =>
          rw [if_pos (show hasFlag mp.flags utmNsMem = true from hns)] at hva
          refine hp.insert_ns t hfits hins hns ?_
          intro hlt m hm hsec
          rw [hva] at hlt hne ⊢
          exact findVaSpaceNs_room hp.layout hne hlt hm hsec
      | false =>
          rw [if_neg (show ¬hasFlag mp.flags utmNsMem = true from by
            rw [show hasFlag mp.flags utmNsMem = false from hns]; decide)] at hva
          refine hp.insert_secure t hfits hins hns ?_
          rw [UthreadMap.stop, hva]
          rw [hva] at hne
          exact findVaSpaceSec_le hne
  | remove t hlist hrange => exact hp.remove t hlist hrange

/-- An address of a secure and one of a non-secure record lie in different sections. -/
theorem Partition.section_ne {ut : Uthread} (h : Partition ut) {a b : UthreadMap}
    (ha : a ∈ ut.mapList) (hb : b ∈ ut.mapList) (hns : a.isNs = true) (hsec : b.isNs = false)
    {x y : Vaddr} (hx : a.Holds x) (hy : b.Holds y) : x.toNat / 2 ^ 20 ≠ y.toNat / 2 ^ 20 := by
  have hlo := h.ns a ha hns
  have hhi := h.secure b hb hsec
  have hlt : y < b.stop := hy.2
  have hle : a.vaddr ≤ x := hx.1
  have haligned := h.aligned
  rw [UInt64.le_iff_toNat_le] at hlo hhi hle
  rw [UInt64.lt_iff_toNat_lt] at hlt
  omega

/-- Whatever is mapped, granted and unmapped at addresses the kernel chooses:
non-secure records lie at or above `ns_va_bottom`, secure ones end at or below
it, it is `MAX_USR_VA` or a section boundary not above a non-secure record, and
no section holds both. -/
theorem sections_apart {ut₀ ut : Uthread} (h₀ : Start ut₀)
    (h : Reachable (fun _ _ c => c.fixed = false) ut₀ ut) :
    (∀ mp ∈ ut.mapList, mp.isNs = true → ut.nsVaBottom ≤ mp.vaddr) ∧
    (∀ mp ∈ ut.mapList, mp.isNs = false → mp.stop ≤ ut.nsVaBottom) ∧
    (ut.nsVaBottom = maxUsrVa ∨ (ut.nsVaBottom.toNat % 2 ^ 20 = 0 ∧
      ∀ mp ∈ ut.mapList, mp.isNs = true → ut.nsVaBottom ≤ mp.vaddr)) ∧
    (∀ a ∈ ut.mapList, ∀ b ∈ ut.mapList, a.isNs = true → b.isNs = false →
      ∀ x y, a.Holds x → b.Holds y → x.toNat / 2 ^ 20 ≠ y.toNat / 2 ^ 20) := by
  have hp : Partition ut := by
    refine h.invariant h₀.partition ?_
    intro s s' env c e hI hok hrun
    have hchange := Call.change hrun
    rw [hok] at hchange
    exact hchange.partition hI
  exact ⟨hp.ns, hp.secure, .inr ⟨hp.aligned, hp.ns⟩,
    fun a ha b hb hns hsec x y hx hy => hp.section_ne ha hb hns hsec hx hy⟩

/-- A thread with a stack of one page below 16 MB. -/
def stackThread : Uthread :=
  { startStack := 0x1000000
    mapList := [newMap 0xFFF000 [0x80000000] 0x1000
      (utmR ||| utmW ||| utmStack ||| utmFixed ||| utmPhysContig) utMapAlign4KB]
    nsVaBottom := maxUsrVa
    pageTable := fun _ => none }

/-- One page of secure memory and one of non-secure memory. -/
def mixedCalls : List Call :=
  [.map 0 [0x80001000] 0x1000 (utmR ||| utmPhysContig) utMapAlign4KB,
    .map 0 [0x90000000] 0x1000 (utmR ||| utmNsMem ||| utmPhysContig) utMapAlign4KB]

/-- The thread after both. -/
def mixedThread : Uthread := (runCalls Env.all stackThread mixedCalls).getD stackThread

theorem stackThread_start : Start stackThread := by
  refine ⟨⟨by decide, List.pairwise_singleton _ _⟩, ?_, ?_, ?_, ?_, rfl⟩
  all_goals decide

theorem mixedThread_reachable :
    Reachable (fun _ _ c => c.fixed = false) stackThread mixedThread := by
  refine reachable_of_runCalls (c := mixedCalls) (e := Env.all) (fun _ => by decide) ?_
  have hsome : (runCalls Env.all stackThread mixedCalls).isSome = true := by decide +kernel
  obtain ⟨ut, hut⟩ := Option.isSome_iff_exists.mp hsome
  rw [mixedThread, hut, Option.getD_some]

/-- The record of the non-secure page. -/
def nsRecord : UthreadMap :=
  newMap 0x1FFF000 [0x90000000] 0x1000 (utmR ||| utmNsMem ||| utmPhysContig) utMapAlign4KB

theorem sections_apart_mixed : mixedThread.nsVaBottom ≤ nsRecord.vaddr :=
  (sections_apart stackThread_start mixedThread_reachable).1 nsRecord (by decide +kernel)
    (by decide +kernel)

end TX2SecureUart.AddrSpace
