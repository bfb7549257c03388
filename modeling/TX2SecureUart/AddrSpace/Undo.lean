/-
# `AddrSpace.Undo` — what a call that fails leaves behind

`uthread_map` adds the record and then maps its pages, `uthread_grant_pages`
maps pages and then adds the record; neither takes the first half back when the
second fails.  A call that is not cut in half leaves the thread as it was when
it returns an error, and keeps the records and the page table in agreement,
unless the translation stops short and reports no error.
-/
import TX2SecureUart.AddrSpace.Pages

namespace TX2SecureUart.AddrSpace

open Mask UserSpace

/-! ## The halves -/

/-- The record that `uthread_map` adds before it maps anything. -/
def mapRecord (ut : Uthread) (env : Env) (va : Vaddr) (pfnList : List Paddr) (size : UInt64)
    (flags align : UInt32) : Except Int (Uthread × UthreadMap) :=
  if size &&& 0xFFF != 0 then .error errNotValid
  else if !hasFlag flags utmFixed && mapVa ut va size flags align == 0 then .error errNoMemory
  else uthreadMapAlloc ut env.malloc (mapVa ut va size flags align) pfnList size flags align

/-- What `uthread_grant_pages` has done once its pages are translated. -/
def grantHalf (ut : Uthread) (env : Env) (vaddrSrc : Vaddr) (size : UInt64) (flags : UInt32)
    (source : GrantSource) : Option (GrantPlan × Int × List Paddr × PageTable) :=
  if size == 0 then none
  else
    match grantPlan ut (roundDown vaddrSrc pageSize) (vaddrSrc &&& 0xFFF) size flags source with
    | .error _ => none
    | .ok plan =>
        if !env.mallocPfn then none
        else some (plan, grantTranslate ut env (roundDown vaddrSrc pageSize) source plan)

/-- The first half of the call has an effect and the second half fails: the page
table does not take the record that was added, or after some pages are mapped
the next one is not, or their record is not added. -/
def Call.HalfDone (ut : Uthread) (env : Env) : Call → Prop
  | .map va pfnList size flags align =>
      ∃ ut₁ mp e t, mapRecord ut env va pfnList size flags align = .ok (ut₁, mp) ∧
        archUthreadMap ut.pageTable env.ptAlloc mp = some (e, t) ∧ e ≠ noError
  | .grant vaddrSrc size flags source =>
      ∃ plan e pfns t, grantHalf ut env vaddrSrc size flags source = some (plan, e, pfns, t) ∧
        pfns ≠ [] ∧
        (e ≠ noError ∨ ∃ e', grantAlloc { ut with pageTable := t } env plan pfns = .error e')
  | .unmap .. => False

/-- The translation stops before the last page and reports no error, and the
record for all of them is added. -/
def Call.Short (ut : Uthread) (env : Env) : Call → Prop
  | .map .. => False
  | .grant vaddrSrc size flags source =>
      ∃ plan pfns t r, grantHalf ut env vaddrSrc size flags source = some (plan, noError, pfns, t) ∧
        grantAlloc { ut with pageTable := t } env plan pfns = .ok r ∧
        pfns.length * 4096 < plan.size.toNat
  | .unmap .. => False

/-- The call has left the thread as it was. -/
def Unchanged (ut ut' : Uthread) : Prop :=
  ut'.mapList = ut.mapList ∧ ut'.nsVaBottom = ut.nsVaBottom ∧ ut'.pageTable = ut.pageTable

/-- The records and the page table describe the same pages. -/
structure Described (ut : Uthread) : Prop where
  layout : Layout ut.mapList
  aligned : ∀ mp ∈ ut.mapList, mp.vaddr.toNat % 4096 = 0 ∧ mp.size.toNat % 4096 = 0
  agrees : ∀ p, (ut.pageTable p).isSome = true ↔
    ∃ mp ∈ ut.mapList, pageIn mp.vaddr mp.size p = true

/-! ## How a call ends -/

theorem uthreadMap_cases {ut ut' : Uthread} {env : Env} {va v : Vaddr} {pfnList : List Paddr}
    {size : UInt64} {flags align : UInt32} {e : Int}
    (h : uthreadMap ut env va pfnList size flags align = some (e, v, ut')) :
    (mapRecord ut env va pfnList size flags align = .error e ∧ ut' = ut) ∨
    ∃ ut₁ mp t, mapRecord ut env va pfnList size flags align = .ok (ut₁, mp) ∧
      archUthreadMap ut.pageTable env.ptAlloc mp = some (e, t) ∧
      ut' = { ut₁ with pageTable := t } := by
  rw [mapRecord]
  rw [uthreadMap] at h
  split at h
  · rename_i hsize
    cases h
    exact .inl ⟨if_pos hsize, rfl⟩
  rename_i hsize
  dsimp only at h
  split at h
  · rename_i hva
    cases h
    exact .inl ⟨by rw [if_neg hsize, if_pos hva], rfl⟩
  rename_i hva
  rw [if_neg hsize, if_neg hva]
  split at h
  · rename_i halloc
    cases h
    exact .inl ⟨halloc, rfl⟩
  · rename_i ut₁ mp halloc
    obtain ⟨-, -, l, -, rfl⟩ := uthreadMapAlloc_ok halloc
    split at h
    · cases h
    · rename_i harch
      cases h
      exact .inr ⟨_, mp, _, halloc, harch, rfl⟩

theorem uthreadGrantPages_cases {ut ut' : Uthread} {env : Env} {vaddrSrc v : Vaddr}
    {size : UInt64} {flags : UInt32} {source : GrantSource} {e : Int}
    (h : uthreadGrantPages ut env vaddrSrc size flags source = (e, v, ut')) :
    (grantHalf ut env vaddrSrc size flags source = none ∧ ut' = ut) ∨
    ∃ plan err pfns t, grantHalf ut env vaddrSrc size flags source = some (plan, err, pfns, t) ∧
      ((err ≠ noError ∧ e = err ∧ ut' = { ut with pageTable := t }) ∨
        (err = noError ∧
          ((grantAlloc { ut with pageTable := t } env plan pfns = .error e ∧
              ut' = { ut with pageTable := t }) ∨
            ∃ mp, grantAlloc { ut with pageTable := t } env plan pfns = .ok (ut', mp) ∧
              e = noError))) := by
  rw [grantHalf]
  rw [uthreadGrantPages] at h
  split at h
  · rename_i hsize
    cases h
    exact .inl ⟨if_pos hsize, rfl⟩
  rename_i hsize
  rw [if_neg hsize]
  cases hplan : grantPlan ut (roundDown vaddrSrc pageSize) (vaddrSrc &&& 0xFFF) size flags source with
  | error e' =>
      simp only [hplan] at h
      cases h
      exact .inl ⟨rfl, rfl⟩
  | ok plan =>
      simp only [hplan] at h
      dsimp only
      split at h
      · rename_i hmalloc
        cases h
        exact .inl ⟨if_pos hmalloc, rfl⟩
      rename_i hmalloc
      rw [if_neg hmalloc]
      right
      cases hr : grantTranslate ut env (roundDown vaddrSrc pageSize) source plan with
      | mk err r =>
          obtain ⟨pfns, t⟩ := r
          simp only [hr] at h
          refine ⟨plan, err, pfns, t, rfl, ?_⟩
          split at h
          · rename_i hne
            cases h
            exact .inl ⟨hne, rfl, rfl⟩
          · rename_i hok
            refine .inr ⟨not_not.mp hok, ?_⟩
            split at h
            · rename_i halloc
              cases h
              exact .inl ⟨halloc, rfl⟩
            · rename_i halloc
              cases h
              exact .inr ⟨_, halloc, rfl⟩

theorem grantHalf_overlay {ut : Uthread} {env : Env} {vaddrSrc : Vaddr} {size : UInt64}
    {flags : UInt32} {source : GrantSource} {plan : GrantPlan} {e : Int} {pfns : List Paddr}
    {t : PageTable} (h : grantHalf ut env vaddrSrc size flags source = some (plan, e, pfns, t)) :
    Overlay (pageAddr plan.vaddr) pageSize pfns.length ut.pageTable t ∧
      pfns.length * 4096 ≤ plan.size.toNat ∧ plan.size.toNat % 4096 = 0 := by
  rw [grantHalf] at h
  split at h
  · cases h
  split at h
  · cases h
  rename_i plan' hplan
  split at h
  · cases h
  obtain ⟨rfl, hr⟩ := Prod.mk.inj (Option.some.inj h)
  obtain ⟨hover, hlen⟩ := grantTranslate_overlay hr
  obtain ⟨-, -, hsize, hpages⟩ := grantPlan_ok hplan
  refine ⟨hover, ?_, ?_⟩
  · have hle : plan'.npages ≤ plan'.size.toNat / 4096 := by
      rw [hpages, UInt64.toNat_toUInt32, UInt64.toNat_div]
      exact Nat.mod_le _ _
    omega
  · rw [hsize, roundUp, ← UInt64.toNat_toBitVec, UInt64.toBitVec_and, UInt64.toBitVec_not,
      toNat_and_not_mask (m := (pageSize - 1).toBitVec) (k := 12) (by decide)]
    exact Nat.mul_mod_left _ _

/-! ## Errors -/

theorem uthreadMapAlloc_error {ut : Uthread} {malloc : Bool} {vaddr : Vaddr}
    {pfnList : List Paddr} {size : UInt64} {flags align : UInt32} {e : Int}
    (h : uthreadMapAlloc ut malloc vaddr pfnList size flags align = .error e) : e ≠ noError := by
  rw [uthreadMapAlloc] at h
  split at h
  · cases h
    decide
  split at h
  · cases h
    decide
  dsimp only at h
  split at h
  · cases h
    decide
  · cases h

theorem insertMap_ne {mp : UthreadMap} {l l' : List UthreadMap} (h : insertMap mp l = some l') :
    l' ≠ l := by
  intro heq
  have hlen := (insertMap_perm h).length_eq
  rw [heq, List.length_cons] at hlen
  omega

theorem map_undone_iff {ut ut' : Uthread} {env : Env} {va v : Vaddr} {pfnList : List Paddr}
    {size : UInt64} {flags align : UInt32} {e : Int}
    (h : uthreadMap ut env va pfnList size flags align = some (e, v, ut')) :
    (e ≠ noError → Unchanged ut ut') ↔
      ¬(Call.map va pfnList size flags align).HalfDone ut env := by
  rcases uthreadMap_cases h with ⟨hrec, rfl⟩ | ⟨ut₁, mp, t, hrec, harch, rfl⟩
  · refine ⟨?_, fun _ _ => ⟨rfl, rfl, rfl⟩⟩
    rintro - ⟨ut₁, mp, e', t, hrec', -⟩
    rw [hrec] at hrec'
    cases hrec'
  · constructor
    · rintro hun ⟨ut₂, mp', e', t', hrec', harch', hne⟩
      rw [hrec] at hrec'
      cases hrec'
      rw [harch] at harch'
      cases harch'
      have hlist := (hun hne).1
      rw [mapRecord] at hrec
      split at hrec
      · cases hrec
      split at hrec
      · cases hrec
      obtain ⟨-, -, l, hins, rfl⟩ := uthreadMapAlloc_ok hrec
      exact insertMap_ne hins hlist
    · intro hhalf hne
      exact absurd ⟨ut₁, mp, e, t, hrec, harch, hne⟩ hhalf

theorem grant_undone_iff {ut ut' : Uthread} {env : Env} {vaddrSrc v : Vaddr} {size : UInt64}
    {flags : UInt32} {source : GrantSource} {e : Int}
    (h : uthreadGrantPages ut env vaddrSrc size flags source = (e, v, ut')) :
    (e ≠ noError → Unchanged ut ut') ↔
      ¬(Call.grant vaddrSrc size flags source).HalfDone ut env := by
  rcases uthreadGrantPages_cases h with ⟨hnone, rfl⟩ | ⟨plan, err, pfns, t, hhalf, hend⟩
  · refine ⟨?_, fun _ _ => ⟨rfl, rfl, rfl⟩⟩
    rintro - ⟨plan, e', pfns, t, hhalf, -⟩
    rw [hnone] at hhalf
    cases hhalf
  obtain ⟨hover, -, -⟩ := grantHalf_overlay hhalf
  have hsame : pfns = [] → t = ut.pageTable := by
    intro hnil
    rw [hnil] at hover
    funext p
    exact hover.other p (fun i hi => absurd hi (Nat.not_lt_zero i))
  have hdiff : pfns ≠ [] → t ≠ ut.pageTable :=
    fun hne => hover.ne (List.length_pos_iff.mpr hne) (by decide)
  rcases hend with ⟨hne, rfl, rfl⟩ | ⟨rfl, ⟨halloc, rfl⟩ | ⟨mp, halloc, rfl⟩⟩
  · constructor
    · rintro hun ⟨plan', e', pfns', t', hhalf', hpfns, -⟩
      rw [hhalf] at hhalf'
      cases hhalf'
      exact hdiff hpfns (hun hne).2.2
    · intro hnot _
      by_cases hnil : pfns = []
      · exact ⟨rfl, rfl, hsame hnil⟩
      · exact absurd ⟨plan, e, pfns, t, hhalf, hnil, .inl hne⟩ hnot
  · constructor
    · rintro hun ⟨plan', e', pfns', t', hhalf', hpfns, -⟩
      rw [hhalf] at hhalf'
      cases hhalf'
      exact hdiff hpfns (hun (uthreadMapAlloc_error halloc)).2.2
    · intro hnot _
      by_cases hnil : pfns = []
      · exact ⟨rfl, rfl, hsame hnil⟩
      · exact absurd ⟨plan, noError, pfns, t, hhalf, hnil, .inr ⟨e, halloc⟩⟩ hnot
  · refine ⟨?_, fun _ he => absurd rfl he⟩
    rintro - ⟨plan', e', pfns', t', hhalf', -, hbad⟩
    rw [hhalf] at hhalf'
    cases hhalf'
    rcases hbad with hne | ⟨e', halloc'⟩
    · exact absurd rfl hne
    · rw [halloc] at halloc'
      cases halloc'

/-! ## Records and pages -/

/-- The record starts and ends on a page. -/
def PageAligned (mp : UthreadMap) : Prop :=
  mp.vaddr.toNat % 4096 = 0 ∧ mp.size.toNat % 4096 = 0

theorem stop_toNat {mp : UthreadMap} (h : mp.vaddr < mp.stop) :
    mp.stop.toNat = mp.vaddr.toNat + mp.size.toNat ∧ 0 < mp.size.toNat := by
  have hv : mp.vaddr.toNat < 2 ^ 64 := mp.vaddr.toNat_lt
  have hs : mp.size.toNat < 2 ^ 64 := mp.size.toNat_lt
  rw [UInt64.lt_iff_toNat_lt, UthreadMap.stop, UInt64.toNat_add] at h
  rw [UthreadMap.stop, UInt64.toNat_add]
  omega

/-- Records apart from each other share no page. -/
theorem pages_apart {a b : UthreadMap} (ha : PageAligned a) (hb : PageAligned b)
    (hfa : a.vaddr < a.stop) (hfb : b.vaddr < b.stop)
    (h : a.stop ≤ b.vaddr ∨ b.stop ≤ a.vaddr) {p : Nat} (hp : pageIn a.vaddr a.size p = true) :
    pageIn b.vaddr b.size p = false := by
  cases hq : pageIn b.vaddr b.size p with
  | false => rfl
  | true =>
      obtain ⟨hsa, -⟩ := stop_toNat hfa
      obtain ⟨hsb, -⟩ := stop_toNat hfb
      obtain ⟨ha₁, ha₂⟩ := ha
      obtain ⟨hb₁, hb₂⟩ := hb
      rw [pageIn_iff] at hp hq
      rw [UInt64.le_iff_toNat_le, UInt64.le_iff_toNat_le] at h
      omega

/-- A record whose pages were free, and are mapped now. -/
theorem Described.insert {ut : Uthread} {mp : UthreadMap} {l : List UthreadMap} {b : Vaddr}
    {t : PageTable} (h : Described ut) (hfits : mp.vaddr < mp.stop)
    (hins : insertMap mp ut.mapList = some l) (halign : PageAligned mp)
    (hpages : ∀ p, (t p).isSome = true ↔
      pageIn mp.vaddr mp.size p = true ∨ (ut.pageTable p).isSome = true) :
    Described { ut with mapList := l, nsVaBottom := b, pageTable := t } := by
  have hperm := insertMap_perm hins
  refine ⟨h.layout.insert hfits hins, ?_, ?_⟩
  · intro m hm
    rcases List.mem_cons.mp (hperm.mem_iff.mp hm) with rfl | hm
    · exact halign
    · exact h.aligned m hm
  · intro p
    dsimp only
    rw [hpages p, h.agrees p]
    constructor
    · rintro (hp | ⟨m, hm, hp⟩)
      · exact ⟨mp, hperm.mem_iff.mpr (List.mem_cons_self ..), hp⟩
      · exact ⟨m, hperm.mem_iff.mpr (List.mem_cons_of_mem _ hm), hp⟩
    · rintro ⟨m, hm, hp⟩
      rcases List.mem_cons.mp (hperm.mem_iff.mp hm) with rfl | hm
      · exact .inl hp
      · exact .inr ⟨m, hm, hp⟩

/-- A record taken away with its pages. -/
theorem Described.remove {ut : Uthread} {before after : List UthreadMap} {mp : UthreadMap}
    {t : PageTable} (h : Described ut) (hlist : ut.mapList = before ++ mp :: after)
    (hr : archUthreadUnmap ut.pageTable mp = (noError, t)) :
    Described (uthreadMapRemove { ut with pageTable := t } before mp after) := by
  have hrange := archUthreadUnmap_ok hr
  have ht : t = fun p => if pageIn mp.vaddr mp.size p then none else ut.pageTable p := by
    rw [archUthreadUnmap] at hr
    rw [← arm64MmuUnmap_table hrange, hr]
  have hsub : (before ++ after).Sublist ut.mapList := by
    rw [hlist]
    exact List.Sublist.append (List.Sublist.refl _) (List.sublist_cons_self ..)
  have hmp : mp ∈ ut.mapList := by simp [hlist]
  refine ⟨h.layout.sublist hsub, fun m hm => h.aligned m (hsub.subset hm), ?_⟩
  have hother : ∀ m ∈ before ++ after, m.stop ≤ mp.vaddr ∨ mp.stop ≤ m.vaddr := by
    have hpair := h.layout.sorted
    rw [hlist] at hpair
    obtain ⟨-, hafter, hbefore⟩ := List.pairwise_append.mp hpair
    intro m hm
    rcases List.mem_append.mp hm with hm | hm
    · exact .inl (hbefore m hm mp (List.mem_cons_self ..))
    · exact .inr ((List.pairwise_cons.mp hafter).1 m hm)
  intro p
  simp only [uthreadMapRemove, ht]
  constructor
  · intro hsome
    by_cases hp : pageIn mp.vaddr mp.size p = true
    · simp [hp] at hsome
    · rw [if_neg hp] at hsome
      obtain ⟨m, hm, hpm⟩ := (h.agrees p).mp hsome
      rw [hlist] at hm
      rcases List.mem_append.mp hm with hm | hm
      · exact ⟨m, List.mem_append_left _ hm, hpm⟩
      · rcases List.mem_cons.mp hm with rfl | hm
        · exact absurd hpm hp
        · exact ⟨m, List.mem_append_right _ hm, hpm⟩
  · rintro ⟨m, hm, hpm⟩
    have hmem := hsub.subset hm
    have hno := pages_apart (h.aligned m hmem) (h.aligned mp hmp) (h.layout.fits m hmem)
      (h.layout.fits mp hmp) (hother m hm) hpm
    rw [if_neg (by simp [hno])]
    exact (h.agrees p).mpr ⟨m, hmem, hpm⟩

/-! ## The pages of a range -/

theorem pageSize_toNat : pageSize.toNat = 4096 := by decide +kernel

theorem add_pages_lt {v k i b : Nat} (hi : i < k) (h : v + k * 4096 < b) : v + i * 4096 < b :=
  Nat.lt_of_le_of_lt (Nat.add_le_add_left (Nat.mul_le_mul_right 4096 (Nat.le_of_lt hi)) v) h

theorem pageAddr_toNat {v : Vaddr} {i : Nat} (h : v.toNat + i * 4096 < 2 ^ 64) :
    (pageAddr v i).toNat = v.toNat + i * 4096 := by
  have hlt : i * 4096 < 2 ^ 64 := Nat.lt_of_le_of_lt (Nat.le_add_left _ _) h
  have hi : (UInt64.ofNat i).toNat = i :=
    UInt64.toNat_ofNat_of_lt' (Nat.lt_of_le_of_lt (Nat.le_mul_of_pos_right i (by decide)) hlt)
  rw [pageAddr, UInt64.toNat_add, UInt64.toNat_mul, hi, pageSize_toNat, Nat.mod_eq_of_lt hlt,
    Nat.mod_eq_of_lt h]

/-- The pages of `k` entries of one page each. -/
theorem pages_iff {v : Vaddr} {k p : Nat} (hv : v.toNat % 4096 = 0)
    (h : v.toNat + k * 4096 < 2 ^ 64) :
    (∃ i < k, pageIn (pageAddr v i) pageSize p = true) ↔
      v.toNat / 4096 ≤ p ∧ p < v.toNat / 4096 + k := by
  have hpage : ∀ i < k, pageIn (pageAddr v i) pageSize p = true ↔ p = v.toNat / 4096 + i := by
    intro i hi
    have haddr := pageAddr_toNat (add_pages_lt hi h)
    rw [pageIn_iff, haddr, pageSize_toNat]
    omega
  constructor
  · rintro ⟨i, hi, hp⟩
    have := (hpage i hi).mp hp
    omega
  · rintro ⟨hlo, hhi⟩
    refine ⟨p - v.toNat / 4096, by omega, (hpage _ (by omega)).mpr (by omega)⟩

theorem Overlay.isSome_iff {addr : Nat → Vaddr} {size : UInt64} {k : Nat} {t t' : PageTable}
    (h : Overlay addr size k t t') (p : Nat) :
    (t' p).isSome = true ↔
      (∃ i < k, pageIn (addr i) size p = true) ∨ (t p).isSome = true := by
  by_cases hex : ∃ i < k, pageIn (addr i) size p = true
  · obtain ⟨i, hi, hp⟩ := hex
    exact ⟨fun _ => .inl ⟨i, hi, hp⟩, fun _ => h.isSome i hi p hp⟩
  · have hno : ∀ i < k, pageIn (addr i) size p = false := by
      intro i hi
      exact Bool.eq_false_of_not_eq_true (fun hp => hex ⟨i, hi, hp⟩)
    rw [h.other p hno]
    exact ⟨.inr, fun hor => hor.resolve_left hex⟩

/-- A record that `arch_uthread_map` has mapped starts on a page, and its pages
are mapped. -/
theorem archUthreadMap_pages {t t' : PageTable} {al : Nat → Bool} {mp : UthreadMap}
    (h : archUthreadMap t al mp = some (noError, t')) (hfits : mp.vaddr < mp.stop)
    (hsize : mp.size.toNat % 4096 = 0) :
    mp.vaddr.toNat % 4096 = 0 ∧ ∀ p, (t' p).isSome = true ↔
      pageIn mp.vaddr mp.size p = true ∨ (t p).isSome = true := by
  have hover := archUthreadMap_overlay h
  obtain ⟨-, hpos⟩ := stop_toNat hfits
  have hstop : mp.vaddr.toNat + mp.size.toNat < 2 ^ 64 := by
    rw [← (stop_toNat hfits).1]
    exact mp.stop.toNat_lt
  have hzero : (entryAddr mp (entrySizeOf mp) 0).toNat = mp.vaddr.toNat := by
    simp [entryAddr]
  by_cases hcontig : hasFlag mp.flags utmPhysContig = true
  · have hes : entrySizeOf mp = mp.size := if_pos hcontig
    have hn : (mp.size / mp.size).toNat = 1 := by
      rw [UInt64.toNat_div, Nat.div_self hpos]
    rw [hes] at hover hzero
    rw [hn] at hover
    refine ⟨hzero ▸ (hover.aligned 0 (by omega)).1, ?_⟩
    intro p
    rw [hover.isSome_iff p]
    have hadd : entryAddr mp mp.size 0 = mp.vaddr := UInt64.toNat_inj.mp hzero
    constructor
    · rintro (⟨i, hi, hp⟩ | ht)
      · rw [show i = 0 by omega, hadd] at hp
        exact .inl hp
      · exact .inr ht
    · rintro (hp | ht)
      · exact .inl ⟨0, by omega, by rw [hadd]; exact hp⟩
      · exact .inr ht
  · have hes : entrySizeOf mp = pageSize := if_neg hcontig
    have hn : (mp.size / pageSize).toNat = mp.size.toNat / 4096 := by
      rw [UInt64.toNat_div]
      rfl
    rw [hes] at hover hzero
    rw [hn] at hover
    have hv : mp.vaddr.toNat % 4096 = 0 := hzero ▸ (hover.aligned 0 (by omega)).1
    refine ⟨hv, ?_⟩
    intro p
    rw [hover.isSome_iff p, show entryAddr mp pageSize = pageAddr mp.vaddr from rfl,
      pages_iff hv (by omega), pageIn_iff]
    constructor
    · rintro (hp | ht)
      · exact .inl (by omega)
      · exact .inr ht
    · rintro (hp | ht)
      · exact .inl (by omega)
      · exact .inr ht

/-! ## Agreement -/

theorem size_aligned {size : UInt64} (h : ¬(size &&& 0xFFF != 0) = true) :
    size.toNat % 4096 = 0 := by
  have hzero : size &&& 0xFFF = 0 := by simpa using h
  have := congrArg UInt64.toNat hzero
  rw [UInt64.toNat_and] at this
  rw [← Nat.and_two_pow_sub_one_eq_mod size.toNat 12]
  exact this

theorem map_described {ut ut' : Uthread} {env : Env} {va v : Vaddr} {pfnList : List Paddr}
    {size : UInt64} {flags align : UInt32} {e : Int}
    (h : uthreadMap ut env va pfnList size flags align = some (e, v, ut')) (hd : Described ut)
    (hhalf : ¬(Call.map va pfnList size flags align).HalfDone ut env) : Described ut' := by
  rcases uthreadMap_cases h with ⟨-, rfl⟩ | ⟨ut₁, mp, t, hrec, harch, rfl⟩
  · exact hd
  · by_cases he : e = noError
    · rw [he] at harch
      rw [mapRecord] at hrec
      split at hrec
      · cases hrec
      rename_i hsize
      split at hrec
      · cases hrec
      obtain ⟨hfits, rfl, l, hins, rfl⟩ := uthreadMapAlloc_ok hrec
      obtain ⟨hv, hpages⟩ := archUthreadMap_pages harch hfits (size_aligned hsize)
      exact hd.insert hfits hins ⟨hv, size_aligned hsize⟩ hpages
    · exact absurd ⟨ut₁, mp, e, t, hrec, harch, he⟩ hhalf

/-- Where fewer pages are mapped than the record describes, the first one missing
is a page of no other record. -/
theorem not_described_of_short {ut ut' : Uthread} {mp : UthreadMap} {k : Nat} {t : PageTable}
    {l : List UthreadMap} {b : Vaddr} (hd : Described ut) (hfits : mp.vaddr < mp.stop)
    (hins : insertMap mp ut.mapList = some l)
    (hover : Overlay (pageAddr mp.vaddr) pageSize k ut.pageTable t)
    (hshort : k * 4096 < mp.size.toNat)
    (hut : ut' = { ut with mapList := l, nsVaBottom := b, pageTable := t }) : ¬Described ut' := by
  intro hd'
  subst hut
  have hmem : mp ∈ l := (insertMap_perm hins).mem_iff.mpr (List.mem_cons_self ..)
  have halign := hd'.aligned mp hmem
  obtain ⟨hstop, -⟩ := stop_toNat hfits
  have hlt : mp.vaddr.toNat + k * 4096 < 2 ^ 64 := by
    have := mp.stop.toNat_lt
    omega
  have hp : pageIn mp.vaddr mp.size (mp.vaddr.toNat / 4096 + k) = true := by
    rw [pageIn_iff]
    have := halign.1
    omega
  have hsome := (hd'.agrees _).mpr ⟨mp, hmem, hp⟩
  rcases (hover.isSome_iff _).mp hsome with hex | hold
  · have := (pages_iff halign.1 hlt).mp hex
    omega
  · obtain ⟨m, hm, hpm⟩ := (hd.agrees _).mp hold
    have hno := pages_apart (hd.aligned m hm) halign (hd.layout.fits m hm) hfits
      (hd'.layout.insert_apart hins hm) hpm
    rw [hp] at hno
    cases hno

theorem grant_described_iff {ut ut' : Uthread} {env : Env} {vaddrSrc v : Vaddr} {size : UInt64}
    {flags : UInt32} {source : GrantSource} {e : Int}
    (h : uthreadGrantPages ut env vaddrSrc size flags source = (e, v, ut')) (hd : Described ut)
    (hhalf : ¬(Call.grant vaddrSrc size flags source).HalfDone ut env) :
    Described ut' ↔ ¬(Call.grant vaddrSrc size flags source).Short ut env := by
  rcases uthreadGrantPages_cases h with ⟨hnone, rfl⟩ | ⟨plan, err, pfns, t, hgh, hend⟩
  · refine ⟨?_, fun _ => hd⟩
    rintro - ⟨plan, pfns, t, r, hgh, -⟩
    rw [hnone] at hgh
    cases hgh
  obtain ⟨hover, hle, hsize⟩ := grantHalf_overlay hgh
  have hsame : pfns = [] → { ut with pageTable := t } = ut := by
    intro hnil
    rw [hnil] at hover
    have : t = ut.pageTable := funext fun p => hover.other p (by simp)
    rw [this]
  rcases hend with ⟨hne, rfl, rfl⟩ | ⟨rfl, ⟨halloc, rfl⟩ | ⟨mp, halloc, rfl⟩⟩
  · have hnil : pfns = [] := by
      by_contra hpfns
      exact hhalf ⟨plan, e, pfns, t, hgh, hpfns, .inl hne⟩
    rw [hsame hnil]
    refine ⟨?_, fun _ => hd⟩
    rintro - ⟨plan', pfns', t', r, hgh', -⟩
    rw [hgh] at hgh'
    cases hgh'
    exact absurd rfl hne
  · have hnil : pfns = [] := by
      by_contra hpfns
      exact hhalf ⟨plan, noError, pfns, t, hgh, hpfns, .inr ⟨e, halloc⟩⟩
    rw [hsame hnil]
    refine ⟨?_, fun _ => hd⟩
    rintro - ⟨plan', pfns', t', r, hgh', halloc', -⟩
    rw [hgh] at hgh'
    cases hgh'
    rw [halloc] at halloc'
    cases halloc'
  · obtain ⟨hfits, rfl, l, hins, rfl⟩ := uthreadMapAlloc_ok halloc
    constructor
    · rintro hd' ⟨plan', pfns', t', r, hgh', -, hshort⟩
      rw [hgh] at hgh'
      cases hgh'
      exact not_described_of_short hd hfits hins hover hshort rfl hd'
    · intro hshort
      have hall : pfns.length * 4096 = plan.size.toNat := by
        by_contra hne
        exact hshort ⟨plan, pfns, t, _, hgh, halloc, by omega⟩
      obtain ⟨hstop, hpos⟩ := @stop_toNat (newMap plan.vaddr (pfnsOf env plan.npages pfns)
        plan.size plan.flags plan.align) hfits
      change _ = plan.vaddr.toNat + plan.size.toNat at hstop
      change 0 < plan.size.toNat at hpos
      have hzero : pageAddr plan.vaddr 0 = plan.vaddr := by simp [pageAddr]
      have hv : plan.vaddr.toNat % 4096 = 0 := hzero ▸ (hover.aligned 0 (by omega)).1
      have hlt : plan.vaddr.toNat + pfns.length * 4096 < 2 ^ 64 := by
        rw [hall, ← hstop]
        exact UInt64.toNat_lt _
      refine hd.insert hfits hins ⟨hv, hsize⟩ ?_
      intro p
      rw [hover.isSome_iff p, pages_iff hv hlt, pageIn_iff]
      change _ ↔ (plan.vaddr.toNat / 4096 ≤ p ∧
        p * 4096 < plan.vaddr.toNat + plan.size.toNat) ∨ _
      constructor
      · rintro (hp | ht)
        · exact .inl (by omega)
        · exact .inr ht
      · rintro (hp | ht)
        · exact .inl (by omega)
        · exact .inr ht

/-- A call that returns an error leaves the thread as it was iff it is not cut in
half, and one that is not cut in half keeps records and page table in agreement
iff the translation does not stop short. -/
theorem call_undone_iff {ut ut' : Uthread} {env : Env} {c : Call} {e : Int}
    (h : c.run ut env = some (e, ut')) :
    ((e ≠ noError → Unchanged ut ut') ↔ ¬c.HalfDone ut env) ∧
      (Described ut → ¬c.HalfDone ut env → (Described ut' ↔ ¬c.Short ut env)) := by
  cases c with
  | map va pfnList size flags align =>
      rw [Call.run] at h
      split at h
      · cases h
      · rename_i hrun
        cases h
        exact ⟨map_undone_iff hrun,
          fun hd hhalf => ⟨fun _ hs => hs, fun _ => map_described hrun hd hhalf⟩⟩
  | grant vaddrSrc size flags source =>
      rw [Call.run] at h
      split at h
      rename_i hrun
      cases h
      exact ⟨grant_undone_iff hrun, fun hd hhalf => grant_described_iff hrun hd hhalf⟩
  | unmap vaddr size =>
      have hrun := Option.some.inj h
      rcases uthreadUnmap_cases hrun with rfl | ⟨rfl, before, mp, after, t, hlist, hr, rfl⟩
      · exact ⟨⟨fun _ hh => hh, fun _ _ => ⟨rfl, rfl, rfl⟩⟩,
          fun hd _ => ⟨fun _ hs => hs, fun _ => hd⟩⟩
      · exact ⟨⟨fun _ hh => hh, fun _ he => absurd rfl he⟩,
          fun hd _ => ⟨fun _ hs => hs, fun _ => hd.remove hlist hr⟩⟩

/-- In a run without such calls the records and the page table always agree. -/
theorem Reachable.described {ut ut' : Uthread}
    (h : Reachable (fun s env c => ¬c.HalfDone s env ∧ ¬c.Short s env) ut ut')
    (hd : Described ut) : Described ut' := by
  refine h.invariant hd ?_
  intro s s' env c e hI hok hrun
  exact ((call_undone_iff hrun).2 hI hok.1).mpr hok.2

/-! ## A record that stays -/

/-- A page at `MAX_USR_VA`, where the caller wants it. -/
def topCall : Call :=
  .map maxUsrVa [0x80000000] 0x1000 (utmR ||| utmFixed ||| utmPhysContig) utMapAlign4KB

/-- The thread after the call. -/
def topThread : Uthread := (topCall.run (Uthread.init 0x100000) Env.all).elim (Uthread.init 0) (·.2)

theorem topCall_run :
    topCall.run (Uthread.init 0x100000) Env.all = some (errInvalidArgs, topThread) := by
  have hfst : (topCall.run (Uthread.init 0x100000) Env.all).map (·.1) = some errInvalidArgs := by
    decide +kernel
  obtain ⟨r, hr, he⟩ := Option.map_eq_some_iff.mp hfst
  rw [topThread, hr, ← he]
  rfl

theorem call_undone_iff_top :
    (errInvalidArgs ≠ noError → Unchanged (Uthread.init 0x100000) topThread) ↔
      ¬topCall.HalfDone (Uthread.init 0x100000) Env.all :=
  (call_undone_iff topCall_run).1

/-- The page table does not take a page at `MAX_USR_VA`, and `uthread_map` returns
`ERR_INVALID_ARGS` with the record still in the list. -/
theorem topCall_changes :
    ¬∀ (ut ut' : Uthread) (env : Env) (c : Call) (e : Int), c.run ut env = some (e, ut') →
      e ≠ noError → Unchanged ut ut' := by
  intro h
  have hun := h _ _ _ _ _ topCall_run (by decide)
  have hlist : topThread.mapList.length = 1 := by decide +kernel
  rw [hun.1] at hlist
  cases hlist

end TX2SecureUart.AddrSpace
