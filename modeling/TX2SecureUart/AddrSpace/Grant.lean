/-
# `AddrSpace.Grant` — granting pages of the non-secure world

The non-secure world describes its pages by the entries of its own page table.
`arch_uthread_translate_map` looks at each entry and maps the page, and
`uthread_grant_pages` records the addresses of all of them.
-/
import TX2SecureUart.AddrSpace.Mmio

namespace TX2SecureUart.AddrSpace

open Mask UserSpace

/-! ## The entries -/

/-- `NS_PTE_PHYSADDR` -/
def nsPtePhysaddr (pte : UInt64) : Paddr := pte &&& 0xFFFFFFFFF000

/-- The outer and the inner cache attributes of an entry. -/
def nsOuter (pte : UInt64) : UInt64 := mairToCb.getD ((pte >>> 52) &&& 0xF).toNat 0

def nsInner (pte : UInt64) : UInt64 := mairToCb.getD ((pte >>> 48) &&& 0xF).toNat 0

/-- The page can be granted: user-writable if the grant is, and of known cache attributes. -/
structure AllowedPte (flags : UInt32) (pte : UInt64) : Prop where
  writable : hasFlag flags utmW = true → (pte >>> 6) &&& 0x3 = 0x1
  outer : nsOuter pte &&& 0x4 = 0
  inner : nsInner pte &&& 0x4 = 0

def nsInfo (pte : UInt64) : PageInfo :=
  ⟨nsInner pte, nsOuter pte, (pte >>> 8) &&& 0x3, nsPtePhysaddr pte⟩

/-- An entry that is refused leaves the function with `NO_ERROR`. -/
theorem nsPageInfo_cases (flags : UInt32) (pte : UInt64) :
    AllowedPte flags pte ∧ nsPageInfo flags pte = .ok (nsInfo pte) ∨
      ¬AllowedPte flags pte ∧ nsPageInfo flags pte = .error noError := by
  unfold nsPageInfo
  by_cases hw : (hasFlag flags utmW && (pte >>> 6) &&& 0x3 != 0x1) = true
  · refine .inr ⟨?_, if_pos hw⟩
    intro h
    rw [Bool.and_eq_true, bne_iff_ne] at hw
    exact hw.2 (h.writable hw.1)
  rw [if_neg hw]
  by_cases ho : (nsOuter pte &&& 0x4 != 0) = true
  · exact .inr ⟨fun h => bne_iff_ne.mp ho h.outer, if_pos ho⟩
  by_cases hi : (nsInner pte &&& 0x4 != 0) = true
  · refine .inr ⟨fun h => bne_iff_ne.mp hi h.inner, ?_⟩
    exact (if_neg ho).trans (if_pos hi)
  · refine .inl ⟨⟨?_, ?_, ?_⟩, (if_neg ho).trans (if_neg hi)⟩
    · intro hflag
      rw [hflag, Bool.true_and, bne_iff_ne, not_not] at hw
      exact hw
    · rwa [bne_iff_ne, not_not] at ho
    · rwa [bne_iff_ne, not_not] at hi

/-! ## The loop -/

variable {page : Nat → Except Int PageInfo} {al : Nat → Bool} {v : Vaddr} {attrs : UInt64} {n pg : Nat}
  {first : Option PageInfo} {t t' : PageTable} {pfns : List Paddr} {e : Int}

/-- One pass that goes on. -/
theorem translateLoop_succ {info : PageInfo} (hpage : page pg = .ok info)
    (h : translateLoop page al v attrs (n + 1) pg first t = (noError, pfns, t')) :
    (first.getD info).sameAttrs info = true ∧ ∃ s pfns',
      arm64MmuMap t (al pg) (pageAddr v pg) info.physaddr pageSize (firstAttr attrs (first.getD info)) =
          (noError, s) ∧
        translateLoop page al v attrs n (pg + 1) (some (first.getD info)) s = (noError, pfns', t') ∧
        pfns = info.physaddr :: pfns' := by
  rw [translateLoop, hpage] at h
  dsimp only at h
  by_cases hsame : (first.getD info).sameAttrs info = true
  · rw [if_neg (by rw [hsame]; decide)] at h
    refine ⟨hsame, ?_⟩
    cases hm : arm64MmuMap t (al pg) (v + UInt64.ofNat pg * pageSize) info.physaddr pageSize
        (firstAttr attrs (first.getD info)) with
    | mk err s =>
      rw [hm] at h
      dsimp only at h
      by_cases herr : err ≠ noError
      · rw [if_pos herr] at h
        exact absurd (Prod.mk.inj h).1 herr
      · rw [if_neg herr] at h
        rw [not_not.mp herr] at hm
        cases hrest : translateLoop page al v attrs n (pg + 1) (some (first.getD info)) s with
        | mk err' r =>
          obtain ⟨pfns', s'⟩ := r
          rw [hrest] at h
          cases h
          exact ⟨s, pfns', hm, hrest, rfl⟩
  · rw [if_pos (by rw [Bool.eq_false_of_not_eq_true hsame]; decide)] at h
    cases h

/-- What is mapped stays mapped. -/
theorem translateLoop_keeps
    (h : translateLoop page al v attrs n pg first t = (noError, pfns, t')) {q : Nat} {entry : UInt64}
    (hq : t q = some entry) : t' q = some entry := by
  induction n generalizing pg first t pfns with
  | zero =>
    cases h
    exact hq
  | succ n ih =>
    cases hpage : page pg with
    | error err =>
      rw [translateLoop, hpage] at h
      cases h
      exact hq
    | ok info =>
      obtain ⟨-, s, pfns', hm, hrest, -⟩ := translateLoop_succ hpage h
      refine ih hrest ?_
      have hmapped := arm64MmuMap_ok hm
      cases hin : pageIn (pageAddr v pg) pageSize q with
      | false => rw [hmapped.other q hin, hq]
      | true =>
        have := hmapped.free q hin
        rw [hq] at this
        cases this

/-- The first page of the range is in it. -/
theorem pageIn_first (v : Vaddr) : pageIn v pageSize (v.toNat / 4096) = true := by
  have hsize : pageSize.toNat = 4096 := by decide
  rw [pageIn_iff, hsize]
  omega

/-- When no entry is refused, a translation that returns `NO_ERROR` has mapped every page. -/
theorem translateLoop_all {infos : Nat → PageInfo} (hpages : ∀ i < n, page (pg + i) = .ok (infos (pg + i)))
    (h : translateLoop page al v attrs n pg first t = (noError, pfns, t')) :
    pfns.length = n ∧ ∀ i < n, (first.getD (infos pg)).sameAttrs (infos (pg + i)) = true ∧
      pfns[i]? = some (infos (pg + i)).physaddr ∧
      t' ((pageAddr v (pg + i)).toNat / 4096) =
        some (leafEntry (pageAddr v (pg + i)) (infos (pg + i)).physaddr
          (firstAttr attrs (first.getD (infos pg))) ((pageAddr v (pg + i)).toNat / 4096)) := by
  induction n generalizing pg first t pfns with
  | zero =>
    cases h
    exact ⟨rfl, fun i hi => absurd hi (Nat.not_lt_zero i)⟩
  | succ n ih =>
    have hpage := hpages 0 (Nat.succ_pos n)
    rw [Nat.add_zero] at hpage
    obtain ⟨hsame, s, pfns', hm, hrest, rfl⟩ := translateLoop_succ hpage h
    have hnext : ∀ i < n, page (pg + 1 + i) = .ok (infos (pg + 1 + i)) := by
      intro i hi
      rw [Nat.add_right_comm]
      exact hpages (i + 1) (Nat.succ_lt_succ hi)
    obtain ⟨hlen, hall⟩ := ih hnext hrest
    refine ⟨congrArg (· + 1) hlen, ?_⟩
    intro i hi
    cases i with
    | zero =>
      refine ⟨hsame, rfl, ?_⟩
      refine translateLoop_keeps hrest ?_
      unfold arm64MmuMap at hm
      split at hm
      · cases hm
      split at hm
      · cases hm
      split at hm
      · cases hm
      · cases hm
        exact if_pos (pageIn_first _)
    | succ i =>
      have := hall i (Nat.lt_of_succ_lt_succ hi)
      rw [Nat.add_right_comm] at this
      exact this

/-! ## The call -/

theorem hasFlag_or {f g flag : UInt32} (h : g &&& flag = 0) : hasFlag (f ||| g) flag = hasFlag f flag := by
  have hdistrib : (f ||| g) &&& flag = f &&& flag ||| g &&& flag := by
    apply UInt32.toNat_inj.mp
    simp only [UInt32.toNat_and, UInt32.toNat_or, Nat.and_or_distrib_right]
  rw [hasFlag, hdistrib, h, UInt32.or_zero, hasFlag]

theorem AllowedPte.congr {f g : UInt32} (h : hasFlag f utmW = hasFlag g utmW) (pte : UInt64) :
    AllowedPte f pte ↔ AllowedPte g pte := by
  constructor
  · intro hf
    exact ⟨h ▸ hf.writable, hf.outer, hf.inner⟩
  · intro hg
    exact ⟨h ▸ hg.writable, hg.outer, hg.inner⟩

theorem hasFlag_contigFlags (npages : Nat) (flags : UInt32) :
    hasFlag (contigFlags npages flags) utmW = hasFlag flags utmW := by
  unfold contigFlags
  split
  · exact hasFlag_or (by decide)
  · rfl

/-- The attributes of a granted page do not touch its address. -/
theorem grant_attrsOutside (flags : UInt32) (info : PageInfo) :
    AttrsOutside (firstAttr (pteAttrOf flags) info) := by
  unfold AttrsOutside firstAttr pteAttrOf
  split <;> split <;> split <;> split <;> decide

theorem pteAddr_leaf {w : Vaddr} {pte attrs : UInt64} (hattrs : AttrsOutside attrs) :
    pteAddr (leafEntry w (nsPtePhysaddr pte) attrs (w.toNat / 4096)) = nsPtePhysaddr pte := by
  have hsame : nsPtePhysaddr pte + UInt64.ofNat ((w.toNat / 4096 - w.toNat / 4096) * 4096) =
      nsPtePhysaddr pte := by
    rw [Nat.sub_self, Nat.zero_mul]
    exact UInt64.add_zero _
  have hdistrib : (nsPtePhysaddr pte ||| attrs) &&& 0xFFFFFFFFF000 =
      nsPtePhysaddr pte &&& 0xFFFFFFFFF000 ||| attrs &&& 0xFFFFFFFFF000 := by
    apply UInt64.toNat_inj.mp
    simp only [UInt64.toNat_and, UInt64.toNat_or, Nat.and_or_distrib_right]
  rw [leafEntry, hsame, pteAddr, hdistrib, hattrs, UInt64.or_zero, nsPtePhysaddr, UInt64.and_assoc,
    UInt64.and_self]

/-- How many pages a grant is about. -/
def grantPages (vaddrSrc : Vaddr) (size : UInt64) : Nat :=
  if size = 0 then 0
  else (roundUp (size + (vaddrSrc &&& 0xFFF)) pageSize / pageSize).toUInt32.toNat

/-- Every page is allowed and like the first, it is mapped at its address and noted in the record that is
added. -/
def Granted (ut ut' : Uthread) (v vaddrSrc : Vaddr) (flags : UInt32) (ptes : List UInt64)
    (npages : Nat) : Prop :=
  0 < npages → ∃ mp, insertMap mp ut.mapList = some ut'.mapList ∧ v = mp.vaddr + (vaddrSrc &&& 0xFFF) ∧
    ∀ pg < npages, AllowedPte flags (ptes.getD pg 0) ∧
      (nsInfo (ptes.getD 0 0)).sameAttrs (nsInfo (ptes.getD pg 0)) = true ∧
      mp.pfnList[pg]? = some (nsPtePhysaddr (ptes.getD pg 0)) ∧
      ∃ entry, ut'.pageTable ((pageAddr mp.vaddr pg).toNat / 4096) = some entry ∧
        pteAddr entry = nsPtePhysaddr (ptes.getD pg 0)

/-- What a call that returns `NO_ERROR` has gone through. -/
theorem uthreadGrantPages_ok {ut ut' : Uthread} {env : Env} {vaddrSrc v : Vaddr} {size : UInt64}
    {flags : UInt32} {ptes : List UInt64} (hsize : size ≠ 0)
    (h : uthreadGrantPages ut env vaddrSrc size flags (.ns (some ptes)) = (noError, v, ut')) :
    ∃ plan pfns t mp l, plan.npages = grantPages vaddrSrc size ∧
      plan.size = roundUp (size + (vaddrSrc &&& 0xFFF)) pageSize ∧
      plan.flags = contigFlags plan.npages (flags ||| utmNsMem) ∧
      grantTranslate ut env (roundDown vaddrSrc pageSize) (.ns (some ptes)) plan = (noError, pfns, t) ∧
      mp = newMap plan.vaddr (pfnsOf env plan.npages pfns) plan.size plan.flags plan.align ∧
      insertMap mp ut.mapList = some l ∧ ut'.mapList = l ∧ ut'.pageTable = t ∧
      v = plan.vaddr + (vaddrSrc &&& 0xFFF) := by
  rw [uthreadGrantPages, if_neg (by rw [beq_iff_eq]; exact hsize)] at h
  dsimp only at h
  cases hplan : grantPlan ut (roundDown vaddrSrc pageSize) (vaddrSrc &&& 0xFFF) size flags
      (.ns (some ptes)) with
  | error err =>
    rw [hplan] at h
    dsimp only at h
    have herr : err = noError := (Prod.mk.inj h).1
    unfold grantPlan grantFlags at hplan
    dsimp only at hplan
    split at hplan
    · cases hplan
      exact absurd herr (by decide)
    · cases hplan
  | ok plan =>
    rw [hplan] at h
    dsimp only at h
    split at h
    · exact absurd (Prod.mk.inj h).1 (by decide)
    cases hr : grantTranslate ut env (roundDown vaddrSrc pageSize) (.ns (some ptes)) plan with
    | mk err r =>
      obtain ⟨pfns, t⟩ := r
      rw [hr] at h
      dsimp only at h
      by_cases herr : err ≠ noError
      · rw [if_pos herr] at h
        exact absurd (Prod.mk.inj h).1 herr
      rw [if_neg herr] at h
      cases not_not.mp herr
      cases halloc : grantAlloc { ut with pageTable := t } env plan pfns with
      | error e =>
        rw [halloc] at h
        exact absurd (Prod.mk.inj h).1 (uthreadMapAlloc_error halloc)
      | ok made =>
        obtain ⟨made, mp⟩ := made
        rw [halloc] at h
        cases h
        obtain ⟨-, hmp, l, hins, hut⟩ := uthreadMapAlloc_ok halloc
        have hflags : plan.flags = contigFlags plan.npages (flags ||| utmNsMem) := by
          unfold grantPlan grantFlags at hplan
          dsimp only at hplan
          split at hplan
          · cases hplan
          · cases hplan
            rfl
        obtain ⟨-, -, hsz, hnp⟩ := grantPlan_ok hplan
        refine ⟨plan, pfns, t, mp, l, ?_, hsz, hflags, hr, hmp, hins, ?_, ?_, rfl⟩
        · rw [hnp, hsz, grantPages, if_neg hsize]
        · rw [hut]
        · rw [hut]

theorem hasFlag_contig (npages : Nat) (flags : UInt32) :
    hasFlag (contigFlags npages (flags ||| utmNsMem)) utmPhysContig =
      (npages == 1 || hasFlag flags utmPhysContig) := by
  unfold contigFlags
  by_cases hone : (npages == 1) = true
  · rw [if_pos hone, hone, Bool.true_or, hasFlag, bne_iff_ne]
    intro h0
    have hbit : (flags ||| utmNsMem ||| utmPhysContig) &&& utmPhysContig = utmPhysContig := by
      apply UInt32.toNat_inj.mp
      refine Nat.eq_of_testBit_eq ?_
      intro i
      rw [UInt32.toNat_and, UInt32.toNat_or, Nat.testBit_and, Nat.testBit_or]
      cases utmPhysContig.toNat.testBit i with
      | false => exact Bool.and_false _
      | true => rw [Bool.or_true, Bool.and_self]
    rw [hbit] at h0
    exact absurd h0 (by decide)
  · rw [if_neg hone, Bool.eq_false_of_not_eq_true hone, Bool.false_or]
    exact hasFlag_or (by decide)

/-- The list tells which record was added. -/
theorem insertMap_inj {mp mp' : UthreadMap} {l l' : List UthreadMap} (h : insertMap mp l = some l')
    (h' : insertMap mp' l = some l') : mp = mp' := by
  by_contra hne
  have hperm := (insertMap_perm h).symm.trans (insertMap_perm h')
  have hcount := hperm.count_eq mp
  rw [List.count_cons_self, List.count_cons_of_ne (Ne.symm hne)] at hcount
  omega

/-- A grant from the non-secure world that returns `NO_ERROR` has granted all its pages exactly when every
entry is allowed, and the caller does not ask for a contiguous record of several pages. -/
theorem grant_ns_granted_iff {ut ut' : Uthread} {env : Env} {vaddrSrc v : Vaddr} {size : UInt64}
    {flags : UInt32} {ptes : List UInt64}
    (h : uthreadGrantPages ut env vaddrSrc size flags (.ns (some ptes)) = (noError, v, ut')) :
    Granted ut ut' v vaddrSrc flags ptes (grantPages vaddrSrc size) ↔
      (∀ pg < grantPages vaddrSrc size, AllowedPte flags (ptes.getD pg 0)) ∧
        (1 < grantPages vaddrSrc size → hasFlag flags utmPhysContig = false) := by
  by_cases hsize : size = 0
  · have hnone : grantPages vaddrSrc size = 0 := if_pos hsize
    rw [hnone]
    refine iff_of_true (fun h0 => absurd h0 (Nat.lt_irrefl 0)) ⟨?_, ?_⟩
    · intro pg hpg
      exact absurd hpg (Nat.not_lt_zero pg)
    · intro h1
      exact absurd h1 (Nat.not_lt_zero 1)
  obtain ⟨plan, pfns, t, mp, l, hnp, hsz, hflags, hr, rfl, hins, hlist, htable, hv⟩ :=
    uthreadGrantPages_ok hsize h
  have hcontig : hasFlag plan.flags utmPhysContig =
      (grantPages vaddrSrc size == 1 || hasFlag flags utmPhysContig) := by
    rw [hflags, hasFlag_contig, hnp]
  have hwrite : hasFlag plan.flags utmW = hasFlag flags utmW := by
    rw [hflags, hasFlag_contigFlags]
    exact hasFlag_or (by decide)
  constructor
  · intro hgranted
    refine ⟨?_, ?_⟩
    · intro pg hpg
      obtain ⟨_, -, -, hall⟩ := hgranted (Nat.zero_lt_of_lt hpg)
      exact (hall pg hpg).1
    · intro hmany
      obtain ⟨mp, hmp, -, hall⟩ := hgranted (Nat.zero_lt_of_lt hmany)
      have hsame : mp = newMap plan.vaddr (pfnsOf env plan.npages pfns) plan.size plan.flags plan.align :=
        insertMap_inj hmp (hins.trans (congrArg some hlist.symm))
      cases hflag : hasFlag flags utmPhysContig with
      | false => rfl
      | true =>
        have hget := (hall 1 hmany).2.2.1
        rw [hsame, newMap, allocPages, hcontig, hflag, Bool.or_true, if_pos rfl] at hget
        dsimp only at hget
        rw [List.getElem?_eq_none (by rw [List.length_take]; exact Nat.min_le_left _ _)] at hget
        cases hget
  · rintro ⟨hallowed, hnot⟩ hpos
    have hpages : ∀ i < plan.npages,
        (fun pg => nsPageInfo plan.flags (ptes.getD pg 0)) (0 + i) = .ok (nsInfo (ptes.getD (0 + i) 0)) := by
      intro i hi
      rw [Nat.zero_add]
      rcases nsPageInfo_cases plan.flags (ptes.getD i 0) with ⟨-, hok⟩ | ⟨hbad, -⟩
      · exact hok
      · rw [hnp] at hi
        exact absurd ((AllowedPte.congr hwrite _).mpr (hallowed i hi)) hbad
    obtain ⟨hlen, hall⟩ := @translateLoop_all _ _ _ _ _ 0 none _ _ _ (fun i => nsInfo (ptes.getD i 0)) hpages hr
    have hcount : allocPages plan.size plan.flags = plan.npages := by
      rw [allocPages, hcontig]
      by_cases hone : grantPages vaddrSrc size = 1
      · rw [hnp, hone]
        rfl
      · have hmany : 1 < grantPages vaddrSrc size := Nat.lt_of_le_of_ne hpos (Ne.symm hone)
        rw [hnot hmany, Bool.or_false, if_neg (by rw [beq_iff_eq]; exact hone), hnp, hsz, grantPages,
          if_neg hsize]
    refine ⟨_, hins.trans (congrArg some hlist.symm), hv, ?_⟩
    intro pg hpg
    have hpg' : pg < plan.npages := by rwa [hnp]
    obtain ⟨hsame, hpfn, hentry⟩ := hall pg hpg'
    rw [Nat.zero_add] at hsame hpfn hentry
    rw [← htable] at hentry
    refine ⟨hallowed pg hpg, hsame, ?_, _, hentry, pteAddr_leaf (grant_attrsOutside plan.flags _)⟩
    · show ((pfnsOf env plan.npages pfns).take (allocPages plan.size plan.flags))[pg]? = _
      rw [hcount, List.getElem?_take_of_lt hpg', pfnsOf, List.getElem?_map, List.getElem?_range hpg']
      show some (pfns.getD pg _) = _
      rw [List.getD_eq_getElem?_getD, hpfn]
      rfl

/-- A page with normal write-back memory, user-writable, at the given address. -/
def writablePte (paddr : UInt64) : UInt64 := 0xFF000000000040 ||| paddr

/-- The same, read-only. -/
def readOnlyPte (paddr : UInt64) : UInt64 := 0xFF0000000000C0 ||| paddr

def grantTwo (ptes : List UInt64) : Answer :=
  uthreadGrantPages (Uthread.init 0x100000) Env.all 0 0x2000 utmW (.ns (some ptes))

theorem grant_ns_granted_iff_two :
    (grantTwo [writablePte 0x80000000, writablePte 0x90000000]).1 = noError ∧
      Granted (Uthread.init 0x100000) (grantTwo [writablePte 0x80000000, writablePte 0x90000000]).2.2
        (grantTwo [writablePte 0x80000000, writablePte 0x90000000]).2.1 0 utmW
        [writablePte 0x80000000, writablePte 0x90000000] (grantPages 0 0x2000) := by
  have hrun : (grantTwo [writablePte 0x80000000, writablePte 0x90000000]).1 = noError := by
    decide +kernel
  refine ⟨hrun, (grant_ns_granted_iff (Prod.ext hrun rfl)).mpr ⟨?_, ?_⟩⟩
  · intro pg hpg
    have htwo : grantPages 0 0x2000 = 2 := by decide +kernel
    rw [htwo] at hpg
    interval_cases pg
    · exact ⟨fun _ => by decide +kernel, by decide +kernel, by decide +kernel⟩
    · exact ⟨fun _ => by decide +kernel, by decide +kernel, by decide +kernel⟩
  · intro _
    decide

/-- The second page is read-only, and the call returns `NO_ERROR`. -/
theorem readOnly_notGranted :
    (grantTwo [writablePte 0x80000000, readOnlyPte 0x90000000]).1 = noError ∧
      ¬Granted (Uthread.init 0x100000) (grantTwo [writablePte 0x80000000, readOnlyPte 0x90000000]).2.2
        (grantTwo [writablePte 0x80000000, readOnlyPte 0x90000000]).2.1 0 utmW
        [writablePte 0x80000000, readOnlyPte 0x90000000] (grantPages 0 0x2000) := by
  refine ⟨by decide +kernel, ?_⟩
  intro h
  obtain ⟨mp, -, -, hall⟩ := h (by decide +kernel)
  have := (hall 1 (by decide +kernel)).1.writable (by decide)
  exact absurd this (by decide +kernel)

end TX2SecureUart.AddrSpace
