/-
# `AddrSpace.Search` — what the two searches return

An address that is returned is apart from every record exactly when the search
computes no wrong bound on its way: from above, `mp->vaddr - size` does not go
below zero for a record it passes; from below, the end of a record it passes can
be rounded up within 32 bits.
-/
import TX2SecureUart.AddrSpace.Layout

namespace TX2SecureUart.AddrSpace

open Mask UserSpace

/-- The range is disjoint from the record. -/
def Apart (v : Vaddr) (size : UInt64) (mp : UthreadMap) : Prop :=
  v.toNat + size.toNat ≤ mp.vaddr.toNat ∨ mp.stop ≤ v

instance (v : Vaddr) (size : UInt64) (mp : UthreadMap) : Decidable (Apart v size mp) := by
  unfold Apart; infer_instance

/-- The records that the loop of `uthread_find_va_space_ns` goes below. -/
def nsPassed (size : UInt64) (align : UInt32) : Vaddr → List UthreadMap → List UthreadMap
  | _, [] => []
  | start, mp :: rest =>
      if mp.stop ≤ start then []
      else if !mp.isNs then []
      else mp :: nsPassed size align (minVa start (roundDown32 (mp.vaddr - size) align)) rest

/-- The records that the loop of `uthread_find_va_space_sec` goes above. -/
def secPassed (size : UInt64) (align : UInt32) : Vaddr → List UthreadMap → List UthreadMap
  | _, [] => []
  | start, mp :: rest =>
      if start + size ≤ mp.vaddr then []
      else mp :: secPassed size align (maxVa start (roundUp32 mp.stop align)) rest

/-- No bound that the search computes on its way is wrong. -/
def SearchFits (ut : Uthread) (size : UInt64) (flags align : UInt32) : Prop :=
  if hasFlag flags utmNsMem then
    ∀ mp ∈ nsPassed size align (roundDown32 (maxUsrVa - size) align) ut.mapList.reverse,
      size ≤ mp.vaddr
  else
    ∀ mp ∈ secPassed size align (roundUp32 ut.startStack align) ut.mapList,
      mp.stop.toNat + (align - 1).toNat < 2 ^ 32

/-! ## From above -/

theorem minVa_le_left (a b : Vaddr) : minVa a b ≤ a := by
  rw [minVa]
  split
  · exact UInt64.le_refl a
  · exact UInt64.not_lt.mp (by assumption)

theorem minVa_le_right (a b : Vaddr) : minVa a b ≤ b := by
  rw [minVa]
  split
  · exact UInt64.le_of_lt (by assumption)
  · exact UInt64.le_refl b

variable {bottom start r : Vaddr} {size : UInt64} {align : UInt32} {l : List UthreadMap}
  {mp : UthreadMap}

theorem mem_of_mem_nsPassed (h : mp ∈ nsPassed size align start l) : mp ∈ l := by
  induction l generalizing start with
  | nil => simp [nsPassed] at h
  | cons a rest ih =>
      rw [nsPassed] at h
      split at h
      · simp at h
      · split at h
        · simp at h
        · rcases List.mem_cons.mp h with rfl | h
          · exact List.mem_cons_self ..
          · exact List.mem_cons_of_mem _ (ih h)

/-- The search only goes down. -/
theorem findNsLoop_le (h : findNsLoop bottom size align start l = some r) : r ≤ start := by
  induction l generalizing start with
  | nil =>
      cases h
      exact UInt64.le_refl _
  | cons a rest ih =>
      rw [findNsLoop] at h
      split at h
      · split at h
        · cases h
          exact UInt64.le_refl _
        · split at h
          · cases h
          · cases h
            exact UInt64.le_refl _
      · split at h
        · cases h
        · exact UInt64.le_trans (ih h) (minVa_le_left _ _)

/-- A record the search goes below ends above the result, and the bound taken
from it is kept. -/
theorem findNsLoop_passed (h : findNsLoop bottom size align start l = some r)
    (hmp : mp ∈ nsPassed size align start l) :
    r < mp.stop ∧ r ≤ roundDown32 (mp.vaddr - size) align := by
  induction l generalizing start with
  | nil => simp [nsPassed] at hmp
  | cons a rest ih =>
      rw [findNsLoop] at h
      rw [nsPassed] at hmp
      split at h
      · rw [if_pos (by assumption)] at hmp
        simp at hmp
      · rename_i hstop
        split at h
        · cases h
        · rename_i hns
          rw [if_neg hstop, if_neg hns] at hmp
          rcases List.mem_cons.mp hmp with rfl | hmp
          · have hle := findNsLoop_le h
            have hlt := UInt64.not_le.mp hstop
            exact ⟨UInt64.lt_of_le_of_lt (UInt64.le_trans hle (minVa_le_left _ _)) hlt,
              UInt64.le_trans hle (minVa_le_right _ _)⟩
          · exact ih h hmp

/-- A record the search does not go below ends below the result. -/
theorem findNsLoop_other (hs : l.Pairwise (fun a b => b.stop ≤ a.vaddr))
    (hfits : ∀ m ∈ l, m.vaddr < m.stop) (h : findNsLoop bottom size align start l = some r)
    (hmem : mp ∈ l) (hmp : mp ∉ nsPassed size align start l) : mp.stop ≤ r := by
  induction l generalizing start with
  | nil => simp at hmem
  | cons a rest ih =>
      obtain ⟨hhead, hrest⟩ := List.pairwise_cons.mp hs
      rw [findNsLoop] at h
      rw [nsPassed] at hmp
      split at h
      · rename_i hstop
        have hr : r = start := by
          split at h
          · cases h
            rfl
          · split at h
            · cases h
            · cases h
              rfl
        rw [hr]
        rcases List.mem_cons.mp hmem with rfl | hmem
        · exact hstop
        · have ha := hfits a (List.mem_cons_self ..)
          exact UInt64.le_trans (hhead mp hmem) (UInt64.le_trans (UInt64.le_of_lt ha) hstop)
      · rename_i hstop
        split at h
        · cases h
        · rename_i hns
          rw [if_neg hstop, if_neg hns, List.mem_cons, not_or] at hmp
          have hmem' := (List.mem_cons.mp hmem).resolve_left hmp.1
          exact ih hrest (fun m hm => hfits m (List.mem_cons_of_mem _ hm)) h hmem' hmp.2

/-- For a record passed, the result is apart from it iff the bound did not wrap. -/
theorem findNsLoop_apart_iff (h : findNsLoop bottom size align start l = some r)
    (hmp : mp ∈ nsPassed size align start l) : Apart r size mp ↔ size ≤ mp.vaddr := by
  obtain ⟨hlt, hle⟩ := findNsLoop_passed h hmp
  constructor
  · rintro (hbelow | habove)
    · rw [UInt64.le_iff_toNat_le]
      omega
    · exact absurd hlt (UInt64.not_lt.mpr habove)
  · intro hsize
    left
    have hround := roundDown32_le (mp.vaddr - size) align
    rw [UInt64.toNat_sub_of_le _ _ hsize] at hround
    rw [UInt64.le_iff_toNat_le] at hle hsize
    omega

/-! ## From below -/

theorem le_maxVa_left (a b : Vaddr) : a ≤ maxVa a b := by
  rw [maxVa]
  split
  · exact UInt64.le_refl a
  · exact UInt64.not_lt.mp (by assumption)

theorem le_maxVa_right (a b : Vaddr) : b ≤ maxVa a b := by
  rw [maxVa]
  split
  · exact UInt64.le_of_lt (by assumption)
  · exact UInt64.le_refl b

theorem mem_of_mem_secPassed (h : mp ∈ secPassed size align start l) : mp ∈ l := by
  induction l generalizing start with
  | nil => simp [secPassed] at h
  | cons a rest ih =>
      rw [secPassed] at h
      split at h
      · simp at h
      · rcases List.mem_cons.mp h with rfl | h
        · exact List.mem_cons_self ..
        · exact List.mem_cons_of_mem _ (ih h)

/-- The search only goes up. -/
theorem le_findSecLoop : start ≤ findSecLoop size align start l := by
  induction l generalizing start with
  | nil => exact UInt64.le_refl _
  | cons a rest ih =>
      rw [findSecLoop]
      split
      · exact UInt64.le_refl _
      · exact UInt64.le_trans (le_maxVa_left _ _) ih

/-- Where the search goes is always a rounded address. -/
theorem findSecLoop_add_lt (hstart : start.toNat + (align - 1).toNat < 2 ^ 32) :
    (findSecLoop size align start l).toNat + (align - 1).toNat < 2 ^ 32 := by
  induction l generalizing start with
  | nil => exact hstart
  | cons a rest ih =>
      rw [findSecLoop]
      split
      · exact hstart
      · apply ih
        rw [maxVa]
        split
        · exact hstart
        · exact roundUp32_add_lt _ _

/-- A record the search goes above begins below the end of the result, and the
bound taken from it is kept. -/
theorem findSecLoop_passed (hr : findSecLoop size align start l = r)
    (hfit : r.toNat + size.toNat < 2 ^ 64) (hmp : mp ∈ secPassed size align start l) :
    mp.vaddr.toNat < r.toNat + size.toNat ∧ roundUp32 mp.stop align ≤ r := by
  induction l generalizing start with
  | nil => simp [secPassed] at hmp
  | cons a rest ih =>
      rw [findSecLoop] at hr
      rw [secPassed] at hmp
      split at hr
      · rw [if_pos (by assumption)] at hmp
        simp at hmp
      · rename_i hpass
        rw [if_neg hpass] at hmp
        rcases List.mem_cons.mp hmp with rfl | hmp
        · have hle : maxVa start (roundUp32 mp.stop align) ≤ r := hr ▸ le_findSecLoop
          have hstart := UInt64.le_trans (le_maxVa_left _ _) hle
          refine ⟨?_, UInt64.le_trans (le_maxVa_right _ _) hle⟩
          rw [UInt64.le_iff_toNat_le, UInt64.toNat_add] at hpass
          rw [UInt64.le_iff_toNat_le] at hstart
          omega
        · exact ih hr hmp

/-- A record the search does not go above begins above the result. -/
theorem findSecLoop_other (hs : l.Pairwise (fun a b => a.stop ≤ b.vaddr))
    (hfits : ∀ m ∈ l, m.vaddr < m.stop) (hr : findSecLoop size align start l = r)
    (hmem : mp ∈ l) (hmp : mp ∉ secPassed size align start l) : r + size ≤ mp.vaddr := by
  induction l generalizing start with
  | nil => simp at hmem
  | cons a rest ih =>
      obtain ⟨hhead, hrest⟩ := List.pairwise_cons.mp hs
      rw [findSecLoop] at hr
      rw [secPassed] at hmp
      split at hr
      · rename_i hpass
        rw [← hr]
        rcases List.mem_cons.mp hmem with rfl | hmem
        · exact hpass
        · have ha := hfits a (List.mem_cons_self ..)
          exact UInt64.le_trans hpass (UInt64.le_trans (UInt64.le_of_lt ha) (hhead mp hmem))
      · rename_i hpass
        rw [if_neg hpass, List.mem_cons, not_or] at hmp
        have hmem' := (List.mem_cons.mp hmem).resolve_left hmp.1
        exact ih hrest (fun m hm => hfits m (List.mem_cons_of_mem _ hm)) hr hmem' hmp.2

/-- For a record passed, the result is apart from it iff its end could be
rounded up in 32 bits. -/
theorem findSecLoop_apart_iff (hr : findSecLoop size align start l = r)
    (hstart : start.toNat + (align - 1).toNat < 2 ^ 32)
    (hfit : r.toNat + size.toNat < 2 ^ 64) (hmp : mp ∈ secPassed size align start l) :
    Apart r size mp ↔ mp.stop.toNat + (align - 1).toNat < 2 ^ 32 := by
  obtain ⟨hlt, hle⟩ := findSecLoop_passed hr hfit hmp
  have hround : r.toNat + (align - 1).toNat < 2 ^ 32 := by
    rw [← hr]
    exact findSecLoop_add_lt hstart
  constructor
  · rintro (hbelow | habove)
    · omega
    · rw [UInt64.le_iff_toNat_le] at habove
      omega
  · intro hfits
    right
    have hup := le_roundUp32 hfits
    rw [UInt64.le_iff_toNat_le] at hle ⊢
    omega

/-! ## Both -/

theorem add_toNat_of_not_wrap {a b : UInt64} (h : ¬a + b < a) :
    (a + b).toNat = a.toNat + b.toNat ∧ a.toNat + b.toNat < 2 ^ 64 := by
  have ha : a.toNat < 2 ^ 64 := a.toNat_lt
  have hb : b.toNat < 2 ^ 64 := b.toNat_lt
  rw [UInt64.lt_iff_toNat_lt, UInt64.toNat_add] at h
  rw [UInt64.toNat_add]
  omega

theorem findVaSpaceNs_apart_iff {ut : Uthread} (hl : Layout ut.mapList)
    (hv : findVaSpaceNs ut size align ≠ 0) :
    (∀ mp ∈ ut.mapList, Apart (findVaSpaceNs ut size align) size mp) ↔
      ∀ mp ∈ nsPassed size align (roundDown32 (maxUsrVa - size) align) ut.mapList.reverse,
        size ≤ mp.vaddr := by
  rw [findVaSpaceNs] at hv ⊢
  cases hloop : findNsLoop ut.nsVaBottom size align (roundDown32 (maxUsrVa - size) align)
      ut.mapList.reverse with
  | none => simp [hloop] at hv
  | some start =>
      simp only [hloop] at hv ⊢
      split at hv
      · simp at hv
      rename_i hok
      rw [if_neg hok]
      have hs : ut.mapList.reverse.Pairwise (fun a b => b.stop ≤ a.vaddr) :=
        List.pairwise_reverse.mpr hl.sorted
      have hfits : ∀ m ∈ ut.mapList.reverse, m.vaddr < m.stop :=
        fun m hm => hl.fits m (List.mem_reverse.mp hm)
      constructor
      · intro h mp hmp
        exact (findNsLoop_apart_iff hloop hmp).mp
          (h mp (List.mem_reverse.mp (mem_of_mem_nsPassed hmp)))
      · intro h mp hmem
        by_cases hmp : mp ∈ nsPassed size align (roundDown32 (maxUsrVa - size) align)
            ut.mapList.reverse
        · exact (findNsLoop_apart_iff hloop hmp).mpr (h mp hmp)
        · exact Or.inr (findNsLoop_other hs hfits hloop (List.mem_reverse.mpr hmem) hmp)

theorem findVaSpaceSec_apart_iff {ut : Uthread} (hl : Layout ut.mapList)
    (hv : findVaSpaceSec ut size align ≠ 0) :
    (∀ mp ∈ ut.mapList, Apart (findVaSpaceSec ut size align) size mp) ↔
      ∀ mp ∈ secPassed size align (roundUp32 ut.startStack align) ut.mapList,
        mp.stop.toNat + (align - 1).toNat < 2 ^ 32 := by
  rw [findVaSpaceSec] at hv ⊢
  generalize hloop : findSecLoop size align (roundUp32 ut.startStack align) ut.mapList = start
    at hv ⊢
  split at hv
  · simp at hv
  rename_i hok
  rw [if_neg hok]
  obtain ⟨-, hwrap⟩ : ¬ut.nsVaBottom < start + size ∧ ¬start + size < start := by
    simpa using hok
  obtain ⟨hadd, hfit⟩ := add_toNat_of_not_wrap hwrap
  have hstart := roundUp32_add_lt ut.startStack align
  constructor
  · intro h mp hmp
    exact (findSecLoop_apart_iff hloop hstart hfit hmp).mp (h mp (mem_of_mem_secPassed hmp))
  · intro h mp hmem
    by_cases hmp : mp ∈ secPassed size align (roundUp32 ut.startStack align) ut.mapList
    · exact (findSecLoop_apart_iff hloop hstart hfit hmp).mpr (h mp hmp)
    · left
      have hother := findSecLoop_other hl.sorted hl.fits hloop hmem hmp
      rw [UInt64.le_iff_toNat_le] at hother
      omega

/-- An address the search returns is apart from every record iff no bound on the
way was wrong. -/
theorem findVaSpace_apart_iff {ut : Uthread} {flags : UInt32} (hl : Layout ut.mapList)
    (hv : findVaSpace ut size flags align ≠ 0) :
    (∀ mp ∈ ut.mapList, Apart (findVaSpace ut size flags align) size mp) ↔
      SearchFits ut size flags align := by
  rw [findVaSpace] at hv ⊢
  rw [SearchFits]
  cases hns : hasFlag flags utmNsMem with
  | true =>
      simp only [hns, ↓reduceIte] at hv ⊢
      exact findVaSpaceNs_apart_iff hl hv
  | false =>
      simp only [hns, Bool.false_eq_true, ↓reduceIte] at hv ⊢
      exact findVaSpaceSec_apart_iff hl hv

/-- After any calls the records are sorted, disjoint and do not wrap, and an
address that is returned is disjoint from all of them iff no bound that the
search computed on its way was wrong. -/
theorem layout_and_search_iff {startStack : Vaddr} {ut : Uthread}
    (h : Reachable (fun _ _ _ => True) (Uthread.init startStack) ut) :
    Layout ut.mapList ∧
      ∀ (size : UInt64) (flags align : UInt32), findVaSpace ut size flags align ≠ 0 →
        ((∀ mp ∈ ut.mapList, Apart (findVaSpace ut size flags align) size mp) ↔
          SearchFits ut size flags align) := by
  have hl := h.layout Layout.nil
  exact ⟨hl, fun size flags align hv => findVaSpace_apart_iff hl hv⟩

/-! ## A search that goes wrong -/

/-- A fixed stack of one page below 1 MB, and then 16 MB of non-secure memory. -/
def lowStackCalls : List Call :=
  [.map 0xFF000 [0x80000000] 0x1000 (utmR ||| utmW ||| utmStack ||| utmFixed ||| utmPhysContig)
      utMapAlign4KB,
    .map 0 [0x90000000] 0x1000000 (utmR ||| utmW ||| utmNsMem ||| utmPhysContig) utMapAlign4KB]

/-- The thread that these calls leave. -/
def lowStack : Uthread :=
  (runCalls Env.all (Uthread.init 0x100000) lowStackCalls).getD (Uthread.init 0)

theorem lowStack_reachable :
    Reachable (fun _ _ _ => True) (Uthread.init 0x100000) lowStack := by
  refine reachable_of_runCalls (c := lowStackCalls) (e := Env.all) (fun _ _ _ => trivial) ?_
  have hsome : (runCalls Env.all (Uthread.init 0x100000) lowStackCalls).isSome = true := by
    decide +kernel
  obtain ⟨ut, hut⟩ := Option.isSome_iff_exists.mp hsome
  rw [lowStack, hut, Option.getD_some]

theorem lowStack_search :
    (∀ mp ∈ lowStack.mapList, Apart (findVaSpace lowStack 0x1000 utmNsMem utMapAlign4KB) 0x1000 mp) ↔
      SearchFits lowStack 0x1000 utmNsMem utMapAlign4KB :=
  (layout_and_search_iff lowStack_reachable).2 0x1000 utmNsMem utMapAlign4KB (by decide +kernel)

/-- 24 MB are asked for when 16 MB are mapped at the top: `mp->vaddr - size` wraps,
and the address returned lies below them with the range across them. -/
theorem lowStack_not_apart :
    ¬∀ ut, Reachable (fun _ _ _ => True) (Uthread.init 0x100000) ut →
      ∀ (size : UInt64) (flags align : UInt32), findVaSpace ut size flags align ≠ 0 →
        ∀ mp ∈ ut.mapList, Apart (findVaSpace ut size flags align) size mp := by
  intro h
  have hbad := h lowStack lowStack_reachable 0x1800000 utmNsMem utMapAlign4KB (by decide +kernel)
  revert hbad
  decide +kernel

end TX2SecureUart.AddrSpace
