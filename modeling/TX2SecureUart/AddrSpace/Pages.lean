/-
# `AddrSpace.Pages` — what the mapping loops do to the page table

Both loops lay entries of one size over a table, each over pages that were free.
An `Overlay` says which pages these are; it is what the loop of
`arch_uthread_map` undoes, and what the loop of `arch_uthread_translate_map`
leaves.
-/
import TX2SecureUart.AddrSpace.Layout

namespace TX2SecureUart.AddrSpace

open Mask UserSpace

/-! ## One range -/

theorem pageIn_iff {v : Vaddr} {size : UInt64} {p : Nat} :
    pageIn v size p = true ↔ v.toNat / 4096 ≤ p ∧ p * 4096 < v.toNat + size.toNat := by
  simp [pageIn]

theorem or_and_mask_eq_zero {a b c : UInt64} (h : unaligned a b c = false) :
    a.toNat % 4096 = 0 ∧ c.toNat % 4096 = 0 := by
  have hzero : (a ||| b ||| c) &&& 0xFFF = 0 := by simpa [unaligned] using h
  have hnat : ((a.toNat ||| b.toNat) ||| c.toNat) % 2 ^ 12 = 0 := by
    rw [← Nat.and_two_pow_sub_one_eq_mod]
    have := congrArg UInt64.toNat hzero
    simpa [UInt64.toNat_and, UInt64.toNat_or] using this
  rw [Nat.or_mod_two_pow, Nat.or_mod_two_pow] at hnat
  have hab := Nat.or_eq_zero_iff.mp hnat
  exact ⟨(Nat.or_eq_zero_iff.mp hab.1).1, hab.2⟩

/-- What a range that the page table takes looks like. -/
structure Mapped (t : PageTable) (v : Vaddr) (size : UInt64) (t' : PageTable) : Prop where
  inRange : outOfRange v size = false
  aligned : v.toNat % 4096 = 0 ∧ size.toNat % 4096 = 0
  free : ∀ p, pageIn v size p = true → t p = none
  isSome : ∀ p, pageIn v size p = true → (t' p).isSome = true
  other : ∀ p, pageIn v size p = false → t' p = t p

variable {t t' : PageTable} {ptAlloc : Bool} {v : Vaddr} {paddr : Paddr} {size attrs : UInt64}

theorem arm64MmuMap_ok (h : arm64MmuMap t ptAlloc v paddr size attrs = (noError, t')) :
    Mapped t v size t' := by
  rw [arm64MmuMap] at h
  split at h
  · cases h
  rename_i hrange
  split at h
  · cases h
  rename_i halign
  split at h
  · cases h
  rename_i hfree
  cases h
  obtain ⟨hv, hs⟩ := or_and_mask_eq_zero (Bool.eq_false_of_not_eq_true halign)
  refine ⟨Bool.eq_false_of_not_eq_true hrange, ⟨hv, hs⟩, ?_, ?_, ?_⟩
  · intro p hp
    rw [Bool.or_eq_true, not_or] at hfree
    rw [pageIn_iff] at hp
    have hmem : p ∈ List.range' (v.toNat / 4096) (size.toNat / 4096) :=
      List.mem_range'_1.mpr (by omega)
    cases hq : t p with
    | none => rfl
    | some pte => exact absurd (List.any_eq_true.mpr ⟨p, hmem, by rw [hq]; rfl⟩) hfree.2
  · intro p hp
    simp [hp]
  · intro p hp
    simp [hp]

theorem arm64MmuUnmap_table (h : outOfRange v size = false) :
    (arm64MmuUnmap t v size).2 = fun p => if pageIn v size p then none else t p := by
  rw [arm64MmuUnmap, if_neg (by simp [h])]

/-! ## Entries of one size -/

/-- `k` entries of one size have been laid over a table, on free pages. -/
structure Overlay (addr : Nat → Vaddr) (size : UInt64) (k : Nat) (t t' : PageTable) : Prop where
  inRange : ∀ i < k, outOfRange (addr i) size = false
  aligned : ∀ i < k, (addr i).toNat % 4096 = 0 ∧ size.toNat % 4096 = 0
  free : ∀ i < k, ∀ p, pageIn (addr i) size p = true → t p = none
  isSome : ∀ i < k, ∀ p, pageIn (addr i) size p = true → (t' p).isSome = true
  other : ∀ p, (∀ i < k, pageIn (addr i) size p = false) → t' p = t p

variable {addr : Nat → Vaddr} {k n : Nat}

theorem Overlay.refl : Overlay addr size 0 t t :=
  ⟨fun _ hi => absurd hi (Nat.not_lt_zero _), fun _ hi => absurd hi (Nat.not_lt_zero _),
    fun _ hi => absurd hi (Nat.not_lt_zero _), fun _ hi => absurd hi (Nat.not_lt_zero _),
    fun _ _ => rfl⟩

/-- One entry more. -/
theorem Overlay.succ {s : PageTable} (h : Overlay addr size k t s)
    (hm : Mapped s (addr k) size t') : Overlay addr size (k + 1) t t' := by
  have hkeep : ∀ i < k, ∀ p, pageIn (addr i) size p = true → pageIn (addr k) size p = false := by
    intro i hi p hp
    have hsome := h.isSome i hi p hp
    cases hq : pageIn (addr k) size p with
    | false => rfl
    | true => simp [hm.free p hq] at hsome
  refine ⟨?_, ?_, ?_, ?_, ?_⟩
  · intro i hi
    rcases Nat.lt_succ_iff_lt_or_eq.mp hi with hi | rfl
    · exact h.inRange i hi
    · exact hm.inRange
  · intro i hi
    rcases Nat.lt_succ_iff_lt_or_eq.mp hi with hi | rfl
    · exact h.aligned i hi
    · exact hm.aligned
  · intro i hi p hp
    rcases Nat.lt_succ_iff_lt_or_eq.mp hi with hi | rfl
    · exact h.free i hi p hp
    · have hout : ∀ j < i, pageIn (addr j) size p = false := by
        intro j hj
        cases hq : pageIn (addr j) size p with
        | false => rfl
        | true => rw [hkeep j hj p hq] at hp; cases hp
      rw [← h.other p hout]
      exact hm.free p hp
  · intro i hi p hp
    rcases Nat.lt_succ_iff_lt_or_eq.mp hi with hi | rfl
    · rw [hm.other p (hkeep i hi p hp)]
      exact h.isSome i hi p hp
    · exact hm.isSome p hp
  · intro p hp
    rw [hm.other p (hp k (Nat.lt_succ_self k))]
    exact h.other p (fun i hi => hp i (Nat.lt_succ_of_lt hi))

/-- At least one entry changes the table. -/
theorem Overlay.ne (h : Overlay addr size k t t') (hk : 0 < k) (hsize : 0 < size.toNat) :
    t' ≠ t := by
  intro heq
  have hp : pageIn (addr 0) size ((addr 0).toNat / 4096) = true := by
    rw [pageIn_iff]
    have := (h.aligned 0 hk).1
    omega
  have hsome := h.isSome 0 hk _ hp
  rw [heq, h.free 0 hk _ hp] at hsome
  cases hsome

/-! ## The loop of `arch_uthread_map` and its undo -/

variable {mp : UthreadMap} {al : Nat → Bool}

theorem mapEntries_overlay {t₀ : PageTable} {pg : Nat} {e : Int}
    (h : Overlay (entryAddr mp size) size pg t₀ t)
    (hr : mapEntries mp al size n pg t = (e, k, t')) :
    Overlay (entryAddr mp size) size k t₀ t' ∧ (e = noError → k = pg + n) := by
  induction n generalizing pg t with
  | zero =>
      cases hr
      exact ⟨h, fun _ => rfl⟩
  | succ n ih =>
      cases hm : arm64MmuMap t (al pg) (entryAddr mp size pg) (mp.pfnList.getD pg 0) size
          (mapAttr mp.flags) with
      | mk err s =>
          simp only [mapEntries, hm] at hr
          split at hr
          · rename_i hne
            cases hr
            exact ⟨h, fun he => absurd he hne⟩
          · rename_i hok
            rw [not_not.mp hok] at hm
            obtain ⟨hover, hcount⟩ := ih (h.succ (arm64MmuMap_ok hm)) hr
            refine ⟨hover, ?_⟩
            intro he
            rw [hcount he]
            omega

/-- The undo loop takes away what the entries before it have laid. -/
theorem undoEntries_eq (h : Overlay (entryAddr mp size) size k t t') (hn : n ≤ k) (p : Nat) :
    undoEntries mp size n t' p =
      if ∃ i < n, pageIn (entryAddr mp size i) size p = true then none else t' p := by
  induction n with
  | zero => simp [undoEntries]
  | succ n ih =>
      have hrange := h.inRange n (by omega)
      have hstep : undoEntries mp size (n + 1) t' p =
          if pageIn (entryAddr mp size n) size p then none else undoEntries mp size n t' p := by
        rw [undoEntries, arm64MmuUnmap_table hrange]
      rw [hstep, ih (by omega)]
      by_cases hp : pageIn (entryAddr mp size n) size p = true
      · rw [if_pos hp, if_pos ⟨n, Nat.lt_succ_self n, hp⟩]
      · rw [if_neg hp]
        congr 1
        rw [eq_iff_iff]
        constructor
        · rintro ⟨i, hi, hpi⟩
          exact ⟨i, Nat.lt_succ_of_lt hi, hpi⟩
        · rintro ⟨i, hi, hpi⟩
          rcases Nat.lt_succ_iff_lt_or_eq.mp hi with hi | rfl
          · exact ⟨i, hi, hpi⟩
          · exact absurd hpi hp

theorem undoEntries_overlay (h : Overlay (entryAddr mp size) size k t t') :
    undoEntries mp size k t' = t := by
  funext p
  rw [undoEntries_eq h (Nat.le_refl k)]
  split
  · rename_i hex
    obtain ⟨i, hi, hp⟩ := hex
    exact (h.free i hi p hp).symm
  · rename_i hno
    refine h.other p ?_
    intro i hi
    cases hq : pageIn (entryAddr mp size i) size p with
    | false => rfl
    | true => exact absurd ⟨i, hi, hq⟩ hno

/-- A mapping that fails is undone. -/
theorem archUthreadMap_err {e : Int} (h : archUthreadMap t al mp = some (e, t'))
    (he : e ≠ noError) : t' = t := by
  cases hr : mapEntries mp al (entrySizeOf mp) (mp.size / entrySizeOf mp).toNat 0 t with
  | mk err r =>
      obtain ⟨k, s⟩ := r
      obtain ⟨hover, -⟩ := mapEntries_overlay Overlay.refl hr
      simp only [archUthreadMap, hr] at h
      split at h
      · cases h
      split at h
      · cases h
        exact undoEntries_overlay hover
      · cases h
        exact absurd rfl he

/-- A mapping that succeeds lays all entries of the record. -/
theorem archUthreadMap_overlay (h : archUthreadMap t al mp = some (noError, t')) :
    Overlay (entryAddr mp (entrySizeOf mp)) (entrySizeOf mp) (mp.size / entrySizeOf mp).toNat
      t t' := by
  cases hr : mapEntries mp al (entrySizeOf mp) (mp.size / entrySizeOf mp).toNat 0 t with
  | mk err r =>
      obtain ⟨k, s⟩ := r
      obtain ⟨hover, hcount⟩ := mapEntries_overlay Overlay.refl hr
      simp only [archUthreadMap, hr] at h
      split at h
      · cases h
      split at h
      · rename_i hne
        exact absurd (Prod.mk.inj (Option.some.inj h)).1 hne
      · rename_i hok
        cases h
        rw [hcount (not_not.mp hok), Nat.zero_add] at hover
        exact hover

/-! ## The loop of `arch_uthread_translate_map` -/

/-- The address of the `i`-th page from `v` on. -/
def pageAddr (v : Vaddr) (i : Nat) : Vaddr := v + UInt64.ofNat i * pageSize

theorem translateLoop_overlay {page : Nat → Except Int PageInfo} {first : Option PageInfo}
    {pg : Nat} {t₀ : PageTable} {e : Int} {pfns : List Paddr}
    (h : Overlay (pageAddr v) pageSize pg t₀ t)
    (hr : translateLoop page al v attrs n pg first t = (e, pfns, t')) :
    Overlay (pageAddr v) pageSize (pg + pfns.length) t₀ t' ∧ pfns.length ≤ n := by
  induction n generalizing pg first t pfns with
  | zero =>
      cases hr
      exact ⟨h, Nat.le_refl 0⟩
  | succ n ih =>
      cases hp : page pg with
      | error e' =>
          simp only [translateLoop, hp] at hr
          cases hr
          exact ⟨h, Nat.zero_le _⟩
      | ok info =>
          cases hm : arm64MmuMap t (al pg) (v + UInt64.ofNat pg * pageSize) info.physaddr pageSize
              (firstAttr attrs (first.getD info)) with
          | mk err s =>
              simp only [translateLoop, hp, hm] at hr
              split at hr
              · cases hr
                exact ⟨h, Nat.zero_le _⟩
              split at hr
              · cases hr
                exact ⟨h, Nat.zero_le _⟩
              · rename_i hok
                rw [not_not.mp hok] at hm
                cases hrest : translateLoop page al v attrs n (pg + 1) (some (first.getD info)) s with
                | mk err' r =>
                    obtain ⟨pfns', s'⟩ := r
                    simp only [hrest] at hr
                    cases hr
                    obtain ⟨hover, hlen⟩ := ih (h.succ (arm64MmuMap_ok hm)) hrest
                    rw [List.length_cons]
                    refine ⟨?_, Nat.succ_le_succ hlen⟩
                    rw [Nat.add_succ, ← Nat.succ_add]
                    exact hover

/-- What the translation has mapped when it returns. -/
theorem grantTranslate_overlay {ut : Uthread} {env : Env} {vaddrSrc : Vaddr}
    {source : GrantSource} {plan : GrantPlan} {e : Int} {pfns : List Paddr}
    (h : grantTranslate ut env vaddrSrc source plan = (e, pfns, t')) :
    Overlay (pageAddr plan.vaddr) pageSize pfns.length ut.pageTable t' ∧
      pfns.length ≤ plan.npages := by
  rw [grantTranslate, archUthreadTranslateMap] at h
  have hover := translateLoop_overlay Overlay.refl h
  rw [Nat.zero_add] at hover
  exact hover

end TX2SecureUart.AddrSpace
