/-
# `AddrSpace.Layout` — the layout of the record list

Whatever is called, the records stay sorted, apart from each other, and inside
the 64-bit address space.  What the two searches return is apart from every
record exactly when no unsigned computation of their loops goes wrong on the
way: `mp->vaddr - size` below zero in the search from above, a sum beyond 32
bits under a `u_int` mask in the search from below.
-/
import TX2SecureUart.AddrSpace.Calls

namespace TX2SecureUart.AddrSpace

open Mask UserSpace

/-! ## What a call does to the list -/

/-- Every way a call can change a thread.  `fixed` is whether the caller chose
the address. -/
inductive Change (ut : Uthread) (fixed : Bool) : Uthread → Prop
  | table (t : PageTable) : Change ut fixed { ut with pageTable := t }
  | insert {mp : UthreadMap} {l : List UthreadMap} (t : PageTable)
      (hfits : mp.vaddr < mp.stop) (hins : insertMap mp ut.mapList = some l)
      (hfind : fixed = false →
        mp.vaddr = findVaSpace ut mp.size mp.flags mp.align ∧ mp.vaddr ≠ 0) :
      Change ut fixed { ut with mapList := l, nsVaBottom := newNs ut.nsVaBottom mp, pageTable := t }
  | remove {before after : List UthreadMap} {mp : UthreadMap} (t : PageTable)
      (hlist : ut.mapList = before ++ mp :: after)
      (hrange : outOfRange mp.vaddr mp.size = false) :
      Change ut fixed
        { ut with mapList := before ++ after, nsVaBottom := bottomWithout ut.nsVaBottom before mp after,
                  pageTable := t }

/-- The caller chose the address. -/
def Call.fixed : Call → Bool
  | .map _ _ _ flags _ => hasFlag flags utmFixed
  | .grant .. => false
  | .unmap .. => false

theorem change_of_map {ut ut' : Uthread} {env : Env} {va v : Vaddr} {pfnList : List Paddr}
    {size : UInt64} {flags align : UInt32} {e : Int}
    (h : uthreadMap ut env va pfnList size flags align = some (e, v, ut')) :
    Change ut (hasFlag flags utmFixed) ut' := by
  rw [uthreadMap] at h
  split at h
  · cases h
    exact .table ut.pageTable
  dsimp only at h
  split at h
  · cases h
    exact .table ut.pageTable
  rename_i hva
  split at h
  · cases h
    exact .table ut.pageTable
  rename_i ut₁ mp halloc
  split at h
  · cases h
  · cases h
    obtain ⟨hwrap, rfl, l, hins, rfl⟩ := uthreadMapAlloc_ok halloc
    refine .insert _ hwrap hins ?_
    intro hfixed
    exact ⟨by simp [newMap, mapVa, hfixed], by simpa [newMap, hfixed] using hva⟩

/-- The address of a granted mapping is what the search returned. -/
theorem grantPlan_ok {ut : Uthread} {vaddrSrc offset : Vaddr} {size : UInt64} {flags : UInt32}
    {source : GrantSource} {plan : GrantPlan}
    (h : grantPlan ut vaddrSrc offset size flags source = .ok plan) :
    plan.vaddr = findVaSpace ut plan.size plan.flags plan.align ∧ plan.vaddr ≠ 0 ∧
      plan.size = roundUp (size + offset) pageSize ∧
      plan.npages = (plan.size / pageSize).toUInt32.toNat := by
  rw [grantPlan] at h
  split at h
  · cases h
  dsimp only at h
  split at h
  · cases h
  · rename_i hva
    cases h
    exact ⟨rfl, by simpa using hva, rfl, rfl⟩

theorem change_of_grant {ut ut' : Uthread} {env : Env} {vaddrSrc v : Vaddr} {size : UInt64}
    {flags : UInt32} {source : GrantSource} {e : Int}
    (h : uthreadGrantPages ut env vaddrSrc size flags source = (e, v, ut')) :
    Change ut false ut' := by
  rw [uthreadGrantPages] at h
  split at h
  · cases h
    exact .table ut.pageTable
  dsimp only at h
  split at h
  · cases h
    exact .table ut.pageTable
  rename_i plan hplan
  obtain ⟨hva, hne, -, -⟩ := grantPlan_ok hplan
  split at h
  · cases h
    exact .table ut.pageTable
  cases hr : grantTranslate ut env (roundDown vaddrSrc pageSize) source plan with
  | mk err r =>
      obtain ⟨pfns, t⟩ := r
      simp only [hr] at h
      split at h
      · cases h
        exact .table t
      split at h
      · cases h
        exact .table t
      · rename_i halloc
        cases h
        obtain ⟨hwrap, rfl, l, hins, rfl⟩ := uthreadMapAlloc_ok halloc
        exact .insert t hwrap hins (fun _ => ⟨hva, hne⟩)

/-- The page table only takes back a range it could have given. -/
theorem archUthreadUnmap_ok {t t' : PageTable} {mp : UthreadMap}
    (h : archUthreadUnmap t mp = (noError, t')) : outOfRange mp.vaddr mp.size = false := by
  rw [archUthreadUnmap, arm64MmuUnmap] at h
  cases hout : outOfRange mp.vaddr mp.size with
  | false => rfl
  | true =>
      rw [if_pos hout] at h
      cases h

/-- What `uthread_unmap` does: nothing, or it takes one record away. -/
theorem uthreadUnmap_cases {ut ut' : Uthread} {vaddr : Vaddr} {size : UInt64} {e : Int}
    (h : uthreadUnmap ut vaddr size = (e, ut')) :
    ut' = ut ∨ (e = noError ∧ ∃ before mp after t, ut.mapList = before ++ mp :: after ∧
      archUthreadUnmap ut.pageTable mp = (noError, t) ∧
      ut' = uthreadMapRemove { ut with pageTable := t } before mp after) := by
  rw [uthreadUnmap] at h
  by_cases hv : (vaddr == 0) = true
  · rw [if_pos hv] at h
    cases h
    exact .inl rfl
  rw [if_neg hv] at h
  cases hfind : uthreadMapFind ut vaddr size with
  | none =>
      rw [hfind] at h
      cases h
      exact .inl rfl
  | some c =>
      obtain ⟨before, mp, after⟩ := c
      rw [hfind] at h
      rw [uthreadMapFind] at hfind
      split at hfind
      · cases hfind
      cases hr : archUthreadUnmap ut.pageTable mp with
      | mk err t =>
          simp only [unmapRecord, hr] at h
          split at h
          · cases h
            exact .inl rfl
          · rename_i hok
            rw [not_not.mp hok] at hr
            cases h
            exact .inr ⟨rfl, before, mp, after, t, (cutAt_eq hfind).1, hr, rfl⟩

theorem change_of_unmap {ut ut' : Uthread} {vaddr : Vaddr} {size : UInt64} {e : Int}
    (h : uthreadUnmap ut vaddr size = (e, ut')) : Change ut false ut' := by
  rcases uthreadUnmap_cases h with rfl | ⟨-, before, mp, after, t, hlist, hr, rfl⟩
  · exact .table ut'.pageTable
  · exact .remove t hlist (archUthreadUnmap_ok hr)

/-- A call changes a thread in one of these ways. -/
theorem Call.change {ut ut' : Uthread} {env : Env} {c : Call} {e : Int}
    (h : c.run ut env = some (e, ut')) : Change ut c.fixed ut' := by
  cases c with
  | map va pfnList size flags align =>
      rw [run] at h
      split at h
      · cases h
      · rename_i hrun
        cases h
        exact change_of_map hrun
  | grant vaddrSrc size flags source =>
      rw [run] at h
      split at h
      rename_i hrun
      cases h
      exact change_of_grant hrun
  | unmap vaddr size =>
      exact change_of_unmap (Option.some.inj h)

/-! ## Sorted and apart -/

/-- The records are sorted, apart from each other, and do not wrap. -/
structure Layout (l : List UthreadMap) : Prop where
  fits : ∀ mp ∈ l, mp.vaddr < mp.stop
  sorted : l.Pairwise (fun a b => a.stop ≤ b.vaddr)

theorem Layout.nil : Layout [] := ⟨by simp, List.Pairwise.nil⟩

theorem Layout.sublist {l l' : List UthreadMap} (h : Layout l) (hs : l'.Sublist l) : Layout l' :=
  ⟨fun mp hmp => h.fits mp (hs.subset hmp), h.sorted.sublist hs⟩

/-- The walk of `uthread_map_alloc` keeps the list sorted. -/
theorem Layout.insert {mp : UthreadMap} {l l' : List UthreadMap} (h : Layout l)
    (hfits : mp.vaddr < mp.stop) (hins : insertMap mp l = some l') : Layout l' := by
  refine ⟨?_, ?_⟩
  · intro m hm
    rcases List.mem_cons.mp ((insertMap_perm hins).mem_iff.mp hm) with rfl | hm
    · exact hfits
    · exact h.fits m hm
  · induction l generalizing l' with
    | nil =>
        cases hins
        exact List.pairwise_singleton _ _
    | cons lst rest ih =>
        obtain ⟨hhead, hrest⟩ := List.pairwise_cons.mp h.sorted
        rw [insertMap] at hins
        split at hins
        · split at hins
          · cases hins
          · rename_i hstop
            cases hins
            refine List.pairwise_cons.mpr ⟨?_, h.sorted⟩
            intro m hm
            have hle : mp.stop ≤ lst.vaddr := UInt64.not_lt.mp hstop
            rcases List.mem_cons.mp hm with rfl | hm
            · exact hle
            · have hlst := h.fits lst (List.mem_cons_self ..)
              exact UInt64.le_trans hle (UInt64.le_trans (UInt64.le_of_lt hlst) (hhead m hm))
        · split at hins
          · cases hins
          · rename_i hstop
            obtain ⟨t, ht, rfl⟩ := Option.map_eq_some_iff.mp hins
            have hl : Layout rest := h.sublist (List.sublist_cons_self lst rest)
            refine List.pairwise_cons.mpr ⟨?_, ih hl ht⟩
            intro m hm
            rcases List.mem_cons.mp ((insertMap_perm ht).mem_iff.mp hm) with rfl | hm
            · exact UInt64.not_lt.mp hstop
            · exact hhead m hm

/-- A record added is apart from every other. -/
theorem Layout.insert_apart {mp m : UthreadMap} {l l' : List UthreadMap} (h : Layout l')
    (hins : insertMap mp l = some l') (hm : m ∈ l) : m.stop ≤ mp.vaddr ∨ mp.stop ≤ m.vaddr := by
  have hpair : l'.Pairwise (fun a b => a.stop ≤ b.vaddr ∨ b.stop ≤ a.vaddr) :=
    h.sorted.imp Or.inl
  rw [(insertMap_perm hins).pairwise_iff (fun h => h.symm)] at hpair
  exact ((List.pairwise_cons.mp hpair).1 m hm).symm

theorem Change.layout {ut ut' : Uthread} {fixed : Bool} (h : Change ut fixed ut')
    (hl : Layout ut.mapList) : Layout ut'.mapList := by
  cases h with
  | table t => exact hl
  | insert t hfits hins _ => exact hl.insert hfits hins
  | remove t hlist _ =>
      rw [hlist] at hl
      exact hl.sublist (List.Sublist.append (List.Sublist.refl _) (List.sublist_cons_self ..))

/-- The layout holds in every state of every run. -/
theorem Reachable.layout {ok : Uthread → Env → Call → Prop} {ut ut' : Uthread}
    (h : Reachable ok ut ut') (hl : Layout ut.mapList) : Layout ut'.mapList :=
  h.invariant (I := fun s => Layout s.mapList) hl
    (fun _ _ _ _ _ hI _ hrun => (Call.change hrun).layout hI)

end TX2SecureUart.AddrSpace
