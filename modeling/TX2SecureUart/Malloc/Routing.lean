/-
# `Malloc.Routing` — two heaps

A call for the heap of DMA memory goes to the default heap if the free list of the other one is empty.
That is so before that heap is made, and also when all of it is given away: then its areas are looked for
in the default heap, and `validate_allocated_block` hangs.

As long as there is a free block of DMA memory at each call for it, every call is for the heap that it asks
for.
-/
import TX2SecureUart.Malloc.Runs

namespace TX2SecureUart.Malloc

open Prog ByteStore WordStore

variable {t u q : HeapType} {s s' : Heaps} {o o' : Owned} {w : World} {fl : HeapType → List Block}
  {lost : HeapType → Nat} {p al len size start : Nat} {d : Nat → UInt8} {c : Call} {E : Stop → Heaps → Prop}

/-- The type that a call is for; the calls without one are for the default heap. -/
def Call.type : Call → HeapType
  | .alloc t _ | .allocAlign t _ _ | .dealloc t _ => t
  | _ => .default

/-- An area is given back with the type that was asked for. -/
def Matching : Call → Prop
  | .free o => o.asked = .default
  | .dealloc t o => o.asked = t
  | _ => True

/-- A call for DMA memory finds a free block of it. -/
def Straight (w : World) (c : Call) : Prop := c.type = .dma → (w.heaps.heapInfo .dma).freeList ≠ 0

/-- Every area is of the heap that was asked for. -/
def World.Separate (w : World) : Prop := ∀ o ∈ w.owned, o.heap = o.asked

@[simp] theorem routeOf_default (s : Heaps) : routeOf s .default = .default := ite_self _

theorem routeOf_type (h : Straight w c) : routeOf w.heaps c.type = c.type := by
  cases ht : c.type with
  | default => exact routeOf_default w.heaps
  | dma => exact if_neg (h ht)

theorem straight_default (h : c.type = .default) : Straight w c := by
  intro ht
  rw [h] at ht
  cases ht

theorem straight_of_route (h : routeOf w.heaps c.type = c.type) : Straight w c := by
  intro ht hempty
  rw [ht, routeOf, if_pos hempty] at h
  cases h

/-! ## Which heap an area is from -/

/-- The areas that are new are of the heap that `route` finds. -/
def NewFrom (w : World) (t q : HeapType) (w' : World) : Prop :=
  ∀ o ∈ w'.owned, o ∈ w.owned ∨ o.heap = t ∧ o.asked = q

theorem newFrom_gain {align : Nat} : NewFrom w t q (({ w with heaps := s' } : World).gain t q p len align d) := by
  intro o ho
  unfold World.gain at ho
  split at ho
  · exact Or.inl ho
  · rcases List.mem_cons.mp ho with rfl | ho
    · exact Or.inr ⟨rfl, rfl⟩
    · exact Or.inl ho

theorem wp_gainBy_new (m : HeapM Nat) (t q : HeapType) (len al : Nat) (w : World) :
    wp (gainBy m t q len al) (fun _ => NewFrom w t q) anyStop w := by
  rw [gainBy, wp_bind, onHeaps, wp_zoom]
  exact wp_conseq (wp_any m w.heaps) fun p s' _ => newFrom_gain

theorem wp_loseBy_new (m : HeapM Unit) (o : Owned) (w : World) :
    wp (loseBy m o) (fun _ => NewFrom w t q) anyStop w := by
  rw [loseBy, wp_bind, onHeaps, wp_zoom]
  exact wp_conseq (wp_any m w.heaps) fun _ s' _ o' ho' => Or.inl (List.mem_of_mem_erase ho')

theorem Call.newFrom (c : Call) (w : World) :
    wp c.run (fun _ => NewFrom w (routeOf w.heaps c.type) c.type) anyStop w := by
  cases c with
  | init t start size =>
      rw [Call.run, wp_bind, onHeaps, wp_zoom]
      exact wp_conseq (wp_any _ w.heaps) fun _ s' _ o ho => Or.inl ho
  | malloc size => exact routeOf_default w.heaps ▸ wp_gainBy_new ..
  | alloc t size =>
      rw [Call.run, wp_bind, onHeaps, wp_zoom, wp_route]
      exact wp_gainBy_new ..
  | calloc nmemb size =>
      rw [Call.run, wp_bind, onHeaps, wp_zoom]
      refine wp_conseq (wp_any _ w.heaps) fun p s' _ => ?_
      show NewFrom w (routeOf w.heaps .default) .default _
      rw [routeOf_default]
      exact newFrom_gain
  | memalign alignment size => exact routeOf_default w.heaps ▸ wp_gainBy_new ..
  | allocAlign t alignment size =>
      rw [Call.run, wp_bind, onHeaps, wp_zoom, wp_route]
      exact wp_gainBy_new ..
  | free o => exact wp_loseBy_new ..
  | dealloc t o => exact wp_loseBy_new ..
  | store o off v => exact fun o ho => Or.inl ho

theorem World.Separate.step (h : w.Separate) (hc : Straight w c) : wp c.run (fun _ => World.Separate) anyStop w := by
  refine wp_conseq (c.newFrom w) fun _ w' hnew o ho => ?_
  rcases hnew o ho with hold | ⟨hheap, hasked⟩
  · exact h o hold
  · rw [hheap, hasked]
    exact routeOf_type hc

/-- A call that gives back with the type that was asked for looks in the right heap. -/
theorem World.Separate.routed (h : w.Separate) (hen : c.Enabled w) (hm : Matching c) (hc : Straight w c) :
    Routed w c := by
  have hroute := routeOf_type hc
  cases c with
  | free o => exact hroute.trans (hm.symm.trans (h o hen).symm)
  | dealloc t o => exact hroute.trans (hm.symm.trans (h o hen).symm)
  | init | malloc | alloc | calloc | memalign | allocAlign | store => trivial

/-! ## Areas that are looked for elsewhere -/

theorem wp_hangIf_hangs {P : Prop} [Decidable P] {m : HeapM Unit} {Q : Unit → Heaps → Prop} (h : P)
    (hE : E .hang s) : wp (do hangIf P; m) Q E s := by
  rw [wp_bind, hangIf, if_pos h]
  exact hE

/-- The block of an area is not in the range of another heap. -/
theorem WorldOk.wp_validate_other (h : WorldOk w fl lost) (ho : o ∈ w.owned) (hne : t ≠ o.heap) :
    wp (validateAllocatedBlock (o.area.ptr - allocHeader) t) (fun _ _ => False) (fun e s' => e = .hang ∧ s' = w.heaps)
      w.heaps := by
  have hok := h.heapOk ho
  have hx := hok.area o ho rfl
  have hin := hok.inside o ho rfl
  have hlow := hx.low
  have hfit := hx.fit
  have hlarge := hx.large
  have hend : w64 (o.area.block + o.area.size) = o.area.block + o.area.size := w64_of_lt hx.bound
  have hout : o.area.block < (w.heaps.heapInfo t).start ∨
      (w.heaps.heapInfo t).stop < o.area.block + o.area.size := by
    unfold minSize at hlarge
    rcases h.regions t o.heap hne with hr | hr <;> omega
  rw [validateAllocatedBlock, wp_bind, wp_read, wp_bind, wp_read, wp_bind, wp_read, wp_bind, wp_info,
    hx.start, hx.size, hx.magic, hend]
  exact wp_hangIf_then (by omega) (wp_hangIf_then (not_not_intro rfl) (wp_hangIf_hangs hout ⟨rfl, rfl⟩))

/-- The call hangs before it has changed anything. -/
theorem WorldOk.dealloc_other (h : WorldOk w fl lost) (ho : o ∈ w.owned) (hne : routeOf w.heaps t ≠ o.heap) :
    (Call.dealloc t o).run w = .error .hang w := by
  have hx := (h.heapOk ho).area o ho rfl
  have hlow := hx.low
  have hfit := hx.fit
  have hbound := hx.bound
  have hptr : o.area.ptr ≠ 0 := by
    unfold allocHeader at hlow
    omega
  have hsub : sub64 o.area.ptr allocHeader = o.area.ptr - allocHeader := sub64_of_le (by omega) (by omega)
  have hwp : wp (Call.dealloc t o).run (fun _ _ => False) (fun e w' => e = .hang ∧ w' = w) w := by
    rw [Call.run, loseBy, wp_bind, onHeaps, wp_zoom, tegrablDealloc, wp_bind, wp_route, wp_bind, tegrablGenericFree,
      if_neg hptr, freeBlock, hsub, wp_bind]
    refine wp_mono (h.wp_validate_other ho hne) (fun _ _ hno => hno.elim) ?_
    rintro e s' ⟨rfl, rfl⟩
    exact ⟨rfl, rfl⟩
  cases hrun : (Call.dealloc t o).run w with
  | ok _ w' => exact (wp_ok hwp hrun).elim
  | error e w' =>
      obtain ⟨rfl, rfl⟩ := wp_error hwp hrun
      rfl

/-- An area is given back only to its heap. -/
theorem WorldOk.dealloc_returns (h : WorldOk w fl lost) (ho : o ∈ w.owned) :
    returns ((Call.dealloc t o).run w) = true ↔ routeOf w.heaps t = o.heap := by
  refine ⟨fun hret => Decidable.byContradiction fun hne => ?_, fun hr => returns_step h ho hr⟩
  rw [h.dealloc_other ho hne] at hret
  cases hret

/-! ## Runs -/

theorem separate_of_reachable (h : (clients d).Reachable (fun w c => Matching c ∧ Straight w c) w) :
    (∃ fl lost, WorldOk w fl lost) ∧ w.Separate := by
  refine Machine.invariant (I := fun w => (∃ fl lost, WorldOk w fl lost) ∧ w.Separate)
    (E := fun _ _ _ _ => True) ⟨⟨_, _, ok_init d⟩, fun o ho => absurd ho List.not_mem_nil⟩ ?_ h
  rintro w c ⟨⟨fl, lost, hw⟩, hsep⟩ hen ⟨hm, hc⟩
  refine wp_mono (wp_and (hw.step hen (hsep.routed hen hm hc)) (hsep.step hc)) ?_ fun _ _ _ => trivial
  rintro - w' ⟨⟨fl', lost', hw', -⟩, hsep'⟩
  exact ⟨⟨fl', lost', hw'⟩, hsep'⟩

/-- In a run whose calls for DMA memory find a free block of it, each area is of the heap that was asked
for and goes back to it, and no call stops.  To give back an area then needs a free block again. -/
theorem heaps_separate (h : (clients d).Reachable (fun w c => Matching c ∧ Straight w c) w) :
    (∀ o ∈ w.owned, o.heap = o.asked ∧ (w.heaps.heapInfo o.asked).start ≤ o.area.block ∧
      o.area.block + o.area.size ≤ (w.heaps.heapInfo o.asked).stop) ∧
    (∀ c : Call, c.Enabled w → Matching c → Straight w c →
      routeOf w.heaps c.type = c.type ∧ Routed w c ∧ returns (c.run w) = true) ∧
    ∀ o ∈ w.owned, returns ((Call.dealloc o.asked o).run w) = true ↔ Straight w (.dealloc o.asked o) := by
  obtain ⟨⟨fl, lost, hw⟩, hsep⟩ := separate_of_reachable h
  refine ⟨fun o ho => ?_, fun c hen hm hc => ?_, fun o ho => ?_⟩
  · have hin := (hw.heapOk ho).inside o ho rfl
    rw [hsep o ho] at hin
    exact ⟨hsep o ho, hin⟩
  · have hr := hsep.routed hen hm hc
    exact ⟨routeOf_type hc, hr, returns_step hw hen hr⟩
  · rw [hw.dealloc_returns ho, hsep o ho]
    exact ⟨fun hr => straight_of_route hr, fun hc => routeOf_type hc⟩

/-- The second heap lies behind the first one. -/
theorem enabled_second (hnone : w.heaps.heapInfo .dma = noHeap) (hstop : (w.heaps.heapInfo .default).stop ≤ start)
    (hlow : minSize ≤ start) (hhigh : start + size < 2 ^ 64) : (Call.init .dma start size).Enabled w := by
  refine ⟨hnone, hlow, hhigh, fun u hu => Or.inl ?_⟩
  cases u with
  | default => exact hstop
  | dma => exact absurd rfl hu

/-- An area of each heap -/
def oneOfEach : List Call := [.init .default 4096 1024, .init .dma 8192 1024, .malloc 100, .alloc .dma 40]

def dmaArea (size : Nat) : Owned := ⟨.dma, .dma, ⟨8192, size, 8216, 40⟩, 1⟩

theorem heaps_separate_oneOfEach : dmaArea 64 ∈ (World.after oneOfEach).owned ∧
    returns ((Call.dealloc .dma (dmaArea 64)).run (World.after oneOfEach)) = true := by
  have h1 := reachable_call (reachable_init (fun w c => Matching c ∧ Straight w c) fun _ => 0)
    (.init .default 4096 1024) (enabled_init (by decide) (by decide)) ⟨trivial, straight_default rfl⟩ (by decide +kernel)
  have h2 := reachable_call h1 (.init .dma 8192 1024)
    (enabled_second rfl (by decide +kernel) (by decide) (by decide)) ⟨trivial, straight_default rfl⟩ (by decide +kernel)
  have h3 := reachable_call h2 (.malloc 100) (by decide : 100 < 2 ^ 64) ⟨trivial, straight_default rfl⟩ (by decide +kernel)
  have h4 := reachable_call h3 (.alloc .dma 40) (by decide : 40 < 2 ^ 64) ⟨trivial, fun _ => by decide +kernel⟩
    (by decide +kernel)
  have hmem : dmaArea 64 ∈ (World.after oneOfEach).owned := by decide +kernel
  exact ⟨hmem, ((heaps_separate h4).2.2 _ hmem).mpr fun _ => by decide +kernel⟩

/-- The only area of DMA memory is all of it, and cannot be given back. -/
def allOfDma : List Call := [.init .default 4096 1024, .init .dma 8192 72, .alloc .dma 40]

theorem reachable_allOfDma : (clients fun _ => 0).Reachable (fun w c => Matching c ∧ Routed w c) (World.after allOfDma) := by
  have h1 := reachable_call (reachable_init (fun w c => Matching c ∧ Routed w c) fun _ => 0)
    (.init .default 4096 1024) (enabled_init (by decide) (by decide)) ⟨trivial, trivial⟩ (by decide +kernel)
  have h2 := reachable_call h1 (.init .dma 8192 72)
    (enabled_second rfl (by decide +kernel) (by decide) (by decide)) ⟨trivial, trivial⟩ (by decide +kernel)
  exact reachable_call h2 (.alloc .dma 40) (by decide : 40 < 2 ^ 64) ⟨trivial, trivial⟩ (by decide +kernel)

theorem dmaArea_mem : dmaArea 72 ∈ (World.after allOfDma).owned := by decide +kernel

theorem fullDma_hangs :
    ¬∀ d w, (clients d).Reachable (fun _ c => Matching c) w →
      ∀ c : Call, c.Enabled w → Matching c → returns (c.run w) = true := by
  intro hall
  have hhangs : returns ((Call.dealloc .dma (dmaArea 72)).run (World.after allOfDma)) = false := by decide +kernel
  have hret := hall _ _ (reachable_allOfDma.mono fun _ _ hok => hok.1) (.dealloc .dma (dmaArea 72)) dmaArea_mem rfl
  exact absurd (hret.symm.trans hhangs) (by decide)

/-- An area that is given back with any type goes to its heap, or the call hangs and leaves all as it is. -/
theorem dealloc_outcome (h : (clients d).Reachable Routed w) (ho : o ∈ w.owned) (t : HeapType) :
    (routeOf w.heaps t = o.heap → returns ((Call.dealloc t o).run w) = true) ∧
      (routeOf w.heaps t ≠ o.heap → (Call.dealloc t o).run w = .error .hang w) := by
  obtain ⟨fl, lost, hw⟩ := ok_of_reachable h
  exact ⟨fun hr => returns_step hw ho hr, fun hne => hw.dealloc_other ho hne⟩

theorem dealloc_outcome_allOfDma :
    (Call.dealloc .dma (dmaArea 72)).run (World.after allOfDma) = .error .hang (World.after allOfDma) :=
  (dealloc_outcome (reachable_allOfDma.mono fun _ _ hok => hok.2) dmaArea_mem .dma).2 (by decide +kernel)

end TX2SecureUart.Malloc
