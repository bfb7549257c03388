/-
# `Malloc.World` — the heaps and those who use them

Any number of clients make heaps, ask for areas, store in them and give them back, in any order.  The
system records what the clients hold, with the block that the header of an area names, and what
they have stored last at each address.

`WorldOk` is the invariant: the free blocks and the blocks of the clients are apart, with the bytes of a
heap in the ones or the others or lost, and what is stored in an area is in memory.
-/
import TX2SecureUart.Malloc.Align
import TX2SecureUart.Malloc.Free
import TX2SecureUart.Lib.Machine

namespace TX2SecureUart.Malloc

open Prog ByteStore WordStore

/-! ## The system -/

/-- An area that a client holds -/
structure Owned where
  heap : HeapType
  /-- The type of the heap that the client has asked for -/
  asked : HeapType
  area : Area
  align : Nat
deriving DecidableEq

structure World where
  heaps : Heaps
  owned : List Owned
  /-- What the clients have stored last -/
  stored : Nat → UInt8

/-- A heap that was not made -/
def noHeap : HeapInfo := ⟨0, 0, 0, 0, 0⟩

/-- The calls of the clients, and their stores -/
inductive Call where
  | init (t : HeapType) (start size : Nat)
  | malloc (size : Nat)
  | alloc (t : HeapType) (size : Nat)
  | calloc (nmemb size : Nat)
  | memalign (alignment size : Nat)
  | allocAlign (t : HeapType) (alignment size : Nat)
  | free (o : Owned)
  | dealloc (t : HeapType) (o : Owned)
  | store (o : Owned) (off : Nat) (v : UInt8)

abbrev WorldM := EStateM Stop World

def onHeaps {α : Type} (m : HeapM α) : WorldM α :=
  zoom World.heaps (fun s w => { w with heaps := s }) m

/-- The area that the header before `p` describes -/
def areaOf (d : Nat → UInt8) (p len : Nat) : Area :=
  ⟨startOf d (p - allocHeader), sizeOf d (p - allocHeader), p, len⟩

/-- The caller has an area with the bytes of `d` in it, or no memory. -/
def World.gain (w : World) (t asked : HeapType) (p len align : Nat) (d : Nat → UInt8) : World :=
  if p = 0 then w
  else
    { w with
      owned := ⟨t, asked, areaOf w.heaps.mem p len, align⟩ :: w.owned
      stored := fun y => if p ≤ y ∧ y < p + len then d y else w.stored y }

def World.drop (w : World) (o : Owned) : World := { w with owned := w.owned.erase o }

def World.put (w : World) (a : Nat) (v : UInt8) : World :=
  { w with
    heaps := w.heaps.withMem (patch w.heaps.mem a [v])
    stored := patch w.stored a [v] }

/-- A call that gives an area as it is in memory -/
def gainBy (m : HeapM Nat) (t asked : HeapType) (len align : Nat) : WorldM Unit := do
  let p ← onHeaps m
  modify fun w => w.gain t asked p len align w.heaps.mem

def loseBy (m : HeapM Unit) (o : Owned) : WorldM Unit := do
  onHeaps m
  modify fun w => w.drop o

def Call.run : Call → WorldM Unit
  | .init t start size => do
      let _ ← onHeaps (tegrablHeapInit t start size)
  | .malloc size => gainBy (tegrablMalloc size) .default .default size 1
  | .alloc t size => do
      let u ← onHeaps (route t)
      gainBy (tegrablAlloc t size) u t size 1
  | .calloc nmemb size => do
      let p ← onHeaps (tegrablCalloc nmemb size)
      modify fun w => w.gain .default .default p (size * nmemb) 1 fun _ => 0
  | .memalign alignment size => gainBy (tegrablMemalign alignment size) .default .default size alignment
  | .allocAlign t alignment size => do
      let u ← onHeaps (route t)
      gainBy (tegrablAllocAlign t alignment size) u t size alignment
  | .free o => loseBy (tegrablFree o.area.ptr) o
  | .dealloc t o => loseBy (tegrablDealloc t o.area.ptr) o
  | .store o off v => modify fun w => w.put (o.area.ptr + off) v

/-- Two ranges of heaps -/
def RegionsApart (h h' : HeapInfo) : Prop := h.stop ≤ h'.start ∨ h'.stop ≤ h.start

/-- A heap is made once, of memory that is in no other heap; an area is given back once, and only its
own bytes are stored in. -/
def Call.Enabled (w : World) : Call → Prop
  | .init t start size =>
      w.heaps.heapInfo t = noHeap ∧ minSize ≤ start ∧ start + size < 2 ^ 64 ∧
        ∀ u, u ≠ t → (w.heaps.heapInfo u).stop ≤ start ∨ start + size ≤ (w.heaps.heapInfo u).start
  | .malloc size | .alloc _ size => size < 2 ^ 64
  | .calloc nmemb size => nmemb < 2 ^ 64 ∧ size < 2 ^ 64
  | .memalign alignment size | .allocAlign _ alignment size =>
      0 < alignment ∧ alignment < 2 ^ 64 ∧ size < 2 ^ 64
  | .free o | .dealloc _ o => o ∈ w.owned
  | .store o off _ => o ∈ w.owned ∧ off < o.area.len

/-- The heap that `route` finds -/
def routeOf (s : Heaps) (t : HeapType) : HeapType := if (s.heapInfo .dma).freeList = 0 then .default else t

/-- The call looks for the area in the heap that it is from. -/
def Routed (w : World) : Call → Prop
  | .free o => routeOf w.heaps .default = o.heap
  | .dealloc t o => routeOf w.heaps t = o.heap
  | _ => True

/-- The free list of a heap, as it is in memory -/
def freeBlocks (d : Nat → UInt8) : Nat → Nat → List Block
  | 0, _ => []
  | fuel + 1, p => if p = 0 then [] else (p, sizeOf d p) :: freeBlocks d fuel (nextOf d p)

def Heaps.free (s : Heaps) (t : HeapType) : List Block :=
  freeBlocks s.mem ((s.heapInfo t).maxSize + 1) (s.heapInfo t).freeList

/-- The call takes bytes out of the free list that are in no area. -/
def Call.Loses (w : World) : Call → Prop
  | .memalign alignment size => (w.heaps.heapInfo .default).Loses (w.heaps.free .default) alignment size
  | .allocAlign t alignment size =>
      (w.heaps.heapInfo (routeOf w.heaps t)).Loses (w.heaps.free (routeOf w.heaps t)) alignment size
  | _ => False

/-- The system from its start, with the memory `d` -/
def clients (d : Nat → UInt8) : Machine Stop World Call where
  init := ⟨⟨d, fun _ => noHeap⟩, [], d⟩
  run := Call.run
  Enabled := Call.Enabled

/-! ## The invariant -/

/-- The bytes that the clients hold of a heap -/
def held (t : HeapType) : List Owned → Nat
  | [] => 0
  | o :: l => (if o.heap = t then o.area.size else 0) + held t l

/-- Two areas have blocks that are apart. -/
def Owned.Apart (o o' : Owned) : Prop :=
  o.area.block + o.area.size ≤ o'.area.block ∨ o'.area.block + o'.area.size ≤ o.area.block

/-- What is in a heap, with the free blocks `l` -/
structure HeapOk (t : HeapType) (s : Heaps) (l : List Block) (owned : List Owned) (lost : Nat) : Prop where
  free : FreeOk t s l
  apart : Apart l
  area : ∀ o ∈ owned, o.heap = t → AreaAt s.mem o.area
  inside : ∀ o ∈ owned, o.heap = t →
    (s.heapInfo t).start ≤ o.area.block ∧ o.area.block + o.area.size ≤ (s.heapInfo t).stop
  out : ∀ o ∈ owned, o.heap = t → ∀ y, o.area.block ≤ y → y < o.area.block + o.area.size → Outside l y
  account : total l + held t owned + lost = (s.heapInfo t).maxSize

/-- Nothing is in a heap that was not made. -/
structure Unmade (t : HeapType) (s : Heaps) (l : List Block) (owned : List Owned) (lost : Nat) : Prop where
  info : s.heapInfo t = noHeap
  list : l = []
  none : ∀ o ∈ owned, o.heap ≠ t
  lost : lost = 0

structure WorldOk (w : World) (l : HeapType → List Block) (lost : HeapType → Nat) : Prop where
  heap : ∀ t, Unmade t w.heaps (l t) w.owned (lost t) ∨ HeapOk t w.heaps (l t) w.owned (lost t)
  regions : ∀ t u, t ≠ u → RegionsApart (w.heaps.heapInfo t) (w.heaps.heapInfo u)
  apart : w.owned.Pairwise Owned.Apart
  stored : ∀ o ∈ w.owned, ∀ y, o.area.ptr ≤ y → y < o.area.ptr + o.area.len → w.heaps.mem y = w.stored y
  aligned : ∀ o ∈ w.owned, o.area.ptr % o.align = 0

variable {t u : HeapType} {s s' : Heaps} {l l' r : List Block} {owned owned' : List Owned} {o o' : Owned} {x : Area}
  {w : World} {fl : HeapType → List Block} {lost : HeapType → Nat} {a k n p y al len size start : Nat}
  {d : Nat → UInt8} {E : Stop → Heaps → Prop} {F : Stop → World → Prop}

theorem held_erase (t : HeapType) (h : o ∈ owned) :
    held t owned = (if o.heap = t then o.area.size else 0) + held t (owned.erase o) := by
  induction owned with
  | nil => cases h
  | cons o' owned ih =>
      by_cases heq : o' = o
      · rw [heq, List.erase_cons_head, held]
      · have hmem : o ∈ owned := (List.mem_cons.mp h).resolve_left (Ne.symm heq)
        rw [List.erase_cons_tail (by simpa using heq), held, held, ih hmem]
        omega

theorem size_le_held (h : o ∈ owned) : o.area.size ≤ held o.heap owned := by
  rw [held_erase o.heap h, if_pos rfl]
  exact Nat.le_add_right ..

theorem Owned.Apart.outside (h : o.Apart o') (hle : o'.area.block ≤ y)
    (hlt : y < o'.area.block + o'.area.size) : y < o.area.mid.1 ∨ o.area.mid.1 + o.area.mid.2 ≤ y := by
  show y < o.area.block ∨ o.area.block + o.area.size ≤ y
  rcases h with h | h <;> omega

theorem outside_region {lo hi : Nat} (h : Inside l lo hi) (hy : y < lo ∨ hi ≤ y) : Outside l y := by
  intro b hb
  have hin := h b hb
  omega

/-- A byte of a block is in the range that the blocks are in. -/
theorem Inside.mem {lo hi : Nat} (h : Inside l lo hi) (hy : ¬Outside l y) : lo ≤ y ∧ y < hi := by
  refine Decidable.byContradiction fun hno => hy (outside_region h ?_)
  omega

namespace HeapOk

/-- An area that can be given back -/
theorem held_area (h : HeapOk t s l owned k) (ho : o ∈ owned) (ht : o.heap = t) : Held t s l o.area where
  area := h.area o ho ht
  low := (h.inside o ho ht).1
  high := (h.inside o ho ht).2
  out := h.out o ho ht
  room := by
    have haccount := h.account
    have hle := size_le_held ho
    rw [ht] at hle
    omega

/-- Stores elsewhere, and areas of other heaps -/
theorem congr (h : HeapOk t s l owned k) (hinfo : s'.heapInfo t = s.heapInfo t)
    (hfree : ∀ y, ¬Outside l y → s'.mem y = s.mem y)
    (hhead : ∀ o ∈ owned, o.heap = t → ∀ y, o.area.block ≤ y → y < o.area.ptr → s'.mem y = s.mem y)
    (hsub : ∀ o ∈ owned', o.heap = t → o ∈ owned) (hheld : held t owned' = held t owned) :
    HeapOk t s' l owned' k where
  free := by
    refine h.free.congr hinfo fun b hb y hle hlt => hfree y fun hout => ?_
    have hlarge := (h.free.spaced.large b hb).2
    have hb := hout b hb
    omega
  apart := h.apart
  area o ho ht := (h.area o (hsub o ho ht) ht).congr (hhead o (hsub o ho ht) ht)
  inside o ho ht := by
    rw [hinfo]
    exact h.inside o (hsub o ho ht) ht
  out o ho ht := h.out o (hsub o ho ht) ht
  account := by
    rw [hheld, hinfo]
    exact h.account

/-- An area was given. -/
theorem gain (h : HeapOk t s l owned k) (hg : Gives t s s' l l' x n) (u : HeapType) (al : Nat) :
    HeapOk t s' l' (⟨t, u, x, al⟩ :: owned) (k + n) where
  free := hg.list
  apart := hg.apart
  area o ho ht := by
    rcases List.mem_cons.mp ho with rfl | ho
    · exact hg.area
    · have hx := h.area o ho ht
      have hfit := hx.fit
      refine hx.congr fun y hle hlt => hg.frame.keeps y (h.out o ho ht y hle ?_)
      omega
  inside o ho ht := by
    rw [hg.frame.start, hg.frame.stop]
    rcases List.mem_cons.mp ho with rfl | ho
    · have hlarge := hg.area.large
      unfold minSize at hlarge
      have hin : ∀ y, x.block ≤ y → y < x.block + x.size →
          (s.heapInfo t).start ≤ y ∧ y < (s.heapInfo t).stop := by
        intro y hle hlt
        refine h.free.inside.mem fun hout => ?_
        have hmid : y < x.block ∨ x.block + x.size ≤ y := (hg.from_list y hout).1 x.mid List.mem_cons_self
        omega
      have hfirst := hin x.block (Nat.le_refl _) (by omega)
      have hlast := hin (x.block + x.size - 1) (by omega) (by omega)
      show (s.heapInfo t).start ≤ x.block ∧ x.block + x.size ≤ (s.heapInfo t).stop
      omega
    · exact h.inside o ho ht
  out o ho ht y hle hlt := by
    rcases List.mem_cons.mp ho with rfl | ho
    · refine hg.out y fun hout => ?_
      have hle : x.block ≤ y := hle
      have hlt : y < x.block + x.size := hlt
      have hmid : y < x.block ∨ x.block + x.size ≤ y := hout x.mid List.mem_cons_self
      omega
    · exact (hg.from_list y (h.out o ho ht y hle hlt)).2
  account := by
    have haccount := h.account
    have htotal := hg.total
    rw [hg.frame.maxSize, held, if_pos rfl]
    show total l' + (x.size + held t owned) + (k + n) = _
    omega

/-- An area was given back. -/
theorem lose (h : HeapOk t s l owned k) (ho : o ∈ owned) (ht : o.heap = t)
    (hap : ∀ o' ∈ owned.erase o, o.Apart o') (hk : Takes t s s' l l' o.area) :
    HeapOk t s' l' (owned.erase o) k where
  free := hk.list
  apart := hk.apart
  area o' ho' ht' := by
    have hx := h.area o' (List.mem_of_mem_erase ho') ht'
    have hfit := hx.fit
    refine hx.congr fun y hle hlt => hk.frame.keeps y (outside_cons.mpr ⟨?_, ?_⟩)
    · exact (hap o' ho').outside hle (by omega)
    · exact h.out o' (List.mem_of_mem_erase ho') ht' y hle (by omega)
  inside o' ho' ht' := by
    rw [hk.frame.start, hk.frame.stop]
    exact h.inside o' (List.mem_of_mem_erase ho') ht'
  out o' ho' ht' y hle hlt := by
    refine (hk.outside y).mpr (outside_cons.mpr ⟨(hap o' ho').outside hle hlt, ?_⟩)
    exact h.out o' (List.mem_of_mem_erase ho') ht' y hle hlt
  account := by
    have haccount := h.account
    have htotal := hk.total
    rw [held_erase t ho, if_pos ht] at haccount
    rw [hk.frame.maxSize]
    omega

end HeapOk

/-! ## The list in memory -/

theorem freeBlocks_chain (h : Chain d p l 0) (hl : ∀ b ∈ l, 0 < b.1) {fuel : Nat} (hfuel : l.length < fuel) :
    freeBlocks d fuel (first l 0) = l := by
  induction l generalizing p fuel with
  | nil =>
      obtain ⟨fuel, rfl⟩ := Nat.exists_eq_succ_of_ne_zero (Nat.ne_of_gt hfuel)
      exact if_pos rfl
  | cons b l ih =>
      obtain ⟨fuel, rfl⟩ := Nat.exists_eq_succ_of_ne_zero (Nat.ne_of_gt (Nat.zero_lt_of_lt hfuel))
      have hpos := hl b List.mem_cons_self
      have hrest := ih h.2 (fun c hc => hl c (List.mem_cons_of_mem b hc)) (Nat.lt_of_succ_lt_succ hfuel)
      show freeBlocks d (fuel + 1) b.1 = b :: l
      rw [freeBlocks, if_neg (Nat.ne_of_gt hpos), h.1.size, h.1.next, hrest]

theorem FreeOk.free_eq (h : FreeOk t s l) : s.free t = l := by
  rw [Heaps.free, h.head]
  exact freeBlocks_chain h.chain (fun b hb => (h.spaced.large b hb).1) h.length_lt

theorem Unmade.free_eq (h : Unmade t s l owned n) : s.free t = l := by
  rw [Heaps.free, h.info, h.list]
  rfl

/-! ## The invariant is kept -/

namespace WorldOk

theorem heapOk (h : WorldOk w fl lost) (ho : o ∈ w.owned) : HeapOk o.heap w.heaps (fl o.heap) w.owned (lost o.heap) :=
  (h.heap o.heap).resolve_left fun hnone => hnone.none o ho rfl

theorem inside (h : WorldOk w fl lost) (t : HeapType) :
    Inside (fl t) (w.heaps.heapInfo t).start (w.heaps.heapInfo t).stop := by
  rcases h.heap t with hnone | hok
  · rw [hnone.list]
    exact fun b hb => absurd hb List.not_mem_nil
  · exact hok.free.inside

theorem free_eq (h : WorldOk w fl lost) (t : HeapType) : w.heaps.free t = fl t :=
  (h.heap t).elim Unmade.free_eq fun hok => hok.free.free_eq

/-- The range of a heap has no free block of another one. -/
theorem region_out (h : WorldOk w fl lost) (hne : t ≠ u) (hle : (w.heaps.heapInfo u).start ≤ y)
    (hlt : y < (w.heaps.heapInfo u).stop) : Outside (fl t) y := by
  refine outside_region (h.inside t) ?_
  rcases h.regions t u hne with hr | hr <;> omega

/-- The block of an area has no free block in it. -/
theorem block_out (h : WorldOk w fl lost) (ho : o ∈ w.owned) (t : HeapType) (hle : o.area.block ≤ y)
    (hlt : y < o.area.block + o.area.size) : Outside (fl t) y := by
  have hok := h.heapOk ho
  by_cases heq : o.heap = t
  · rw [← heq]
    exact hok.out o ho rfl y hle hlt
  · have hin := hok.inside o ho rfl
    exact h.region_out (Ne.symm heq) (by omega) (by omega)

theorem erase_apart (h : WorldOk w fl lost) (ho : o ∈ w.owned) : ∀ o' ∈ w.owned.erase o, o.Apart o' :=
  (List.pairwise_cons.mp ((List.perm_cons_erase ho).pairwise h.apart fun hab => Or.symm hab)).1

/-- An area that was given is of the range of its heap. -/
theorem unmade_no (h : Unmade t s l owned n) (hl : FreeOk t s' l') (hf : Frame t r s s') : False := by
  have hlow := hl.low
  rw [hf.start, h.info] at hlow
  exact absurd hlow (by decide)

end WorldOk

end TX2SecureUart.Malloc
