/-
# `Malloc.Alloc` — areas that are given away

An area is in a block that is in no list.  Before it is the header from which `tegrabl_free` finds
the block again.  The header need not be at the start of the block: `tegrabl_memalign` places it
before the aligned address.

What is given away is taken from one block of the list: from the first one that is large enough.
If there is none the call returns no memory.
-/
import TX2SecureUart.Malloc.Split

namespace TX2SecureUart.Malloc

open Prog ByteStore WordStore

variable {t u : HeapType} {s s' s₁ s₂ : Heaps} {l l' l₁ l₂ r : List Block} {a n k p q v size : Nat}
  {b c : Block} {E : Stop → Heaps → Prop}

/-! ## Areas -/

/-- A block that is given away, and the area of the caller in it -/
structure Area where
  block : Nat
  size : Nat
  ptr : Nat
  /-- The bytes that the caller has asked for -/
  len : Nat
deriving DecidableEq

def Area.mid (x : Area) : Block := (x.block, x.size)

/-- The header before the area -/
structure AreaAt (d : Nat → UInt8) (x : Area) : Prop where
  magic : magicOf d (x.ptr - allocHeader) = allocMagic
  size : sizeOf d (x.ptr - allocHeader) = x.size
  start : startOf d (x.ptr - allocHeader) = x.block
  low : x.block + allocHeader ≤ x.ptr
  fit : x.ptr + x.len ≤ x.block + x.size
  large : minSize ≤ x.size
  pos : 0 < x.block
  bound : x.block + x.size < 2 ^ 64

theorem AreaAt.congr {d e : Nat → UInt8} {x : Area} (h : AreaAt d x)
    (hs : ∀ y, x.block ≤ y → y < x.ptr → e y = d y) : AreaAt e x := by
  have hlow := h.low
  have hsame : Same d e (x.ptr - allocHeader) allocHeader := by
    intro y hy hlt
    exact hs y (by omega) (by omega)
  unfold allocHeader at hsame hlow
  refine { h with magic := ?_, size := ?_, start := ?_ }
  · exact (hsame.mono (m := 4) (Nat.le_refl _) (by omega)).word_eq.trans h.magic
  · exact (hsame.mono (m := 8) (Nat.le_add_right _ 8) (by omega)).word_eq.trans h.size
  · exact (hsame.mono (m := 8) (Nat.le_add_right _ 16) (by omega)).word_eq.trans h.start

/-- No two blocks of the list touch. -/
def Apart (l : List Block) : Prop := l.Pairwise fun b c => b.1 + b.2 < c.1

/-- The area is taken out of the list `l`, and the list `l'` is what remains; `lost` bytes are in
neither. -/
structure Gives (t : HeapType) (s s' : Heaps) (l l' : List Block) (x : Area) (lost : Nat) : Prop where
  list : FreeOk t s' l'
  apart : Apart l'
  frame : Frame t l s s'
  area : AreaAt s'.mem x
  from_list : ∀ y, Outside l y → Outside [x.mid] y ∧ Outside l' y
  out : ∀ y, ¬Outside [x.mid] y → Outside l' y
  total : total l' + x.size + lost = total l

/-! ## The search -/

/-- A loop that goes along the list to the first block that has the property -/
theorem wp_search {f : Nat → Nat → HeapM Nat} {P : Block → Prop} (hnil : ∀ fuel, f (fuel + 1) 0 = pure 0)
    (hcons : ∀ fuel b p q (Q : Nat → Heaps → Prop), FreeAt s.mem b p q → 0 < b.1 →
      (P b → Q b.1 s) → (¬P b → wp (f fuel q) Q E s) → wp (f (fuel + 1) b.1) Q E s)
    (h : Chain s.mem p l 0) (hl : ∀ b ∈ l, 0 < b.1) {fuel : Nat} (hfuel : l.length < fuel) :
    wp (f fuel (first l 0)) (fun a s' => s' = s ∧ ((a = 0 ∧ ∀ c ∈ l, ¬P c) ∨
      ∃ l₁ n l₂, l = l₁ ++ (a, n) :: l₂ ∧ P (a, n) ∧ ∀ c ∈ l₁, ¬P c)) E s := by
  induction l generalizing p fuel with
  | nil =>
      obtain ⟨fuel, rfl⟩ := Nat.exists_eq_succ_of_ne_zero (Nat.ne_of_gt hfuel)
      show wp (f (fuel + 1) 0) _ E s
      rw [hnil]
      exact ⟨rfl, Or.inl ⟨rfl, fun c hc => absurd hc List.not_mem_nil⟩⟩
  | cons b l ih =>
      obtain ⟨fuel, rfl⟩ := Nat.exists_eq_succ_of_ne_zero (Nat.ne_of_gt (Nat.zero_lt_of_lt hfuel))
      refine hcons fuel b p (first l 0) _ h.1 (hl b List.mem_cons_self) ?_ ?_
      · exact fun hacc => ⟨rfl, Or.inr ⟨[], b.2, l, rfl, hacc, fun c hc => absurd hc List.not_mem_nil⟩⟩
      · intro hno
        refine wp_conseq (ih h.2 (fun c hc => hl c (List.mem_cons_of_mem b hc)) (Nat.lt_of_succ_lt_succ hfuel)) ?_
        rintro a s' ⟨rfl, ⟨rfl, hall⟩ | ⟨l₁, n, l₂, rfl, hacc, hbefore⟩⟩
        · exact ⟨rfl, Or.inl ⟨rfl, List.forall_mem_cons.mpr ⟨hno, hall⟩⟩⟩
        · exact ⟨rfl, Or.inr ⟨b :: l₁, n, l₂, rfl, hacc, List.forall_mem_cons.mpr ⟨hno, hbefore⟩⟩⟩

theorem wp_firstFit (h : FreeOk t s l) :
    wp (firstFit size ((s.heapInfo t).maxSize + 1) (s.heapInfo t).freeList)
      (fun a s' => s' = s ∧ ((a = 0 ∧ ∀ c ∈ l, ¬size < c.2) ∨
        ∃ l₁ n l₂, l = l₁ ++ (a, n) :: l₂ ∧ size < n ∧ ∀ c ∈ l₁, ¬size < c.2)) E s := by
  rw [h.head]
  refine wp_search (P := fun c => size < c.2) (fun fuel => ?_) ?_ h.chain
    (fun b hb => (h.spaced.large b hb).1) h.length_lt
  · rw [firstFit, if_pos rfl]
  · intro fuel b p q Q hb hpos hyes hno
    rw [firstFit, if_neg (Nat.ne_of_gt hpos), wp_bind, wp_read, hb.magic]
    refine wp_assert_then rfl ?_
    rw [wp_bind, wp_read, hb.size]
    split
    next hfit => exact hyes hfit
    next hfit =>
      rw [wp_bind, wp_read, hb.next]
      exact hno hfit

/-! ## What a split leaves outside -/

theorem outside_append {y : Nat} : Outside (l₁ ++ l₂) y ↔ Outside l₁ y ∧ Outside l₂ y := List.forall_mem_append

theorem outside_cons {y : Nat} : Outside (b :: l) y ↔ (y < b.1 ∨ b.1 + b.2 ≤ y) ∧ Outside l y := List.forall_mem_cons

theorem Between.outside {y : Nat} (h : Between l₁ a n l₂) (hle : a ≤ y) (hlt : y < a + n) :
    Outside l₁ y ∧ Outside l₂ y := by
  refine ⟨fun b hb => Or.inr ?_, fun c hc => Or.inl ?_⟩
  · have hbefore := h.before b hb
    omega
  · have hbehind := h.behind c hc
    omega

theorem outside_restOf {y : Nat} (hk : k ≤ n) (hy : y < a + takenOf n k ∨ a + n ≤ y) :
    Outside (restOf a n k) y := by
  unfold takenOf at hy
  unfold restOf
  split
  · exact fun b hb => absurd hb List.not_mem_nil
  next hrest =>
    rw [if_neg hrest] at hy
    intro b hb
    rw [List.mem_singleton.mp hb]
    show y < a + k ∨ a + k + (n - k) ≤ y
    omega

theorem Apart.split (h : Apart (l₁ ++ (a, n) :: l₂)) (hk : k ≤ n) (hpos : 0 < k) :
    Apart (l₁ ++ restOf a n k ++ l₂) := by
  obtain ⟨hleft, hright, hcross⟩ := List.pairwise_append.mp h
  obtain ⟨hbehind, hright⟩ := List.pairwise_cons.mp hright
  have hsides : ∀ b ∈ l₁, ∀ c ∈ l₂, b.1 + b.2 < c.1 := fun b hb c hc =>
    hcross b hb c (List.mem_cons_of_mem _ hc)
  unfold restOf
  split
  · rw [List.append_nil]
    exact List.pairwise_append.mpr ⟨hleft, hright, hsides⟩
  · rw [List.append_assoc]
    refine List.pairwise_append.mpr ⟨hleft, List.pairwise_cons.mpr ⟨?_, hright⟩, ?_⟩
    · intro c hc
      have hlt : a + n < c.1 := hbehind c hc
      show a + k + (n - k) < c.1
      omega
    · intro b hb c hc
      rcases List.mem_cons.mp hc with rfl | hc
      · have hlt : b.1 + b.2 < a := hcross b hb (a, n) List.mem_cons_self
        show b.1 + b.2 < a + k
        omega
      · exact hsides b hb c hc

theorem outside_split {y : Nat} (hk : k ≤ n)
    (hy : Outside (l₁ ++ (a, n) :: l₂) y) : Outside (l₁ ++ restOf a n k ++ l₂) y := by
  obtain ⟨hleft, hright⟩ := outside_append.mp hy
  obtain ⟨hmid, hright⟩ := outside_cons.mp hright
  have hmid : y < a ∨ a + n ≤ y := hmid
  exact outside_append.mpr ⟨outside_append.mpr ⟨hleft, outside_restOf hk (by omega)⟩, hright⟩

theorem Between.outside_taken {y : Nat} (h : Between l₁ a n l₂) (hk : k ≤ n) (hle : a ≤ y)
    (hlt : y < a + takenOf n k) : Outside (l₁ ++ restOf a n k ++ l₂) y := by
  have htaken := takenOf_le hk
  obtain ⟨hleft, hright⟩ := h.outside hle (by omega)
  exact outside_append.mpr ⟨outside_append.mpr ⟨hleft, outside_restOf hk (Or.inl hlt)⟩, hright⟩

theorem not_outside_singleton {y : Nat} (h : ¬Outside [(a, n)] y) : a ≤ y ∧ y < a + n := by
  refine Decidable.byContradiction fun hno => h ?_
  intro b hb
  rw [List.mem_singleton.mp hb]
  show y < a ∨ a + n ≤ y
  omega

/-- Stores in the block that was taken leave the list. -/
theorem Split.list_congr (h : Split t s s₁ l₁ l₂ a n k) (hb : Between l₁ a n l₂) (hk : k ≤ n)
    {d : Nat → UInt8} (hd : ∀ y, y < a ∨ a + takenOf n k ≤ y → d y = s₁.mem y) :
    FreeOk t (s₁.withMem d) (l₁ ++ restOf a n k ++ l₂) := by
  refine h.list.congr rfl ?_
  intro b hbl y hy hlt
  refine hd y (Decidable.byContradiction fun hno => ?_)
  have hlarge := (h.list.spaced.large b hbl).2
  have hout := hb.outside_taken hk (show a ≤ y by omega) (by omega) b hbl
  omega

/-- The whole block that was taken is an area. -/
theorem Split.gives (h : Split t s s₁ l₁ l₂ a n k) (hb : Between l₁ a n l₂)
    (hap : Apart (l₁ ++ (a, n) :: l₂)) (hk : k ≤ n) (hpos : 0 < k) {d : Nat → UInt8} {x : Area}
    (hd : ∀ y, y < a ∨ a + takenOf n k ≤ y → d y = s₁.mem y) (hx : AreaAt d x)
    (hmid : x.mid = (a, takenOf n k)) :
    Gives t s (s₁.withMem d) (l₁ ++ (a, n) :: l₂) (l₁ ++ restOf a n k ++ l₂) x 0 := by
  have htaken := takenOf_le hk
  have hblock : Outside (l₁ ++ (a, n) :: l₂) ≤ fun y => y < a ∨ a + n ≤ y :=
    fun y hy => hy (a, n) (List.mem_append_right _ List.mem_cons_self)
  refine ⟨h.list_congr hb hk hd, hap.split hk hpos, ?_, hx, ?_, ?_, ?_⟩
  · refine h.frame.trans ⟨?_, fun _ _ => rfl, rfl, rfl, rfl⟩
    intro y hy
    have hout := hblock y hy
    exact hd y (by omega)
  · intro y hy
    have hout := hblock y hy
    refine ⟨?_, outside_split hk hy⟩
    intro b hbm
    rw [List.mem_singleton.mp hbm, hmid]
    show y < a ∨ a + takenOf n k ≤ y
    omega
  · intro y hy
    rw [hmid] at hy
    obtain ⟨hle, hlt⟩ := not_outside_singleton hy
    exact hb.outside_taken hk hle hlt
  · have hsize : x.size = takenOf n k := congrArg Prod.snd hmid
    have hrest := total_restOf hk a
    rw [hsize, total_append, total_append, total_append, total]
    omega

/-! ## `tegrabl_malloc` -/

/-- The bytes of a block for `size` bytes of the caller -/
def needOf (size : Nat) : Nat := max (roundUp8 size + allocHeader) minSize

theorem minSize_le_needOf (size : Nat) : minSize ≤ needOf size := Nat.le_max_right ..

theorem needOf_bounds (h : size + 7 < 2 ^ 64) : size + allocHeader ≤ needOf size ∧ needOf size ≤ size + 32 := by
  have hround := roundUp8_of_lt h
  unfold needOf allocHeader minSize
  omega

/-- No free block has room for `size` bytes at any address that is aligned. -/
def NoRoom (l : List Block) (al size : Nat) : Prop := size = 0 ∨ ∀ b ∈ l, b.2 < size + al + 32

/-- The first block with room has a gap that becomes a block, and some bytes behind the area that
are too few for one. -/
def loses (l : List Block) (al size : Nat) : Bool :=
  (l.find? fun b => decide (alignGap b.1 al + needOf size ≤ b.2)).any fun b =>
    decide (minSize ≤ alignGap b.1 al ∧ alignGap b.1 al + needOf size < b.2 ∧
      b.2 ≤ alignGap b.1 al + needOf size + minSize)

/-- A call for an aligned area loses bytes of the heap. -/
def HeapInfo.Loses (h : HeapInfo) (l : List Block) (al size : Nat) : Prop :=
  size ≠ 0 ∧ h.isSizeAlignmentValid al size = true ∧ loses l al size = true

instance (h : HeapInfo) (l : List Block) (al size : Nat) : Decidable (h.Loses l al size) :=
  inferInstanceAs (Decidable (_ ∧ _ ∧ _))

/-- A call has no memory for the caller, or it gives an area. -/
def Given (t : HeapType) (s : Heaps) (l : List Block) (al size p : Nat) (s' : Heaps) : Prop :=
  (p = 0 ∧ s' = s ∧ NoRoom l al size) ∨
    ∃ l' x lost, p = x.ptr ∧ x.len = size ∧ (lost = 0 ∨ (s.heapInfo t).Loses l al size) ∧
      Gives t s s' l l' x lost

theorem wp_giveBlock (h : FreeOk t s (l₁ ++ (a, n) :: l₂)) (hap : Apart (l₁ ++ (a, n) :: l₂))
    (hk : minSize ≤ k) (hkn : k ≤ n) (hlen : size + allocHeader ≤ k) (al : Nat) :
    wp (giveBlock t k a) (Given t s (l₁ ++ (a, n) :: l₂) al size) E s := by
  have hb := h.between
  have hpos := h.block_large.1
  have hbound := hb.bound
  have htaken := takenOf_le hkn
  have hle := le_takenOf hkn
  have hptr : w64 (a + allocHeader) = a + allocHeader := w64_of_lt (by omega)
  rw [giveBlock, if_neg (Nat.ne_of_gt hpos)]
  refine wp_seq (wp_split h hk hkn) ?_
  rintro b s₁ ⟨rfl, hs⟩
  simp only [wp_bind, wp_setStart, wp_setMagic, wp_pure, withMem_mem, withMem_withMem, hptr]
  have hsame : ∀ y, y < b ∨ b + takenOf n k ≤ y →
      setWord (setWord s₁.mem 8 (b + 16) b) 4 b allocMagic y = s₁.mem y := by
    unfold minSize at hk
    intro y hy
    exact (setWord_outside (by omega)).trans (setWord_outside (by omega))
  refine Or.inr ⟨_, ⟨b, takenOf n k, b + allocHeader, size⟩, 0, rfl, rfl, Or.inl rfl,
    hs.gives hb hap hkn (Nat.lt_of_lt_of_le (by decide) hk) hsame ?_ rfl⟩
  exact
    { magic := word_setWord (by decide)
      size := (word_setWord_apart (by simp)).trans ((word_setWord_apart (by simp)).trans hs.size)
      start := (word_setWord_apart (by simp)).trans (word_setWord (by show b < 256 ^ 8; omega))
      low := Nat.le_refl _
      fit := by
        show b + allocHeader + size ≤ b + takenOf n k
        omega
      large := Nat.le_trans hk hle
      pos := hpos
      bound := by
        show b + takenOf n k < 2 ^ 64
        omega }

theorem FreeOk.maxSize_lt (h : FreeOk t s l) : (s.heapInfo t).maxSize + minSize < 2 ^ 64 := by
  have hroom := h.room
  have hlow := h.low
  have hbound := h.bound
  omega

/-- `tegrabl_generic_malloc` gives an area if a free block is large enough. -/
theorem wp_genericMalloc (h : FreeOk t s l) (hap : Apart l) :
    wp (tegrablGenericMalloc t size) (Given t s l 1 size) E s := by
  have hmax := h.maxSize_lt
  have htotal := h.total_le
  have hfree := h.size
  rw [tegrablGenericMalloc, wp_bind, wp_info]
  split
  next hno =>
    refine Or.inl ⟨rfl, rfl, hno.imp_right fun hlt b hb => ?_⟩
    have hle := le_total hb
    omega
  next hsome =>
    unfold minSize at hmax
    have hround := roundUp8_of_lt (show size + 7 < 2 ^ 64 by omega)
    have hneed : w64 (roundUp8 size + allocHeader) = roundUp8 size + allocHeader :=
      w64_of_lt (by unfold allocHeader; omega)
    have hbounds := needOf_bounds (show size + 7 < 2 ^ 64 by omega)
    rw [hneed, if_neg (by omega)]
    refine wp_seq (wp_firstFit h) ?_
    rintro a s' ⟨rfl, ⟨rfl, hall⟩ | ⟨l₁, n, l₂, rfl, hfit, -⟩⟩
    · rw [giveBlock, if_pos rfl]
      refine Or.inl ⟨rfl, rfl, Or.inr fun b hb => ?_⟩
      have hle := Nat.not_lt.mp (hall b hb)
      unfold needOf at hbounds
      omega
    · exact wp_giveBlock h hap (minSize_le_needOf size) (Nat.le_of_lt hfit) hbounds.1 1

end TX2SecureUart.Malloc
