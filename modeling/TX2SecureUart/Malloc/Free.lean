/-
# `Malloc.Free` — areas that come back

`tegrabl_free` puts the block of an area into the list, at its place among the addresses, and joins
it with the blocks that it touches.  The loop that joins goes on to the head of the list: at each
block it joins what it can, and only the first steps find anything.
-/
import TX2SecureUart.Malloc.Alloc

namespace TX2SecureUart.Malloc

open Prog ByteStore WordStore

variable {t u : HeapType} {s s' s₁ s₂ : Heaps} {l l' l₁ l₂ r : List Block} {a n m k p q v y : Nat}
  {b c : Block} {x : Area} {E : Stop → Heaps → Prop}

/-! ## Joined blocks -/

/-- The block is joined with the first one of the list if they touch. -/
def join (b : Block) : List Block → List Block
  | [] => [b]
  | c :: l => if b.1 + b.2 = c.1 then (b.1, b.2 + c.2) :: l else b :: c :: l

theorem join_cases (b : Block) (l : List Block) :
    join b l = b :: l ∨ ∃ m l', l = (b.1 + b.2, m) :: l' ∧ join b l = (b.1, b.2 + m) :: l' := by
  cases l with
  | nil => exact Or.inl rfl
  | cons c l =>
      by_cases htouch : b.1 + b.2 = c.1
      · refine Or.inr ⟨c.2, l, ?_, if_pos htouch⟩
        rw [htouch]
      · exact Or.inl (if_neg htouch)

/-- The list that is joined begins with the block. -/
theorem join_cons (b : Block) (l : List Block) : ∃ m l', join b l = (b.1, m) :: l' := by
  rcases join_cases b l with h | ⟨m, l', -, h⟩
  · exact ⟨b.2, l, h⟩
  · exact ⟨_, l', h⟩

theorem outside_join : Outside (join b l) y ↔ Outside (b :: l) y := by
  rcases join_cases b l with h | ⟨m, l', rfl, h⟩
  · rw [h]
  · rw [h, outside_cons, outside_cons, outside_cons, ← and_assoc]
    refine and_congr_left fun _ => ?_
    show y < b.1 ∨ b.1 + (b.2 + m) ≤ y ↔
      (y < b.1 ∨ b.1 + b.2 ≤ y) ∧ (y < b.1 + b.2 ∨ b.1 + b.2 + m ≤ y)
    omega

theorem total_join : total (join b l) = b.2 + total l := by
  rcases join_cases b l with h | ⟨m, l', rfl, h⟩
  · rw [h, total]
  · rw [h, total, total, Nat.add_assoc]

theorem Spaced.join (h : Spaced (l₁ ++ b :: l)) : Spaced (l₁ ++ join b l) := by
  rcases join_cases b l with heq | ⟨m, l', rfl, heq⟩
  · rwa [heq]
  · rw [heq]
    obtain ⟨hleft, hright, hcross⟩ := List.pairwise_append.mp h.sorted
    obtain ⟨hb, hright⟩ := List.pairwise_cons.mp hright
    obtain ⟨hc, hright⟩ := List.pairwise_cons.mp hright
    have hmem : ∀ c ∈ l', c ∈ l₁ ++ b :: (b.1 + b.2, m) :: l' := fun c hc =>
      List.mem_append_right _ (List.mem_cons_of_mem _ (List.mem_cons_of_mem _ hc))
    have hbmem : b ∈ l₁ ++ b :: (b.1 + b.2, m) :: l' := List.mem_append_right _ List.mem_cons_self
    have hcmem : (b.1 + b.2, m) ∈ l₁ ++ b :: (b.1 + b.2, m) :: l' :=
      List.mem_append_right _ (List.mem_cons_of_mem _ List.mem_cons_self)
    refine ⟨List.pairwise_append.mpr ⟨hleft, List.pairwise_cons.mpr ⟨?_, hright⟩, ?_⟩, ?_, ?_⟩
    · intro c hcl
      have hle : b.1 + b.2 + m ≤ c.1 := hc c hcl
      show b.1 + (b.2 + m) ≤ c.1
      omega
    · intro d hd c hcl
      rcases List.mem_cons.mp hcl with rfl | hcl
      · exact hcross d hd b List.mem_cons_self
      · exact hcross d hd c (List.mem_cons_of_mem _ (List.mem_cons_of_mem _ hcl))
    · intro c hcl
      rcases List.mem_append.mp hcl with hcl | hcl
      · exact h.large c (List.mem_append_left _ hcl)
      · rcases List.mem_cons.mp hcl with rfl | hcl
        · have hlarge := h.large b hbmem
          exact ⟨hlarge.1, Nat.le_add_right_of_le hlarge.2⟩
        · exact h.large c (hmem c hcl)
    · intro c hcl
      rcases List.mem_append.mp hcl with hcl | hcl
      · exact h.small c (List.mem_append_left _ hcl)
      · rcases List.mem_cons.mp hcl with rfl | hcl
        · have hsmall : b.1 + b.2 + m < 2 ^ 64 := h.small _ hcmem
          show b.1 + (b.2 + m) < 2 ^ 64
          omega
        · exact h.small c (hmem c hcl)

theorem apart_join (h : Spaced (b :: l)) (hap : Apart l) : Apart (join b l) := by
  obtain ⟨hb, -⟩ := List.pairwise_cons.mp h.sorted
  cases l with
  | nil => exact List.pairwise_singleton ..
  | cons c l =>
      obtain ⟨hc, hl⟩ := List.pairwise_cons.mp hap
      have hle := hb c List.mem_cons_self
      by_cases htouch : b.1 + b.2 = c.1
      · rw [show join b (c :: l) = (b.1, b.2 + c.2) :: l from if_pos htouch]
        refine List.pairwise_cons.mpr ⟨fun d hd => ?_, hl⟩
        have hlt := hc d hd
        show b.1 + (b.2 + c.2) < d.1
        omega
      · rw [show join b (c :: l) = b :: c :: l from if_neg htouch]
        refine List.pairwise_cons.mpr ⟨fun d hd => ?_, hap⟩
        rcases List.mem_cons.mp hd with rfl | hd
        · omega
        · have hlt := hc d hd
          omega

/-- Blocks that do not touch are left as they are. -/
theorem join_apart (h : Apart (b :: l)) : join b l = b :: l := by
  rcases join_cases b l with heq | ⟨m, l', rfl, -⟩
  · exact heq
  · have hlt : b.1 + b.2 < b.1 + b.2 := (List.pairwise_cons.mp h).1 _ List.mem_cons_self
    omega

/-- All blocks up to the head of the list are joined. -/
def joinAll (l₁ l : List Block) : List Block := l₁.foldr join l

/-- The same bytes, in blocks that are joined -/
structure Joined (l l' : List Block) : Prop where
  spaced : Spaced l'
  outside : ∀ y, Outside l' y ↔ Outside l y
  total : total l' = total l
  head : first l' 0 = first l 0

theorem joined_join (h : Spaced (l₁ ++ b :: l)) : Joined (l₁ ++ b :: l) (l₁ ++ join b l) where
  spaced := h.join
  outside y := by
    rw [outside_append, outside_append, outside_join]
  total := by
    rw [total_append, total_append, total_join, total]
  head := by
    obtain ⟨m, l', heq⟩ := join_cons b l
    rw [heq, first_append, first_append]
    rfl

theorem Joined.trans (h : Joined l l₁) (h' : Joined l₁ l₂) : Joined l l₂ :=
  ⟨h'.spaced, fun y => (h'.outside y).trans (h.outside y), h'.total.trans h.total, h'.head.trans h.head⟩

theorem Joined.refl (h : Spaced l) : Joined l l := ⟨h, fun _ => Iff.rfl, rfl, rfl⟩

/-! ## Merging in memory -/

/-- The list `l` has become `l'` in memory. -/
structure Merges (s s' : Heaps) (l l' : List Block) : Prop where
  info : s'.heapInfo = s.heapInfo
  chain : Chain s'.mem 0 l' 0
  keeps : Keeps l s.mem s'.mem
  joined : Joined l l'

theorem Merges.trans (h : Merges s s₁ l l₁) (h' : Merges s₁ s₂ l₁ l₂) : Merges s s₂ l l₂ where
  info := h'.info.trans h.info
  chain := h'.chain
  keeps := h.keeps.trans (h'.keeps.mono fun y hy => (h.joined.outside y).mpr hy)
  joined := h.joined.trans h'.joined

theorem wp_mergeWithNext (h : Chain s.mem 0 (l₁ ++ b :: c :: l) 0) (hs : Spaced (l₁ ++ b :: c :: l)) :
    wp (tegrablHeapMergeWithNext b.1 c.1) (fun _ s' =>
      Merges s s' (l₁ ++ b :: c :: l) (l₁ ++ join b (c :: l))) E s := by
  obtain ⟨-, hb, hc, -⟩ := chain_append.mp h
  have hbm : b ∈ l₁ ++ b :: c :: l := List.mem_append_right _ List.mem_cons_self
  have hcm : c ∈ l₁ ++ b :: c :: l := List.mem_append_right _ (List.mem_cons_of_mem _ List.mem_cons_self)
  have hsmall := hs.small b hbm
  have hle : b.1 + b.2 ≤ c.1 :=
    (List.pairwise_cons.mp (List.pairwise_append.mp hs.sorted).2.1).1 c List.mem_cons_self
  have hend : w64 (b.1 + b.2) = b.1 + b.2 := w64_of_lt hsmall
  rw [tegrablHeapMergeWithNext, wp_bind, wp_read, hb.size, hend]
  refine wp_hangIf_then (by omega) ?_
  split
  next htouch =>
    obtain ⟨c₁, c₂⟩ := c
    obtain ⟨b₁, b₂⟩ := b
    have htouch : b₁ + b₂ = c₁ := htouch
    subst htouch
    have hsum : b₁ + b₂ + c₂ < 2 ^ 64 := hs.small _ hcm
    have hbetween : Between l₁ b₁ (b₂ + c₂) l := by
      have hj := hs.join
      rw [show join (b₁, b₂) ((b₁ + b₂, c₂) :: l) = (b₁, b₂ + c₂) :: l from if_pos rfl] at hj
      exact hj.between
    have hlarge : minSize ≤ b₂ := (hs.large _ hbm).2
    have hjoin : join (b₁, b₂) ((b₁ + b₂, c₂) :: l) = (b₁, b₂ + c₂) :: l := if_pos rfl
    have hchain := chain_join hbetween hlarge h
    have hkeeps := keeps_join (d := s.mem) hbetween (Nat.le_add_right_of_le hlarge)
    have hnext : ∀ v, nextOf (setWord s.mem 8 (b₁ + 8) v) (b₁ + b₂) = first l 0 := by
      unfold minSize at hlarge
      intro v
      exact (word_setWord_apart (by omega)).trans hc.next
    have hw : w64 (b₂ + c₂) = b₂ + c₂ := w64_of_lt (by omega)
    rw [joinNext]
    simp only [wp_bind, wp_read, wp_setSize, wp_setNext, wp_putPrev, withMem_mem, withMem_withMem, hc.size, hw,
      hnext]
    have hjoined := joined_join hs
    rw [hjoin] at hjoined ⊢
    exact ⟨rfl, hchain, hkeeps.mono fun y hy => (hjoined.outside y).mpr hy, hjoined⟩
  next hno =>
    have hjoin : join b (c :: l) = b :: c :: l := if_neg hno
    rw [hjoin]
    exact ⟨rfl, h, Keeps.refl _ _, Joined.refl hs⟩

theorem wp_mergeNext (h : Chain s.mem 0 (l₁ ++ b :: l) 0) (hs : Spaced (l₁ ++ b :: l)) :
    wp (mergeNext b.1 (first l 0)) (fun _ s' => Merges s s' (l₁ ++ b :: l) (l₁ ++ join b l)) E s := by
  rw [mergeNext]
  cases l with
  | nil =>
      rw [show first [] 0 = 0 from rfl, if_pos rfl]
      exact ⟨rfl, h, Keeps.refl _ _, Joined.refl hs⟩
  | cons c l =>
      have hc := hs.large c (List.mem_append_right _ (List.mem_cons_of_mem _ List.mem_cons_self))
      rw [show first (c :: l) 0 = c.1 from rfl, if_neg (Nat.ne_of_gt hc.1)]
      exact wp_mergeWithNext h hs

/-- The loop joins the block with the next one, and all blocks before it with what comes of that. -/
theorem wp_mergeLoop (hs : Spaced (l₁ ++ b :: l)) (hap : Apart l) (h : Chain s.mem 0 (l₁ ++ b :: l) 0)
    {fuel : Nat} (hfuel : l₁.length < fuel) :
    wp (mergeLoop fuel b.1) (fun p s' => p = first (l₁ ++ b :: l) 0 ∧
      Merges s s' (l₁ ++ b :: l) (joinAll l₁ (join b l))) E s := by
  induction fuel generalizing l₁ b l s with
  | zero => exact absurd hfuel (Nat.not_lt_zero _)
  | succ fuel ih =>
      obtain ⟨-, hb, -⟩ := chain_append.mp h
      rw [mergeLoop, wp_bind, tegrablHeapMergeBlocks, wp_bind, wp_read, hb.next, wp_bind, wp_read, hb.prev]
      refine wp_seq (wp_mergeNext h hs) ?_
      rintro - s₁ hm
      rcases List.eq_nil_or_concat l₁ with rfl | ⟨l₁, c, rfl⟩
      · rw [show last 0 [] = 0 from rfl, mergePrev, if_pos rfl, wp_pure, if_pos rfl]
        exact ⟨rfl, hm⟩
      · rw [List.concat_eq_append] at *
        have hc := hs.large c (List.mem_append_left _ (List.mem_append_right _ List.mem_cons_self))
        have hcb : c.1 + c.2 ≤ b.1 := (List.pairwise_append.mp hs.sorted).2.2 c
          (List.mem_append_right _ List.mem_cons_self) b List.mem_cons_self
        have hlarge := hc.2
        unfold minSize at hlarge
        obtain ⟨m, l', hjb⟩ := join_cons b l
        have hchain := hm.chain
        have hspaced := hm.joined.spaced
        rw [hjb, List.append_assoc, List.singleton_append] at hchain hspaced
        rw [last_concat, mergePrev, if_neg (Nat.ne_of_gt hc.1), wp_bind]
        refine wp_conseq (wp_mergeWithNext (c := (b.1, m)) hchain hspaced) ?_
        rintro - s₂ hm₂
        have hne : c.1 ≠ b.1 := by omega
        have hjap : Apart ((b.1, m) :: l') := by
          rw [← hjb]
          exact apart_join hs.of_append.2 hap
        have hcap := apart_join hspaced.of_append.2 hjap
        obtain ⟨m', l₂, hjc⟩ := join_cons c ((b.1, m) :: l')
        rw [hjc] at hm₂ hcap
        have hall : joinAll (l₁ ++ [c]) (join b l) = joinAll l₁ (join (c.1, m') l₂) := by
          rw [joinAll, List.foldr_append, hjb, join_apart hcap, ← hjc]
          rfl
        have hback := hm₂.joined.head
        have hfirst := hm.joined.head
        rw [hjb, List.append_assoc, List.singleton_append] at hfirst
        rw [List.length_append, List.length_singleton] at hfuel
        rw [wp_pure, if_neg hne]
        refine wp_conseq (ih (b := (c.1, m')) hm₂.joined.spaced (List.pairwise_cons.mp hcap).2 hm₂.chain
          (Nat.lt_of_succ_lt_succ hfuel)) ?_
        rintro p s₃ ⟨rfl, hm₃⟩
        rw [hjb, List.append_assoc l₁ [c] ((b.1, m) :: l'), List.singleton_append] at hm
        rw [hall]
        exact ⟨hback.trans hfirst, hm.trans (hm₂.trans hm₃)⟩

theorem Spaced.joinAll (h : Spaced (r ++ (l₁ ++ l))) : Spaced (r ++ joinAll l₁ l) := by
  induction l₁ generalizing r with
  | nil => exact h
  | cons b l₁ ih =>
      have hrest := ih (r := r ++ [b]) (by rw [List.append_assoc]; exact h)
      rw [List.append_assoc] at hrest
      exact hrest.join

theorem apart_joinAll (h : Spaced (l₁ ++ l)) (hap : Apart l) : Apart (joinAll l₁ l) := by
  induction l₁ with
  | nil => exact hap
  | cons b l₁ ih =>
      have hrest : Spaced ([b] ++ (l₁ ++ l)) := h
      exact apart_join hrest.joinAll (ih hrest.of_append.2)

/-! ## The place of a block -/

theorem wp_findPlace {ptr fuel : Nat} (h : Chain s.mem p l 0) (hpos : ∀ b ∈ l, 0 < b.1) (hfuel : l.length < fuel) :
    wp (findPlace ptr fuel p (first l 0)) (fun r s' => s' = s ∧ ∃ l₁ l₂, l = l₁ ++ l₂ ∧
      r = (last p l₁, first l₂ 0) ∧ (∀ b ∈ l₁, b.1 < ptr) ∧ ∀ c r, l₂ = c :: r → ptr ≤ c.1) E s := by
  induction l generalizing p fuel with
  | nil =>
      obtain ⟨fuel, rfl⟩ := Nat.exists_eq_succ_of_ne_zero (Nat.ne_of_gt hfuel)
      rw [findPlace, if_neg (fun h => h.1 rfl)]
      refine ⟨rfl, [], [], rfl, rfl, fun b hb => absurd hb List.not_mem_nil, ?_⟩
      rintro c r ⟨⟩
  | cons b l ih =>
      obtain ⟨fuel, rfl⟩ := Nat.exists_eq_succ_of_ne_zero (Nat.ne_of_gt (Nat.zero_lt_of_lt hfuel))
      have hb := hpos b List.mem_cons_self
      rw [show first (b :: l) 0 = b.1 from rfl, findPlace]
      by_cases hlt : b.1 < ptr
      · rw [if_pos ⟨Nat.ne_of_gt hb, hlt⟩, wp_bind, wp_read, h.1.next]
        refine wp_conseq (ih h.2 (fun c hc => hpos c (List.mem_cons_of_mem b hc))
          (Nat.lt_of_succ_lt_succ hfuel)) ?_
        rintro r s' ⟨rfl, l₁, l₂, rfl, rfl, hbefore, hbehind⟩
        refine ⟨rfl, b :: l₁, l₂, rfl, rfl, fun c hc => ?_, hbehind⟩
        rcases List.mem_cons.mp hc with rfl | hc
        · exact hlt
        · exact hbefore c hc
      · rw [if_neg (fun h => hlt h.2)]
        refine ⟨rfl, [], b :: l, rfl, rfl, fun c hc => absurd hc List.not_mem_nil, ?_⟩
        rintro c r ⟨rfl, rfl⟩
        exact Nat.le_of_not_lt hlt

/-- A range that is in no block of the list has its place at any address in it. -/
theorem Spaced.place {ptr : Nat} (h : Spaced (l₁ ++ l₂)) (hout : ∀ y, a ≤ y → y < a + n → Outside (l₁ ++ l₂) y)
    (hbefore : ∀ b ∈ l₁, b.1 < ptr) (hbehind : ∀ c r, l₂ = c :: r → ptr ≤ c.1) (hlow : a < ptr)
    (hhigh : ptr ≤ a + n) (hpos : 0 < a) (hbound : a + n < 2 ^ 64) : Between l₁ a n l₂ where
  before b hb := by
    have hmem : b ∈ l₁ ++ l₂ := List.mem_append_left _ hb
    have hlt := hbefore b hb
    have hlarge := (h.large b hmem).2
    have ha := hout a (Nat.le_refl a) (by omega) b hmem
    unfold minSize at hlarge
    by_cases hle : a ≤ b.1
    · have hb1 := hout b.1 hle (by omega) b hmem
      omega
    · omega
  behind c hc := by
    have hmem : c ∈ l₁ ++ l₂ := List.mem_append_right _ hc
    have hge : ptr ≤ c.1 := by
      cases l₂ with
      | nil => cases hc
      | cons d r =>
          have hd := hbehind d r rfl
          rcases List.mem_cons.mp hc with rfl | hc
          · exact hd
          · have hsorted := (List.pairwise_cons.mp h.of_append.2.sorted).1 c hc
            omega
    have hlarge := (h.large c hmem).2
    unfold minSize at hlarge
    by_cases hlt : c.1 < a + n
    · have hc1 := hout c.1 (by omega) hlt c hmem
      omega
    · omega
  left := h.of_append.1
  right := h.of_append.2
  pos := hpos
  bound := hbound

/-! ## `tegrabl_free` -/

/-- The area is an area of the heap, and none of its bytes are in the list. -/
structure Held (t : HeapType) (s : Heaps) (l : List Block) (x : Area) : Prop where
  area : AreaAt s.mem x
  low : (s.heapInfo t).start ≤ x.block
  high : x.block + x.size ≤ (s.heapInfo t).stop
  out : ∀ y, x.block ≤ y → y < x.block + x.size → Outside l y
  room : total l + x.size ≤ (s.heapInfo t).maxSize

/-- The block of the area has come into the list `l`, and the list is `l'` then. -/
structure Takes (t : HeapType) (s s' : Heaps) (l l' : List Block) (x : Area) : Prop where
  list : FreeOk t s' l'
  apart : Apart l'
  frame : Frame t (x.mid :: l) s s'
  outside : ∀ y, Outside l' y ↔ Outside (x.mid :: l) y
  total : total l' = total l + x.size

/-- An area passes the checks. -/
theorem wp_validate {R : Unit → Heaps → Prop} (h : FreeOk t s l) (hx : Held t s l x) (hR : R () s) :
    wp (validateAllocatedBlock (x.ptr - allocHeader) t) R E s := by
  have hlow := hx.area.low
  have hfit := hx.area.fit
  have hbound := hx.area.bound
  have hmax := h.maxSize_lt
  have hroom := hx.room
  have hsize := h.size
  have hend : w64 (x.block + x.size) = x.block + x.size := w64_of_lt hbound
  have hsum : w64 (x.size + (s.heapInfo t).freeSize) = x.size + (s.heapInfo t).freeSize := w64_of_lt (by omega)
  rw [validateAllocatedBlock, wp_bind, wp_read, wp_bind, wp_read, wp_bind, wp_read, wp_bind, wp_info,
    hx.area.start, hx.area.size, hx.area.magic, hend, hsum]
  refine wp_hangIf_then (by omega) (wp_hangIf_then (not_not_intro rfl) (wp_hangIf_then ?_ (wp_hangIf ?_ hR)))
  · have hstart := hx.low
    have hstop := hx.high
    omega
  · omega

theorem outside_middle : Outside (l₁ ++ b :: l₂) y ↔ Outside (b :: (l₁ ++ l₂)) y := by
  rw [outside_append, outside_cons, outside_cons, outside_append]
  exact and_left_comm

/-- A list that was joined in memory -/
theorem FreeOk.joined (h : FreeOk t s l) (hm : Merges s s' l l') : FreeOk t s' l' where
  chain := hm.chain
  spaced := hm.joined.spaced
  inside := by
    intro b hb
    have hlarge := (hm.joined.spaced.large b hb).2
    unfold minSize at hlarge
    have hin : ∀ y, b.1 ≤ y → y < b.1 + b.2 → (s.heapInfo t).start ≤ y ∧ y < (s.heapInfo t).stop := by
      intro y hle hlt
      refine Decidable.byContradiction fun hno => ?_
      have hout : Outside l y := by
        intro c hc
        have hc := h.inside c hc
        omega
      have hb := (hm.joined.outside y).mpr hout b hb
      omega
    have hfirst := hin b.1 (Nat.le_refl _) (by omega)
    have hlast := hin (b.1 + b.2 - 1) (by omega) (by omega)
    rw [hm.info]
    omega
  head := by
    rw [hm.info, hm.joined.head]
    exact h.head
  size := by
    rw [hm.info, hm.joined.total]
    exact h.size
  room := by
    rw [hm.info]
    exact h.room
  low := by
    rw [hm.info]
    exact h.low
  bound := by
    rw [hm.info]
    exact h.bound

theorem headWith_head (h : Spaced (l₁ ++ (a, n) :: l₂)) :
    headWith (first (l₁ ++ (a, n) :: l₂) 0) (first (l₁ ++ l₂) 0) = first (l₁ ++ (a, n) :: l₂) 0 := by
  cases l₁ with
  | nil => exact headWith_first h
  | cons c l₁ => exact ite_self _

/-- What comes of the list when the block of an area is put in and joined -/
theorem takes_of_merges (h : FreeOk t s (l₁ ++ l₂)) (hap : Apart (l₁ ++ l₂)) (hx : Held t s (l₁ ++ l₂) x)
    (hb : Between l₁ x.block x.size l₂) {d : Nat → UInt8}
    (hchain : Chain d 0 (l₁ ++ x.mid :: l₂) 0) (hkeeps : Keeps (l₁ ++ x.mid :: l₂) s.mem d)
    (hm : Merges (s.withMem d) s₁ (l₁ ++ x.mid :: l₂) (joinAll l₁ (join x.mid l₂))) :
    Takes t s (s₁.withInfo t ((s.heapInfo t).withList (first (l₁ ++ x.mid :: l₂) 0)
      (w64 ((s.heapInfo t).freeSize + x.size)))) (l₁ ++ l₂) (joinAll l₁ (join x.mid l₂)) x := by
  have hspaced : Spaced (l₁ ++ x.mid :: l₂) := hb.spaced 0 hx.area.large (by omega)
  have hins := h.insert hb hx.area.large (Nat.le_refl _) ⟨hx.low, hx.high⟩ hchain
  have hinfo : s₁.heapInfo = s.heapInfo := hm.info
  refine ⟨hins.joined ⟨?_, hm.chain, hm.keeps, hm.joined⟩, ?_, ?_, ?_, ?_⟩
  · simp only [Heaps.withInfo, Heaps.withMem, hinfo]
    rfl
  · exact apart_joinAll hspaced.join (apart_join hspaced.of_append.2 (List.pairwise_append.mp hap).2.1)
  · have hall : Keeps (x.mid :: (l₁ ++ l₂)) s.mem s₁.mem :=
      (hkeeps.trans hm.keeps).mono fun y hy => outside_middle.mpr hy
    refine ⟨hall, fun u hu => ?_, ?_, ?_, ?_⟩
    · rw [withInfo_other _ _ hu, hinfo]
    all_goals
      rw [withInfo_self, HeapInfo.withList]
  · exact fun y => (hm.joined.outside y).trans outside_middle
  · rw [hm.joined.total, total_append, total_append, total]
    show total l₁ + (x.size + total l₂) = total l₁ + total l₂ + x.size
    omega

/-- The block of an area is put into the list. -/
theorem wp_freeBlock (h : FreeOk t s l) (hap : Apart l) (hx : Held t s l x) :
    wp (do let b ← freeBlock t x.ptr; updateHead t b) (fun _ s' => ∃ l', Takes t s s' l l' x) E s := by
  have hlow := hx.area.low
  have hfit := hx.area.fit
  have hbound := hx.area.bound
  have hlarge := hx.area.large
  have hsub : sub64 x.ptr allocHeader = x.ptr - allocHeader := sub64_of_le (by omega) (by omega)
  have hsize : Chain (setWord s.mem 8 (x.block + 8) x.size) 0 l 0 := by
    unfold minSize at hlarge
    refine h.chain.congr fun b hb y hy hlt => setWord_outside (Decidable.byContradiction fun hno => ?_)
    have hblarge := (h.spaced.large b hb).2
    have hout := hx.out y (by omega) (by omega) b hb
    omega
  rw [wp_bind, freeBlock, hsub, wp_bind]
  refine wp_validate h hx ?_
  rw [wp_bind, wp_read, wp_bind, wp_read, hx.area.start, hx.area.size, wp_bind, wp_setSize, wp_bind, wp_info,
    wp_bind, withMem_heapInfo, h.head]
  refine wp_conseq (wp_findPlace (by rwa [withMem_mem]) (fun b hb => (h.spaced.large b hb).1) h.length_lt) ?_
  rintro r s' ⟨rfl, l₁, l₂, rfl, rfl, hbefore, hbehind⟩
  have hb : Between l₁ x.block x.size l₂ := by
    unfold allocHeader at hlow
    exact h.spaced.place hx.out hbefore hbehind (by omega) (by omega) hx.area.pos hbound
  have hspaced : Spaced (l₁ ++ x.mid :: l₂) := hb.spaced 0 hlarge (by omega)
  have hchain := chain_putIn hb hlarge h.chain
  have hkeeps := keeps_putIn (d := s.mem) hb hlarge
  have hlen : l₁.length < (s.heapInfo t).maxSize + 1 := by
    have hall := h.length_lt
    rw [List.length_append] at hall
    omega
  simp only [wp_bind, wp_putNext, wp_setPrev, wp_setNext, wp_setMagic, wp_putPrev, withMem_mem, withMem_withMem]
  refine wp_conseq (wp_mergeLoop (b := x.mid) hspaced (List.pairwise_append.mp hap).2.1 hchain hlen) ?_
  rintro p s₁ ⟨rfl, hm⟩
  have hinfo : s₁.heapInfo = s.heapInfo := hm.info
  have hpos : first (l₁ ++ x.mid :: l₂) 0 ≠ 0 := by
    cases l₁ with
    | nil => exact Nat.ne_of_gt hx.area.pos
    | cons c l₁ => exact Nat.ne_of_gt (hspaced.large c List.mem_cons_self).1
  have htakes := takes_of_merges h hap hx hb hchain hkeeps hm
  have hhead : headWith (first (l₁ ++ x.mid :: l₂) 0) (s.heapInfo t).freeList = first (l₁ ++ x.mid :: l₂) 0 := by
    rw [h.head]
    exact headWith_head hspaced
  rw [wp_bind, wp_modifyInfo, wp_pure, updateHead, if_neg hpos, wp_updateFreeListHead, withInfo_self,
    withInfo_withInfo, hinfo, hhead]
  exact ⟨_, htakes⟩

end TX2SecureUart.Malloc
