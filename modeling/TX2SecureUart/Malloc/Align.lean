/-
# `Malloc.Align` — areas at aligned addresses

`tegrabl_memalign` takes a block with room for a gap before the aligned address.  A gap that is large
enough becomes a free block again.  The block after it is then the one that the split has left, or
the one that was there before.

What the split has taken beyond the gap and the area is in no block then, so up to 32 bytes are lost
with each such call.
-/
import TX2SecureUart.Malloc.Alloc

namespace TX2SecureUart.Malloc

open Prog ByteStore WordStore

variable {t u : HeapType} {s s' s₁ s₂ : Heaps} {l l' l₁ l₂ r : List Block} {a n k p q v g size al : Nat}
  {b c : Block} {E : Stop → Heaps → Prop}

/-! ## The gap -/

theorem alignGap_spec (hal : 0 < al) (hlt : al < 2 ^ 64) (ha : a + allocHeader < 2 ^ 64) :
    0 < alignGap a al ∧ alignGap a al ≤ al ∧ (a + allocHeader + alignGap a al) % al = 0 := by
  have hmod := Nat.mod_lt (a + allocHeader) hal
  have hgap : alignGap a al = al - (a + allocHeader) % al := by
    rw [alignGap, w64_of_lt ha]
    exact sub64_of_le (Nat.le_of_lt hmod) hlt
  have hdiv := Nat.div_add_mod (a + allocHeader) al
  have hsum : a + allocHeader + alignGap a al = al * ((a + allocHeader) / al + 1) := by
    rw [Nat.mul_add, Nat.mul_one]
    omega
  refine ⟨by omega, by omega, ?_⟩
  rw [hsum]
  exact Nat.mul_mod_right ..

theorem alignGap_le (hal : 0 < al) (hlt : al < 2 ^ 64) (a : Nat) : alignGap a al ≤ al := by
  have hmod := Nat.mod_lt (w64 (a + allocHeader)) hal
  rw [alignGap, sub64_of_le (Nat.le_of_lt hmod) hlt]
  exact Nat.sub_le ..

/-! ## The search -/

/-- The block has room for the gap and `need` bytes. -/
def Fits (al need : Nat) (b : Block) : Prop := alignGap b.1 al + need ≤ b.2

theorem wp_getFreeBlock {need : Nat} (h : FreeOk t s l) (hal : 0 < al) (hsum : al + need < 2 ^ 64) :
    wp (getFreeBlock al need ((s.heapInfo t).maxSize + 1) (s.heapInfo t).freeList)
      (fun a s' => s' = s ∧ ((a = 0 ∧ ∀ c ∈ l, ¬Fits al need c) ∨
        ∃ l₁ n l₂, l = l₁ ++ (a, n) :: l₂ ∧ Fits al need (a, n) ∧ ∀ c ∈ l₁, ¬Fits al need c)) E s := by
  rw [h.head]
  refine wp_search (P := Fits al need) (fun fuel => ?_) ?_ h.chain
    (fun b hb => (h.spaced.large b hb).1) h.length_lt
  · rw [getFreeBlock, if_pos rfl]
  · intro fuel b p q Q hb hpos hyes hno
    have hle := alignGap_le hal (show al < 2 ^ 64 by omega) b.1
    have hroom : w64 (alignGap b.1 al + need) = alignGap b.1 al + need := w64_of_lt (by omega)
    rw [getFreeBlock, if_neg (Nat.ne_of_gt hpos), wp_bind, wp_read, hb.size, wp_bind, wp_read, hb.magic]
    refine wp_assert_then rfl ?_
    rw [hroom]
    split
    next hsmall =>
      rw [wp_bind, wp_read, hb.next]
      refine hno ?_
      unfold Fits
      omega
    next hfit =>
      refine hyes ?_
      unfold Fits
      omega

/-! ## The blocks around the gap -/

theorem last_eq_zero (hl : ∀ b ∈ l, 0 < b.1) (h : last 0 l = 0) : l = [] := by
  rcases last_mem 0 l with ⟨-, hnil⟩ | ⟨b, hb, heq⟩
  · exact hnil
  · exact absurd (heq.symm.trans h) (Nat.ne_of_gt (hl b hb))

/-- The block behind is the one that was put in, or the one that was there. -/
theorem wp_nextAfterSplit {Q : Nat → Heaps → Prop} (h : FreeOk t s (l₁ ++ (r ++ l₂)))
    (hr : r = [] ∨ ∃ c, r = [c] ∧ c.1 ≠ last 0 l₁) (hQ : Q (first (r ++ l₂) 0) s) :
    wp (nextAfterSplit t (last 0 l₁) (first l₂ 0)) Q E s := by
  obtain ⟨hleft, hright⟩ := chain_append.mp h.chain
  obtain ⟨-, hright⟩ := chain_append.mp hright
  have hpos : ∀ b ∈ l₁, 0 < b.1 := fun b hb => (h.spaced.large b (List.mem_append_left _ hb)).1
  have hnext : ∀ (hne : last 0 l₁ ≠ 0), nextOf s.mem (last 0 l₁) = first (r ++ l₂) 0 := by
    intro hne
    refine hleft.next_last.resolve_left ?_
    rintro rfl
    exact hne rfl
  have hprev : first l₂ 0 ≠ 0 → prevOf s.mem (first l₂ 0) = last (last 0 l₁) r := by
    intro hne
    refine hright.prev_first.resolve_left ?_
    rintro rfl
    exact hne rfl
  have hchoice : (if last (last 0 l₁) r ≠ last 0 l₁ then last (last 0 l₁) r else first l₂ 0)
      = first (r ++ l₂) 0 := by
    rcases hr with rfl | ⟨c, rfl, hne⟩
    · exact if_neg (not_not_intro rfl)
    · exact if_pos hne
  rw [nextAfterSplit]
  split
  next hnone =>
    rw [wp_bind, wp_info, h.head, last_eq_zero hpos hnone.1]
    exact hQ
  next hsome =>
    split
    next hz =>
      rw [wp_read, hnext fun hzero => hsome ⟨hzero, hz⟩]
      exact hQ
    next hz =>
      rw [wp_bind, wp_read, hprev hz, hchoice]
      exact hQ

theorem wp_linkPrev {R : Unit → Heaps → Prop} (h : Chain s.mem p l 0)
    (hR : R () (s.withMem (putPrevMem s.mem (first l 0) a))) : wp (linkPrev (first l 0) p a) R E s := by
  rw [putPrevMem] at hR
  rw [linkPrev]
  split
  next hz =>
    rw [if_pos hz] at hR
    exact hR
  next hne =>
    have hprev : prevOf s.mem (first l 0) = p := by
      refine h.prev_first.resolve_left ?_
      rintro rfl
      exact hne rfl
    rw [if_neg hne] at hR
    rw [wp_bind, wp_read]
    exact wp_assert_then hprev hR

theorem wp_linkNext {R : Unit → Heaps → Prop} (h : Chain s.mem 0 l q)
    (hR : R () (s.withMem (putNextMem s.mem (last 0 l) a))) : wp (linkNext (last 0 l) q a) R E s := by
  rw [putNextMem] at hR
  rw [linkNext]
  split
  next hz =>
    rw [if_pos hz] at hR
    exact hR
  next hne =>
    have hnext : nextOf s.mem (last 0 l) = q := by
      refine h.next_last.resolve_left ?_
      rintro rfl
      exact hne rfl
    rw [if_neg hne] at hR
    rw [wp_bind, wp_read]
    exact wp_assert_then hnext hR

/-! ## The gap becomes a block -/

/-- The area keeps its header when the gap before it becomes a block. -/
theorem area_gap {d : Nat → UInt8} {m need : Nat} (hb : Between l₁ a m l₂) (hg : minSize ≤ g)
    (hneed : minSize ≤ need) (hfit : g + need ≤ m) (hlen : size + allocHeader ≤ need)
    (hmagic : magicOf d (a + g) = allocMagic) :
    AreaAt (gapMem d a g need (last 0 l₁) (first l₂ 0)) ⟨a + g, need, a + g + allocHeader, size⟩ := by
  have hbound := hb.bound
  have hpos := hb.pos
  unfold allocHeader at hlen
  have hsub : a + g + allocHeader - allocHeader = a + g := Nat.add_sub_cancel ..
  refine ⟨?_, ?_, ?_, Nat.le_refl _, ?_, hneed, Nat.add_pos_left hpos g, ?_⟩
  · rw [hsub]
    unfold minSize at hg hneed
    refine (hb.mid_putNext (by omega)).trans ((hb.mid_putPrev (by omega)).trans ?_)
    refine (word_setWord_apart (by omega)).trans ((word_setWord_apart (by omega)).trans ?_)
    refine (word_setWord_apart (by omega)).trans ((word_setWord_apart (by omega)).trans ?_)
    exact (word_setWord_apart (by omega)).trans ((word_setWord_apart (by omega)).trans hmagic)
  · rw [hsub]
    unfold minSize at hg hneed
    refine (hb.mid_putNext (by omega)).trans ((hb.mid_putPrev (by omega)).trans ?_)
    refine (word_setWord_apart (by omega)).trans ((word_setWord_apart (by omega)).trans ?_)
    refine (word_setWord_apart (by omega)).trans ((word_setWord_apart (by omega)).trans ?_)
    exact (word_setWord_apart (by omega)).trans (word_setWord (by show need < 256 ^ 8; omega))
  · rw [hsub]
    unfold minSize at hg hneed
    refine (hb.mid_putNext (by omega)).trans ((hb.mid_putPrev (by omega)).trans ?_)
    refine (word_setWord_apart (by omega)).trans ((word_setWord_apart (by omega)).trans ?_)
    refine (word_setWord_apart (by omega)).trans ((word_setWord_apart (by omega)).trans ?_)
    exact word_setWord (by show a + g < 256 ^ 8; omega)
  · show a + g + allocHeader + size ≤ a + g + need
    unfold allocHeader
    omega
  · show a + g + need < 2 ^ 64
    omega

theorem wp_freeGap {m need : Nat} (h : FreeOk t s (l₁ ++ (r ++ l₂)))
    (hr : r = [] ∨ ∃ c, r = [c] ∧ c.1 ≠ last 0 l₁) (hb : Between l₁ a m (r ++ l₂))
    (hin : (s.heapInfo t).start ≤ a ∧ a + m ≤ (s.heapInfo t).stop) (hg : minSize ≤ g)
    (hneed : minSize ≤ need) (hfit : g + need ≤ m) (hlen : size + allocHeader ≤ need)
    (hmagic : magicOf s.mem (a + g) = allocMagic) :
    wp (freeGap t a (last 0 l₁) (first l₂ 0) g need) (fun _ s' =>
      FreeOk t s' (l₁ ++ (a, g) :: (r ++ l₂)) ∧ Frame t (l₁ ++ (a, m) :: (r ++ l₂)) s s' ∧
        AreaAt s'.mem ⟨a + g, need, a + g + allocHeader, size⟩) E s := by
  have hbound := hb.bound
  have hsum : w64 (a + g) = a + g := w64_of_lt (by omega)
  have hg24 : g + 24 ≤ m := by
    unfold minSize at hneed
    omega
  have hm : minSize ≤ m := by omega
  have hhead : Chain (gapHeadMem s.mem a g need (last 0 l₁) (first (r ++ l₂) 0)) 0 (l₁ ++ (r ++ l₂)) 0 := by
    refine h.chain.congr ?_
    intro b hbm
    rcases List.mem_append.mp hbm with hbm | hbm
    · exact hb.same_left hbm fun x hx => gapHeadMem_outside hg24 hm (Or.inl hx)
    · exact hb.same_right hbm fun x hx => gapHeadMem_outside hg24 hm (Or.inr hx)
  obtain ⟨hleft, hright⟩ := chain_append.mp hhead
  have hchain := chain_gap (v := need) hb hg hg24 h.chain
  have hlist := h.insert hb hg (by omega) hin hchain
  have hnew : headWith a (s.heapInfo t).freeList = first (l₁ ++ (a, g) :: (r ++ l₂)) 0 := by
    rw [h.head]
    exact headWith_first hlist.spaced
  have harea := area_gap (d := s.mem) hb hg hneed hfit hlen hmagic
  have hkeeps := keeps_gap (d := s.mem) (v := need) hb hg hg24
  rw [freeGap]
  refine wp_seq (wp_nextAfterSplit h hr (Q := fun next s' => next = first (r ++ l₂) 0 ∧ s' = s) ⟨rfl, rfl⟩) ?_
  rintro next s' ⟨rfl, rfl⟩
  simp only [hsum, wp_bind, wp_setSize, wp_setStart, wp_setNext, wp_setPrev, wp_setMagic, wp_modifyInfo,
    withMem_mem, withMem_withMem, withInfo_withMem, withMem_heapInfo]
  refine wp_linkPrev hright ((wp_bind _ _).mpr ?_)
  refine wp_linkNext (hleft.congr fun b hbm => hb.left_putPrev hbm) ?_
  simp only [wp_updateFreeListHead, withMem_mem, withMem_withMem, withInfo_withMem, withMem_heapInfo,
    withInfo_self, withInfo_withInfo]
  rw [hnew]
  unfold gapMem gapHeadMem at hlist harea hkeeps
  exact ⟨hlist, Frame.withList hkeeps, harea⟩

/-! ## What is given away -/

/-- The header of the area behind a gap -/
def alignMem (d : Nat → UInt8) (block gap size : Nat) : Nat → UInt8 :=
  setWord (setWord (setWord d 8 (block + gap + 8) size) 4 (block + gap) allocMagic) 8 (block + gap + 16) block

theorem alignMem_outside {d : Nat → UInt8} {m y : Nat} (hfit : g + 24 ≤ m) (hy : y < a ∨ a + m ≤ y) :
    alignMem d a g v y = d y := by
  refine (setWord_outside (by omega)).trans ((setWord_outside (by omega)).trans ?_)
  exact setWord_outside (by omega)

theorem magic_alignMem (d : Nat → UInt8) (a g v : Nat) : magicOf (alignMem d a g v) (a + g) = allocMagic :=
  (word_setWord_apart (by omega)).trans (word_setWord (by decide))

/-- The area of a block with a small gap before it -/
theorem area_align {d : Nat → UInt8} {m : Nat} (hpos : 0 < a) (hbound : a + m < 2 ^ 64) (hm : minSize ≤ m)
    (hlen : g + allocHeader + size ≤ m) : AreaAt (alignMem d a g m) ⟨a, m, a + g + allocHeader, size⟩ := by
  have hsub : a + g + allocHeader - allocHeader = a + g := Nat.add_sub_cancel ..
  refine ⟨?_, ?_, ?_, ?_, ?_, hm, hpos, hbound⟩
  · rw [hsub]
    exact magic_alignMem d a g m
  · rw [hsub]
    refine (word_setWord_apart (by omega)).trans ((word_setWord_apart (by omega)).trans ?_)
    exact word_setWord (by show m < 256 ^ 8; omega)
  · rw [hsub]
    exact word_setWord (by show a < 256 ^ 8; omega)
  · show a + allocHeader ≤ a + g + allocHeader
    omega
  · show a + g + allocHeader + size ≤ a + m
    omega

theorem Between.taken (h : Between l₁ a n l₂) (hk : k ≤ n) :
    Between l₁ a (takenOf n k) (restOf a n k ++ l₂) := by
  have htaken := takenOf_le hk
  have hspaced := h.spaced_rest hk
  rw [List.append_assoc] at hspaced
  refine ⟨h.before, ?_, h.left, hspaced.of_append.2, h.pos, ?_⟩
  · intro c hc
    rcases List.mem_append.mp hc with hc | hc
    · unfold restOf at hc
      split at hc
      · cases hc
      next hrest =>
        rw [takenOf, if_neg hrest, List.mem_singleton.mp hc]
    · have hbehind := h.behind c hc
      omega
  · have hbound := h.bound
    omega

theorem restOf_cases (h : Between l₁ a n l₂) (k : Nat) :
    restOf a n k = [] ∨ ∃ c, restOf a n k = [c] ∧ c.1 ≠ last 0 l₁ := by
  unfold restOf
  split
  · exact Or.inl rfl
  · refine Or.inr ⟨_, rfl, ?_⟩
    have hpos := h.pos
    show a + k ≠ last 0 l₁
    rcases h.last_le with hz | hle
    · omega
    · unfold minSize at hle
      omega

/-- The gap is a block of the list, and the area comes after it. -/
theorem Split.gives_gap {need : Nat} (h : Split t s s₁ l₁ l₂ a n k) (hb : Between l₁ a n l₂)
    (hap : Apart (l₁ ++ (a, n) :: l₂)) (hk : k = need + g) (hkn : k ≤ n) (hneed : 0 < need)
    (hlist : FreeOk t s₂ (l₁ ++ (a, g) :: (restOf a n k ++ l₂)))
    (hframe : Frame t (l₁ ++ (a, takenOf n k) :: (restOf a n k ++ l₂)) s₁ s₂)
    (hx : AreaAt s₂.mem ⟨a + g, need, p, size⟩) :
    Gives t s s₂ (l₁ ++ (a, n) :: l₂) (l₁ ++ (a, g) :: (restOf a n k ++ l₂)) ⟨a + g, need, p, size⟩
      (takenOf n k - k) := by
  have htaken := takenOf_le hkn
  have hle := le_takenOf hkn
  have hout : ∀ {y}, Outside (l₁ ++ (a, n) :: l₂) y →
      Outside l₁ y ∧ (y < a ∨ a + n ≤ y) ∧ Outside (restOf a n k ++ l₂) y := by
    intro y hy
    have hmid : y < a ∨ a + n ≤ y := hy (a, n) (List.mem_append_right _ List.mem_cons_self)
    have hsplit := outside_split hkn hy
    rw [List.append_assoc] at hsplit
    exact ⟨(outside_append.mp hy).1, hmid, (outside_append.mp hsplit).2⟩
  refine ⟨hlist, ?_, h.frame.trans (hframe.mono ?_), hx, ?_, ?_, ?_⟩
  · have hrest := hap.split hkn (by omega)
    rw [List.append_assoc] at hrest
    obtain ⟨hleft, hright, hcross⟩ := List.pairwise_append.mp hrest
    obtain ⟨-, -, hbefore⟩ := List.pairwise_append.mp hap
    refine List.pairwise_append.mpr ⟨hleft, List.pairwise_cons.mpr ⟨?_, hright⟩, ?_⟩
    · intro c hc
      have hbehind := (hb.taken hkn).behind c hc
      show a + g < c.1
      omega
    · intro b hbm c hc
      rcases List.mem_cons.mp hc with rfl | hc
      · exact hbefore b hbm (a, n) List.mem_cons_self
      · exact hcross b hbm c hc
  · intro y hy
    obtain ⟨hleft, hmid, hright⟩ := hout hy
    refine outside_append.mpr ⟨hleft, outside_cons.mpr ⟨?_, hright⟩⟩
    show y < a ∨ a + takenOf n k ≤ y
    omega
  · intro y hy
    obtain ⟨hleft, hmid, hright⟩ := hout hy
    refine ⟨?_, outside_append.mpr ⟨hleft, outside_cons.mpr ⟨?_, hright⟩⟩⟩
    · intro b hbm
      rw [List.mem_singleton.mp hbm]
      show y < a + g ∨ a + g + need ≤ y
      omega
    · show y < a ∨ a + g ≤ y
      omega
  · intro y hy
    have hy : a + g ≤ y ∧ y < a + g + need := not_outside_singleton hy
    obtain ⟨hleft, hright⟩ := (hb.taken hkn).outside (show a ≤ y by omega) (by omega)
    refine outside_append.mpr ⟨hleft, outside_cons.mpr ⟨?_, hright⟩⟩
    show y < a ∨ a + g ≤ y
    omega
  · have hrest := total_restOf hkn a
    show total (l₁ ++ (a, g) :: (restOf a n k ++ l₂)) + need + (takenOf n k - k) = _
    rw [total_append, total_append, total, total, total_append]
    show total l₁ + (g + (total (restOf a n k) + total l₂)) + need + (takenOf n k - k) = total l₁ + (n + total l₂)
    omega

/-- `tegrabl_memalign_generic` on a block with room for the gap and `need` bytes -/
theorem wp_alignBlock {need : Nat} (h : FreeOk t s (l₁ ++ (a, n) :: l₂)) (hap : Apart (l₁ ++ (a, n) :: l₂))
    (hal : 0 < al) (hsum : al + need < 2 ^ 64) (hneed : minSize ≤ need) (hlen : size + allocHeader ≤ need)
    (hfit : Fits al need (a, n))
    (hloses : minSize ≤ alignGap a al → alignGap a al + need < n → n ≤ alignGap a al + need + minSize →
      (s.heapInfo t).Loses (l₁ ++ (a, n) :: l₂) al size) :
    wp (alignBlock t al need a) (fun p s' =>
      Given t s (l₁ ++ (a, n) :: l₂) al size p s' ∧ p % al = 0) E s := by
  have hb := h.between
  have hbound := hb.bound
  have hpos := h.block_large.1
  have hfit : alignGap a al + need ≤ n := hfit
  have ha : a + allocHeader < 2 ^ 64 := by
    unfold allocHeader
    unfold minSize at hneed
    omega
  obtain ⟨hgpos, hgle, hmod⟩ := alignGap_spec hal (by omega) ha
  generalize hgap : alignGap a al = g at *
  have hk : w64 (need + g) = need + g := w64_of_lt (by omega)
  have hkn : need + g ≤ n := by omega
  have htaken := takenOf_le hkn
  have hle := le_takenOf hkn
  have hag : w64 (a + g) = a + g := w64_of_lt (by omega)
  have hptr : w64 (a + allocHeader + g) = a + g + allocHeader := by
    rw [Nat.add_right_comm]
    refine w64_of_lt ?_
    unfold allocHeader at hlen ⊢
    omega
  have hmod' : (a + g + allocHeader) % al = 0 := by
    rw [Nat.add_right_comm]
    exact hmod
  have hprev : prevOf s.mem a = last 0 l₁ := h.header.prev
  have hnext : nextOf s.mem a = first l₂ 0 := h.header.next
  rw [alignBlock, wp_bind, wp_read, wp_bind, wp_read, hgap, hk, hprev, hnext]
  refine wp_seq (wp_split h (Nat.le_add_right_of_le hneed) hkn) ?_
  rintro b s₁ ⟨rfl, hs⟩
  have hself : b = b := rfl
  have h24 : g + 24 ≤ takenOf n (need + g) := by
    unfold minSize at hneed
    omega
  have hmem : ∀ y, y < b ∨ b + takenOf n (need + g) ≤ y →
      alignMem s₁.mem b g (takenOf n (need + g)) y = s₁.mem y := fun y hy => alignMem_outside h24 hy
  refine wp_assert_then hself ?_
  rw [wp_bind, wp_read, hs.size, hag, hptr]
  simp only [wp_bind, wp_setSize, wp_setMagic, wp_setStart, withMem_mem, withMem_withMem]
  rw [keepGap, wp_ite]
  split
  next hsmall =>
    have hx := area_align (d := s₁.mem) hpos (by omega) (Nat.le_trans hneed (by omega))
      (show g + allocHeader + size ≤ takenOf n (need + g) by omega)
    have hgives := hs.gives hb hap hkn (by omega) hmem hx rfl
    rw [wp_pure]
    refine wp_assert_then hmod' ?_
    exact ⟨Or.inr ⟨_, _, _, rfl, rfl, Or.inl rfl, hgives⟩, hmod'⟩
  next hlarge =>
    have hin := h.block_inside
    have hlist : FreeOk t (s₁.withMem (alignMem s₁.mem b g (takenOf n (need + g))))
        (l₁ ++ (restOf b n (need + g) ++ l₂)) := by
      rw [← List.append_assoc]
      exact hs.list_congr hb hkn hmem
    have hframe : Frame t (l₁ ++ (b, takenOf n (need + g)) :: (restOf b n (need + g) ++ l₂)) s₁
        (s₁.withMem (alignMem s₁.mem b g (takenOf n (need + g)))) :=
      ⟨fun y hy => hmem y (hy _ (List.mem_append_right _ List.mem_cons_self)), fun _ _ => rfl, rfl, rfl, rfl⟩
    have hplace : (s₁.heapInfo t).start ≤ b ∧ b + takenOf n (need + g) ≤ (s₁.heapInfo t).stop := by
      rw [hs.frame.start, hs.frame.stop]
      omega
    refine wp_conseq (wp_freeGap hlist (restOf_cases hb _) (hb.taken hkn) hplace
      (Nat.le_of_not_lt hlarge) hneed (by omega) hlen (magic_alignMem ..)) ?_
    rintro - s₂ ⟨hfree, hframe₂, hx⟩
    have hgives := hs.gives_gap hb hap rfl hkn (by unfold minSize at hneed; omega) hfree
      (hframe.trans hframe₂) hx
    refine wp_assert_then hmod' ?_
    refine ⟨Or.inr ⟨_, _, _, rfl, rfl, ?_, hgives⟩, hmod'⟩
    unfold takenOf
    split
    next hrest =>
      rcases Nat.eq_or_lt_of_le hkn with heq | hlt
      · rw [heq]
        exact Or.inl (Nat.sub_self n)
      · exact Or.inr (hloses (Nat.le_of_not_lt hlarge) (by omega) (by omega))
    next => exact Or.inl (Nat.sub_self _)

/-! ## `tegrabl_memalign` -/

theorem le_of_isSizeAlignmentValid {h : HeapInfo} (hmax : h.maxSize < 2 ^ 64)
    (hvalid : h.isSizeAlignmentValid al size = true) : size + al ≤ h.maxSize := by
  obtain ⟨hsize, hal, hsum, hle, -⟩ := of_decide_eq_true hvalid
  unfold w64 at hsum hle
  omega

/-- The block that is taken is the one that `loses` looks at. -/
theorem loses_of_first (hfit : Fits al (needOf size) (a, n)) (hbefore : ∀ c ∈ l₁, ¬Fits al (needOf size) c)
    (hgap : minSize ≤ alignGap a al) (hlt : alignGap a al + needOf size < n)
    (hle : n ≤ alignGap a al + needOf size + minSize) : loses (l₁ ++ (a, n) :: l₂) al size = true := by
  unfold Fits at hfit hbefore
  have hfind : (l₁ ++ (a, n) :: l₂).find? (fun b => decide (alignGap b.1 al + needOf size ≤ b.2)) = some (a, n) := by
    refine List.find?_eq_some_iff_append.mpr ⟨decide_eq_true hfit, l₁, l₂, rfl, fun c hc => ?_⟩
    rw [Bool.not_eq_true', decide_eq_false_iff_not]
    exact hbefore c hc
  rw [loses, hfind, Option.any_some, decide_eq_true_eq]
  exact ⟨hgap, hlt, hle⟩

theorem wp_memalignGeneric (h : FreeOk t s l) (hap : Apart l) (hal : 0 < al)
    (hvalid : (s.heapInfo t).isSizeAlignmentValid al size = true) (hsum : size + al ≤ (s.heapInfo t).maxSize) :
    wp (tegrablMemalignGeneric t al size) (fun p s' => Given t s l al size p s' ∧ p % al = 0) E s := by
  have hmax := h.maxSize_lt
  unfold minSize at hmax
  have hround := roundUp8_of_lt (show size + 7 < 2 ^ 64 by omega)
  have hneed : w64 (roundUp8 size + allocHeader) = roundUp8 size + allocHeader :=
    w64_of_lt (by unfold allocHeader; omega)
  have hbounds := needOf_bounds (show size + 7 < 2 ^ 64 by omega)
  rw [tegrablMemalignGeneric, wp_bind, wp_info, hneed]
  split
  next hzero => exact ⟨Or.inl ⟨rfl, rfl, Or.inl hzero⟩, Nat.zero_mod al⟩
  next hsome =>
    have hroom : al + needOf size < 2 ^ 64 := by omega
    refine wp_seq (wp_getFreeBlock h hal hroom) ?_
    rintro a s' ⟨rfl, ⟨rfl, hall⟩ | ⟨l₁, n, l₂, rfl, hfit, hbefore⟩⟩
    · rw [if_pos rfl]
      refine ⟨Or.inl ⟨rfl, rfl, Or.inr fun b hb => ?_⟩, Nat.zero_mod al⟩
      have hno : ¬alignGap b.1 al + needOf size ≤ b.2 := hall b hb
      have hgap := alignGap_le hal (by omega) b.1
      omega
    · rw [if_neg (Nat.ne_of_gt h.block_large.1)]
      exact wp_alignBlock h hap hal hroom (minSize_le_needOf size) hbounds.1 hfit fun hgap hlt hle =>
        ⟨hsome, hvalid, loses_of_first hfit hbefore hgap hlt hle⟩

/-- `tegrabl_memalign` gives an aligned area if a free block is large enough. -/
theorem wp_memalignIn (h : FreeOk t s l) (hap : Apart l) (hal : 0 < al) (hlt : al < 2 ^ 64)
    (hsize : size < 2 ^ 64) :
    wp (memalignIn t al size) (fun p s' => Given t s l al size p s' ∧ p % al = 0) E s := by
  have hmax := h.maxSize_lt
  rw [memalignIn, wp_bind, wp_info]
  split
  next hvalid =>
    exact wp_memalignGeneric h hap hal hvalid (le_of_isSizeAlignmentValid (by omega) hvalid)
  next hno =>
    refine ⟨Or.inl ⟨rfl, rfl, Or.inr fun b hb => ?_⟩, Nat.zero_mod al⟩
    have hle := Nat.le_trans (le_total hb) h.total_le
    refine Decidable.byContradiction fun hge => hno (decide_eq_true ?_)
    have hw : w64 (size + al) = size + al := w64_of_lt (by omega)
    rw [hw]
    omega

end TX2SecureUart.Malloc
