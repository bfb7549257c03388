/-
# `Malloc.Split` — taking a block out of the list

`FreeOk` says that the free blocks of a heap are a list that stands in its memory, and that the
fields of the heap are those of the list.  `tegrabl_heap_split_block` takes a block that is in the
list, and leaves the rest of it in the list if the rest is large enough.  Its checks pass.
-/
import TX2SecureUart.Malloc.Edits

namespace TX2SecureUart.Malloc

open Prog ByteStore WordStore

variable {t u : HeapType} {s s' s₁ s₂ : Heaps} {l l₁ l₂ r : List Block} {a n k g p v : Nat} {b c : Block}
  {E : Stop → Heaps → Prop}

/-! ## The rules of the primitive programs -/

def Heaps.withMem (s : Heaps) (d : Nat → UInt8) : Heaps := { s with mem := d }

def Heaps.withInfo (s : Heaps) (t : HeapType) (h : HeapInfo) : Heaps :=
  { s with heapInfo := Function.update s.heapInfo t h }

/-- The heap with its list and its free bytes changed -/
def HeapInfo.withList (h : HeapInfo) (list size : Nat) : HeapInfo :=
  { h with freeList := list, freeSize := size }

/-- The head of a list whose block `a` becomes `v` -/
def newHead (a v head : Nat) : Nat := if a = head then v else head

-- The states are taken apart, so that `simp` rewrites with these and does not compare states.

@[simp] theorem withMem_mem (s : Heaps) (d : Nat → UInt8) : (s.withMem d).mem = d := by
  cases s
  rfl

@[simp] theorem withMem_withMem (s : Heaps) (d e : Nat → UInt8) : (s.withMem d).withMem e = s.withMem e := by
  cases s
  rfl

@[simp] theorem withInfo_withMem (s : Heaps) (d : Nat → UInt8) (t : HeapType) (h : HeapInfo) :
    (s.withMem d).withInfo t h = (s.withInfo t h).withMem d := by
  cases s
  rfl

@[simp] theorem withInfo_withInfo (s : Heaps) (t : HeapType) (h h' : HeapInfo) :
    (s.withInfo t h).withInfo t h' = s.withInfo t h' := by
  simp only [Heaps.withInfo, Function.update_idem]

@[simp] theorem withMem_heapInfo (s : Heaps) (d : Nat → UInt8) : (s.withMem d).heapInfo = s.heapInfo := by
  cases s
  rfl

@[simp] theorem withInfo_mem (s : Heaps) (t : HeapType) (h : HeapInfo) : (s.withInfo t h).mem = s.mem := by
  cases s
  rfl

@[simp] theorem withInfo_self (s : Heaps) (t : HeapType) (h : HeapInfo) :
    (s.withInfo t h).heapInfo t = h := Function.update_self ..

theorem withInfo_other (s : Heaps) (h : HeapInfo) (hne : u ≠ t) :
    (s.withInfo t h).heapInfo u = s.heapInfo u := Function.update_of_ne hne ..

section Rules

variable {Q : Nat → Heaps → Prop} {R : Unit → Heaps → Prop} {I : HeapInfo → Heaps → Prop}

@[simp] theorem wp_read {f : (Nat → UInt8) → Nat → Nat} : wp (read f p) Q E s ↔ Q (f s.mem p) s := Iff.rfl

@[simp] theorem wp_write : wp (write n p v) R E s ↔ R () (s.withMem (setWord s.mem n p v)) := Iff.rfl

@[simp] theorem wp_setMagic : wp (setMagic p v) R E s ↔ R () (s.withMem (setWord s.mem 4 p v)) := Iff.rfl

@[simp] theorem wp_setSize :
    wp (setSize p v) R E s ↔ R () (s.withMem (setWord s.mem 8 (p + 8) v)) := Iff.rfl

@[simp] theorem wp_setPrev :
    wp (setPrev p v) R E s ↔ R () (s.withMem (setWord s.mem 8 (p + 16) v)) := Iff.rfl

@[simp] theorem wp_setStart :
    wp (setStart p v) R E s ↔ R () (s.withMem (setWord s.mem 8 (p + 16) v)) := Iff.rfl

@[simp] theorem wp_setNext :
    wp (setNext p v) R E s ↔ R () (s.withMem (setWord s.mem 8 (p + 24) v)) := Iff.rfl

@[simp] theorem wp_putPrev : wp (putPrev p v) R E s ↔ R () (s.withMem (putPrevMem s.mem p v)) := by
  unfold putPrev putPrevMem
  split <;> rfl

@[simp] theorem wp_putNext : wp (putNext p v) R E s ↔ R () (s.withMem (putNextMem s.mem p v)) := by
  unfold putNext putNextMem
  split <;> rfl

@[simp] theorem wp_info : wp (info t) I E s ↔ I (s.heapInfo t) s := Iff.rfl

@[simp] theorem wp_modifyInfo {f : HeapInfo → HeapInfo} :
    wp (modifyInfo t f) R E s ↔ R () (s.withInfo t (f (s.heapInfo t))) := Iff.rfl

@[simp] theorem wp_moveHead : wp (moveHead t a v) R E s ↔ R () (s.withInfo t ((s.heapInfo t).withList
    (newHead a v (s.heapInfo t).freeList) (s.heapInfo t).freeSize)) := by
  rw [moveHead, wp_modifyInfo, newHead]
  split <;> rfl

/-- The head of the list after a block came into it -/
def headWith (a head : Nat) : Nat := if head = 0 ∨ a < head then a else head

@[simp] theorem wp_updateFreeListHead : wp (updateFreeListHead t a) R E s ↔ R () (s.withInfo t
    ((s.heapInfo t).withList (headWith a (s.heapInfo t).freeList) (s.heapInfo t).freeSize)) := by
  rw [updateFreeListHead, wp_modifyInfo, headWith]
  split <;> rfl

theorem wp_hangIf {P : Prop} [Decidable P] (h : ¬P) (hR : R () s) : wp (hangIf P) R E s := by
  rw [hangIf, if_neg h]
  exact hR

theorem wp_assert {P : Prop} [Decidable P] (h : P) (hR : R () s) : wp (assert P) R E s := by
  rw [assert, if_pos h]
  exact hR

variable {α : Type} {m : HeapM α} {S : α → Heaps → Prop}

/-- A check that passes, and what comes after it -/
theorem wp_hangIf_then {P : Prop} [Decidable P] (h : ¬P) (hm : wp m S E s) :
    wp (do hangIf P; m) S E s :=
  (wp_bind _ _).mpr (wp_hangIf h hm)

theorem wp_assert_then {P : Prop} [Decidable P] (h : P) (hm : wp m S E s) :
    wp (do assert P; m) S E s :=
  (wp_bind _ _).mpr (wp_assert h hm)

end Rules

/-! ## The free blocks of a heap -/

/-- The bytes of the blocks -/
def total : List Block → Nat
  | [] => 0
  | b :: l => b.2 + total l

theorem total_append (l₁ l₂ : List Block) : total (l₁ ++ l₂) = total l₁ + total l₂ := by
  induction l₁ with
  | nil => rw [List.nil_append, total, Nat.zero_add]
  | cons b l₁ ih => rw [List.cons_append, total, ih, total, Nat.add_assoc]

theorem le_total (hb : b ∈ l) : b.2 ≤ total l := by
  obtain ⟨l₁, l₂, rfl⟩ := List.append_of_mem hb
  rw [total_append, total]
  omega

/-- The blocks are in the range. -/
def Inside (l : List Block) (lo hi : Nat) : Prop := ∀ b ∈ l, lo ≤ b.1 ∧ b.1 + b.2 ≤ hi

theorem Inside.sub {lo hi : Nat} (h : Inside l lo hi)
    (hsub : ∀ b ∈ l₁, ∃ c ∈ l, c.1 ≤ b.1 ∧ b.1 + b.2 ≤ c.1 + c.2) : Inside l₁ lo hi := by
  intro b hb
  obtain ⟨c, hc, hle, hge⟩ := hsub b hb
  have hin := h c hc
  omega

/-- Blocks that are apart have no more bytes than the range they are in. -/
theorem Spaced.total_le {lo hi : Nat} (h : Spaced l) (hin : Inside l lo hi) (hle : lo ≤ hi) :
    lo + total l ≤ hi := by
  induction l generalizing lo with
  | nil => exact hle
  | cons b l ih =>
      obtain ⟨hfirst, hrest⟩ := List.pairwise_cons.mp h.sorted
      have hb := hin b List.mem_cons_self
      have hspaced : Spaced l :=
        ⟨hrest, fun c hc => h.large c (List.mem_cons_of_mem b hc), fun c hc =>
          h.small c (List.mem_cons_of_mem b hc)⟩
      have hl := ih hspaced (fun c hc => ⟨hfirst c hc, (hin c (List.mem_cons_of_mem b hc)).2⟩) hb.2
      rw [total]
      omega

theorem Spaced.length_le (h : Spaced l) : l.length ≤ total l := by
  induction l with
  | nil => exact Nat.le_refl 0
  | cons b l ih =>
      have hspaced : Spaced l :=
        ⟨(List.pairwise_cons.mp h.sorted).2, fun c hc => h.large c (List.mem_cons_of_mem b hc), fun c hc =>
          h.small c (List.mem_cons_of_mem b hc)⟩
      have hlarge := (h.large b List.mem_cons_self).2
      have hl := ih hspaced
      unfold minSize at hlarge
      rw [List.length_cons, total]
      omega

/-- The list of free blocks is `l`. -/
structure FreeOk (t : HeapType) (s : Heaps) (l : List Block) : Prop where
  chain : Chain s.mem 0 l 0
  spaced : Spaced l
  inside : Inside l (s.heapInfo t).start (s.heapInfo t).stop
  head : (s.heapInfo t).freeList = first l 0
  size : (s.heapInfo t).freeSize = total l
  room : (s.heapInfo t).stop = (s.heapInfo t).start + (s.heapInfo t).maxSize
  low : minSize ≤ (s.heapInfo t).start
  bound : (s.heapInfo t).stop < 2 ^ 64

/-- A program on the heap of type `t` changes memory only in the blocks, and of the heap what is about
the list. -/
structure Frame (t : HeapType) (l : List Block) (s s' : Heaps) : Prop where
  keeps : Keeps l s.mem s'.mem
  others : ∀ u, u ≠ t → s'.heapInfo u = s.heapInfo u
  start : (s'.heapInfo t).start = (s.heapInfo t).start
  stop : (s'.heapInfo t).stop = (s.heapInfo t).stop
  maxSize : (s'.heapInfo t).maxSize = (s.heapInfo t).maxSize

theorem Frame.refl (t : HeapType) (l : List Block) (s : Heaps) : Frame t l s s :=
  ⟨Keeps.refl l s.mem, fun _ _ => rfl, rfl, rfl, rfl⟩

theorem Frame.trans (h : Frame t l s s') (h' : Frame t l s' s₁) : Frame t l s s₁ :=
  ⟨h.keeps.trans h'.keeps, fun u hu => (h'.others u hu).trans (h.others u hu), h'.start.trans h.start,
    h'.stop.trans h.stop, h'.maxSize.trans h.maxSize⟩

theorem Frame.mono (h : Frame t l₁ s s') (hsub : ∀ x, Outside l₂ x → Outside l₁ x) : Frame t l₂ s s' :=
  { h with keeps := h.keeps.mono hsub }

/-- Stores, and new values of the fields of the list -/
theorem Frame.withList {d : Nat → UInt8} {list size : Nat} (h : Keeps l s.mem d) :
    Frame t l s ((s.withInfo t ((s.heapInfo t).withList list size)).withMem d) := by
  refine ⟨h, fun u hu => withInfo_other s _ hu, ?_, ?_, ?_⟩ <;>
    rw [withMem_heapInfo, withInfo_self, HeapInfo.withList]

namespace FreeOk

theorem le_stop (h : FreeOk t s l) : (s.heapInfo t).start ≤ (s.heapInfo t).stop := by
  rw [h.room]
  exact Nat.le_add_right ..

theorem total_le (h : FreeOk t s l) : total l ≤ (s.heapInfo t).maxSize := by
  have htotal := h.spaced.total_le h.inside h.le_stop
  rw [h.room] at htotal
  omega

/-- There are fewer blocks than a loop has fuel. -/
theorem length_lt (h : FreeOk t s l) : l.length < (s.heapInfo t).maxSize + 1 :=
  Nat.lt_succ_of_le (Nat.le_trans h.spaced.length_le h.total_le)

theorem header (h : FreeOk t s (l₁ ++ (a, n) :: l₂)) : FreeAt s.mem (a, n) (last 0 l₁) (first l₂ 0) :=
  (chain_append.mp h.chain).2.1

/-- The block has its place between the others. -/
theorem between (h : FreeOk t s (l₁ ++ (a, n) :: l₂)) : Between l₁ a n l₂ := h.spaced.between

theorem block_inside (h : FreeOk t s (l₁ ++ (a, n) :: l₂)) :
    (s.heapInfo t).start ≤ a ∧ a + n ≤ (s.heapInfo t).stop :=
  h.inside (a, n) (List.mem_append_right _ List.mem_cons_self)

theorem block_large (h : FreeOk t s (l₁ ++ (a, n) :: l₂)) : 0 < a ∧ minSize ≤ n :=
  h.spaced.large (a, n) (List.mem_append_right _ List.mem_cons_self)

/-- The list stands where memory is as it was. -/
theorem congr (h : FreeOk t s l) (hinfo : s'.heapInfo t = s.heapInfo t)
    (hmem : ∀ b ∈ l, Same s.mem s'.mem b.1 minSize) : FreeOk t s' l where
  chain := h.chain.congr hmem
  spaced := h.spaced
  inside := by
    rw [hinfo]
    exact h.inside
  head := by
    rw [hinfo]
    exact h.head
  size := by
    rw [hinfo]
    exact h.size
  room := by
    rw [hinfo]
    exact h.room
  low := by
    rw [hinfo]
    exact h.low
  bound := by
    rw [hinfo]
    exact h.bound

end FreeOk

/-! ## A new block -/

/-- A block in front of the head, or behind it -/
theorem headWith_first (h : Spaced (l₁ ++ (a, n) :: l₂)) :
    headWith a (first (l₁ ++ l₂) 0) = first (l₁ ++ (a, n) :: l₂) 0 := by
  have hb := h.between
  cases l₁ with
  | nil =>
      refine if_pos ?_
      have hlarge := (h.large (a, n) List.mem_cons_self).2
      rcases hb.le_first with hz | hle
      · exact Or.inl hz
      · refine Or.inr ?_
        unfold minSize at hlarge
        show a < first l₂ 0
        omega
  | cons c l₁ =>
      refine if_neg ?_
      have hlarge := h.large c List.mem_cons_self
      have hbefore := hb.before c List.mem_cons_self
      show ¬(c.1 = 0 ∨ a < c.1)
      omega

/-- The memory and the fields of a heap that has one block more -/
theorem FreeOk.insert (h : FreeOk t s (l₁ ++ l₂)) {d : Nat → UInt8} (hb : Between l₁ a n l₂)
    (hg : minSize ≤ g) (hgn : g ≤ n) (hin : (s.heapInfo t).start ≤ a ∧ a + n ≤ (s.heapInfo t).stop)
    (hchain : Chain d 0 (l₁ ++ (a, g) :: l₂) 0) :
    FreeOk t ((s.withInfo t ((s.heapInfo t).withList (first (l₁ ++ (a, g) :: l₂) 0)
      (w64 ((s.heapInfo t).freeSize + g)))).withMem d) (l₁ ++ (a, g) :: l₂) := by
  have hspaced : Spaced (l₁ ++ (a, g) :: l₂) := hb.spaced 0 hg (by omega)
  have hinside : Inside (l₁ ++ (a, g) :: l₂) (s.heapInfo t).start (s.heapInfo t).stop := by
    intro b hbm
    rcases List.mem_append.mp hbm with hbm | hbm
    · exact h.inside b (List.mem_append_left _ hbm)
    · rcases List.mem_cons.mp hbm with rfl | hbm
      · exact ⟨hin.1, Nat.le_trans (Nat.add_le_add_left hgn a) hin.2⟩
      · exact h.inside b (List.mem_append_right _ hbm)
  have htotal := hspaced.total_le hinside h.le_stop
  have hsize : w64 ((s.heapInfo t).freeSize + g) = total (l₁ ++ (a, g) :: l₂) := by
    have hbound := h.bound
    rw [total_append, total] at htotal ⊢
    rw [h.size, total_append, w64_of_lt (by omega)]
    omega
  refine ⟨hchain, hspaced, ?_, ?_, ?_, ?_, ?_, ?_⟩ <;>
    rw [withMem_heapInfo, withInfo_self, HeapInfo.withList]
  · exact hinside
  · exact hsize
  · exact h.room
  · exact h.low
  · exact h.bound

/-! ## The checks -/

theorem wp_checkNext {R : Unit → Heaps → Prop} (h : Chain s.mem 0 l a) (hR : R () s) :
    wp (checkNext (last 0 l) a) R E s := by
  rw [checkNext, wp_ite]
  split
  · exact hR
  next hne =>
    have hnext : nextOf s.mem (last 0 l) = a := by
      refine h.next_last.resolve_left ?_
      rintro rfl
      exact hne rfl
    rw [wp_bind, wp_read]
    exact wp_hangIf (not_not_intro hnext) hR

theorem wp_checkPrev {R : Unit → Heaps → Prop} (h : Chain s.mem a l 0) (hR : R () s) :
    wp (checkPrev (first l 0) a) R E s := by
  rw [checkPrev, wp_ite]
  split
  · exact hR
  next hne =>
    have hprev : prevOf s.mem (first l 0) = a := by
      refine h.prev_first.resolve_left ?_
      rintro rfl
      exact hne rfl
    rw [wp_bind, wp_read]
    exact wp_hangIf (not_not_intro hprev) hR

/-- A block of the list passes the checks. -/
theorem wp_checkLink {R : Unit → Heaps → Prop} (h : FreeOk t s (l₁ ++ (a, n) :: l₂)) (hR : R () s) :
    wp (checkLink a (last 0 l₁) (first l₂ 0) t) R E s := by
  have hsize : sizeOf s.mem a = n := h.header.size
  have hin := h.block_inside
  have hbound := h.bound
  have hend : w64 (a + n) = a + n := w64_of_lt (Nat.lt_of_le_of_lt hin.2 hbound)
  obtain ⟨hleft, -, hright⟩ := chain_append.mp h.chain
  rw [checkLink, wp_bind, wp_read, hsize, wp_bind, wp_info, hend]
  refine wp_hangIf_then (Nat.not_lt.mpr (Nat.le_add_right a n)) (wp_hangIf_then (by omega) ?_)
  rw [wp_bind]
  exact wp_checkNext hleft (wp_checkPrev hright hR)

/-! ## Splitting -/

theorem Spaced.of_append (h : Spaced (l₁ ++ l₂)) : Spaced l₁ ∧ Spaced l₂ := by
  obtain ⟨hleft, hright, -⟩ := List.pairwise_append.mp h.sorted
  exact
    ⟨⟨hleft, fun b hb => h.large b (List.mem_append_left _ hb), fun b hb =>
        h.small b (List.mem_append_left _ hb)⟩,
      ⟨hright, fun b hb => h.large b (List.mem_append_right _ hb), fun b hb =>
        h.small b (List.mem_append_right _ hb)⟩⟩

/-- What is left of a block of `n` bytes if `k` of them are taken -/
def restOf (a n k : Nat) : List Block := if n - k ≤ minSize then [] else [(a + k, n - k)]

/-- What is taken of it -/
def takenOf (n k : Nat) : Nat := if n - k ≤ minSize then n else k

theorem le_takenOf (hk : k ≤ n) : k ≤ takenOf n k := by
  unfold takenOf
  split
  · exact hk
  · exact Nat.le_refl k

theorem takenOf_le (hk : k ≤ n) : takenOf n k ≤ n := by
  unfold takenOf
  split
  · exact Nat.le_refl n
  · exact hk

theorem total_restOf (hk : k ≤ n) (a : Nat) : takenOf n k + total (restOf a n k) = n := by
  unfold takenOf restOf
  split
  · rfl
  · show k + (n - k + 0) = n
    omega

/-- The head of the list after a block of it was replaced -/
theorem newHead_first (h : Spaced (l₁ ++ (a, n) :: l₂)) :
    newHead a (first r 0) (first (l₁ ++ (a, n) :: l₂) 0) = first (l₁ ++ r) 0 := by
  cases l₁ with
  | nil => exact if_pos rfl
  | cons b l₁ =>
      refine if_neg ?_
      have hb := (List.pairwise_cons.mp h.sorted).1 (a, n) (List.mem_append_right _ List.mem_cons_self)
      have hlarge := (h.large b List.mem_cons_self).2
      have hb' : b.1 + b.2 ≤ a := hb
      show a ≠ b.1
      unfold minSize at hlarge
      omega

/-- What a block and the list are after the split -/
structure Split (t : HeapType) (s s' : Heaps) (l₁ l₂ : List Block) (a n k : Nat) : Prop where
  list : FreeOk t s' (l₁ ++ restOf a n k ++ l₂)
  frame : Frame t (l₁ ++ (a, n) :: l₂) s s'
  size : sizeOf s'.mem a = takenOf n k

/-- The memory and the fields that a split leaves -/
theorem FreeOk.split (h : FreeOk t s (l₁ ++ (a, n) :: l₂)) {d : Nat → UInt8} (hk : k ≤ n)
    (hchain : Chain d 0 (l₁ ++ restOf a n k ++ l₂) 0) (hspaced : Spaced (l₁ ++ restOf a n k ++ l₂))
    (hkeeps : Keeps (l₁ ++ (a, n) :: l₂) s.mem d) (hsize : sizeOf d a = takenOf n k) :
    Split t s ((s.withInfo t ((s.heapInfo t).withList (first (l₁ ++ restOf a n k ++ l₂) 0)
      ((s.heapInfo t).freeSize - takenOf n k))).withMem d) l₁ l₂ a n k := by
  have hframe : Frame t (l₁ ++ (a, n) :: l₂) s ((s.withInfo t ((s.heapInfo t).withList
      (first (l₁ ++ restOf a n k ++ l₂) 0) ((s.heapInfo t).freeSize - takenOf n k))).withMem d) :=
    Frame.withList hkeeps
  refine ⟨⟨hchain, hspaced, ?_, ?_, ?_, ?_, ?_, ?_⟩, hframe, hsize⟩
  · rw [hframe.start, hframe.stop]
    refine h.inside.sub ?_
    intro b hb
    rw [List.append_assoc] at hb
    rcases List.mem_append.mp hb with hb | hb
    · exact ⟨b, List.mem_append_left _ hb, Nat.le_refl _, Nat.le_refl _⟩
    · rcases List.mem_append.mp hb with hb | hb
      · refine ⟨(a, n), List.mem_append_right _ List.mem_cons_self, ?_⟩
        unfold restOf at hb
        split at hb
        · cases hb
        · rw [List.mem_singleton.mp hb]
          refine ⟨Nat.le_add_right a k, ?_⟩
          show a + k + (n - k) ≤ a + n
          omega
      · exact ⟨b, List.mem_append_right _ (List.mem_cons_of_mem _ hb), Nat.le_refl _, Nat.le_refl _⟩
  · rw [withMem_heapInfo, withInfo_self, HeapInfo.withList]
  · rw [withMem_heapInfo, withInfo_self, HeapInfo.withList]
    have hrest := total_restOf hk a
    show (s.heapInfo t).freeSize - takenOf n k = total (l₁ ++ restOf a n k ++ l₂)
    rw [h.size, total_append, total_append, total_append, total]
    omega
  · rw [hframe.start, hframe.stop, hframe.maxSize]
    exact h.room
  · rw [hframe.start]
    exact h.low
  · rw [hframe.stop]
    exact h.bound

/-- The rest of a block is a block, or there is none. -/
theorem Between.spaced_rest (h : Between l₁ a n l₂) (hk : k ≤ n) : Spaced (l₁ ++ restOf a n k ++ l₂) := by
  unfold restOf
  split
  · rw [List.append_nil]
    exact h.spaced_none
  next hrest =>
    rw [List.append_assoc]
    exact h.spaced k (Nat.le_of_not_le hrest) (Nat.le_of_eq (Nat.add_sub_cancel' hk))

theorem FreeOk.sub_size (h : FreeOk t s (l₁ ++ (a, n) :: l₂)) {m : Nat} (hm : m ≤ n) :
    sub64 (s.heapInfo t).freeSize m = (s.heapInfo t).freeSize - m := by
  have htotal := h.total_le
  have hroom := h.room
  have hbound := h.bound
  refine sub64_of_le ?_ ?_
  · rw [h.size, total_append, total]
    omega
  · rw [h.size]
    omega

theorem FreeOk.moved (h : FreeOk t s (l₁ ++ (a, n) :: l₂)) :
    newHead a (first r 0) (s.heapInfo t).freeList = first (l₁ ++ r) 0 := by
  rw [h.head]
  exact newHead_first h.spaced

theorem wp_takeWhole (h : FreeOk t s (l₁ ++ (a, n) :: l₂)) (hk : k ≤ n) (hrest : n - k ≤ minSize) :
    wp (tegrablHeapSplitBlock t a k) (fun b s' => b = a ∧ Split t s s' l₁ l₂ a n k) E s := by
  have hb := h.between
  have hlarge := h.block_large
  have hsize : sizeOf s.mem a = n := h.header.size
  have hprev : prevOf s.mem a = last 0 l₁ := h.header.prev
  have hnext : nextOf s.mem a = first l₂ 0 := h.header.next
  have hnone : restOf a n k = [] := if_pos hrest
  have hall : takenOf n k = n := if_pos hrest
  have hbound : n < 2 ^ 64 := Nat.lt_of_le_of_lt (Nat.le_add_left n a) hb.bound
  have htaken : sizeOf (takeWholeMem s.mem a (last 0 l₁) (first l₂ 0)) a = n :=
    (size_takeWhole hb hlarge.2).trans hsize
  have hsplit := h.split (d := takeWholeMem s.mem a (last 0 l₁) (first l₂ 0)) hk
    (by rw [hnone, List.append_nil]; exact chain_takeWhole hb hlarge.2 h.chain) (hb.spaced_rest hk)
    (keeps_takeWhole hb hlarge.2) (htaken.trans hall.symm)
  rw [hnone, List.append_nil, hall] at hsplit
  rw [tegrablHeapSplitBlock]
  refine wp_assert_then (Nat.ne_of_gt hlarge.1) ?_
  simp only [wp_bind, wp_read, hsize, hprev, hnext]
  refine wp_checkLink h ?_
  rw [sub64_of_le hk hbound, take, if_pos hrest, takeWhole]
  simp only [wp_bind, wp_setPrev, wp_setNext, wp_moveHead, wp_modifyInfo, wp_putPrev, wp_putNext, wp_read,
    wp_pure, withMem_mem, withMem_withMem, withInfo_withMem, withMem_heapInfo, withInfo_self, withInfo_withInfo]
  rw [← h.sub_size (Nat.le_refl n)] at hsplit
  unfold takeWholeMem setLinks at htaken hsplit
  rw [h.moved, htaken]
  exact ⟨trivial, hsplit⟩

theorem wp_takePart (h : FreeOk t s (l₁ ++ (a, n) :: l₂)) (hk : minSize ≤ k) (hrest : ¬n - k ≤ minSize) :
    wp (tegrablHeapSplitBlock t a k) (fun b s' => b = a ∧ Split t s s' l₁ l₂ a n k) E s := by
  have hb := h.between
  have hlarge := h.block_large
  have hkn : k ≤ n := by omega
  have hge : minSize ≤ n - k := by omega
  have hsize : sizeOf s.mem a = n := h.header.size
  have hprev : prevOf s.mem a = last 0 l₁ := h.header.prev
  have hnext : nextOf s.mem a = first l₂ 0 := h.header.next
  have hsome : restOf a n k = [(a + k, n - k)] := if_neg hrest
  have hpart : takenOf n k = k := if_neg hrest
  have hbound : n < 2 ^ 64 := Nat.lt_of_le_of_lt (Nat.le_add_left n a) hb.bound
  have hnew : w64 (a + k) = a + k :=
    w64_of_lt (Nat.lt_of_le_of_lt (Nat.add_le_add_left hkn a) hb.bound)
  have htaken : sizeOf (takePartMem s.mem a k (n - k) (last 0 l₁) (first l₂ 0)) a = k :=
    size_takePart (Nat.lt_of_le_of_lt hkn hbound)
  have hchain := chain_takePart hb hk hge h.chain
  have hsplit := h.split (d := takePartMem s.mem a k (n - k) (last 0 l₁) (first l₂ 0)) hkn
    (by rw [hsome, List.append_assoc]; exact hchain) (hb.spaced_rest hkn)
    (keeps_takePart hb hk hge) (htaken.trans hpart.symm)
  have hmoved : newHead a (a + k) (s.heapInfo t).freeList = first (l₁ ++ (a + k, n - k) :: l₂) 0 :=
    h.moved (r := (a + k, n - k) :: l₂)
  have hfree : k ≤ (s.heapInfo t).freeSize := by
    rw [h.size, total_append, total]
    omega
  rw [hsome, List.append_assoc, List.singleton_append, hpart] at hsplit
  rw [tegrablHeapSplitBlock]
  refine wp_assert_then (Nat.ne_of_gt hlarge.1) ?_
  simp only [wp_bind, wp_read, hsize, hprev, hnext]
  refine wp_checkLink h ?_
  rw [sub64_of_le hkn hbound, take, if_neg hrest, takePart, hnew]
  simp only [wp_bind, wp_setPrev, wp_setNext, wp_setSize, wp_setMagic, wp_putPrev, wp_putNext, wp_info,
    withMem_mem, withMem_withMem]
  refine wp_hangIf (Nat.not_lt.mpr hfree) ?_
  simp only [wp_bind, wp_moveHead, wp_modifyInfo, wp_read, wp_pure, withMem_mem, withInfo_withMem,
    withMem_heapInfo, withInfo_self, withInfo_withInfo]
  rw [← h.sub_size hkn] at hsplit
  unfold takePartMem linkRestMem setLinks at htaken hsplit
  rw [hmoved, htaken]
  exact ⟨trivial, hsplit⟩

/-- `tegrabl_heap_split_block` on a block of the list -/
theorem wp_split (h : FreeOk t s (l₁ ++ (a, n) :: l₂)) (hk : minSize ≤ k) (hkn : k ≤ n) :
    wp (tegrablHeapSplitBlock t a k) (fun b s' => b = a ∧ Split t s s' l₁ l₂ a n k) E s := by
  by_cases hrest : n - k ≤ minSize
  · exact wp_takeWhole h hkn hrest
  · exact wp_takePart h hk hrest

end TX2SecureUart.Malloc
