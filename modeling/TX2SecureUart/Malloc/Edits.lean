/-
# `Malloc.Edits` — what the operations store in the list

Each operation of the heap stores in the headers of one place of the list, in the order of the
source: a block is taken out, cut short, put in, or joined with the next one.  The memory behind
each of them is a function of the memory before; here is what it does to the chain, and that
nothing outside the blocks changes.
-/
import TX2SecureUart.Malloc.FreeList

namespace TX2SecureUart.Malloc

open Prog ByteStore WordStore

variable {d e f : Nat → UInt8} {p q v a n k w : Nat} {l l₁ l₂ : List Block} {b c : Block}

/-! ## What is kept -/

/-- The byte is in none of the blocks. -/
def Outside (l : List Block) (x : Nat) : Prop := ∀ b ∈ l, x < b.1 ∨ b.1 + b.2 ≤ x

/-- What is outside the blocks is as it was. -/
def Keeps (l : List Block) (d e : Nat → UInt8) : Prop := ∀ x, Outside l x → e x = d x

theorem Keeps.trans (h : Keeps l d e) (h' : Keeps l e f) : Keeps l d f :=
  fun x hx => (h' x hx).trans (h x hx)

theorem Keeps.refl (l : List Block) (d : Nat → UInt8) : Keeps l d d := fun _ _ => rfl

theorem Keeps.mono (h : Keeps l₁ d e) (hsub : ∀ x, Outside l₂ x → Outside l₁ x) : Keeps l₂ d e :=
  fun x hx => h x (hsub x hx)

theorem keeps_setWord (hb : b ∈ l) (hle : b.1 ≤ w) (hfit : w + k ≤ b.1 + b.2) :
    Keeps l d (setWord d k w v) := by
  intro x hx
  have := hx b hb
  exact setWord_outside (by omega)

/-- A link of the block before the place -/
theorem keeps_putNext (hsp : Spaced l₁) (hsub : ∀ b ∈ l₁, b ∈ l) : Keeps l d (putNextMem d (last 0 l₁) v) := by
  unfold putNextMem
  split
  · exact fun _ _ => rfl
  next hne =>
    rcases last_mem 0 l₁ with ⟨h0, -⟩ | ⟨b, hb, heq⟩
    · exact absurd h0 hne
    · have hlarge := (hsp.large b hb).2
      unfold minSize at hlarge
      exact keeps_setWord (hsub b hb) (by omega) (by omega)

theorem keeps_putPrev (hsp : Spaced l₂) (hsub : ∀ b ∈ l₂, b ∈ l) : Keeps l d (putPrevMem d (first l₂ 0) v) := by
  unfold putPrevMem
  split
  · exact fun _ _ => rfl
  next hne =>
    rcases first_mem l₂ 0 with ⟨h0, -⟩ | ⟨b, hb, heq⟩
    · exact absurd h0 hne
    · have hlarge := (hsp.large b hb).2
      unfold minSize at hlarge
      exact keeps_setWord (hsub b hb) (by omega) (by omega)

/-- A store in the range leaves the blocks before and behind. -/
theorem Between.left_setWord (h : Between l₁ a n l₂) (hw : a ≤ w) (hb : b ∈ l₁) :
    Same d (setWord d k w v) b.1 minSize :=
  h.same_left hb fun _ hx => setWord_outside (by omega)

theorem Between.right_setWord (h : Between l₁ a n l₂) (hw : w + k ≤ a + n) (hc : c ∈ l₂) :
    Same d (setWord d k w v) c.1 minSize :=
  h.same_right hc fun _ hx => setWord_outside (by omega)

theorem Between.left_putPrev (h : Between l₁ a n l₂) (hb : b ∈ l₁) :
    Same d (putPrevMem d (first l₂ 0) v) b.1 minSize := by
  have hbefore := h.before b hb
  have hlarge := (h.left.large b hb).2
  rcases h.le_first with h0 | hle
  · exact same_putPrev (Or.inl h0)
  · exact same_putPrev (Or.inr (Or.inl (by omega)))

theorem Between.right_putNext (h : Between l₁ a n l₂) (hc : c ∈ l₂) :
    Same d (putNextMem d (last 0 l₁) v) c.1 minSize := by
  have hbehind := h.behind c hc
  rcases h.last_le with h0 | hle
  · exact same_putNext (Or.inl h0)
  · unfold minSize at hle
    exact same_putNext (Or.inr (Or.inr (by omega)))

/-- The links of the blocks around leave the range. -/
theorem Between.mid_putPrev (h : Between l₁ a n l₂) (hw : w + k ≤ a + n) :
    word (putPrevMem d (first l₂ 0) v) k w = word d k w := by
  rcases h.le_first with h0 | hle
  · exact (same_putPrev (Or.inl h0)).word_eq
  · exact (same_putPrev (Or.inr (Or.inl (by omega)))).word_eq

theorem Between.mid_putNext (h : Between l₁ a n l₂) (hw : a ≤ w) :
    word (putNextMem d (last 0 l₁) v) k w = word d k w := by
  rcases h.last_le with h0 | hle
  · exact (same_putNext (Or.inl h0)).word_eq
  · unfold minSize at hle
    exact (same_putNext (Or.inr (Or.inr (by omega)))).word_eq

/-- The links of a header are set. -/
def setLinks (d : Nat → UInt8) (p prev next : Nat) : Nat → UInt8 :=
  setWord (setWord d 8 (p + 16) prev) 8 (p + 24) next

theorem Between.left_setLinks (h : Between l₁ a n l₂) (hw : a ≤ w) (hb : b ∈ l₁) :
    Same d (setLinks d w p q) b.1 minSize :=
  (h.left_setWord (Nat.le_add_right_of_le hw) hb).trans (h.left_setWord (Nat.le_add_right_of_le hw) hb)

theorem Between.right_setLinks (h : Between l₁ a n l₂) (hw : w + minSize ≤ a + n) (hc : c ∈ l₂) :
    Same d (setLinks d w p q) c.1 minSize := by
  unfold minSize at hw
  exact (h.right_setWord (by omega) hc).trans (h.right_setWord (by omega) hc)

theorem prev_setLinks (hp : p < 2 ^ 64) : word (setLinks d w p q) 8 (w + 16) = p :=
  (word_setWord_apart (by omega)).trans (word_setWord hp)

theorem next_setLinks (hq : q < 2 ^ 64) : word (setLinks d w p q) 8 (w + 24) = q := word_setWord hq

theorem setLinks_apart (h : a + k ≤ w + 16 ∨ w + 32 ≤ a) :
    word (setLinks d w p q) k a = word d k a :=
  (word_setWord_apart (by omega)).trans (word_setWord_apart (by omega))

theorem keeps_setLinks (hb : b ∈ l) (hle : b.1 ≤ w) (hfit : w + minSize ≤ b.1 + b.2) :
    Keeps l d (setLinks d w p q) := by
  unfold minSize at hfit
  have hprev := keeps_setWord (d := d) (k := 8) (w := w + 16) (v := p) hb (by omega) (by omega)
  exact hprev.trans (keeps_setWord hb (by omega) (by omega))

/-! ## A block is taken out -/

/-- What `tegrabl_heap_split_block` stores if it takes the whole block -/
def takeWholeMem (d : Nat → UInt8) (block prev next : Nat) : Nat → UInt8 :=
  putNextMem (putPrevMem (setLinks d block 0 0) next prev) prev next

theorem chain_takeWhole (hb : Between l₁ a n l₂) (hn : minSize ≤ n)
    (h : Chain d 0 (l₁ ++ (a, n) :: l₂) 0) :
    Chain (takeWholeMem d a (last 0 l₁) (first l₂ 0)) 0 (l₁ ++ l₂) 0 := by
  obtain ⟨hleft, -, hright⟩ := chain_append.mp h
  refine chain_append.mpr ⟨?_, ?_⟩
  · refine Chain.putNext (q := a) (hleft.congr ?_) hb.left hb.first_lt
    exact fun b hmem => (hb.left_setLinks (Nat.le_refl a) hmem).trans (hb.left_putPrev hmem)
  · have hclear : Chain (setLinks d a 0 0) a l₂ 0 :=
      hright.congr fun c hmem => hb.right_setLinks (Nat.add_le_add_left hn a) hmem
    have hprev := hclear.putPrev hb.right hb.last_lt
    exact hprev.congr fun c hmem => hb.right_putNext hmem

theorem size_takeWhole (hb : Between l₁ a n l₂) (hn : minSize ≤ n) :
    sizeOf (takeWholeMem d a (last 0 l₁) (first l₂ 0)) a = sizeOf d a := by
  unfold minSize at hn
  refine (hb.mid_putNext (by omega)).trans ((hb.mid_putPrev (by omega)).trans ?_)
  exact setLinks_apart (by omega)

theorem keeps_takeWhole (hb : Between l₁ a n l₂) (hn : minSize ≤ n) :
    Keeps (l₁ ++ (a, n) :: l₂) d (takeWholeMem d a (last 0 l₁) (first l₂ 0)) := by
  have hmid : (a, n) ∈ l₁ ++ (a, n) :: l₂ := List.mem_append_right _ List.mem_cons_self
  have hclear : Keeps (l₁ ++ (a, n) :: l₂) d (setLinks d a 0 0) :=
    keeps_setLinks hmid (Nat.le_refl a) (Nat.add_le_add_left hn a)
  have hprev := hclear.trans (keeps_putPrev (v := last 0 l₁) hb.right fun c hc =>
    List.mem_append_right _ (List.mem_cons_of_mem _ hc))
  exact hprev.trans (keeps_putNext hb.left fun b hb => List.mem_append_left _ hb)

/-! ## A block is cut short -/

/-- The links of the rest, and of the blocks around it -/
def linkRestMem (d : Nat → UInt8) (block new prev next : Nat) : Nat → UInt8 :=
  putPrevMem (putNextMem (setLinks (setLinks d block 0 0) new prev next) prev new) next new

/-- What `tegrabl_heap_split_block` stores if it leaves a rest -/
def takePartMem (d : Nat → UInt8) (block size rest prev next : Nat) : Nat → UInt8 :=
  setWord (setWord (setWord (linkRestMem d block (block + size) prev next) 8 (block + size + 8) rest)
    4 (block + size) freeMagic) 8 (block + 8) size

/-- The sizes and the magic are inside the block. -/
theorem takePart_links (hk : minSize ≤ k) (hrest : minSize ≤ n - k) {x : Nat}
    (hx : x < a ∨ a + n ≤ x ∨ a + k + 16 ≤ x) :
    takePartMem d a k (n - k) p q x = linkRestMem d a (a + k) p q x := by
  unfold minSize at hk hrest
  refine (setWord_outside (by omega)).trans ((setWord_outside (by omega)).trans ?_)
  exact setWord_outside (by omega)

theorem chain_takePart (hb : Between l₁ a n l₂) (hk : minSize ≤ k) (hrest : minSize ≤ n - k)
    (h : Chain d 0 (l₁ ++ (a, n) :: l₂) 0) :
    Chain (takePartMem d a k (n - k) (last 0 l₁) (first l₂ 0)) 0 (l₁ ++ (a + k, n - k) :: l₂) 0 := by
  have hbound := hb.bound
  obtain ⟨hleft, -, hright⟩ := chain_append.mp h
  have hnew : a + k < 2 ^ 64 := by unfold minSize at hrest; omega
  have hclear : a + minSize ≤ a + n := by unfold minSize at hrest ⊢; omega
  have hset : a + k + minSize ≤ a + n := by unfold minSize at hrest ⊢; omega
  refine chain_append.mpr ⟨?_, ⟨?_, ?_, ?_, ?_⟩, ?_⟩
  · have hlinks : Chain (setLinks (setLinks d a 0 0) (a + k) (last 0 l₁) (first l₂ 0)) 0 l₁ a :=
      hleft.congr fun b hmem => (hb.left_setLinks (Nat.le_refl a) hmem).trans
        (hb.left_setLinks (Nat.le_add_right a k) hmem)
    have hnext := (hlinks.putNext hb.left hnew).congr fun b hmem => hb.left_putPrev (v := a + k) hmem
    exact hnext.congr fun b hmem => hb.same_left hmem fun x hx => takePart_links hk hrest (Or.inl hx)
  · exact (word_setWord_apart (by unfold minSize at hk; omega)).trans (word_setWord (by decide))
  · refine (word_setWord_apart (by unfold minSize at hk; omega)).trans ?_
    refine (word_setWord_apart (by omega)).trans ?_
    exact word_setWord (by show n - k < 256 ^ 8; omega)
  · have hsame : Same (linkRestMem d a (a + k) (last 0 l₁) (first l₂ 0))
        (takePartMem d a k (n - k) (last 0 l₁) (first l₂ 0)) (a + k + 16) 8 :=
      fun x hx _ => takePart_links hk hrest (Or.inr (Or.inr hx))
    refine hsame.word_eq.trans ((hb.mid_putPrev (by unfold minSize at hset; omega)).trans ?_)
    exact (hb.mid_putNext (by omega)).trans (prev_setLinks hb.last_lt)
  · have hsame : Same (linkRestMem d a (a + k) (last 0 l₁) (first l₂ 0))
        (takePartMem d a k (n - k) (last 0 l₁) (first l₂ 0)) (a + k + 24) 8 :=
      fun x hx _ => takePart_links hk hrest (Or.inr (Or.inr (by omega)))
    refine hsame.word_eq.trans ((hb.mid_putPrev (by unfold minSize at hset; omega)).trans ?_)
    exact (hb.mid_putNext (by omega)).trans (next_setLinks hb.first_lt)
  · have hlinks : Chain (putNextMem (setLinks (setLinks d a 0 0) (a + k) (last 0 l₁) (first l₂ 0))
        (last 0 l₁) (a + k)) a l₂ 0 :=
      hright.congr fun c hmem => ((hb.right_setLinks hclear hmem).trans
        (hb.right_setLinks hset hmem)).trans (hb.right_putNext hmem)
    have hprev := hlinks.putPrev hb.right hnew
    exact hprev.congr fun c hmem => hb.same_right hmem fun x hx =>
      takePart_links hk hrest (Or.inr (Or.inl hx))

theorem size_takePart (hk : k < 2 ^ 64) : sizeOf (takePartMem d a k n p q) a = k := word_setWord hk

theorem keeps_takePart (hb : Between l₁ a n l₂) (hk : minSize ≤ k) (hrest : minSize ≤ n - k) :
    Keeps (l₁ ++ (a, n) :: l₂) d (takePartMem d a k (n - k) (last 0 l₁) (first l₂ 0)) := by
  unfold minSize at hk hrest
  have hmid : (a, n) ∈ l₁ ++ (a, n) :: l₂ := List.mem_append_right _ List.mem_cons_self
  have hset : ∀ {d : Nat → UInt8} {w j v}, a ≤ w → w + j ≤ a + n →
      Keeps (l₁ ++ (a, n) :: l₂) d (setWord d j w v) := fun hle hfit => keeps_setWord hmid hle hfit
  have hblock : Keeps (l₁ ++ (a, n) :: l₂) d (setLinks d a 0 0) :=
    keeps_setLinks hmid (Nat.le_refl a) (by unfold minSize; omega)
  have hrest := hblock.trans (keeps_setLinks (w := a + k) (p := last 0 l₁) (q := first l₂ 0) hmid
    (Nat.le_add_right a k) (by unfold minSize; omega))
  have hnext := hrest.trans (keeps_putNext (v := a + k) hb.left fun b hb => List.mem_append_left _ hb)
  have hprev := hnext.trans (keeps_putPrev (v := a + k) hb.right fun c hc =>
    List.mem_append_right _ (List.mem_cons_of_mem _ hc))
  exact ((hprev.trans (hset (by omega) (by omega))).trans (hset (by omega) (by omega))).trans
    (hset (by omega) (by omega))

/-! ## A block is put in -/

/-- The size of the block, and the link of the block before -/
def putSizeMem (d : Nat → UInt8) (block size prev : Nat) : Nat → UInt8 :=
  putNextMem (setWord d 8 (block + 8) size) prev block

/-- What `tegrabl_generic_free` stores between the blocks -/
def putInMem (d : Nat → UInt8) (block size prev next : Nat) : Nat → UInt8 :=
  putPrevMem (setWord (setLinks (putSizeMem d block size prev) block prev next) 4 block freeMagic) next block

theorem chain_putIn (hb : Between l₁ a n l₂) (hn : minSize ≤ n) (h : Chain d 0 (l₁ ++ l₂) 0) :
    Chain (putInMem d a n (last 0 l₁) (first l₂ 0)) 0 (l₁ ++ (a, n) :: l₂) 0 := by
  have hbound := hb.bound
  obtain ⟨hleft, hright⟩ := chain_append.mp h
  have hfit : a + 32 ≤ a + n := Nat.add_le_add_left hn a
  have ha : a < 2 ^ 64 := by omega
  refine chain_append.mpr ⟨?_, ⟨?_, ?_, ?_, ?_⟩, ?_⟩
  · have hsize : Chain (setWord d 8 (a + 8) n) 0 l₁ (first l₂ 0) :=
      hleft.congr fun b hmem => hb.left_setWord (Nat.le_add_right a 8) hmem
    have hnext : Chain (putSizeMem d a n (last 0 l₁)) 0 l₁ a := hsize.putNext hb.left ha
    have hlinks := hnext.congr fun b hmem =>
      hb.left_setLinks (p := last 0 l₁) (q := first l₂ 0) (Nat.le_refl a) hmem
    have hmagic := hlinks.congr fun b hmem => hb.left_setWord (k := 4) (v := freeMagic) (Nat.le_refl a) hmem
    exact hmagic.congr fun b hmem => hb.left_putPrev hmem
  · exact (hb.mid_putPrev (by omega)).trans (word_setWord (by decide))
  · refine (hb.mid_putPrev (by omega)).trans ((word_setWord_apart (by omega)).trans ?_)
    refine (setLinks_apart (by omega)).trans ((hb.mid_putNext (by omega)).trans ?_)
    exact word_setWord (by show n < 256 ^ 8; omega)
  · refine (hb.mid_putPrev (by omega)).trans ((word_setWord_apart (by omega)).trans ?_)
    exact prev_setLinks hb.last_lt
  · refine (hb.mid_putPrev (by omega)).trans ((word_setWord_apart (by omega)).trans ?_)
    exact next_setLinks hb.first_lt
  · have hsize : Chain (putSizeMem d a n (last 0 l₁)) (last 0 l₁) l₂ 0 :=
      hright.congr fun c hmem => (hb.right_setWord (by omega) hmem).trans (hb.right_putNext hmem)
    have hlinks := hsize.congr fun c hmem =>
      hb.right_setLinks (p := last 0 l₁) (q := first l₂ 0) (Nat.add_le_add_left hn a) hmem
    have hmagic := hlinks.congr fun c hmem =>
      hb.right_setWord (w := a) (k := 4) (v := freeMagic) (by omega) hmem
    exact hmagic.putPrev hb.right ha

theorem keeps_putIn (hb : Between l₁ a n l₂) (hn : minSize ≤ n) :
    Keeps (l₁ ++ (a, n) :: l₂) d (putInMem d a n (last 0 l₁) (first l₂ 0)) := by
  have hfit : a + 32 ≤ a + n := Nat.add_le_add_left hn a
  have hmid : (a, n) ∈ l₁ ++ (a, n) :: l₂ := List.mem_append_right _ List.mem_cons_self
  have hset : ∀ {d : Nat → UInt8} {w j v}, a ≤ w → w + j ≤ a + n →
      Keeps (l₁ ++ (a, n) :: l₂) d (setWord d j w v) := fun hle hfit => keeps_setWord hmid hle hfit
  have hsize := hset (d := d) (w := a + 8) (j := 8) (v := n) (by omega) (by omega)
  have hnext := hsize.trans (keeps_putNext (v := a) hb.left fun b hb => List.mem_append_left _ hb)
  have hlinks := hnext.trans (keeps_setLinks (w := a) (p := last 0 l₁) (q := first l₂ 0) hmid
    (Nat.le_refl a) (Nat.add_le_add_left hn a))
  have hmagic := hlinks.trans (hset (w := a) (j := 4) (v := freeMagic) (by omega) (by omega))
  exact hmagic.trans (keeps_putPrev hb.right fun c hc =>
    List.mem_append_right _ (List.mem_cons_of_mem _ hc))

/-! ## A block is put in before an area -/

/-- The header of the block, after the one of the area -/
def gapHeadMem (d : Nat → UInt8) (block gap size prev next : Nat) : Nat → UInt8 :=
  let d := setWord (setWord d 8 (block + gap + 8) size) 8 (block + gap + 16) (block + gap)
  setWord (setWord (setWord (setWord d 8 (block + 24) next) 8 (block + 16) prev) 8 (block + 8) gap)
    4 block freeMagic

/-- What `tegrabl_memalign_generic` stores for the bytes before the aligned address -/
def gapMem (d : Nat → UInt8) (block gap size prev next : Nat) : Nat → UInt8 :=
  putNextMem (putPrevMem (gapHeadMem d block gap size prev next) next block) prev block

theorem gapHeadMem_outside (hk : k + 24 ≤ n) (hfit : minSize ≤ n) {x : Nat} (hx : x < a ∨ a + n ≤ x) :
    gapHeadMem d a k v p q x = d x := by
  unfold minSize at hfit
  refine (setWord_outside (by omega)).trans ((setWord_outside (by omega)).trans ?_)
  refine (setWord_outside (by omega)).trans ((setWord_outside (by omega)).trans ?_)
  exact (setWord_outside (by omega)).trans (setWord_outside (by omega))

theorem chain_gap (hb : Between l₁ a n l₂) (hk : minSize ≤ k) (hfit : k + 24 ≤ n)
    (h : Chain d 0 (l₁ ++ l₂) 0) :
    Chain (gapMem d a k v (last 0 l₁) (first l₂ 0)) 0 (l₁ ++ (a, k) :: l₂) 0 := by
  have hbound := hb.bound
  have hle : minSize ≤ n := by omega
  unfold minSize at hk
  obtain ⟨hleft, hright⟩ := chain_append.mp h
  have ha : a < 2 ^ 64 := by omega
  refine chain_append.mpr ⟨?_, ⟨?_, ?_, ?_, ?_⟩, ?_⟩
  · have hhead : Chain (gapHeadMem d a k v (last 0 l₁) (first l₂ 0)) 0 l₁ (first l₂ 0) :=
      hleft.congr fun b hmem => hb.same_left hmem fun x hx => gapHeadMem_outside hfit hle (Or.inl hx)
    have hprev := hhead.congr fun b hmem => hb.left_putPrev (v := a) hmem
    exact hprev.putNext hb.left ha
  · refine (hb.mid_putNext (by omega)).trans ((hb.mid_putPrev (by omega)).trans ?_)
    exact word_setWord (by decide)
  · refine (hb.mid_putNext (by omega)).trans ((hb.mid_putPrev (by omega)).trans ?_)
    exact (word_setWord_apart (by omega)).trans (word_setWord (by show k < 256 ^ 8; omega))
  · refine (hb.mid_putNext (by omega)).trans ((hb.mid_putPrev (by omega)).trans ?_)
    refine (word_setWord_apart (by omega)).trans ((word_setWord_apart (by omega)).trans ?_)
    exact word_setWord hb.last_lt
  · refine (hb.mid_putNext (by omega)).trans ((hb.mid_putPrev (by omega)).trans ?_)
    refine (word_setWord_apart (by omega)).trans ((word_setWord_apart (by omega)).trans ?_)
    exact (word_setWord_apart (by omega)).trans (word_setWord hb.first_lt)
  · have hhead : Chain (gapHeadMem d a k v (last 0 l₁) (first l₂ 0)) (last 0 l₁) l₂ 0 :=
      hright.congr fun c hmem => hb.same_right hmem fun x hx => gapHeadMem_outside hfit hle (Or.inr hx)
    have hprev : Chain (putPrevMem (gapHeadMem d a k v (last 0 l₁) (first l₂ 0)) (first l₂ 0) a) a l₂ 0 :=
      hhead.putPrev hb.right ha
    exact hprev.congr fun c hmem => hb.right_putNext hmem

theorem keeps_gap (hb : Between l₁ a n l₂) (hk : minSize ≤ k) (hfit : k + 24 ≤ n) :
    Keeps (l₁ ++ (a, n) :: l₂) d (gapMem d a k v (last 0 l₁) (first l₂ 0)) := by
  have hle : minSize ≤ n := by omega
  have hmid : (a, n) ∈ l₁ ++ (a, n) :: l₂ := List.mem_append_right _ List.mem_cons_self
  have hhead : Keeps (l₁ ++ (a, n) :: l₂) d (gapHeadMem d a k v (last 0 l₁) (first l₂ 0)) :=
    fun x hx => gapHeadMem_outside hfit hle (hx (a, n) hmid)
  have hprev := hhead.trans (keeps_putPrev (v := a) hb.right fun c hc =>
    List.mem_append_right _ (List.mem_cons_of_mem _ hc))
  exact hprev.trans (keeps_putNext hb.left fun b hb => List.mem_append_left _ hb)

/-! ## Two blocks are joined -/

/-- What `tegrabl_heap_merge_with_next` stores -/
def joinMem (d : Nat → UInt8) (cur size next : Nat) : Nat → UInt8 :=
  putPrevMem (setWord (setWord d 8 (cur + 8) size) 8 (cur + 24) next) next cur

theorem chain_join {m : Nat} (hb : Between l₁ a (n + m) l₂) (hn : minSize ≤ n)
    (h : Chain d 0 (l₁ ++ (a, n) :: (a + n, m) :: l₂) 0) :
    Chain (joinMem d a (n + m) (first l₂ 0)) 0 (l₁ ++ (a, n + m) :: l₂) 0 := by
  unfold minSize at hn
  have hbound := hb.bound
  obtain ⟨hleft, hcur, -, hright⟩ := chain_append.mp h
  have ha : a < 2 ^ 64 := by omega
  refine chain_append.mpr ⟨?_, ⟨?_, ?_, ?_, ?_⟩, ?_⟩
  · have hsize : Chain (setWord d 8 (a + 8) (n + m)) 0 l₁ a :=
      hleft.congr fun b hmem => hb.left_setWord (Nat.le_add_right a 8) hmem
    have hnext := hsize.congr fun b hmem =>
      hb.left_setWord (w := a + 24) (k := 8) (v := first l₂ 0) (Nat.le_add_right a 24) hmem
    exact hnext.congr fun b hmem => hb.left_putPrev hmem
  · refine (hb.mid_putPrev (by omega)).trans ((word_setWord_apart (by omega)).trans ?_)
    exact (word_setWord_apart (by omega)).trans hcur.magic
  · refine (hb.mid_putPrev (by omega)).trans ((word_setWord_apart (by omega)).trans ?_)
    exact word_setWord (by show n + m < 256 ^ 8; omega)
  · refine (hb.mid_putPrev (by omega)).trans ((word_setWord_apart (by omega)).trans ?_)
    exact (word_setWord_apart (by omega)).trans hcur.prev
  · exact (hb.mid_putPrev (by omega)).trans (word_setWord hb.first_lt)
  · have hsize : Chain (setWord d 8 (a + 8) (n + m)) (a + n) l₂ 0 :=
      hright.congr fun c hmem => hb.right_setWord (by omega) hmem
    have hnext := hsize.congr fun c hmem =>
      hb.right_setWord (w := a + 24) (k := 8) (v := first l₂ 0) (by omega) hmem
    exact hnext.putPrev hb.right ha

theorem keeps_join (hb : Between l₁ a n l₂) (hn : minSize ≤ n) :
    Keeps (l₁ ++ (a, n) :: l₂) d (joinMem d a n (first l₂ 0)) := by
  have hfit : a + 32 ≤ a + n := Nat.add_le_add_left hn a
  have hmid : (a, n) ∈ l₁ ++ (a, n) :: l₂ := List.mem_append_right _ List.mem_cons_self
  have hset : ∀ {d : Nat → UInt8} {w j v}, a ≤ w → w + j ≤ a + n →
      Keeps (l₁ ++ (a, n) :: l₂) d (setWord d j w v) := fun hle hfit => keeps_setWord hmid hle hfit
  have hblock := (hset (d := d) (w := a + 8) (j := 8) (v := n) (by omega) (by omega)).trans
    (hset (w := a + 24) (j := 8) (v := first l₂ 0) (by omega) (by omega))
  exact hblock.trans (keeps_putPrev hb.right fun c hc =>
    List.mem_append_right _ (List.mem_cons_of_mem _ hc))

end TX2SecureUart.Malloc
