/-
# `Malloc.FreeList` — the list of free blocks in memory

`Chain` says that a list of blocks stands in memory: each block has its header, and the headers
lead to the blocks before and behind.  The two ends of a chain are addresses like the others, so a
chain can be cut at any place and joined again: `chain_append`.

An edit of the list changes the headers at the seam and nothing else.  What becomes of the list
then follows from what becomes of its two parts.
-/
import TX2SecureUart.Malloc.Heap

namespace TX2SecureUart.Malloc

open Prog ByteStore WordStore

/-! ## Chains -/

/-- The address of a free block, and its size -/
abbrev Block := Nat × Nat

/-- The address of the first block, or else `q` -/
def first : List Block → Nat → Nat
  | [], q => q
  | b :: _, _ => b.1

/-- The address of the last block, or else `p` -/
def last : Nat → List Block → Nat
  | p, [] => p
  | _, b :: l => last b.1 l

/-- The header of a free block -/
structure FreeAt (d : Nat → UInt8) (b : Block) (p q : Nat) : Prop where
  magic : magicOf d b.1 = freeMagic
  size : sizeOf d b.1 = b.2
  prev : prevOf d b.1 = p
  next : nextOf d b.1 = q

/-- The blocks are linked to each other, the first one back to `p` and the last one on to `q`. -/
def Chain (d : Nat → UInt8) : Nat → List Block → Nat → Prop
  | _, [], _ => True
  | p, b :: l, q => FreeAt d b p (first l q) ∧ Chain d b.1 l q

/-- The blocks are in the order of their addresses and apart, and large enough for a header. -/
structure Spaced (l : List Block) : Prop where
  sorted : l.Pairwise fun b c => b.1 + b.2 ≤ c.1
  large : ∀ b ∈ l, 0 < b.1 ∧ minSize ≤ b.2
  small : ∀ b ∈ l, b.1 + b.2 < 2 ^ 64

variable {d e : Nat → UInt8} {p q v : Nat} {l l₁ l₂ : List Block} {b c : Block}

theorem first_append (l₁ l₂ : List Block) (q : Nat) : first (l₁ ++ l₂) q = first l₁ (first l₂ q) := by
  cases l₁ <;> rfl

theorem last_append (p : Nat) (l₁ l₂ : List Block) : last p (l₁ ++ l₂) = last (last p l₁) l₂ := by
  induction l₁ generalizing p with
  | nil => rfl
  | cons b l₁ ih => exact ih b.1

theorem last_concat (p : Nat) (l : List Block) (b : Block) : last p (l ++ [b]) = b.1 := by
  rw [last_append]
  rfl

theorem chain_append : Chain d p (l₁ ++ l₂) q ↔ Chain d p l₁ (first l₂ q) ∧ Chain d (last p l₁) l₂ q := by
  induction l₁ generalizing p with
  | nil => exact ⟨fun h => ⟨trivial, h⟩, fun h => h.2⟩
  | cons b l₁ ih =>
      show FreeAt d b p (first (l₁ ++ l₂) q) ∧ Chain d b.1 (l₁ ++ l₂) q ↔
        (FreeAt d b p (first l₁ (first l₂ q)) ∧ Chain d b.1 l₁ (first l₂ q)) ∧ Chain d (last b.1 l₁) l₂ q
      rw [first_append, ih, and_assoc]

theorem FreeAt.congr (h : FreeAt d b p q) (hs : Same d e b.1 minSize) : FreeAt e b p q where
  magic := ((hs.mono (m := 4) (Nat.le_refl _) (by unfold minSize; omega)).word_eq).trans h.magic
  size := ((hs.mono (m := 8) (Nat.le_add_right _ 8) (by unfold minSize; omega)).word_eq).trans h.size
  prev := ((hs.mono (m := 8) (Nat.le_add_right _ 16) (by unfold minSize; omega)).word_eq).trans h.prev
  next := ((hs.mono (m := 8) (Nat.le_add_right _ 24) (by unfold minSize; omega)).word_eq).trans h.next

theorem Chain.congr (h : Chain d p l q) (hs : ∀ b ∈ l, Same d e b.1 minSize) : Chain e p l q := by
  induction l generalizing p with
  | nil => trivial
  | cons b l ih =>
      exact ⟨h.1.congr (hs b List.mem_cons_self), ih h.2 fun c hc => hs c (List.mem_cons_of_mem b hc)⟩

/-- The last block of a chain is in it. -/
theorem last_mem (p : Nat) (l : List Block) : last p l = p ∧ l = [] ∨ ∃ b ∈ l, last p l = b.1 := by
  induction l generalizing p with
  | nil => exact Or.inl ⟨rfl, rfl⟩
  | cons b l ih =>
      rcases ih b.1 with ⟨h, -⟩ | ⟨c, hc, h⟩
      · exact Or.inr ⟨b, List.mem_cons_self, h⟩
      · exact Or.inr ⟨c, List.mem_cons_of_mem b hc, h⟩

theorem first_mem (l : List Block) (q : Nat) : first l q = q ∧ l = [] ∨ ∃ b ∈ l, first l q = b.1 := by
  cases l with
  | nil => exact Or.inl ⟨rfl, rfl⟩
  | cons b l => exact Or.inr ⟨b, List.mem_cons_self, rfl⟩

/-- The last block of a chain leads to its end. -/
theorem Chain.next_last (h : Chain d p l q) : l = [] ∨ nextOf d (last p l) = q := by
  rcases List.eq_nil_or_concat l with rfl | ⟨l, b, rfl⟩
  · exact Or.inl rfl
  · rw [List.concat_eq_append] at h ⊢
    rw [last_concat]
    exact Or.inr (chain_append.mp h).2.1.next

/-- The first block of a chain leads back to its start. -/
theorem Chain.prev_first (h : Chain d p l q) : l = [] ∨ prevOf d (first l q) = p := by
  cases l with
  | nil => exact Or.inl rfl
  | cons b l => exact Or.inr h.1.prev

/-! ## Edits -/

def putPrevMem (d : Nat → UInt8) (p v : Nat) : Nat → UInt8 :=
  if p = 0 then d else setWord d 8 (p + 16) v

def putNextMem (d : Nat → UInt8) (p v : Nat) : Nat → UInt8 :=
  if p = 0 then d else setWord d 8 (p + 24) v

theorem same_putPrev {a n : Nat} (h : p = 0 ∨ a + n ≤ p + 16 ∨ p + 24 ≤ a) :
    Same d (putPrevMem d p v) a n := by
  unfold putPrevMem
  split
  · exact Same.refl d a n
  · exact same_setWord (by omega)

theorem same_putNext {a n : Nat} (h : p = 0 ∨ a + n ≤ p + 24 ∨ p + 32 ≤ a) :
    Same d (putNextMem d p v) a n := by
  unfold putNextMem
  split
  · exact Same.refl d a n
  · exact same_setWord (by omega)

/-- The end of a chain is moved. -/
theorem Chain.putNext (h : Chain d p l q) (hl : Spaced l) (hv : v < 2 ^ 64) :
    Chain (putNextMem d (last 0 l) v) p l v := by
  rcases List.eq_nil_or_concat l with rfl | ⟨l, b, rfl⟩
  · trivial
  · rw [List.concat_eq_append] at h hl ⊢
    obtain ⟨hfront, hb, -⟩ := chain_append.mp h
    have hpos := (hl.large b (List.mem_append_right _ List.mem_cons_self)).1
    rw [last_concat, putNextMem, if_neg (Nat.ne_of_gt hpos)]
    refine chain_append.mpr ⟨hfront.congr ?_, ⟨?_, ?_, ?_, ?_⟩, trivial⟩
    · intro c hc
      have hcb := (List.pairwise_append.mp hl.sorted).2.2 c hc b List.mem_cons_self
      have hlarge := (hl.large c (List.mem_append_left _ hc)).2
      exact same_setWord (by omega)
    · exact (word_setWord_apart (by omega)).trans hb.magic
    · exact (word_setWord_apart (by omega)).trans hb.size
    · exact (word_setWord_apart (by omega)).trans hb.prev
    · exact word_setWord hv

/-- The start of a chain is moved. -/
theorem Chain.putPrev (h : Chain d p l q) (hl : Spaced l) (hv : v < 2 ^ 64) :
    Chain (putPrevMem d (first l 0) v) v l q := by
  cases l with
  | nil => trivial
  | cons b l =>
      have hpos := (hl.large b List.mem_cons_self).1
      show Chain (putPrevMem d b.1 v) v (b :: l) q
      rw [putPrevMem, if_neg (Nat.ne_of_gt hpos)]
      refine ⟨⟨?_, ?_, ?_, ?_⟩, h.2.congr ?_⟩
      · exact (word_setWord_apart (by omega)).trans h.1.magic
      · exact (word_setWord_apart (by omega)).trans h.1.size
      · exact word_setWord hv
      · exact (word_setWord_apart (by omega)).trans h.1.next
      · intro c hc
        have hbc := (List.pairwise_cons.mp hl.sorted).1 c hc
        have hlarge := (hl.large b List.mem_cons_self).2
        unfold minSize at hlarge ⊢
        exact same_setWord (by omega)

/-! ## A place in the list -/

/-- A range of memory between the blocks of two lists -/
structure Between (l₁ : List Block) (a n : Nat) (l₂ : List Block) : Prop where
  before : ∀ b ∈ l₁, b.1 + b.2 ≤ a
  behind : ∀ c ∈ l₂, a + n ≤ c.1
  left : Spaced l₁
  right : Spaced l₂
  pos : 0 < a
  bound : a + n < 2 ^ 64

theorem Spaced.between {a n : Nat} (h : Spaced (l₁ ++ (a, n) :: l₂)) : Between l₁ a n l₂ := by
  obtain ⟨hleft, hright, hcross⟩ := List.pairwise_append.mp h.sorted
  obtain ⟨hbehind, hright⟩ := List.pairwise_cons.mp hright
  have hmid : (a, n) ∈ l₁ ++ (a, n) :: l₂ := List.mem_append_right _ List.mem_cons_self
  have hl : ∀ b ∈ l₁, b ∈ l₁ ++ (a, n) :: l₂ := fun b hb => List.mem_append_left _ hb
  have hr : ∀ b ∈ l₂, b ∈ l₁ ++ (a, n) :: l₂ := fun b hb =>
    List.mem_append_right _ (List.mem_cons_of_mem _ hb)
  exact
    { before := fun b hb => hcross b hb (a, n) List.mem_cons_self
      behind := hbehind
      left := ⟨hleft, fun b hb => h.large b (hl b hb), fun b hb => h.small b (hl b hb)⟩
      right := ⟨hright, fun b hb => h.large b (hr b hb), fun b hb => h.small b (hr b hb)⟩
      pos := (h.large _ hmid).1
      bound := h.small _ hmid }

theorem Between.spaced_none {a n : Nat} (h : Between l₁ a n l₂) : Spaced (l₁ ++ l₂) where
  sorted := by
    refine List.pairwise_append.mpr ⟨h.left.sorted, h.right.sorted, ?_⟩
    intro b hb c hc
    have hbefore := h.before b hb
    have hbehind := h.behind c hc
    omega
  large := fun b hb => (List.mem_append.mp hb).elim (h.left.large b) (h.right.large b)
  small := fun b hb => (List.mem_append.mp hb).elim (h.left.small b) (h.right.small b)

/-- A block for the range -/
theorem Between.spaced {a n m : Nat} (h : Between l₁ a n l₂) (k : Nat) (hm : minSize ≤ m)
    (hfit : k + m ≤ n) : Spaced (l₁ ++ (a + k, m) :: l₂) where
  sorted := by
    refine List.pairwise_append.mpr ⟨h.left.sorted, List.pairwise_cons.mpr ⟨?_, h.right.sorted⟩, ?_⟩
    · intro c hc
      have := h.behind c hc
      show a + k + m ≤ c.1
      omega
    · intro b hb c hc
      have := h.before b hb
      rcases List.mem_cons.mp hc with rfl | hc
      · show b.1 + b.2 ≤ a + k
        omega
      · have := h.behind c hc
        omega
  large := by
    intro b hb
    rcases List.mem_append.mp hb with hb | hb
    · exact h.left.large b hb
    · rcases List.mem_cons.mp hb with rfl | hb
      · exact ⟨Nat.add_pos_left h.pos k, hm⟩
      · exact h.right.large b hb
  small := by
    intro b hb
    have := h.bound
    rcases List.mem_append.mp hb with hb | hb
    · exact h.left.small b hb
    · rcases List.mem_cons.mp hb with rfl | hb
      · show a + k + m < 2 ^ 64
        omega
      · exact h.right.small b hb

/-- The block before the range, as an address -/
theorem Between.last_le {a n : Nat} (h : Between l₁ a n l₂) :
    last 0 l₁ = 0 ∨ last 0 l₁ + minSize ≤ a := by
  rcases last_mem 0 l₁ with ⟨h0, -⟩ | ⟨b, hb, heq⟩
  · exact Or.inl h0
  · have hbefore := h.before b hb
    have hlarge := (h.left.large b hb).2
    rw [heq]
    exact Or.inr (by omega)

theorem Between.le_first {a n : Nat} (h : Between l₁ a n l₂) :
    first l₂ 0 = 0 ∨ a + n ≤ first l₂ 0 := by
  rcases first_mem l₂ 0 with ⟨h0, -⟩ | ⟨c, hc, heq⟩
  · exact Or.inl h0
  · rw [heq]
    exact Or.inr (h.behind c hc)

theorem Between.last_lt {a n : Nat} (h : Between l₁ a n l₂) : last 0 l₁ < 2 ^ 64 := by
  have hbound := h.bound
  rcases h.last_le with h0 | hle <;> omega

theorem Between.first_lt {a n : Nat} (h : Between l₁ a n l₂) : first l₂ 0 < 2 ^ 64 := by
  rcases first_mem l₂ 0 with ⟨h0, -⟩ | ⟨c, hc, heq⟩
  · rw [h0]
    decide
  · have := h.right.small c hc
    rw [heq]
    omega

/-- The left part keeps its headers if what changes is the range and the header behind it. -/
theorem Between.same_left {a n : Nat} (h : Between l₁ a n l₂) (hb : b ∈ l₁)
    (hs : ∀ x, x < a → e x = d x) : Same d e b.1 minSize := by
  have hbefore := h.before b hb
  have hlarge := (h.left.large b hb).2
  exact fun x _ hx => hs x (by omega)

theorem Between.same_right {a n : Nat} (h : Between l₁ a n l₂) (hc : c ∈ l₂)
    (hs : ∀ x, a + n ≤ x → e x = d x) : Same d e c.1 minSize := by
  have hbehind := h.behind c hc
  exact fun x hx _ => hs x (by omega)

end TX2SecureUart.Malloc
