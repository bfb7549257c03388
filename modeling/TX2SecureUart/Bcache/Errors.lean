/-
# `Bcache.Errors` — the lists of the block cache when the device fails

`Sound` is what every operation keeps: the two lists, one block for each number,
and blocks on the free list that nobody holds.  Two endings of
`find_or_fill_block` break it.  A read that fails adds its block to the free
list while it is still in the lru list, and a miss with no block to use goes on
with NULL.  A step that has neither is `Served`, and a run of such steps stays
sound.
-/
import TX2SecureUart.Bcache.Lists
import TX2SecureUart.Lib.Machine

namespace TX2SecureUart.Bcache

open Prog ListNode ByteStore

variable {g : Geometry} {free lru l₁ l₂ : List Nat} {i : Nat} {n : UInt32} {s t : Cache}

/-! ## Which steps are served -/

/-- A lookup of block `n` finds nothing. -/
def Cache.Miss (g : Geometry) (s : Cache) (n : UInt32) : Prop :=
  s.search g (fun b => b.blocknum = n) = some none

/-- A miss writes a block back. -/
def Cache.WritesBack (g : Geometry) (s : Cache) : Prop :=
  s.NoFree ∧ ∃ i, s.victim g = some i ∧ (s.blocks i).isDirty = true

/-- A miss has no block to use: all are held, or the write-back fails. -/
def Cache.NoBlock (g : Geometry) (s : Cache) : Prop :=
  s.NoFree ∧ (s.victim g = none ∨ s.WritesBack g ∧ s.replies 0 ≠ .done)

/-- The device fails the read of a miss, which comes after the write-back. -/
def Cache.FillFails (g : Geometry) (s : Cache) : Prop :=
  (s.WritesBack g → s.replies 1 ≠ .done) ∧ (¬ s.WritesBack g → s.replies 0 ≠ .done)

inductive Op where
  | read (n : UInt32)
  | get (n : UInt32)
  | put (n : UInt32)
  | mark (n : UInt32)
  | zero (n : UInt32)
  | flush

def Op.run (g : Geometry) : Op → BcacheM PUnit
  | .read n => (fun _ => ⟨⟩) <$> bcacheReadBlock g n
  | .get n => (fun _ => ⟨⟩) <$> bcacheGetBlock g n
  | .put n => (fun _ => ⟨⟩) <$> bcachePutBlock g n
  | .mark n => (fun _ => ⟨⟩) <$> bcacheMarkBlockDirty g n
  | .zero n => (fun _ => ⟨⟩) <$> bcacheZeroBlock g n
  | .flush => (fun _ => ⟨⟩) <$> bcacheFlush g

/-- The block numbers that a step may fill from the device. -/
def Op.Fills : Op → UInt32 → Prop
  | .read m, n => m = n
  | .get m, n => m = n
  | _, _ => False

/-- A fill finds a block to use and the device delivers. -/
def Served (g : Geometry) (s : Cache) (op : Op) : Prop :=
  ∀ n, op.Fills n → s.Miss g n → ¬ s.NoBlock g ∧ ¬ s.FillFails g

theorem Linked.miss (h : Linked g.count s.links free lru) :
    s.Miss g n ↔ ∀ i ∈ lru, (s.blocks i).blocknum ≠ n := by
  rw [Cache.Miss, h.search]
  simp

theorem Linked.victim_free (h : Linked g.count s.links free lru) (hv : s.victim g = some i) :
    (s.blocks i).refCount = 0 := by
  rw [h.victim] at hv
  simpa using List.find?_some hv

/-! ## What an allocation changes -/

theorem Alloc.exists_block {r : Option Nat} (ha : Alloc g s free lru r t)
    (h : Linked g.count s.links free lru) (hb : ¬ s.NoBlock g) : ∃ i, r = some i := by
  cases ha with
  | popped _ _ => exact ⟨_, rfl⟩
  | reused _ _ _ _ _ => exact ⟨_, rfl⟩
  | evicted _ _ _ _ _ _ => exact ⟨_, rfl⟩
  | stuck hfree _ hv hd hr =>
      have hno := h.noFree.mpr hfree
      refine absurd ⟨hno, Or.inr ⟨⟨hno, _, hv, hd⟩, ?_⟩⟩ hb
      rw [hr]
      exact Reply.noConfusion
  | full hfree hv => exact absurd ⟨h.noFree.mpr hfree, Or.inl hv⟩ hb

theorem Alloc.no_block (ha : Alloc g s free lru (some i) t) (h : Linked g.count s.links free lru) :
    ¬ s.NoBlock g := by
  rintro ⟨hno, hv⟩
  cases ha with
  | popped hfree _ =>
      rw [h.noFree.mp hno] at hfree
      cases hfree
  | reused _ _ hi hd _ =>
      obtain hv | ⟨⟨_, j, hj, hdj⟩, _⟩ := hv
      · rw [hi] at hv
        cases hv
      · rw [hi] at hj
        cases hj
        rw [hd] at hdj
        cases hdj
  | evicted _ _ hi _ hr _ =>
      obtain hv | ⟨_, hne⟩ := hv
      · rw [hi] at hv
        cases hv
      · exact hne hr

theorem Alloc.reply (ha : Alloc g s free lru (some i) t) (h : Linked g.count s.links free lru)
    (hf : ¬ s.FillFails g) : t.replies 0 = .done := by
  cases ha with
  | popped hfree _ =>
      have hnw : ¬ s.WritesBack g := by
        rintro ⟨hno, _⟩
        rw [h.noFree.mp hno] at hfree
        cases hfree
      by_contra hr
      exact hf ⟨fun hw => absurd hw hnw, fun _ => hr⟩
  | reused _ _ hi hd _ =>
      have hnw : ¬ s.WritesBack g := by
        rintro ⟨_, j, hj, hdj⟩
        rw [hi] at hj
        cases hj
        rw [hd] at hdj
        cases hdj
      by_contra hr
      exact hf ⟨fun hw => absurd hw hnw, fun _ => hr⟩
  | evicted hfree _ hi hd _ _ =>
      by_contra hr
      exact hf ⟨fun _ => hr, fun hnw => absurd ⟨h.noFree.mpr hfree, _, hi, hd⟩ hnw⟩

/-- The block that is taken is at the tail, nobody holds it, and the others keep
what they have. -/
structure Taken (g : Geometry) (s : Cache) (free lru : List Nat) (i : Nat) (t : Cache)
    (free' rest : List Nat) : Prop where
  linked : Linked g.count t.links free' (rest ++ [i])
  lruSub : rest.Sublist lru
  freeSub : free'.Sublist free
  others : ∀ j, j ≠ i → t.blocks j = s.blocks j
  unheld : (t.blocks i).refCount = 0
  source : i ∈ free ∨ (s.blocks i).refCount = 0

theorem Alloc.taken (ha : Alloc g s free lru (some i) t) (h : Linked g.count s.links free lru) :
    ∃ free' rest, Taken g s free lru i t free' rest := by
  cases ha with
  | @popped free' _ L hfree hlinked =>
      refine ⟨free', lru, hlinked, List.Sublist.refl lru, ?_, ?_, ?_, Or.inl ?_⟩
      · rw [hfree]
        exact List.sublist_cons_self i free'
      · intro j hj
        exact Function.update_of_ne hj ..
      · show (Function.update s.blocks i _ i).refCount = 0
        rw [Function.update_self]
      · rw [hfree]
        exact List.mem_cons_self
  | @reused l₁ l₂ _ L _ hlru hv _ hlinked =>
      refine ⟨free, l₁ ++ l₂, hlinked, ?_, List.Sublist.refl free, fun _ _ => rfl, h.victim_free hv,
        Or.inr (h.victim_free hv)⟩
      rw [hlru]
      exact (List.sublist_cons_self i l₂).append_left l₁
  | @evicted l₁ l₂ _ L _ hlru hv _ _ hlinked =>
      refine ⟨free, l₁ ++ l₂, hlinked, ?_, List.Sublist.refl free, ?_, ?_,
        Or.inr (h.victim_free hv)⟩
      · rw [hlru]
        exact (List.sublist_cons_self i l₂).append_left l₁
      · intro j hj
        exact Function.update_of_ne hj ..
      · show (Function.update s.blocks i _ i).refCount = 0
        rw [Function.update_self]
        exact h.victim_free hv

/-! ## A fill that is served -/

/-- The cache after block `i` was filled with block `n` of the device. -/
def Cache.filled (g : Geometry) (t : Cache) (i : Nat) (n : UInt32) : Cache :=
  { t with
    blocks := Function.update t.blocks i { t.blocks i with
      blocknum := n
      data := slice t.disk (g.fsOffset + n.toUInt64 * g.blockSize).toNat g.blockSize.toNat }
    replies := fun k => t.replies (k + 1) }

theorem fillBlock_run (ha : allocBlock g s = .ok (some i) t) (hr : t.replies 0 = .done) :
    fillBlock g n s = .ok (some i) (t.filled g i n) := by
  simp only [fillBlock, run_bind, ha, setBlock, run_modify, tegrablBlockdevRead, run_get, hr,
    run_set, run_pure, if_true, Function.update_self, Function.update_idem]
  rfl

/-- The ways `find_or_fill_block` can return a block. -/
inductive Got (g : Geometry) (s : Cache) (free lru : List Nat) (n : UInt32) : Nat → Cache → Prop
  | hit {i : Nat} {t : Cache} (hf : Found g s free lru n (some i) t) : Got g s free lru n i t
  | filled {i : Nat} {t : Cache} (hm : s.Miss g n) (ha : Alloc g s free lru (some i) t)
      (hr : t.replies 0 = .done) : Got g s free lru n i (t.filled g i n)

theorem findOrFillBlock_got (h : Linked g.count s.links free lru)
    (hs : s.Miss g n → ¬ s.NoBlock g ∧ ¬ s.FillFails g) :
    ∃ i t, findOrFillBlock g n s = .ok (some i) t ∧ Got g s free lru n i t := by
  obtain ⟨r, t, hrun, hf⟩ := findBlock_found h n
  cases r with
  | some i =>
      refine ⟨i, t, ?_, .hit hf⟩
      rw [findOrFillBlock, run_bind, hrun]
      rfl
  | none =>
      cases hf with
      | miss hnone =>
          obtain ⟨hb, hff⟩ := hs (h.miss.mpr hnone)
          obtain ⟨r, t, halloc, ha⟩ := allocBlock_alloc h
          obtain ⟨i, rfl⟩ := ha.exists_block h hb
          have hr := ha.reply h hff
          refine ⟨i, t.filled g i n, ?_, .filled (h.miss.mpr hnone) ha hr⟩
          rw [findOrFillBlock, run_bind, hrun]
          exact fillBlock_run halloc hr

/-! ## What every operation keeps -/

structure Sound (g : Geometry) (s : Cache) (free lru : List Nat) : Prop where
  linked : Linked g.count s.links free lru
  nums : (lru.map fun i => (s.blocks i).blocknum).Nodup
  fresh : ∀ i ∈ free, (s.blocks i).refCount = 0

theorem Linked.not_mem_of_snoc {count : Nat} {L : Links Node} {rest : List Nat}
    (h : Linked count L free (rest ++ [i])) : i ∉ rest ∧ i ∉ free := by
  refine ⟨?_, h.not_mem_free (List.mem_append_right _ (List.mem_singleton_self i))⟩
  intro hi
  exact (List.nodup_append.mp h.lru_nodup).2.2 i hi i (List.mem_singleton_self i) rfl

/-- A block that is taken gets a number that no block has. -/
theorem Sound.renumber {free' rest : List Nat} {u : Cache} (h : Sound g s free lru)
    (ht : Taken g s free lru i t free' rest) (hn : ∀ j ∈ lru, (s.blocks j).blocknum ≠ n)
    (hlinks : u.links = t.links) (hi : (u.blocks i).blocknum = n)
    (ho : ∀ j, j ≠ i → u.blocks j = s.blocks j) : Sound g u free' (rest ++ [i]) := by
  obtain ⟨hrest, hfree⟩ := ht.linked.not_mem_of_snoc
  have hmap : rest.map (fun j => (u.blocks j).blocknum) = rest.map fun j => (s.blocks j).blocknum := by
    refine List.map_congr_left ?_
    intro j hj
    rw [ho j (fun he => hrest (he ▸ hj))]
  refine ⟨hlinks ▸ ht.linked, ?_, ?_⟩
  · rw [List.map_append, hmap, List.map_singleton, hi]
    refine List.nodup_append.mpr ⟨h.nums.sublist (ht.lruSub.map _), List.nodup_singleton n, ?_⟩
    rintro m hm k hk rfl
    obtain ⟨j, hj, rfl⟩ := List.mem_map.mp hm
    exact hn j (ht.lruSub.subset hj) (List.mem_singleton.mp hk)
  · intro j hj
    rw [ho j (fun he => hfree (he ▸ hj))]
    exact h.fresh j (ht.freeSub.subset hj)

/-- A step that leaves the numbers and the counts alone keeps the cache sound. -/
theorem Sound.congr (h : Sound g s free lru) (hlinks : t.links = s.links)
    (hnum : ∀ i, (t.blocks i).blocknum = (s.blocks i).blocknum)
    (hfresh : ∀ i ∈ free, (t.blocks i).refCount = (s.blocks i).refCount) : Sound g t free lru := by
  refine ⟨hlinks ▸ h.linked, ?_, ?_⟩
  · rw [show (fun i => (t.blocks i).blocknum) = fun i => (s.blocks i).blocknum from funext hnum]
    exact h.nums
  · intro i hi
    rw [hfresh i hi]
    exact h.fresh i hi

theorem Found.sound (h : Sound g s free lru) (hf : Found g s free lru n (some i) t) :
    ∃ lru', Sound g t free lru' ∧ i ∈ lru' ∧ t.blocks = s.blocks ∧ (s.blocks i).blocknum = n := by
  cases hf with
  | @hit l₁ l₂ _ L hlru hnum hlinked =>
      refine ⟨l₁ ++ l₂ ++ [i], ⟨hlinked, ?_, h.fresh⟩, by simp, rfl, hnum⟩
      have hperm : (l₁ ++ l₂ ++ [i]).Perm lru := by
        rw [hlru, List.append_assoc]
        exact (List.perm_append_singleton i l₂).append_left l₁
      exact (hperm.map _).nodup_iff.mpr h.nums

/-- No block that is held gets another number. -/
def HeldKept (s t : Cache) : Prop :=
  ∀ i, 0 < (s.blocks i).refCount → (t.blocks i).blocknum = (s.blocks i).blocknum

theorem Taken.heldKept {free' rest : List Nat} {u : Cache} (h : Sound g s free lru)
    (ht : Taken g s free lru i t free' rest) (ho : ∀ j, j ≠ i → u.blocks j = s.blocks j) :
    HeldKept s u := by
  intro j hj
  by_cases he : j = i
  · subst he
    have h0 : (s.blocks j).refCount = 0 := ht.source.elim (h.fresh j) id
    rw [h0] at hj
    exact absurd hj (lt_irrefl 0)
  · rw [ho j he]

theorem Taken.set_others {free' rest : List Nat} {b : Block}
    (ht : Taken g s free lru i t free' rest) {j : Nat} (hj : j ≠ i) :
    Function.update t.blocks i b j = s.blocks j := by
  rw [Function.update_of_ne hj, ht.others j hj]

theorem Got.sound (h : Sound g s free lru) (hg : Got g s free lru n i t) :
    ∃ free' lru', Sound g t free' lru' ∧ i ∈ lru' ∧ (t.blocks i).blocknum = n ∧ HeldKept s t := by
  cases hg with
  | hit hf =>
      obtain ⟨lru', hsound, hi, hblocks, hnum⟩ := hf.sound h
      refine ⟨free, lru', hsound, hi, ?_, ?_⟩
      · rw [hblocks]
        exact hnum
      · intro j _
        rw [hblocks]
  | @filled t hm ha _ =>
      obtain ⟨free', rest, ht⟩ := ha.taken h.linked
      have ho : ∀ j, j ≠ i → (t.filled g i n).blocks j = s.blocks j := fun j hj => ht.set_others hj
      have hi : ((t.filled g i n).blocks i).blocknum = n := by
        show (Function.update t.blocks i _ i).blocknum = n
        rw [Function.update_self]
      exact ⟨free', rest ++ [i], h.renumber ht (h.linked.miss.mp hm) rfl hi ho, by simp, hi,
        ht.heldKept h ho⟩

/-- Block `i` of the lru list, changed in all but its number. -/
theorem Sound.setBlock {f : Block → Block} (h : Sound g s free lru) (hi : i ∈ lru)
    (hf : (f (s.blocks i)).blocknum = (s.blocks i).blocknum) :
    Sound g { s with blocks := Function.update s.blocks i (f (s.blocks i)) } free lru ∧
      HeldKept s { s with blocks := Function.update s.blocks i (f (s.blocks i)) } := by
  have hnum : ∀ j, (Function.update s.blocks i (f (s.blocks i)) j).blocknum
      = (s.blocks j).blocknum := by
    intro j
    by_cases he : j = i
    · rw [he, Function.update_self, hf]
    · rw [Function.update_of_ne he]
  refine ⟨h.congr rfl hnum ?_, fun j _ => hnum j⟩
  intro j hj
  have hne : j ≠ i := fun he => h.linked.not_mem_free hi (he ▸ hj)
  show (Function.update s.blocks i _ j).refCount = _
  rw [Function.update_of_ne hne]

/-! ## Steps -/

/-- A cache that differs in the device, the replies and what is dirty. -/
structure Flushed (s t : Cache) : Prop where
  links : t.links = s.links
  nums : ∀ i, (t.blocks i).blocknum = (s.blocks i).blocknum
  counts : ∀ i, (t.blocks i).refCount = (s.blocks i).refCount

theorem Flushed.refl (s : Cache) : Flushed s s := ⟨rfl, fun _ => rfl, fun _ => rfl⟩

theorem Flushed.trans {u : Cache} (h₁ : Flushed s t) (h₂ : Flushed t u) : Flushed s u :=
  ⟨h₂.links.trans h₁.links, fun i => (h₂.nums i).trans (h₁.nums i),
    fun i => (h₂.counts i).trans (h₁.counts i)⟩

theorem flushBlock_flushed (g : Geometry) (s : Cache) (i : Nat) :
    ∃ e t, flushBlock g i s = .ok e t ∧ Flushed s t := by
  cases hr : s.replies 0 with
  | done =>
      refine ⟨0, s.writtenBack g i, flushBlock_done hr, rfl, ?_, ?_⟩
      · intro j
        show (Function.update s.blocks i _ j).blocknum = _
        by_cases he : j = i
        · rw [he, Function.update_self]
        · rw [Function.update_of_ne he]
      · intro j
        show (Function.update s.blocks i _ j).refCount = _
        by_cases he : j = i
        · rw [he, Function.update_self]
        · rw [Function.update_of_ne he]
  | failed left =>
      exact ⟨errGeneric, s.notWritten g i left, flushBlock_failed hr, rfl, fun _ => rfl,
        fun _ => rfl⟩

theorem flushFrom_flushed {a : Node} (xs : List Nat) (hp : Path s.links.next a (xs.map .block) .lruList)
    {fuel : Nat} (hfuel : xs.length < fuel) :
    ∃ e t, flushFrom g fuel (s.links.next a) s = .ok e t ∧ Flushed s t := by
  induction xs generalizing a s fuel with
  | nil =>
      obtain ⟨fuel, rfl⟩ := Nat.exists_eq_succ_of_ne_zero (Nat.ne_of_gt hfuel)
      have hn : s.links.next a = some .lruList := hp
      rw [hn]
      exact ⟨0, s, rfl, Flushed.refl s⟩
  | cons i xs ih =>
      obtain ⟨fuel, rfl⟩ := Nat.exists_eq_succ_of_ne_zero (Nat.ne_of_gt (Nat.zero_lt_of_lt hfuel))
      have hlt := Nat.lt_of_succ_lt_succ hfuel
      rw [hp.1]
      simp only [flushFrom, run_bind, run_get]
      cases hd : (s.blocks i).isDirty with
      | false =>
          obtain ⟨e, t, hrun, hf⟩ := ih hp.2 hlt
          refine ⟨e, t, ?_, hf⟩
          simp only [Bool.false_eq_true, if_false, run_bind, run_get]
          exact hrun
      | true =>
          obtain ⟨e, t, hrun, hf⟩ := flushBlock_flushed g s i
          by_cases he : e = 0
          · have hp' : Path t.links.next (.block i) (xs.map .block) .lruList := by
              rw [hf.links]
              exact hp.2
            obtain ⟨e', u, hrun', hf'⟩ := ih hp' hlt
            refine ⟨e', u, ?_, hf.trans hf'⟩
            simp only [if_true, run_bind, hrun, he, ne_eq, not_true_eq_false, if_false, run_get]
            exact hrun'
          · refine ⟨e, t, ?_, hf⟩
            simp only [if_true, run_bind, hrun, ne_eq, he, not_false_eq_true, run_pure]

theorem bcacheFlush_flushed (h : Linked g.count s.links free lru) :
    ∃ e t, bcacheFlush g s = .ok e t ∧ Flushed s t := by
  have hlen : lru.length < g.count + 3 := by
    have := h.lru_length
    omega
  obtain ⟨e, t, hrun, hf⟩ := flushFrom_flushed (g := g) lru h.lruRing.next hlen
  refine ⟨e, t, ?_, hf⟩
  rw [bcacheFlush, run_bind, run_get]
  exact hrun

/-- After a step: a sound cache, and the blocks that were held have their numbers. -/
def Stepped (g : Geometry) (s t : Cache) : Prop :=
  (∃ free lru, Sound g t free lru) ∧ HeldKept s t

theorem Stepped.setBlock {f : Block → Block} (hs : Sound g t free lru) (hk : HeldKept s t)
    (hi : i ∈ lru) (hf : (f (t.blocks i)).blocknum = (t.blocks i).blocknum) :
    Stepped g s { t with blocks := Function.update t.blocks i (f (t.blocks i)) } := by
  refine ⟨⟨free, lru, (hs.setBlock hi hf).1⟩, ?_⟩
  intro j hj
  have hnum : (Function.update t.blocks i (f (t.blocks i)) j).blocknum = (t.blocks j).blocknum := by
    by_cases he : j = i
    · rw [he, Function.update_self, hf]
    · rw [Function.update_of_ne he]
  exact hnum.trans (hk j hj)

theorem bcacheReadBlock_step (h : Sound g s free lru)
    (hs : s.Miss g n → ¬ s.NoBlock g ∧ ¬ s.FillFails g) :
    ∃ data t, bcacheReadBlock g n s = .ok (0, some data) t ∧ Stepped g s t := by
  obtain ⟨i, t, hrun, hg⟩ := findOrFillBlock_got h.linked hs
  obtain ⟨free', lru', hsound, _, _, hk⟩ := hg.sound h
  refine ⟨(t.blocks i).data, t, ?_, ⟨free', lru', hsound⟩, hk⟩
  simp only [bcacheReadBlock, run_bind, hrun, run_get, run_pure]

theorem bcacheGetBlock_step (h : Sound g s free lru)
    (hs : s.Miss g n → ¬ s.NoBlock g ∧ ¬ s.FillFails g) :
    ∃ i t, bcacheGetBlock g n s = .ok (0, some i) t ∧ Stepped g s t := by
  obtain ⟨i, t, hrun, hg⟩ := findOrFillBlock_got h.linked hs
  obtain ⟨free', lru', hsound, hi, _, hk⟩ := hg.sound h
  refine ⟨i, _, ?_, Stepped.setBlock (f := fun b => { b with refCount := b.refCount + 1 }) hsound hk
    hi rfl⟩
  simp only [bcacheGetBlock, run_bind, hrun, setBlock, run_modify, run_pure]

theorem HeldKept.of_blocks (h : t.blocks = s.blocks) : HeldKept s t := by
  intro i _
  rw [h]

theorem bcacheMarkBlockDirty_step (h : Sound g s free lru) (n : UInt32) :
    ∃ e t, bcacheMarkBlockDirty g n s = .ok e t ∧ Stepped g s t := by
  obtain ⟨r, t, hrun, hf⟩ := findBlock_found h.linked n
  cases r with
  | none =>
      cases hf with
      | miss _ =>
          refine ⟨-1, s, ?_, ⟨free, lru, h⟩, HeldKept.of_blocks rfl⟩
          rw [bcacheMarkBlockDirty, run_bind, hrun]
          rfl
  | some i =>
      obtain ⟨lru', hsound, hi, hblocks, _⟩ := hf.sound h
      refine ⟨0, _, ?_, Stepped.setBlock (f := fun b => { b with isDirty := true }) hsound
        (HeldKept.of_blocks hblocks) hi rfl⟩
      simp only [bcacheMarkBlockDirty, run_bind, hrun, setBlock, run_modify, run_pure]

/-- Putting a block that is not cached, or not held, panics. -/
theorem bcachePutBlock_step (h : Sound g s free lru) (n : UInt32) :
    wp (bcachePutBlock g n) (fun _ t => Stepped g s t) (fun e _ => e = .debugAssert) s := by
  obtain ⟨r, t, hrun, hf⟩ := findBlock_found h.linked n
  rw [bcachePutBlock, wp_bind]
  refine wp_run hrun ?_
  cases r with
  | none => rfl
  | some i =>
      obtain ⟨lru', hsound, hi, hblocks, _⟩ := hf.sound h
      by_cases hc : (t.blocks i).refCount > 0
      · simp only [wp_bind, wp_get, if_pos hc]
        exact Stepped.setBlock (f := fun b => { b with refCount := b.refCount - 1 }) hsound
          (HeldKept.of_blocks hblocks) hi rfl
      · simp only [wp_bind, wp_get, if_neg hc]
        rfl

/-- Zeroing a block needs no device read, so only a missing block makes it fail. -/
theorem bcacheZeroBlock_step (h : Sound g s free lru) (n : UInt32) :
    ∃ e t, bcacheZeroBlock g n s = .ok e t ∧ Stepped g s t ∧
      (s.Miss g n → s.NoBlock g → e = -1) := by
  obtain ⟨r, t, hrun, hf⟩ := findBlock_found h.linked n
  cases r with
  | some i =>
      obtain ⟨lru', hsound, hi, hblocks, hnum⟩ := hf.sound h
      refine ⟨0, _, ?_, Stepped.setBlock (f := fun b => { b with
        data := List.replicate g.blockSize.toNat 0, isDirty := true }) hsound
          (HeldKept.of_blocks hblocks) hi rfl, ?_⟩
      · simp only [bcacheZeroBlock, run_bind, hrun, zeroData, setBlock, run_modify, run_pure]
      · intro hm
        cases hf with
        | hit hlru hnum _ => exact absurd hnum (h.linked.miss.mp hm i (by rw [hlru]; simp))
  | none =>
      cases hf with
      | miss hnone =>
          obtain ⟨r, t, halloc, ha⟩ := allocBlock_alloc h.linked
          cases r with
          | none =>
              refine ⟨-1, t, ?_, ?_, fun _ _ => rfl⟩
              · simp only [bcacheZeroBlock, run_bind, hrun, halloc, run_pure]
              · cases ha with
                | stuck _ _ _ _ _ => exact ⟨⟨free, lru, h.congr rfl (fun _ => rfl) (fun _ _ => rfl)⟩,
                    HeldKept.of_blocks rfl⟩
                | full _ _ => exact ⟨⟨free, lru, h⟩, HeldKept.of_blocks rfl⟩
          | some i =>
              obtain ⟨free', rest, ht⟩ := ha.taken h.linked
              let b : Block := { t.blocks i with
                blocknum := n, data := List.replicate g.blockSize.toNat 0, isDirty := true }
              have ho : ∀ j, j ≠ i → Function.update t.blocks i b j = s.blocks j :=
                fun j hj => ht.set_others hj
              have hi : (Function.update t.blocks i b i).blocknum = n := by
                rw [Function.update_self]
              have hsound : Sound g { t with blocks := Function.update t.blocks i b } free'
                  (rest ++ [i]) := h.renumber ht hnone rfl hi ho
              refine ⟨0, _, ?_, ⟨⟨free', _, hsound⟩, ht.heldKept h ho⟩, ?_⟩
              · simp only [bcacheZeroBlock, run_bind, hrun, halloc, zeroData, setBlock, run_modify,
                  run_pure, Function.update_self, Function.update_idem]
                rfl
              · intro _ hb
                exact absurd hb (ha.no_block h.linked)

/-! ## Runs -/

/-- The operations on a cache that `bcache_create` returned, in any order. -/
def machine (g : Geometry) (init : Cache) : Machine Stop Cache Op where
  init
  run := Op.run g
  Enabled := fun _ _ => True

/-- What a cache has to keep whatever the device does, with `ok` for the steps
that are meant. -/
structure Intact (g : Geometry) (ok : Cache → Op → Prop) (s : Cache) : Prop where
  /-- Every block is in one of the lists, and a number has one block. -/
  lists : ∃ free lru, Linked g.count s.links free lru ∧
    (lru.map fun i => (s.blocks i).blocknum).Nodup
  held : ∀ op t, ok s op → op.run g s = .ok ⟨⟩ t → HeldKept s t
  /-- Only a put may panic: of a block that is not cached or not held. -/
  answers : ∀ op, ok s op → (∀ n, op ≠ .put n) → ∃ t, op.run g s = .ok ⟨⟩ t
  /-- A miss with no block to use is an error. -/
  refused : ∀ n, s.Miss g n → s.NoBlock g →
    (ok s (.read n) → ∃ data t, bcacheReadBlock g n s = .ok (-1, data) t) ∧
    (ok s (.get n) → ∃ p t, bcacheGetBlock g n s = .ok (-1, p) t) ∧
    (ok s (.zero n) → ∃ t, bcacheZeroBlock g n s = .ok (-1) t)
  /-- A block whose fill failed is not found. -/
  forgotten : ∀ n t,
    (∀ data, ok s (.read n) → bcacheReadBlock g n s = .ok (-1, data) t → t.Miss g n) ∧
    (∀ p, ok s (.get n) → bcacheGetBlock g n s = .ok (-1, p) t → t.Miss g n)

theorem Op.run_step (h : Sound g s free lru) (op : Op) (hs : Served g s op) :
    wp (op.run g) (fun _ t => Stepped g s t) (fun _ _ => ∃ n, op = .put n) s := by
  cases op with
  | read n =>
      obtain ⟨_, t, hrun, hst⟩ := bcacheReadBlock_step h (hs n rfl)
      rw [Op.run, wp_map]
      exact wp_run hrun hst
  | get n =>
      obtain ⟨_, t, hrun, hst⟩ := bcacheGetBlock_step h (hs n rfl)
      rw [Op.run, wp_map]
      exact wp_run hrun hst
  | put n =>
      rw [Op.run, wp_map]
      exact wp_mono (bcachePutBlock_step h n) (fun _ _ ht => ht) (fun _ _ _ => ⟨n, rfl⟩)
  | mark n =>
      obtain ⟨_, t, hrun, hst⟩ := bcacheMarkBlockDirty_step h n
      rw [Op.run, wp_map]
      exact wp_run hrun hst
  | zero n =>
      obtain ⟨_, t, hrun, hst, _⟩ := bcacheZeroBlock_step h n
      rw [Op.run, wp_map]
      exact wp_run hrun hst
  | flush =>
      obtain ⟨_, t, hrun, hf⟩ := bcacheFlush_flushed h.linked
      rw [Op.run, wp_map]
      refine wp_run hrun ⟨⟨free, lru, h.congr hf.links hf.nums fun i _ => hf.counts i⟩, ?_⟩
      intro i _
      exact hf.nums i

theorem Sound.intact (h : Sound g s free lru) : Intact g (Served g) s where
  lists := ⟨free, lru, h.linked, h.nums⟩
  held := fun op _ hs hrun => (wp_ok (Op.run_step h op hs) hrun).2
  answers := by
    intro op hs hput
    have hrun := Op.run_step h op hs
    cases hres : op.run g s with
    | ok a t => exact ⟨t, rfl⟩
    | error e t =>
        obtain ⟨n, hn⟩ := wp_error hrun hres
        exact absurd hn (hput n)
  refused := by
    intro n hm hb
    refine ⟨fun hs => absurd hb (hs n rfl hm).1, fun hs => absurd hb (hs n rfl hm).1, ?_⟩
    intro _
    obtain ⟨e, t, hrun, _, he⟩ := bcacheZeroBlock_step h n
    rw [he hm hb] at hrun
    exact ⟨t, hrun⟩
  forgotten := by
    intro n t
    refine ⟨?_, ?_⟩
    · intro data hs hrun
      obtain ⟨_, u, hrun', _⟩ := bcacheReadBlock_step h (hs n rfl)
      rw [hrun] at hrun'
      cases hrun'
    · intro p hs hrun
      obtain ⟨_, u, hrun', _⟩ := bcacheGetBlock_step h (hs n rfl)
      rw [hrun] at hrun'
      cases hrun'

theorem bcacheCreate_sound {blocks : Nat → Block} {disk : Nat → UInt8} {replies : Nat → Reply}
    (h : bcacheCreate g blocks disk replies = some s) : ∃ free, Sound g s free [] := by
  obtain ⟨t, free, ht, hlinked, _, _, hblocks⟩ := bcacheCreate_spec g blocks disk replies
  rw [h] at ht
  cases ht
  exact ⟨free, hlinked, List.nodup_nil, fun i _ => (hblocks i).1⟩

/-- Whatever the device does, a run without a failed fill and without a fill that
has no block to use keeps the lists, the numbers of held blocks and the errors of
the other operations. -/
theorem lists_kept {blocks : Nat → Block} {disk : Nat → UInt8} {replies : Nat → Reply} {s₀ : Cache}
    (hc : bcacheCreate g blocks disk replies = some s₀)
    (h : (machine g s₀).Reachable (Served g) s) : Intact g (Served g) s := by
  obtain ⟨free, hsound⟩ := bcacheCreate_sound hc
  have hinv : ∃ free lru, Sound g s free lru := by
    refine Machine.invariant (I := fun s => ∃ free lru, Sound g s free lru)
      (E := fun _ op _ _ => ∃ n, op = .put n) ⟨free, [], hsound⟩ ?_ h
    intro s op hs _ hok
    obtain ⟨free, lru, hs⟩ := hs
    exact wp_conseq (Op.run_step hs op hok) (fun _ _ ht => ht.1)
  obtain ⟨free, lru, hsound⟩ := hinv
  exact hsound.intact

/-- One block, and a device whose first answer is an error. -/
def oneBlock : Geometry where
  blockSize := 1
  count := 1
  fsOffset := 0

def firstFails : Nat → Reply
  | 0 => .failed fun _ => 0
  | _ => .done

/-- The lru list leads into the free list. -/
theorem not_linked_of_stray {L : Links Node} (h₁ : L.next .lruList = some (.block i))
    (h₂ : L.next (.block i) = some .freeList) : ¬ ∃ free lru, Linked g.count L free lru := by
  rintro ⟨free, lru, h⟩
  have hp := h.lruRing.next
  cases lru with
  | nil =>
      have hn : L.next .lruList = some .lruList := hp
      rw [h₁] at hn
      cases hn
  | cons j lru =>
      have hj : L.next .lruList = some (.block j) := hp.1
      rw [h₁] at hj
      cases hj
      have hp₂ : Path L.next (.block i) (lru.map .block) .lruList := hp.2
      cases lru with
      | nil =>
          have hn : L.next (.block i) = some .lruList := hp₂
          rw [h₂] at hn
          cases hn
      | cons k lru =>
          have hn : L.next (.block i) = some (.block k) := hp₂.1
          rw [h₂] at hn
          cases hn

/-- After one failed read the block is in both lists. -/
theorem failed_fill_breaks : ¬ ∀ (g : Geometry) (blocks : Nat → Block) (disk : Nat → UInt8)
    (replies : Nat → Reply) (s₀ s : Cache), bcacheCreate g blocks disk replies = some s₀ →
    (machine g s₀).Reachable (fun _ _ => True) s → Intact g (fun _ _ => True) s := by
  intro hall
  have hc : ∃ s₀, bcacheCreate oneBlock (fun _ => ⟨0, 0, false, []⟩) (fun _ => 0) firstFails
      = some s₀ := ⟨_, rfl⟩
  obtain ⟨s₀, hc⟩ := hc
  have hr : (machine oneBlock s₀).Reachable (fun _ _ => True)
      (stateOf ((Op.read 5).run oneBlock s₀)) := by
    refine Machine.Reachable.step (M := machine oneBlock s₀) (a := Op.read 5)
      Machine.Reachable.init trivial trivial ?_
    cases hc
    rfl
  obtain ⟨free, lru, hlinked, _⟩ := (hall _ _ _ _ _ _ hc hr).lists
  refine not_linked_of_stray (g := oneBlock) (i := 0) ?_ ?_ ⟨free, lru, hlinked⟩
  · cases hc
    rfl
  · cases hc
    rfl

/-- A block that is read, with one device answer. -/
theorem lists_kept_read : ∃ s₀ s,
    bcacheCreate oneBlock (fun _ => ⟨0, 0, false, []⟩) (fun _ => 7) (fun _ => .done) = some s₀ ∧
      (machine oneBlock s₀).Reachable (Served oneBlock) s ∧ s.links.next .freeList = some .freeList ∧
      Intact oneBlock (Served oneBlock) s := by
  have hc : ∃ s₀, bcacheCreate oneBlock (fun _ => ⟨0, 0, false, []⟩) (fun _ => 7) (fun _ => .done)
      = some s₀ := ⟨_, rfl⟩
  obtain ⟨s₀, hc⟩ := hc
  have hserved : Served oneBlock s₀ (.read 5) := by
    intro n _ _
    refine ⟨?_, ?_⟩
    · rintro ⟨hno, _⟩
      cases hc
      cases hno
    · rintro ⟨hw, hnw⟩
      by_cases hwb : s₀.WritesBack oneBlock
      · cases hc
        exact hw hwb rfl
      · cases hc
        exact hnw hwb rfl
  have hr : (machine oneBlock s₀).Reachable (Served oneBlock)
      (stateOf ((Op.read 5).run oneBlock s₀)) := by
    refine Machine.Reachable.step (M := machine oneBlock s₀) (a := Op.read 5)
      Machine.Reachable.init trivial hserved ?_
    cases hc
    rfl
  refine ⟨s₀, _, hc, hr, ?_, lists_kept hc hr⟩
  cases hc
  rfl

end TX2SecureUart.Bcache
