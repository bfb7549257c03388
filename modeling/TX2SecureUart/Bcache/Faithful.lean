/-
# `Bcache.Faithful` — a cached file system shows what was written to it

The operations keep the contents of the file system as long as a step writes no
block back, or the file system starts where the device does.  Each operation has
one lemma: it returns, and the cache after it is `Coherent` with what the users
did.  `filesystem_faithful` is the run.
-/
import TX2SecureUart.Bcache.Contents

namespace TX2SecureUart.Bcache

open Prog ListNode ByteStore

variable {g : Geometry} {origin : Nat → UInt8} {c c' t : Cache} {u : User} {free lru rest : List Nat}
  {i : Nat} {n : UInt32} {s : Sys}

/-- The lists, the contents, and blocks on the free list that were never used. -/
structure Coherent (g : Geometry) (origin : Nat → UInt8) (c : Cache) (u : User)
    (free lru : List Nat) : Prop where
  linked : Linked g.count c.links free lru
  content : Content g origin c u lru
  fresh : ∀ i ∈ free, (c.blocks i).refCount = 0 ∧ (c.blocks i).isDirty = false

/-! ## Which steps are safe -/

/-- The blocks that a step brings into the cache. -/
def Act.Uses : Act → UInt32 → Prop
  | .read m, n => m = n
  | .get m, n => m = n
  | .zero m, n => m = n
  | _, _ => False

/-- The step writes a block to the device: the one a miss evicts, or what a flush
finds dirty. -/
def Act.WritesBack (g : Geometry) (c : Cache) : Act → Prop
  | .read n => c.Miss g n ∧ c.WritesBack g
  | .get n => c.Miss g n ∧ c.WritesBack g
  | .zero n => c.Miss g n ∧ c.WritesBack g
  | .flush => c.search g (fun b => b.isDirty) ≠ some none
  | _ => False

/-- The place of a block does not wrap, and a block that is written back lies
there: the file system starts where the device does, or none is written back. -/
def InPlace (g : Geometry) (s : Sys) (a : Act) : Prop :=
  (∀ n, a.Uses n → addr g n < 2 ^ 64) ∧ (g.fsOffset = 0 ∨ ¬ a.WritesBack g s.cache)

/-! ## Misses -/

/-- With fewer blocks held than there are, a miss finds a block. -/
theorem Coherent.room (h : Coherent g origin c u free lru)
    (hr : (u.handles.map Prod.fst).dedup.length < g.count) : ¬ c.NoBlock g := by
  rintro ⟨hno, hv⟩
  obtain rfl := h.linked.noFree.mp hno
  obtain hv | ⟨_, hne⟩ := hv
  · rw [h.linked.victim, List.find?_eq_none] at hv
    have hsub : (lru.map fun i => (c.blocks i).blocknum) ⊆ (u.handles.map Prod.fst).dedup := by
      intro n hn
      obtain ⟨i, hi, rfl⟩ := List.mem_map.mp hn
      have hne : (c.blocks i).refCount ≠ 0 := by simpa using hv i hi
      rw [h.content.counts i hi] at hne
      have hpos : 0 < u.count (c.blocks i).blocknum := by omega
      obtain ⟨k, hk, hkn⟩ := List.countP_pos_iff.mp hpos
      refine List.mem_dedup.mpr (List.mem_map.mpr ⟨k, hk, ?_⟩)
      simpa using hkn
    have hle := (h.content.nums.subperm hsub).length_le
    have hcount : g.count ≤ lru.length := by
      have hrange : List.range g.count ⊆ lru := by
        intro i hi
        exact (h.linked.all i).mpr (List.mem_range.mp hi)
      simpa using (List.nodup_range.subperm hrange).length_le
    rw [List.length_map] at hle
    omega
  · exact hne (h.content.replies 0)

/-- The block a miss takes has no contents any more; the others keep theirs. -/
theorem Coherent.alloc (h : Coherent g origin c u free lru) (ha : Alloc g c free lru (some i) t)
    (h0 : g.fsOffset = 0 ∨ ¬ c.WritesBack g) :
    ∃ free' rest, Linked g.count t.links free' (rest ++ [i]) ∧ Content g origin t u rest ∧
      (∀ j ∈ free', (t.blocks j).refCount = 0 ∧ (t.blocks j).isDirty = false) ∧
      (t.blocks i).refCount = 0 ∧ ∀ j ∈ rest, j ∈ lru ∧ t.blocks j = c.blocks j := by
  cases ha with
  | @popped free' _ L hfree hlinked =>
      subst hfree
      obtain ⟨hrest, hnfree⟩ := hlinked.not_mem_of_snoc
      have hold : ∀ j, j ≠ i → Function.update c.blocks i { c.blocks i with refCount := 0 } j
          = c.blocks j := fun j hj => Function.update_of_ne hj ..
      refine ⟨free', lru, hlinked, ?_, ?_, ?_, ?_⟩
      · exact h.content.of_eq (fun j hj => hold j fun he => hrest (he ▸ hj)) rfl h.content.replies
      · intro j hj
        show (Function.update c.blocks i _ j).refCount = 0 ∧
          (Function.update c.blocks i _ j).isDirty = false
        rw [hold j fun he => hnfree (he ▸ hj)]
        exact h.fresh j (List.mem_cons_of_mem _ hj)
      · show (Function.update c.blocks i _ i).refCount = 0
        rw [Function.update_self]
      · intro j hj
        exact ⟨hj, hold j fun he => hrest (he ▸ hj)⟩
  | @reused l₁ l₂ _ L hfree hlru hv hd hlinked =>
      subst hlru
      have hc := h.content.drop List.perm_middle (h.linked.victim_free hv) hd
      refine ⟨free, l₁ ++ l₂, hlinked, hc.of_eq (fun _ _ => rfl) rfl hc.replies, h.fresh,
        h.linked.victim_free hv, ?_⟩
      intro j hj
      refine ⟨?_, rfl⟩
      exact (List.perm_middle.symm.subset (List.mem_cons_of_mem _ hj))
  | @evicted l₁ l₂ _ L hfree hlru hv hd hr hlinked =>
      subst hlru hfree
      have hoff : g.fsOffset = 0 := by
        refine h0.resolve_right (fun hn => hn ?_)
        exact ⟨h.linked.noFree.mpr rfl, i, hv, hd⟩
      have hheld : ((c.writtenBack g i).blocks i).refCount = 0 := by
        show (Function.update c.blocks i _ i).refCount = 0
        rw [Function.update_self]
        exact h.linked.victim_free hv
      have hclean : ((c.writtenBack g i).blocks i).isDirty = false := by
        show (Function.update c.blocks i _ i).isDirty = false
        rw [Function.update_self]
      have hc := (h.content.writeBack (List.perm_middle.symm.subset List.mem_cons_self) hoff).drop
        List.perm_middle hheld hclean
      obtain ⟨hrest, _⟩ := hlinked.not_mem_of_snoc
      refine ⟨[], l₁ ++ l₂, hlinked, hc.of_eq (fun _ _ => rfl) rfl hc.replies, ?_, hheld, ?_⟩
      · intro j hj
        cases hj
      · intro j hj
        refine ⟨List.perm_middle.symm.subset (List.mem_cons_of_mem _ hj), ?_⟩
        refine Function.update_of_ne ?_ ..
        rintro rfl
        exact hrest hj

/-- A number that no block has has no handle, so no write to it is pending. -/
theorem Content.not_pending (h : Content g origin c u rest)
    (hn : ∀ j ∈ rest, (c.blocks j).blocknum ≠ n) : u.pending n = false := by
  cases hp : u.pending n with
  | false => rfl
  | true =>
      obtain ⟨j, hj, hjn⟩ := h.exists_of_count (h.pend n hp)
      exact absurd hjn (hn j hj)

theorem Coherent.found (h : Coherent g origin c u free lru) (hf : Found g c free lru n (some i) t) :
    ∃ lru', Coherent g origin t u free lru' ∧ i ∈ lru' ∧ (t.blocks i).blocknum = n := by
  cases hf with
  | @hit l₁ l₂ _ L hlru hnum hlinked =>
      have hperm : (l₁ ++ l₂ ++ [i]).Perm lru := by
        rw [hlru, List.append_assoc]
        exact (List.perm_append_singleton i l₂).append_left l₁
      refine ⟨l₁ ++ l₂ ++ [i], ⟨hlinked, ?_, h.fresh⟩, by simp, hnum⟩
      exact (h.content.perm hperm).of_eq (fun _ _ => rfl) rfl h.content.replies

/-- The block for a number is found or filled, with the contents of that number. -/
theorem Coherent.findOrFill (h : Coherent g origin c u free lru)
    (hroom : (u.handles.map Prod.fst).dedup.length < g.count) (hw : addr g n < 2 ^ 64)
    (h0 : g.fsOffset = 0 ∨ ¬ (c.Miss g n ∧ c.WritesBack g)) :
    ∃ i t free' lru', findOrFillBlock g n c = .ok (some i) t ∧ Coherent g origin t u free' lru' ∧
      i ∈ lru' ∧ (t.blocks i).blocknum = n := by
  have hserved : c.Miss g n → ¬ c.NoBlock g ∧ ¬ c.FillFails g := by
    intro _
    refine ⟨h.room hroom, ?_⟩
    rintro ⟨hf₁, hf₀⟩
    by_cases hwb : c.WritesBack g
    · exact hf₁ hwb (h.content.replies 1)
    · exact hf₀ hwb (h.content.replies 0)
  obtain ⟨i, t, hrun, hg⟩ := findOrFillBlock_got h.linked hserved
  cases hg with
  | hit hf =>
      obtain ⟨lru', hco, hi, hnum⟩ := h.found hf
      exact ⟨i, _, free, lru', hrun, hco, hi, hnum⟩
  | @filled t hm ha hr =>
      have h0' : g.fsOffset = 0 ∨ ¬ c.WritesBack g := h0.imp_right fun hn hwb => hn ⟨hm, hwb⟩
      obtain ⟨free', rest, hlinked, hc, hfresh, hheld, hold⟩ := h.alloc ha h0'
      obtain ⟨hrest, hnfree⟩ := hlinked.not_mem_of_snoc
      have hn : ∀ j ∈ rest, (t.blocks j).blocknum ≠ n := by
        intro j hj
        rw [(hold j hj).2]
        exact h.linked.miss.mp hm j (hold j hj).1
      have hview : slice t.disk (g.fsOffset + n.toUInt64 * g.blockSize).toNat g.blockSize.toNat
          = u.view g origin n := by
        rw [addr_toNat hw]
        exact hc.disk n (fun j hj hjn => absurd hjn (hn j hj)) (hc.not_pending hn)
      have hadd := hc.add (b := { t.blocks i with
        blocknum := n
        data := slice t.disk (g.fsOffset + n.toUInt64 * g.blockSize).toNat g.blockSize.toNat })
        hrest hn hview hheld hw
      refine ⟨i, _, free', rest ++ [i], hrun, ⟨hlinked, ?_, ?_⟩, by simp, ?_⟩
      · exact hadd.of_eq (fun _ _ => rfl) rfl (fun k => hc.replies (k + 1))
      · intro j hj
        have hne : j ≠ i := fun he => hnfree (he ▸ hj)
        show (Function.update t.blocks i _ j).refCount = 0 ∧
          (Function.update t.blocks i _ j).isDirty = false
        rw [Function.update_of_ne hne]
        exact hfresh j hj
      · show (Function.update t.blocks i _ i).blocknum = n
        rw [Function.update_self]

/-! ## Write-backs by a flush -/

theorem flushFrom_clean {a : Node} (xs : List Nat)
    (hp : Path c.links.next a (xs.map .block) .lruList) (hsub : xs ⊆ lru)
    (h : Content g origin c u lru)
    (h0 : g.fsOffset = 0 ∨ ∀ i ∈ xs, (c.blocks i).isDirty = false) {fuel : Nat}
    (hfuel : xs.length < fuel) :
    ∃ t, flushFrom g fuel (c.links.next a) c = .ok 0 t ∧ t.links = c.links ∧
      Content g origin t u lru ∧ (∀ i ∈ xs, (t.blocks i).isDirty = false) ∧
      (∀ i, (c.blocks i).isDirty = false → (t.blocks i).isDirty = false) ∧
      ∀ i, i ∉ xs → t.blocks i = c.blocks i := by
  induction xs generalizing a c fuel with
  | nil =>
      obtain ⟨fuel, rfl⟩ := Nat.exists_eq_succ_of_ne_zero (Nat.ne_of_gt hfuel)
      have hn : c.links.next a = some .lruList := hp
      rw [hn]
      exact ⟨c, rfl, rfl, h, fun i hi => absurd hi List.not_mem_nil, fun _ hi => hi, fun _ _ => rfl⟩
  | cons i xs ih =>
      obtain ⟨fuel, rfl⟩ := Nat.exists_eq_succ_of_ne_zero (Nat.ne_of_gt (Nat.zero_lt_of_lt hfuel))
      have hlt := Nat.lt_of_succ_lt_succ hfuel
      obtain ⟨hi, hsub⟩ := List.cons_subset.mp hsub
      rw [hp.1]
      simp only [flushFrom, run_bind, run_get]
      cases hd : (c.blocks i).isDirty with
      | false =>
          obtain ⟨t, hrun, hl, hc, hclean, hkeep, hsame⟩ := ih hp.2 hsub h
            (h0.imp_right fun h0 j hj => h0 j (List.mem_cons_of_mem _ hj)) hlt
          refine ⟨t, ?_, hl, hc, ?_, hkeep, fun j hj => hsame j fun hm => hj (List.mem_cons_of_mem _ hm)⟩
          · simp only [Bool.false_eq_true, if_false, run_bind, run_get]
            exact hrun
          · intro j hj
            cases List.mem_cons.mp hj with
            | inl he =>
                rw [he]
                exact hkeep i hd
            | inr hj => exact hclean j hj
      | true =>
          have hoff : g.fsOffset = 0 := by
            refine h0.resolve_right (fun h0 => ?_)
            have := h0 i List.mem_cons_self
            rw [hd] at this
            cases this
          have hself : ((c.writtenBack g i).blocks i).isDirty = false := by
            show (Function.update c.blocks i _ i).isDirty = false
            rw [Function.update_self]
          have hother : ∀ j, j ≠ i → (c.writtenBack g i).blocks j = c.blocks j := fun j hj =>
            Function.update_of_ne hj ..
          obtain ⟨t, hrun, hl, hc, hclean, hkeep, hsame⟩ := ih (c := c.writtenBack g i) hp.2 hsub
            (h.writeBack hi hoff) (Or.inl hoff) hlt
          refine ⟨t, ?_, hl, hc, ?_, ?_, ?_⟩
          · simp only [if_true, run_bind, flushBlock_done (h.replies 0), ne_eq, not_true_eq_false,
              if_false, run_get]
            exact hrun
          · intro j hj
            cases List.mem_cons.mp hj with
            | inl he =>
                rw [he]
                exact hkeep i hself
            | inr hj => exact hclean j hj
          · intro j hj
            refine hkeep j ?_
            by_cases he : j = i
            · rw [he]
              exact hself
            · rw [hother j he]
              exact hj
          · intro j hj
            rw [hsame j fun hm => hj (List.mem_cons_of_mem _ hm),
              hother j fun he => hj (he ▸ List.mem_cons_self)]

theorem Coherent.flush (h : Coherent g origin c u free lru)
    (h0 : g.fsOffset = 0 ∨ c.search g (fun b => b.isDirty) = some none) :
    ∃ t, bcacheFlush g c = .ok 0 t ∧ Coherent g origin t u free lru ∧
      ∀ i ∈ lru, (t.blocks i).isDirty = false := by
  have hclean : g.fsOffset = 0 ∨ ∀ i ∈ lru, (c.blocks i).isDirty = false := by
    refine h0.imp_right ?_
    intro hs i hi
    rw [h.linked.search] at hs
    simp only [Option.some.injEq, Option.map_eq_none_iff, List.find?_eq_none] at hs
    simpa using hs i hi
  have hlen : lru.length < g.count + 3 := by
    have := h.linked.lru_length
    omega
  obtain ⟨t, hrun, hl, hc, hall, _, hsame⟩ := flushFrom_clean lru h.linked.lruRing.next
    (List.Subset.refl lru) h.content hclean hlen
  refine ⟨t, ?_, ⟨hl ▸ h.linked, hc, ?_⟩, hall⟩
  · rw [bcacheFlush, run_bind, run_get]
    exact hrun
  · intro i hi
    rw [hsame i fun hm => h.linked.not_mem_free hm hi]
    exact h.fresh i hi

/-! ## One lemma an operation -/

/-- Only the contents are at stake when a block of the lru list changes. -/
theorem Coherent.setBlock {u' : User} {b : Block} (h : Coherent g origin c u free lru)
    (hi : i ∈ lru) (hc : Content g origin (c.setBlock i b) u' lru) :
    Coherent g origin (c.setBlock i b) u' free lru := by
  refine ⟨h.linked, hc, ?_⟩
  intro j hj
  have hne : j ≠ i := fun he => h.linked.not_mem_free hi (he ▸ hj)
  rw [setBlock_of_ne c b hne]
  exact h.fresh j hj

theorem read_shows (h : Coherent g origin c u free lru)
    (hroom : (u.handles.map Prod.fst).dedup.length < g.count) (hw : addr g n < 2 ^ 64)
    (h0 : g.fsOffset = 0 ∨ ¬ (c.Miss g n ∧ c.WritesBack g)) :
    ∃ t free' lru', bcacheReadBlock g n c = .ok (0, some (u.view g origin n)) t ∧
      Coherent g origin t u free' lru' := by
  obtain ⟨i, t, free', lru', hrun, hco, hi, hnum⟩ := h.findOrFill hroom hw h0
  refine ⟨t, free', lru', ?_, hco⟩
  have hdata := hco.content.data i hi
  rw [hnum] at hdata
  simp only [bcacheReadBlock, run_bind, hrun, run_get, run_pure, hdata]

theorem get_shows (h : Coherent g origin c u free lru)
    (hroom : (u.handles.map Prod.fst).dedup.length < g.count) (hw : addr g n < 2 ^ 64)
    (h0 : g.fsOffset = 0 ∨ ¬ (c.Miss g n ∧ c.WritesBack g)) :
    ∃ i t free' lru', bcacheGetBlock g n c = .ok (0, some i) t ∧
      (t.blocks i).data = u.view g origin n ∧
      Coherent g origin t { u with handles := (n, i) :: u.handles } free' lru' := by
  obtain ⟨i, t, free', lru', hrun, hco, hi, hnum⟩ := h.findOrFill hroom hw h0
  refine ⟨i, t.setBlock i { t.blocks i with refCount := (t.blocks i).refCount + 1 }, free', lru', ?_,
    ?_, hco.setBlock hi (hco.content.get hi hnum)⟩
  · simp only [bcacheGetBlock, run_bind, hrun, setBlock, run_modify, run_pure]
    rfl
  · rw [setBlock_self, ← hnum]
    exact hco.content.data i hi

theorem put_coherent (h : Coherent g origin c u free lru) (hc : 0 < u.count n)
    (hp : u.pending n = true → 1 < u.count n) :
    ∃ t lru', bcachePutBlock g n c = .ok 0 t ∧
      Coherent g origin t { u with handles := u.handles.eraseP fun k => k.1 = n } free lru' := by
  obtain ⟨r, t, hrun, hf⟩ := findBlock_found h.linked n
  cases r with
  | none =>
      cases hf with
      | miss hnone =>
          obtain ⟨i, hi, hin⟩ := h.content.exists_of_count hc
          exact absurd hin (hnone i hi)
  | some i =>
      obtain ⟨lru', hco, hi, hnum⟩ := h.found hf
      have hpos : (t.blocks i).refCount > 0 := by
        rw [hco.content.counts i hi, hnum]
        exact_mod_cast hc
      refine ⟨t.setBlock i { t.blocks i with refCount := (t.blocks i).refCount - 1 }, lru', ?_,
        hco.setBlock hi (hco.content.put hi hnum hc hp)⟩
      simp only [bcachePutBlock, run_bind, hrun, run_get, if_pos hpos, setBlock, run_modify, run_pure]
      rfl

theorem mark_coherent (h : Coherent g origin c u free lru) (n : UInt32) :
    ∃ e t lru', bcacheMarkBlockDirty g n c = .ok e t ∧
      Coherent g origin t { u with pending := Function.update u.pending n false } free lru' := by
  obtain ⟨r, t, hrun, hf⟩ := findBlock_found h.linked n
  cases r with
  | none =>
      cases hf with
      | miss hnone =>
          have hp : Function.update u.pending n false = u.pending := by
            rw [← h.content.not_pending hnone, Function.update_eq_self]
          refine ⟨-1, c, lru, ?_, ?_⟩
          · rw [bcacheMarkBlockDirty, run_bind, hrun]
            rfl
          · rw [hp]
            exact h
  | some i =>
      obtain ⟨lru', hco, hi, hnum⟩ := h.found hf
      refine ⟨0, t.setBlock i { t.blocks i with isDirty := true }, lru', ?_,
        hco.setBlock hi (hco.content.mark hi hnum)⟩
      simp only [bcacheMarkBlockDirty, run_bind, hrun, setBlock, run_modify, run_pure]
      rfl

/-- Block `n` full of zeros. -/
def zeroed (g : Geometry) (b : Block) (n : UInt32) : Block :=
  { b with blocknum := n, data := List.replicate g.blockSize.toNat 0, isDirty := true }

theorem zero_coherent (h : Coherent g origin c u free lru)
    (hroom : (u.handles.map Prod.fst).dedup.length < g.count) (hw : addr g n < 2 ^ 64)
    (h0 : g.fsOffset = 0 ∨ ¬ (c.Miss g n ∧ c.WritesBack g)) :
    ∃ t free' lru', bcacheZeroBlock g n c = .ok 0 t ∧
      Coherent g origin t (u.write n (List.replicate g.blockSize.toNat 0) false) free' lru' := by
  obtain ⟨r, t, hrun, hf⟩ := findBlock_found h.linked n
  cases r with
  | some i =>
      obtain ⟨lru', hco, hi, hnum⟩ := h.found hf
      refine ⟨t.setBlock i (zeroed g (t.blocks i) n), free, lru', ?_, hco.setBlock hi ?_⟩
      · simp only [bcacheZeroBlock, run_bind, hrun, zeroData, setBlock, run_modify, run_pure]
        rw [← hnum]
        rfl
      · exact hco.content.store (b := zeroed g (t.blocks i) n) hi hnum.symm rfl List.length_replicate
          (Or.inl rfl) (fun he => Bool.noConfusion he)
  | none =>
      cases hf with
      | miss hnone =>
          have hm := h.linked.miss.mpr hnone
          have h0' : g.fsOffset = 0 ∨ ¬ c.WritesBack g := h0.imp_right fun hn hwb => hn ⟨hm, hwb⟩
          obtain ⟨r, t, halloc, ha⟩ := allocBlock_alloc h.linked
          obtain ⟨i, rfl⟩ := ha.exists_block h.linked (h.room hroom)
          obtain ⟨free', rest, hlinked, hc, hfresh, hheld, hold⟩ := h.alloc ha h0'
          obtain ⟨hrest, hnfree⟩ := hlinked.not_mem_of_snoc
          have hn : ∀ j ∈ rest, (t.blocks j).blocknum ≠ n := by
            intro j hj
            rw [(hold j hj).2]
            exact hnone j (hold j hj).1
          -- the block first takes over the contents of block `n`, which are then zeroed
          let b : Block := { t.blocks i with blocknum := n, data := u.view g origin n }
          have hadd := hc.add (b := b) hrest hn rfl hheld hw
          have hstore := hadd.store (i := i) (b := zeroed g (t.blocks i) n) (p := false)
            (by simp) (by rw [setBlock_self]; rfl) (by rw [setBlock_self]; rfl) List.length_replicate
            (Or.inl rfl) (fun he => Bool.noConfusion he)
          have hset : (t.setBlock i b).setBlock i (zeroed g (t.blocks i) n)
              = t.setBlock i (zeroed g (t.blocks i) n) := by
            simp only [Cache.setBlock, Function.update_idem]
          rw [hset] at hstore
          refine ⟨t.setBlock i (zeroed g (t.blocks i) n), free', rest ++ [i], ?_, hlinked, hstore, ?_⟩
          · simp only [bcacheZeroBlock, run_bind, hrun, halloc, zeroData, setBlock, run_modify,
              run_pure, Function.update_self, Function.update_idem]
            rfl
          · intro j hj
            have hne : j ≠ i := fun he => hnfree (he ▸ hj)
            rw [setBlock_of_ne t _ hne]
            exact hfresh j hj

theorem write_coherent {data : List UInt8} (h : Coherent g origin c u free lru)
    (hh : (n, i) ∈ u.handles) (hlen : data.length = g.blockSize.toNat) :
    Coherent g origin (c.setBlock i { c.blocks i with data }) (u.write n data true) free lru := by
  obtain ⟨hi, hnum⟩ := h.content.handles _ hh
  have hnum : (c.blocks i).blocknum = n := hnum
  have hcount : 0 < u.count n := List.countP_pos_iff.mpr ⟨_, hh, decide_eq_true rfl⟩
  have hs := h.content.store (b := { c.blocks i with data }) (p := true) hi rfl rfl hlen
    (Or.inr rfl) (fun _ => by rw [hnum]; exact hcount)
  rw [hnum] at hs
  exact h.setBlock hi hs

/-! ## Runs -/

def Sys.Ok (g : Geometry) (origin : Nat → UInt8) (s : Sys) : Prop :=
  ∃ free lru, Coherent g origin s.cache s.user free lru

theorem Act.run_ok (h : s.Ok g origin) {a : Act} (hen : Enabled g s a) (hok : InPlace g s a) :
    wp (a.run g) (fun _ t => t.Ok g origin) (fun _ _ => False) s := by
  obtain ⟨free, lru, h⟩ := h
  obtain ⟨hroom, hallowed⟩ := hen
  obtain ⟨hw, h0⟩ := hok
  cases a with
  | read n =>
      obtain ⟨t, free', lru', hrun, hco⟩ := read_shows h hroom (hw n rfl) h0
      simp only [Act.run, onCache, wp_bind, wp_zoom]
      exact wp_run hrun ⟨free', lru', hco⟩
  | get n =>
      obtain ⟨i, t, free', lru', hrun, _, hco⟩ := get_shows h hroom (hw n rfl) h0
      simp only [Act.run, onCache, wp_bind, wp_zoom]
      exact wp_run hrun ⟨free', lru', hco⟩
  | write n i data =>
      simp only [Act.run, onCache, wp_bind, wp_zoom]
      exact ⟨free, lru, write_coherent h hallowed.1 hallowed.2⟩
  | put n =>
      obtain ⟨t, lru', hrun, hco⟩ := put_coherent h hallowed.1 hallowed.2
      simp only [Act.run, onCache, wp_bind, wp_zoom]
      exact wp_run hrun ⟨free, lru', hco⟩
  | mark n =>
      obtain ⟨e, t, lru', hrun, hco⟩ := mark_coherent h n
      simp only [Act.run, onCache, wp_bind, wp_zoom]
      exact wp_run hrun ⟨free, lru', hco⟩
  | zero n =>
      obtain ⟨t, free', lru', hrun, hco⟩ := zero_coherent h hroom (hw n rfl) h0
      simp only [Act.run, onCache, wp_bind, wp_zoom]
      refine wp_run hrun ?_
      rw [if_pos rfl]
      exact ⟨free', lru', hco⟩
  | flush =>
      obtain ⟨t, hrun, hco, _⟩ := h.flush (h0.imp_right not_not.mp)
      simp only [Act.run, onCache, wp_bind, wp_zoom]
      exact wp_run hrun ⟨free, lru, hco⟩

/-- The cache shows the contents of the file system, and a flush leaves them on
the device and every other byte as it was.  A block that was written through a
pointer counts as written from its mark on. -/
structure Faithful (g : Geometry) (origin : Nat → UInt8) (ok : Sys → Act → Prop) (s : Sys) :
    Prop where
  read : ∀ n, Enabled g s (.read n) → ok s (.read n) →
    ∃ t, bcacheReadBlock g n s.cache = .ok (0, some (s.user.view g origin n)) t
  get : ∀ n, Enabled g s (.get n) → ok s (.get n) →
    ∃ i t, bcacheGetBlock g n s.cache = .ok (0, some i) t ∧
      (t.blocks i).data = s.user.view g origin n
  flush : Enabled g s .flush → ok s .flush → ∃ t, bcacheFlush g s.cache = .ok 0 t ∧
    (∀ n, s.user.pending n = false →
      slice t.disk (addr g n) g.blockSize.toNat = s.user.view g origin n) ∧
    ∀ a, (∀ n, s.user.last n ≠ none → ¬ (addr g n ≤ a ∧ a < addr g n + g.blockSize.toNat)) →
      t.disk a = origin a

theorem Sys.Ok.faithful (h : s.Ok g origin) : Faithful g origin (InPlace g) s := by
  obtain ⟨free, lru, h⟩ := h
  refine ⟨?_, ?_, ?_⟩
  · intro n hen hok
    obtain ⟨t, _, _, hrun, _⟩ := read_shows h hen.1 (hok.1 n rfl) hok.2
    exact ⟨t, hrun⟩
  · intro n hen hok
    obtain ⟨i, t, _, _, hrun, hdata, _⟩ := get_shows h hen.1 (hok.1 n rfl) hok.2
    exact ⟨i, t, hrun, hdata⟩
  · intro _ hok
    obtain ⟨t, hrun, hco, hclean⟩ := h.flush (hok.2.imp_right not_not.mp)
    refine ⟨t, hrun, ?_, hco.content.outside⟩
    intro n hp
    exact hco.content.disk n (fun i hi _ => hclean i hi) hp

theorem bcacheCreate_ok {blocks : Nat → Block} {disk : Nat → UInt8}
    (h : bcacheCreate g blocks disk (fun _ => .done) = some c) :
    Sys.Ok g disk ⟨c, [], fun _ => none, fun _ => false⟩ := by
  obtain ⟨t, free, ht, hlinked, hdisk, hreplies, hblocks⟩ :=
    bcacheCreate_spec g blocks disk fun _ => .done
  rw [h] at ht
  cases ht
  refine ⟨free, [], hlinked, ?_, fun i _ => ⟨(hblocks i).1, (hblocks i).2.1⟩⟩
  refine ⟨List.nodup_nil, fun _ hi => absurd hi List.not_mem_nil, ?_, ?_,
    fun _ hi => absurd hi List.not_mem_nil, fun _ hk => absurd hk List.not_mem_nil,
    fun _ hi => absurd hi List.not_mem_nil, ?_, fun _ hp => Bool.noConfusion hp,
    fun _ _ hl => Option.noConfusion rfl (heq_of_eq hl)⟩
  · intro n _ _
    rw [hdisk]
    rfl
  · intro a _
    rw [hdisk]
  · intro k
    rw [hreplies]

/-- Without device errors and with a block to spare, a run shows and keeps the
contents of the file system, as long as no step writes a block back unless the
file system starts where the device does. -/
theorem filesystem_faithful {blocks : Nat → Block} {disk : Nat → UInt8}
    (hc : bcacheCreate g blocks disk (fun _ => .done) = some c)
    (h : (filesystem g c).Reachable (InPlace g) s) : Faithful g disk (InPlace g) s := by
  have hok : s.Ok g disk :=
    Machine.invariant (M := filesystem g c) (I := fun s => s.Ok g disk) (E := fun _ _ _ _ => False)
      (bcacheCreate_ok hc) (fun _ _ hs hen hok => Act.run_ok hs hen hok) h
  exact hok.faithful

/-- Two blocks of four bytes, at this place of the device. -/
def smallCache (fsOffset : UInt64) : Geometry where
  blockSize := 4
  count := 2
  fsOffset

theorem filesystem_faithful_zeroed : ∃ c s,
    bcacheCreate (smallCache 0) (fun _ => ⟨0, 0, false, []⟩) (fun _ => 7) (fun _ => .done) = some c ∧
      (filesystem (smallCache 0) c).Reachable (InPlace (smallCache 0)) s ∧
      s.user.last 3 = some [0, 0, 0, 0] ∧
      Faithful (smallCache 0) (fun _ => 7) (InPlace (smallCache 0)) s := by
  have hc : ∃ c, bcacheCreate (smallCache 0) (fun _ => ⟨0, 0, false, []⟩) (fun _ => 7)
      (fun _ => .done) = some c := ⟨_, rfl⟩
  obtain ⟨c, hc⟩ := hc
  have hplace : InPlace (smallCache 0) (filesystem (smallCache 0) c).init (.zero 3) := by
    refine ⟨?_, Or.inl rfl⟩
    rintro n rfl
    decide
  have hr : (filesystem (smallCache 0) c).Reachable (InPlace (smallCache 0))
      (stateOf ((Act.zero 3).run (smallCache 0) (filesystem (smallCache 0) c).init)) := by
    refine Machine.Reachable.step (M := filesystem (smallCache 0) c) (a := Act.zero 3)
      Machine.Reachable.init ⟨Nat.zero_lt_two, trivial⟩ hplace ?_
    cases hc
    rfl
  refine ⟨c, _, hc, hr, ?_, filesystem_faithful hc hr⟩
  cases hc
  rfl

/-- A file system at offset 16: the flush writes block 3 to byte 12, not to byte 28. -/
theorem flush_out_of_place : ¬ ∀ (g : Geometry) (blocks : Nat → Block) (disk : Nat → UInt8)
    (c : Cache) (s : Sys), bcacheCreate g blocks disk (fun _ => .done) = some c →
    (filesystem g c).Reachable (fun _ _ => True) s → Faithful g disk (fun _ _ => True) s := by
  intro hall
  have hc : ∃ c, bcacheCreate (smallCache 16) (fun _ => ⟨0, 0, false, []⟩) (fun _ => 7)
      (fun _ => .done) = some c := ⟨_, rfl⟩
  obtain ⟨c, hc⟩ := hc
  have hr : (filesystem (smallCache 16) c).Reachable (fun _ _ => True)
      (stateOf ((Act.zero 3).run (smallCache 16) (filesystem (smallCache 16) c).init)) := by
    refine Machine.Reachable.step (M := filesystem (smallCache 16) c) (a := Act.zero 3)
      Machine.Reachable.init ⟨Nat.zero_lt_two, trivial⟩ trivial ?_
    cases hc
    rfl
  have hf := (hall _ _ _ _ _ hc hr).flush ⟨by cases hc; decide, trivial⟩ trivial
  cases hc
  obtain ⟨t, hrun, hdisk, _⟩ := hf
  cases hrun
  have hbad := hdisk 3 rfl
  revert hbad
  decide

end TX2SecureUart.Bcache
