/-
# `Bcache.Lists` — the two lists of the block cache

`Linked` says that `free_list` and `lru_list` are rings that hold every block
exactly once between them.  `bcache_create` makes them so.  Each operation is
then described on the two lists of block indices: what a lookup finds, and the
ways an allocation can end.
-/
import TX2SecureUart.Bcache.Cache

namespace TX2SecureUart.Bcache

open Prog ListNode ByteStore

/-- The two rings hold every block, and each block once. -/
structure Linked (count : Nat) (L : Links Node) (free lru : List Nat) : Prop where
  freeRing : Ring L .freeList (free.map .block)
  lruRing : Ring L .lruList (lru.map .block)
  nodup : (free ++ lru).Nodup
  all : ∀ i, i ∈ free ++ lru ↔ i < count

variable {g : Geometry} {count : Nat} {L : Links Node} {free lru l₁ l₂ : List Nat} {i : Nat}
  {s : Cache}

theorem mem_map_block {l : List Nat} : Node.block i ∈ l.map Node.block ↔ i ∈ l := by
  simp

theorem Linked.lru_length (h : Linked count L free lru) : lru.length ≤ count := by
  have hsub : lru ⊆ List.range count := by
    intro i hi
    exact List.mem_range.mpr ((h.all i).mp (List.mem_append_right _ hi))
  have hnd : lru.Nodup := (List.nodup_append.mp h.nodup).2.1
  simpa using (hnd.subperm hsub).length_le

theorem Linked.not_mem_free (h : Linked count L free lru) (hi : i ∈ lru) : i ∉ free := by
  intro hf
  exact (List.nodup_append.mp h.nodup).2.2 i hf i hi rfl

theorem Linked.lru_nodup (h : Linked count L free lru) : lru.Nodup :=
  (List.nodup_append.mp h.nodup).2.1

/-! ## Moves between the lists -/

/-- A block of the lru list, taken out and added at the tail. -/
theorem Linked.toTail (h : Linked count L free (l₁ ++ i :: l₂)) :
    ∃ L₁ L₂, L.listDelete (.block i) = some L₁ ∧ L₁.listAddTail .lruList (.block i) = some L₂ ∧
      Linked count L₂ free (l₁ ++ l₂ ++ [i]) := by
  have hmem : i ∈ l₁ ++ i :: l₂ := by simp
  have hfree := h.not_mem_free hmem
  have hperm : (l₁ ++ l₂ ++ [i]).Perm (l₁ ++ i :: l₂) := by
    rw [List.append_assoc]
    exact (List.perm_append_singleton i l₂).append_left l₁
  have hlru := h.lruRing
  rw [List.map_append, List.map_cons] at hlru
  obtain ⟨L₁, hdel, hring₁, hoff₁, _⟩ := hlru.listDelete
  have hnd : i ∉ l₁ ++ l₂ := (List.nodup_cons.mp ((List.nodup_middle).mp h.lru_nodup)).1
  have hx : Node.block i ∉ Node.lruList :: (l₁.map Node.block ++ l₂.map Node.block) := by
    intro hm
    rw [← List.map_append] at hm
    exact hnd (mem_map_block.mp ((List.mem_cons.mp hm).resolve_left (by simp)))
  obtain ⟨L₂, hadd, hring₂, hoff₂⟩ := hring₁.listAddTail hx
  have hdisj : ∀ a ∈ Node.freeList :: free.map Node.block,
      a ∉ Node.lruList :: (l₁ ++ i :: l₂).map Node.block := by
    intro a ha hb
    cases List.mem_cons.mp ha with
    | inl ha =>
        subst ha
        simp at hb
    | inr ha =>
        obtain ⟨j, hj, rfl⟩ := List.mem_map.mp ha
        refine h.not_mem_free ?_ hj
        exact mem_map_block.mp ((List.mem_cons.mp hb).resolve_left (by simp))
  refine ⟨L₁, L₂, hdel, hadd, ?_, ?_, ?_, ?_⟩
  · refine (h.freeRing.frame hoff₁ ?_).frame hoff₂ ?_
    · intro a ha
      have := hdisj a ha
      rwa [List.map_append, List.map_cons] at this
    · intro a ha hb
      refine hdisj a ha ?_
      simp only [List.map_append, List.map_cons, List.mem_cons, List.mem_append] at hb ⊢
      tauto
  · simpa using hring₂
  · exact (hperm.append_left free).nodup_iff.mpr h.nodup
  · intro j
    exact (hperm.append_left free).mem_iff.trans (h.all j)

/-- The first block of the free list, taken off and added to the lru list. -/
theorem Linked.pop (h : Linked count L (i :: free) lru) :
    ∃ L₁ L₂, L.listRemoveHead .freeList = some (some (.block i), L₁) ∧
      L₁.listAddTail .lruList (.block i) = some L₂ ∧ Linked count L₂ free (lru ++ [i]) := by
  have hlru : i ∉ lru := fun hi => h.not_mem_free hi List.mem_cons_self
  obtain ⟨L₁, hrem, hring₁, hoff₁, _⟩ := h.freeRing.listRemoveHead
  have hapart : ∀ a ∈ Node.lruList :: lru.map Node.block,
      a ∉ Node.freeList :: (i :: free).map Node.block := by
    intro a ha hb
    cases List.mem_cons.mp ha with
    | inl ha =>
        subst ha
        simp at hb
    | inr ha =>
        obtain ⟨j, hj, rfl⟩ := List.mem_map.mp ha
        exact h.not_mem_free hj (mem_map_block.mp ((List.mem_cons.mp hb).resolve_left (by simp)))
  have hring := h.lruRing.frame hoff₁ hapart
  have hx : Node.block i ∉ Node.lruList :: lru.map Node.block := by
    intro hm
    exact hlru (mem_map_block.mp ((List.mem_cons.mp hm).resolve_left (by simp)))
  obtain ⟨L₂, hadd, hring₂, hoff₂⟩ := hring.listAddTail hx
  have hperm : (free ++ (lru ++ [i])).Perm (i :: free ++ lru) := by
    rw [← List.append_assoc]
    exact List.perm_append_singleton i (free ++ lru)
  refine ⟨L₁, L₂, hrem, hadd, hring₁.frame hoff₂ ?_, ?_, hperm.nodup_iff.mpr h.nodup, ?_⟩
  · intro a ha hb
    cases List.mem_cons.mp hb with
    | inl hb =>
        subst hb
        have : i ∈ free := mem_map_block.mp ((List.mem_cons.mp ha).resolve_left (by simp))
        exact (List.nodup_cons.mp (List.nodup_append.mp h.nodup).1).1 this
    | inr hb =>
        refine hapart a hb ?_
        rw [List.map_cons]
        simp only [List.mem_cons] at ha ⊢
        tauto
  · simpa using hring₂
  · intro j
    exact hperm.mem_iff.trans (h.all j)

/-- A walk over the lru list finds the first block that meets the test. -/
theorem Linked.search (h : Linked g.count s.links free lru) (p : Block → Bool) :
    s.search g p = some ((lru.find? fun i => p (s.blocks i)).map Node.block) := by
  have hlen : (lru.map Node.block).length < g.count + 3 := by
    rw [List.length_map]
    have := h.lru_length
    omega
  have hp : ∀ x ∈ lru.map Node.block,
      s.entry p x = some (((s.entry p x).getD false)) := by
    intro x hx
    obtain ⟨j, _, rfl⟩ := List.mem_map.mp hx
    rfl
  rw [Cache.search, h.lruRing.find hp hlen, List.find?_map]
  rfl

/-! ## Creation -/

theorem linked_listAddHead {n : Nat} (h : Linked n L free []) :
    ∃ L', L.listAddHead .freeList (.block n) = some L' ∧ Linked (n + 1) L' (n :: free) [] := by
  have hn : n ∉ free := by
    intro hm
    exact Nat.lt_irrefl n ((h.all n).mp (List.mem_append_left _ hm))
  have hx : Node.block n ∉ Node.freeList :: free.map Node.block := by
    intro hm
    exact hn (mem_map_block.mp ((List.mem_cons.mp hm).resolve_left (by simp)))
  obtain ⟨L', hadd, hring, hoff⟩ := h.freeRing.listAddHead hx
  refine ⟨L', hadd, hring, h.lruRing.frame hoff ?_, ?_, ?_⟩
  · intro a ha
    obtain rfl : a = Node.lruList := by simpa using ha
    simp
  · rw [List.append_nil]
    exact List.nodup_cons.mpr ⟨hn, by simpa using h.nodup⟩
  · intro j
    have := h.all j
    rw [List.append_nil] at this ⊢
    rw [List.mem_cons, this]
    omega

theorem linked_foldlM (n : Nat) (h : Linked 0 L [] []) :
    ∃ L' free, (List.range n).foldlM (fun L i => L.listAddHead .freeList (.block i)) L = some L' ∧
      Linked n L' free [] := by
  induction n with
  | zero => exact ⟨L, [], rfl, h⟩
  | succ n ih =>
      obtain ⟨L₁, free, hfold, hlinked⟩ := ih
      obtain ⟨L₂, hadd, hlinked⟩ := linked_listAddHead hlinked
      refine ⟨L₂, n :: free, ?_, hlinked⟩
      rw [List.range_succ, List.foldlM_append, hfold]
      simpa using hadd

theorem linked_heads (L : Links Node) :
    Linked 0 ((L.listInitialize .freeList).listInitialize .lruList) [] [] where
  freeRing := by
    refine (ring_listInitialize Node.freeList L).frame (sameOff_listInitialize Node.lruList _) ?_
    intro a ha
    obtain rfl : a = Node.freeList := by simpa using ha
    simp
  lruRing := ring_listInitialize Node.lruList _
  nodup := List.nodup_nil
  all := fun i => by simp

/-- A new cache has every block on the free list, not held and clean. -/
theorem bcacheCreate_spec (g : Geometry) (blocks : Nat → Block) (disk : Nat → UInt8)
    (replies : Nat → Reply) :
    ∃ s free, bcacheCreate g blocks disk replies = some s ∧ Linked g.count s.links free [] ∧
      s.disk = disk ∧ s.replies = replies ∧
      ∀ i, (s.blocks i).refCount = 0 ∧ (s.blocks i).isDirty = false ∧
        (s.blocks i).data = (blocks i).data := by
  obtain ⟨L, free, hfold, hlinked⟩ := linked_foldlM g.count (linked_heads ⟨fun _ => none, fun _ => none⟩)
  refine ⟨⟨L, fun i => { blocks i with refCount := 0, isDirty := false }, disk, replies⟩, free, ?_,
    hlinked, rfl, rfl, fun i => ⟨rfl, rfl, rfl⟩⟩
  simp only [bcacheCreate, hfold, Option.bind_eq_bind, Option.bind_some]
  rfl

/-! ## The operations on the two lists -/

theorem moveToTail_run (h : Linked g.count s.links free (l₁ ++ i :: l₂)) :
    ∃ L, moveToTail i s = .ok (some i) { s with links := L } ∧
      Linked g.count L free (l₁ ++ l₂ ++ [i]) := by
  obtain ⟨L₁, L₂, hdel, hadd, hlinked⟩ := h.toTail
  refine ⟨L₂, ?_, hlinked⟩
  simp only [moveToTail, onLinks, run_bind, run_get, hdel, run_modify, hadd, run_pure]

theorem searchLru_run (h : Linked g.count s.links free lru) (p : Block → Bool) :
    searchLru g p s = .ok (lru.find? fun i => p (s.blocks i)) s := by
  simp only [searchLru, run_bind, run_get, h.search p]
  cases lru.find? fun i => p (s.blocks i) <;> rfl

/-- The ways `find_block` can end. -/
inductive Found (g : Geometry) (s : Cache) (free lru : List Nat) (n : UInt32) :
    Option Nat → Cache → Prop
  | hit {l₁ l₂ : List Nat} {i : Nat} {L : Links Node} (hlru : lru = l₁ ++ i :: l₂)
      (hnum : (s.blocks i).blocknum = n) (hlinked : Linked g.count L free (l₁ ++ l₂ ++ [i])) :
      Found g s free lru n (some i) { s with links := L }
  | miss (hnone : ∀ i ∈ lru, (s.blocks i).blocknum ≠ n) : Found g s free lru n none s

theorem findBlock_found (h : Linked g.count s.links free lru) (n : UInt32) :
    ∃ r t, findBlock g n s = .ok r t ∧ Found g s free lru n r t := by
  have hs := searchLru_run h fun b => b.blocknum = n
  cases hf : lru.find? fun i => decide ((s.blocks i).blocknum = n) with
  | none =>
      refine ⟨none, s, ?_, .miss ?_⟩
      · rw [findBlock, run_bind, hs, hf]
        rfl
      · intro i hi
        simpa using List.find?_eq_none.mp hf i hi
  | some i =>
      obtain ⟨hnum, l₁, l₂, rfl, _⟩ := List.find?_eq_some_iff_append.mp hf
      obtain ⟨L, hrun, hlinked⟩ := moveToTail_run h
      refine ⟨some i, _, ?_, .hit rfl (by simpa using hnum) hlinked⟩
      rw [findBlock, run_bind, hs, hf]
      exact hrun

/-- The cache after block `i` went to the device. -/
def Cache.writtenBack (g : Geometry) (s : Cache) (i : Nat) : Cache :=
  { s with
    disk := patch s.disk ((s.blocks i).blocknum.toUInt64 * g.blockSize).toNat (s.blocks i).data
    replies := fun k => s.replies (k + 1)
    blocks := Function.update s.blocks i { s.blocks i with isDirty := false } }

/-- The cache after a transfer of block `i` to the device that failed. -/
def Cache.notWritten (g : Geometry) (s : Cache) (i : Nat) (left : Nat → UInt8) : Cache :=
  { s with
    disk := patch s.disk ((s.blocks i).blocknum.toUInt64 * g.blockSize).toNat
      (slice left 0 (s.blocks i).data.length)
    replies := fun k => s.replies (k + 1) }

theorem flushBlock_done (h : s.replies 0 = .done) :
    flushBlock g i s = .ok 0 (s.writtenBack g i) := by
  simp only [flushBlock, tegrablBlockdevWrite, run_bind, run_get, h, run_set, run_pure, if_true,
    setBlock, run_modify]
  rfl

theorem flushBlock_failed {left : Nat → UInt8} (h : s.replies 0 = .failed left) :
    flushBlock g i s = .ok errGeneric (s.notWritten g i left) := by
  simp only [flushBlock, tegrablBlockdevWrite, run_bind, run_get, h, run_set, run_pure]
  rfl

/-- The free list has no block. -/
def Cache.NoFree (s : Cache) : Prop := s.links.next .freeList = some .freeList

/-- The first block nobody holds, from the longest unused on. -/
def Cache.victim (g : Geometry) (s : Cache) : Option Nat :=
  match s.search g fun b => b.refCount = 0 with
  | some (some (.block i)) => some i
  | _ => none

theorem Linked.noFree (h : Linked count s.links free lru) : s.NoFree ↔ free = [] := by
  rw [Cache.NoFree, h.freeRing.next_head]
  cases free <;> simp

theorem Linked.victim (h : Linked g.count s.links free lru) :
    s.victim g = lru.find? fun i => decide ((s.blocks i).refCount = 0) := by
  rw [Cache.victim, h.search]
  cases lru.find? fun i => decide ((s.blocks i).refCount = 0) <;> rfl

/-- The ways `alloc_block` can end. -/
inductive Alloc (g : Geometry) (s : Cache) (free lru : List Nat) : Option Nat → Cache → Prop
  /-- The first block of the free list. -/
  | popped {free' : List Nat} {i : Nat} {L : Links Node} (hfree : free = i :: free')
      (hlinked : Linked g.count L free' (lru ++ [i])) :
      Alloc g s free lru (some i) { s with
        links := L
        blocks := Function.update s.blocks i { s.blocks i with refCount := 0 } }
  /-- The first block nobody holds, clean. -/
  | reused {l₁ l₂ : List Nat} {i : Nat} {L : Links Node} (hfree : free = [])
      (hlru : lru = l₁ ++ i :: l₂) (hvictim : s.victim g = some i)
      (hdirty : (s.blocks i).isDirty = false) (hlinked : Linked g.count L free (l₁ ++ l₂ ++ [i])) :
      Alloc g s free lru (some i) { s with links := L }
  /-- The first block nobody holds, written back. -/
  | evicted {l₁ l₂ : List Nat} {i : Nat} {L : Links Node} (hfree : free = [])
      (hlru : lru = l₁ ++ i :: l₂) (hvictim : s.victim g = some i)
      (hdirty : (s.blocks i).isDirty = true) (hreply : s.replies 0 = .done)
      (hlinked : Linked g.count L free (l₁ ++ l₂ ++ [i])) :
      Alloc g s free lru (some i) { s.writtenBack g i with links := L }
  /-- The first block nobody holds cannot be written back. -/
  | stuck {l₁ l₂ : List Nat} {i : Nat} {left : Nat → UInt8} (hfree : free = [])
      (hlru : lru = l₁ ++ i :: l₂) (hvictim : s.victim g = some i)
      (hdirty : (s.blocks i).isDirty = true) (hreply : s.replies 0 = .failed left) :
      Alloc g s free lru none (s.notWritten g i left)
  /-- Every block is held. -/
  | full (hfree : free = []) (hvictim : s.victim g = none) :
      Alloc g s free lru none s

theorem allocBlock_reuse (h : Linked g.count s.links [] lru)
    (hrem : listRemoveHeadType s = .ok none s) :
    ∃ r t, allocBlock g s = .ok r t ∧ Alloc g s [] lru r t := by
  have hs := searchLru_run h fun b => b.refCount = 0
  cases hf : lru.find? fun i => decide ((s.blocks i).refCount = 0) with
  | none =>
      refine ⟨none, s, ?_, .full rfl (h.victim.trans hf)⟩
      simp only [allocBlock, run_bind, hrem, hs, hf, run_pure]
  | some i =>
      have hvictim := h.victim.trans hf
      obtain ⟨_, l₁, l₂, rfl, _⟩ := List.find?_eq_some_iff_append.mp hf
      cases hd : (s.blocks i).isDirty with
      | false =>
          obtain ⟨L, hrun, hlinked⟩ := moveToTail_run h
          refine ⟨some i, _, ?_, .reused rfl rfl hvictim hd hlinked⟩
          simp only [allocBlock, run_bind, hrem, hs, hf, run_get, hd, Bool.false_eq_true, if_false]
          exact hrun
      | true =>
          cases hreply : s.replies 0 with
          | done =>
              have h' : Linked g.count (s.writtenBack g i).links [] (l₁ ++ i :: l₂) := h
              obtain ⟨L, hrun, hlinked⟩ := moveToTail_run h'
              refine ⟨some i, _, ?_, .evicted rfl rfl hvictim hd hreply hlinked⟩
              simp only [allocBlock, run_bind, hrem, hs, hf, run_get, hd, if_true,
                flushBlock_done hreply, ne_eq, not_true_eq_false, if_false]
              exact hrun
          | failed left =>
              refine ⟨none, _, ?_, .stuck rfl rfl hvictim hd hreply⟩
              simp only [allocBlock, run_bind, hrem, hs, hf, run_get, hd, if_true,
                flushBlock_failed hreply]
              rfl

theorem allocBlock_alloc (h : Linked g.count s.links free lru) :
    ∃ r t, allocBlock g s = .ok r t ∧ Alloc g s free lru r t := by
  cases free with
  | nil =>
      refine allocBlock_reuse h ?_
      have hrem : s.links.listRemoveHead .freeList = some (none, s.links) :=
        h.freeRing.listRemoveHead_nil
      unfold listRemoveHeadType
      rw [run_bind, run_get]
      simp only [hrem]
      rfl
  | cons i free =>
      obtain ⟨L₁, L₂, hrem, hadd, hlinked⟩ := h.pop
      refine ⟨some i, _, ?_, .popped rfl hlinked⟩
      simp only [allocBlock, listRemoveHeadType, run_bind, run_get, hrem, run_modify, run_pure,
        setBlock, onLinks, hadd]

end TX2SecureUart.Bcache
