/-
# `Bcache.Contents` — what the block cache shows and what it leaves on the device

A block `n` of the file system has one content: what was last written to it in
the cache, or else what the device held at `fs_offset + n * block_size` when the
cache was made.  `Content` relates the blocks that are cached and the device to
that content.  Every move of a block keeps it but one: `flush_block` writes to
`n * block_size`, without the offset of the file system.
-/
import TX2SecureUart.Bcache.Errors

namespace TX2SecureUart.Bcache

open Prog ListNode ByteStore

/-! ## The users of the cache -/

/-- What the users of the cache did and still have. -/
structure User where
  /-- Block number and block of every pointer that was got and not put. -/
  handles : List (UInt32 × Nat)
  /-- The last contents written to a block. -/
  last : UInt32 → Option (List UInt8)
  /-- Written through a pointer and not yet marked dirty. -/
  pending : UInt32 → Bool

structure Sys where
  cache : Cache
  user : User

inductive Act where
  | read (n : UInt32)
  | get (n : UInt32)
  /-- Through the pointer to block `i` that was got for block number `n`. -/
  | write (n : UInt32) (i : Nat) (data : List UInt8)
  | put (n : UInt32)
  | mark (n : UInt32)
  | zero (n : UInt32)
  | flush

def onCache {α : Type} (m : BcacheM α) : EStateM Stop Sys α :=
  zoom Sys.cache (fun c s => { s with cache := c }) m

def onUser (f : User → User) : EStateM Stop Sys PUnit :=
  modify fun s => { s with user := f s.user }

def User.write (u : User) (n : UInt32) (data : List UInt8) (pending : Bool) : User :=
  { u with
    last := Function.update u.last n (some data)
    pending := Function.update u.pending n pending }

def Act.run (g : Geometry) : Act → EStateM Stop Sys PUnit
  | .read n => do
      let _ ← onCache (bcacheReadBlock g n)
  | .get n => do
      match ← onCache (bcacheGetBlock g n) with
      | (_, some i) => onUser fun u => { u with handles := (n, i) :: u.handles }
      | (_, none) => pure ⟨⟩
  | .write n i data => do
      onCache (setBlock i fun b => { b with data })
      onUser fun u => u.write n data true
  | .put n => do
      let _ ← onCache (bcachePutBlock g n)
      onUser fun u => { u with handles := u.handles.eraseP fun h => h.1 = n }
  | .mark n => do
      let _ ← onCache (bcacheMarkBlockDirty g n)
      onUser fun u => { u with pending := Function.update u.pending n false }
  | .zero n => do
      let e ← onCache (bcacheZeroBlock g n)
      if e = 0 then onUser fun u => u.write n (List.replicate g.blockSize.toNat 0) false
      else pure ⟨⟩
  | .flush => do
      let _ ← onCache (bcacheFlush g)

def User.count (u : User) (n : UInt32) : Nat := u.handles.countP fun h => h.1 = n

/-- The rules the users keep to. -/
def Act.Allowed (g : Geometry) (u : User) : Act → Prop
  | .write n i data => (n, i) ∈ u.handles ∧ data.length = g.blockSize.toNat
  | .put n => 0 < u.count n ∧ (u.pending n = true → 1 < u.count n)
  | _ => True

/-- Fewer blocks are held than the cache has, and the users keep to the rules. -/
def Enabled (g : Geometry) (s : Sys) (a : Act) : Prop :=
  (s.user.handles.map Prod.fst).dedup.length < g.count ∧ a.Allowed g s.user

def filesystem (g : Geometry) (c : Cache) : Machine Stop Sys Act where
  init := ⟨c, [], fun _ => none, fun _ => false⟩
  run := Act.run g
  Enabled := Enabled g

/-! ## The contents of a block -/

/-- Where block `n` of the file system is on the device. -/
def addr (g : Geometry) (n : UInt32) : Nat := g.fsOffset.toNat + n.toNat * g.blockSize.toNat

variable {g : Geometry} {origin : Nat → UInt8} {c c' : Cache} {u : User} {mem mem' rest : List Nat}
  {i : Nat} {m n : UInt32} {s t : Sys}

/-- The last contents written to block `n`, or what the device held at first. -/
def User.view (u : User) (g : Geometry) (origin : Nat → UInt8) (n : UInt32) : List UInt8 :=
  (u.last n).getD (slice origin (addr g n) g.blockSize.toNat)

theorem addr_toNat (h : addr g n < 2 ^ 64) :
    (g.fsOffset + n.toUInt64 * g.blockSize).toNat = addr g n := by
  unfold addr at h ⊢
  rw [UInt64.toNat_add, UInt64.toNat_mul, UInt32.toNat_toUInt64]
  have hmul : n.toNat * g.blockSize.toNat < 2 ^ 64 := by omega
  rw [Nat.mod_eq_of_lt hmul, Nat.mod_eq_of_lt h]

theorem flushAddr_toNat (h : addr g n < 2 ^ 64) (h0 : g.fsOffset = 0) :
    (n.toUInt64 * g.blockSize).toNat = addr g n := by
  rw [← addr_toNat h, h0, UInt64.zero_add]

/-- Two blocks lie apart. -/
theorem addr_apart (h : m ≠ n) :
    addr g m + g.blockSize.toNat ≤ addr g n ∨ addr g n + g.blockSize.toNat ≤ addr g m := by
  have hne : m.toNat ≠ n.toNat := fun he => h (UInt32.toNat_inj.mp he)
  unfold addr
  rcases Nat.lt_or_gt_of_ne hne with hlt | hlt
  · have := Nat.mul_le_mul_right g.blockSize.toNat (Nat.succ_le_of_lt hlt)
    rw [Nat.succ_mul] at this
    omega
  · have := Nat.mul_le_mul_right g.blockSize.toNat (Nat.succ_le_of_lt hlt)
    rw [Nat.succ_mul] at this
    omega

/-- The blocks `mem` of the cache and the device hold the contents of the file system. -/
structure Content (g : Geometry) (origin : Nat → UInt8) (c : Cache) (u : User) (mem : List Nat) :
    Prop where
  nums : (mem.map fun i => (c.blocks i).blocknum).Nodup
  data : ∀ i ∈ mem, (c.blocks i).data = u.view g origin (c.blocks i).blocknum
  /-- A block that is not cached, or clean, is on the device. -/
  disk : ∀ n, (∀ i ∈ mem, (c.blocks i).blocknum = n → (c.blocks i).isDirty = false) →
    u.pending n = false → slice c.disk (addr g n) g.blockSize.toNat = u.view g origin n
  outside : ∀ a, (∀ n, u.last n ≠ none → ¬ (addr g n ≤ a ∧ a < addr g n + g.blockSize.toNat)) →
    c.disk a = origin a
  counts : ∀ i ∈ mem, (c.blocks i).refCount = u.count (c.blocks i).blocknum
  handles : ∀ h ∈ u.handles, h.2 ∈ mem ∧ (c.blocks h.2).blocknum = h.1
  wraps : ∀ i ∈ mem, addr g (c.blocks i).blocknum < 2 ^ 64
  replies : ∀ k, c.replies k = .done
  pend : ∀ n, u.pending n = true → 0 < u.count n
  lens : ∀ n d, u.last n = some d → d.length = g.blockSize.toNat

theorem Content.length_view (h : Content g origin c u mem) (n : UInt32) :
    (u.view g origin n).length = g.blockSize.toNat := by
  rw [User.view]
  cases hd : u.last n with
  | none => exact length_slice ..
  | some d => exact h.lens n d hd

theorem Content.of_eq (h : Content g origin c u mem) (hb : ∀ i ∈ mem, c'.blocks i = c.blocks i)
    (hd : c'.disk = c.disk) (hr : ∀ k, c'.replies k = .done) : Content g origin c' u mem where
  nums := by
    have hmap : mem.map (fun i => (c'.blocks i).blocknum) = mem.map fun i => (c.blocks i).blocknum := by
      refine List.map_congr_left ?_
      intro i hi
      rw [hb i hi]
    rw [hmap]
    exact h.nums
  data := by
    intro i hi
    rw [hb i hi]
    exact h.data i hi
  disk := by
    intro n hn hp
    rw [hd]
    refine h.disk n ?_ hp
    intro i hi hin
    rw [← hb i hi] at hin ⊢
    exact hn i hi hin
  outside := by
    intro a ha
    rw [hd]
    exact h.outside a ha
  counts := by
    intro i hi
    rw [hb i hi]
    exact h.counts i hi
  handles := by
    intro k hk
    obtain ⟨hm, hn⟩ := h.handles k hk
    rw [hb _ hm]
    exact ⟨hm, hn⟩
  wraps := by
    intro i hi
    rw [hb i hi]
    exact h.wraps i hi
  replies := hr
  pend := h.pend
  lens := h.lens

theorem Content.perm (h : Content g origin c u mem) (hp : mem'.Perm mem) :
    Content g origin c u mem' where
  nums := (hp.map _).nodup_iff.mpr h.nums
  data := fun i hi => h.data i (hp.mem_iff.mp hi)
  disk := fun n hn => h.disk n fun i hi => hn i (hp.mem_iff.mpr hi)
  outside := h.outside
  counts := fun i hi => h.counts i (hp.mem_iff.mp hi)
  handles := fun k hk => ⟨hp.mem_iff.mpr (h.handles k hk).1, (h.handles k hk).2⟩
  wraps := fun i hi => h.wraps i (hp.mem_iff.mp hi)
  replies := h.replies
  pend := h.pend
  lens := h.lens

/-- A number has one block. -/
theorem Content.inj (h : Content g origin c u mem) {j : Nat} (hi : i ∈ mem) (hj : j ∈ mem)
    (he : (c.blocks i).blocknum = (c.blocks j).blocknum) : i = j :=
  List.inj_on_of_nodup_map h.nums hi hj he

/-- A number with a handle has a block. -/
theorem Content.exists_of_count (h : Content g origin c u mem) (hc : 0 < u.count n) :
    ∃ i ∈ mem, (c.blocks i).blocknum = n := by
  obtain ⟨k, hk, hkn⟩ := List.countP_pos_iff.mp hc
  obtain ⟨hm, hnum⟩ := h.handles k hk
  refine ⟨k.2, hm, ?_⟩
  rw [hnum]
  simpa using hkn

/-- A block that goes to the place where the file system has it. -/
theorem Content.writeBack (h : Content g origin c u mem) (hi : i ∈ mem) (h0 : g.fsOffset = 0) :
    Content g origin (c.writtenBack g i) u mem := by
  have haddr := flushAddr_toNat (h.wraps i hi) h0
  have hdisk : (c.writtenBack g i).disk
      = patch c.disk (addr g (c.blocks i).blocknum) (u.view g origin (c.blocks i).blocknum) := by
    show patch c.disk _ _ = _
    rw [haddr, h.data i hi]
  have hlen := h.length_view (c.blocks i).blocknum
  have hblock : ∀ j, ((c.writtenBack g i).blocks j).blocknum = (c.blocks j).blocknum ∧
      ((c.writtenBack g i).blocks j).data = (c.blocks j).data ∧
      ((c.writtenBack g i).blocks j).refCount = (c.blocks j).refCount ∧
      (j ≠ i → ((c.writtenBack g i).blocks j).isDirty = (c.blocks j).isDirty) := by
    intro j
    show (Function.update c.blocks i _ j).blocknum = _ ∧ (Function.update c.blocks i _ j).data = _ ∧
      (Function.update c.blocks i _ j).refCount = _ ∧ (_ → (Function.update c.blocks i _ j).isDirty = _)
    by_cases he : j = i
    · subst he
      rw [Function.update_self]
      exact ⟨rfl, rfl, rfl, fun hne => absurd rfl hne⟩
    · rw [Function.update_of_ne he]
      exact ⟨rfl, rfl, rfl, fun _ => rfl⟩
  refine ⟨?_, ?_, ?_, ?_, ?_, ?_, ?_, fun k => h.replies (k + 1), h.pend, h.lens⟩
  · rw [show (fun j => ((c.writtenBack g i).blocks j).blocknum) = fun j => (c.blocks j).blocknum from
      funext fun j => (hblock j).1]
    exact h.nums
  · intro j hj
    rw [(hblock j).1, (hblock j).2.1]
    exact h.data j hj
  · intro n hn hp
    rw [hdisk]
    by_cases hin : (c.blocks i).blocknum = n
    · rw [← hin]
      have := slice_patch c.disk (addr g (c.blocks i).blocknum)
        (u.view g origin (c.blocks i).blocknum)
      rwa [hlen] at this
    · rw [slice_patch_of_disjoint]
      · refine h.disk n ?_ hp
        intro j hj hjn
        have hji : j ≠ i := fun he => hin (he ▸ hjn)
        rw [← (hblock j).2.2.2 hji]
        exact hn j hj ((hblock j).1.trans hjn)
      · rw [hlen]
        exact addr_apart (fun he => hin he.symm)
  · intro a ha
    rw [hdisk]
    by_cases hin : addr g (c.blocks i).blocknum ≤ a ∧
        a < addr g (c.blocks i).blocknum + g.blockSize.toNat
    · -- the block was never written, so its contents are those of the device at first
      have hnone : u.last (c.blocks i).blocknum = none := by
        by_contra hne
        exact ha _ hne hin
      have hview : u.view g origin (c.blocks i).blocknum
          = slice origin (addr g (c.blocks i).blocknum) g.blockSize.toNat := by
        rw [User.view, hnone]
        rfl
      obtain ⟨k, rfl⟩ := Nat.exists_eq_add_of_le hin.1
      have hk : k < (slice origin (addr g (c.blocks i).blocknum) g.blockSize.toNat).length := by
        rw [length_slice]
        omega
      rw [hview, patch_add hk, getElem_slice]
    · rw [← h.outside a ha]
      by_cases hlt : a < addr g (c.blocks i).blocknum
      · exact patch_of_lt hlt
      · exact patch_of_ge (by omega)
  · intro j hj
    rw [(hblock j).1, (hblock j).2.2.1]
    exact h.counts j hj
  · intro k hk
    rw [(hblock k.2).1]
    exact h.handles k hk
  · intro j hj
    rw [(hblock j).1]
    exact h.wraps j hj

/-- A clean block that nobody holds may be forgotten. -/
theorem Content.drop (h : Content g origin c u mem) (hp : mem.Perm (i :: rest))
    (hheld : (c.blocks i).refCount = 0) (hclean : (c.blocks i).isDirty = false) :
    Content g origin c u rest := by
  have h := h.perm hp.symm
  have hcount : u.count (c.blocks i).blocknum = 0 := by
    have := h.counts i List.mem_cons_self
    rw [hheld] at this
    exact_mod_cast this.symm
  refine ⟨?_, ?_, ?_, h.outside, ?_, ?_, ?_, h.replies, h.pend, h.lens⟩
  · exact (List.nodup_cons.mp h.nums).2
  · exact fun j hj => h.data j (List.mem_cons_of_mem _ hj)
  · intro n hn
    refine h.disk n ?_
    intro j hj hjn
    cases List.mem_cons.mp hj with
    | inl he =>
        rw [he]
        exact hclean
    | inr hj => exact hn j hj hjn
  · exact fun j hj => h.counts j (List.mem_cons_of_mem _ hj)
  · intro k hk
    obtain ⟨hm, hnum⟩ := h.handles k hk
    refine ⟨(List.mem_cons.mp hm).resolve_left ?_, hnum⟩
    intro he
    have hpos : 0 < u.count (c.blocks i).blocknum := by
      refine List.countP_pos_iff.mpr ⟨k, hk, ?_⟩
      rw [← hnum, he]
      exact decide_eq_true rfl
    omega
  · exact fun j hj => h.wraps j (List.mem_cons_of_mem _ hj)

/-- The cache with block `i` overwritten. -/
def Cache.setBlock (c : Cache) (i : Nat) (b : Block) : Cache :=
  { c with blocks := Function.update c.blocks i b }

@[simp] theorem setBlock_self (c : Cache) (i : Nat) (b : Block) : (c.setBlock i b).blocks i = b :=
  Function.update_self ..

theorem setBlock_of_ne (c : Cache) (b : Block) {j : Nat} (h : j ≠ i) :
    (c.setBlock i b).blocks j = c.blocks j :=
  Function.update_of_ne h ..

/-- A block that takes over a number with its contents. -/
theorem Content.add (h : Content g origin c u rest) {b : Block} (hi : i ∉ rest)
    (hn : ∀ j ∈ rest, (c.blocks j).blocknum ≠ b.blocknum)
    (hdata : b.data = u.view g origin b.blocknum) (href : b.refCount = 0)
    (hw : addr g b.blocknum < 2 ^ 64) : Content g origin (c.setBlock i b) u (rest ++ [i]) := by
  have hold : ∀ j ∈ rest, (c.setBlock i b).blocks j = c.blocks j := fun j hj =>
    setBlock_of_ne c b (fun he => hi (he ▸ hj))
  have hcount : u.count b.blocknum = 0 := by
    by_contra hne
    obtain ⟨j, hj, hjn⟩ := h.exists_of_count (Nat.pos_of_ne_zero hne)
    exact hn j hj hjn
  have hcases : ∀ j ∈ rest ++ [i], j ∈ rest ∨ j = i := by
    intro j hj
    simpa using hj
  refine ⟨?_, ?_, ?_, h.outside, ?_, ?_, ?_, h.replies, h.pend, h.lens⟩
  · have hmap : rest.map (fun j => ((c.setBlock i b).blocks j).blocknum)
        = rest.map fun j => (c.blocks j).blocknum := by
      refine List.map_congr_left ?_
      intro j hj
      rw [hold j hj]
    rw [List.map_append, hmap, List.map_singleton, setBlock_self]
    refine List.nodup_append.mpr ⟨h.nums, List.nodup_singleton _, ?_⟩
    rintro m hm k hk rfl
    obtain ⟨j, hj, rfl⟩ := List.mem_map.mp hm
    exact hn j hj (List.mem_singleton.mp hk)
  · intro j hj
    obtain hj | rfl := hcases j hj
    · rw [hold j hj]
      exact h.data j hj
    · rw [setBlock_self]
      exact hdata
  · intro n hd
    refine h.disk n ?_
    intro j hj hjn
    rw [← hold j hj]
    refine hd j (List.mem_append_left _ hj) ?_
    rw [hold j hj]
    exact hjn
  · intro j hj
    obtain hj | rfl := hcases j hj
    · rw [hold j hj]
      exact h.counts j hj
    · rw [setBlock_self, href, hcount]
      rfl
  · intro k hk
    obtain ⟨hm, hnum⟩ := h.handles k hk
    refine ⟨List.mem_append_left _ hm, ?_⟩
    rw [hold _ hm]
    exact hnum
  · intro j hj
    obtain hj | rfl := hcases j hj
    · rw [hold j hj]
      exact h.wraps j hj
    · rw [setBlock_self]
      exact hw

/-- A block that is cached is changed in all but its number. -/
theorem Content.set (h : Content g origin c u mem) {u' : User} {b : Block} (hi : i ∈ mem)
    (hnum : b.blocknum = (c.blocks i).blocknum)
    (hviews : ∀ n, n ≠ b.blocknum → u'.last n = u.last n)
    (hdata : b.data = u'.view g origin b.blocknum)
    (hdisk : ∀ n, (n = b.blocknum → b.isDirty = false) → u'.pending n = false →
      u'.last n = u.last n ∧ (n = b.blocknum → (c.blocks i).isDirty = false) ∧ u.pending n = false)
    (hlast : u.last b.blocknum ≠ none → u'.last b.blocknum ≠ none)
    (hcount : b.refCount = u'.count b.blocknum)
    (hcounts : ∀ n, n ≠ b.blocknum → u'.count n = u.count n)
    (hhandles : ∀ k ∈ u'.handles, k ∈ u.handles ∨ k = (b.blocknum, i))
    (hpend : ∀ n, u'.pending n = true → 0 < u'.count n)
    (hlens : ∀ n d, u'.last n = some d → d.length = g.blockSize.toNat) :
    Content g origin (c.setBlock i b) u' mem := by
  have hnums : ∀ j, ((c.setBlock i b).blocks j).blocknum = (c.blocks j).blocknum := by
    intro j
    by_cases he : j = i
    · subst he
      rw [setBlock_self, hnum]
    · rw [setBlock_of_ne c b he]
  have hother : ∀ j ∈ mem, j ≠ i → (c.blocks j).blocknum ≠ b.blocknum := by
    intro j hj hne he
    exact hne (h.inj hj hi (he.trans hnum))
  refine ⟨?_, ?_, ?_, ?_, ?_, ?_, ?_, h.replies, hpend, hlens⟩
  · rw [show (fun j => ((c.setBlock i b).blocks j).blocknum) = fun j => (c.blocks j).blocknum from
      funext hnums]
    exact h.nums
  · intro j hj
    by_cases he : j = i
    · subst he
      rw [setBlock_self]
      exact hdata
    · rw [setBlock_of_ne c b he, h.data j hj, User.view, User.view, hviews _ (hother j hj he)]
  · intro n hd hp
    have hbn : n = b.blocknum → b.isDirty = false := by
      intro he
      have := hd i hi ((hnums i).trans (he.trans hnum).symm)
      rwa [setBlock_self] at this
    obtain ⟨hl, hclean, hp'⟩ := hdisk n hbn hp
    have hview : u'.view g origin n = u.view g origin n := by rw [User.view, User.view, hl]
    rw [hview]
    refine h.disk n ?_ hp'
    intro j hj hjn
    by_cases he : j = i
    · subst he
      exact hclean (hjn.symm.trans hnum.symm)
    · rw [← setBlock_of_ne c b he]
      exact hd j hj ((hnums j).trans hjn)
  · intro a ha
    refine h.outside a ?_
    intro n hn
    refine ha n ?_
    by_cases he : n = b.blocknum
    · subst he
      exact hlast hn
    · rw [hviews n he]
      exact hn
  · intro j hj
    by_cases he : j = i
    · subst he
      rw [setBlock_self]
      exact hcount
    · rw [setBlock_of_ne c b he, hcounts _ (hother j hj he)]
      exact h.counts j hj
  · intro k hk
    cases hhandles k hk with
    | inl hk =>
        obtain ⟨hm, hkn⟩ := h.handles k hk
        exact ⟨hm, (hnums _).trans hkn⟩
    | inr hk =>
        subst hk
        exact ⟨hi, (hnums i).trans hnum.symm⟩
  · intro j hj
    rw [hnums j]
    exact h.wraps j hj

/-- New contents, from the user's pointer or by `bcache_zero_block`. -/
theorem Content.store (h : Content g origin c u mem) {b : Block} {p : Bool} (hi : i ∈ mem)
    (hnum : b.blocknum = (c.blocks i).blocknum) (href : b.refCount = (c.blocks i).refCount)
    (hlen : b.data.length = g.blockSize.toNat) (hd : b.isDirty = true ∨ p = true)
    (hp : p = true → 0 < u.count b.blocknum) :
    Content g origin (c.setBlock i b) (u.write b.blocknum b.data p) mem := by
  refine h.set hi hnum ?_ ?_ ?_ ?_ ?_ (fun _ _ => rfl) (fun k hk => Or.inl hk) ?_ ?_
  · intro n hn
    exact Function.update_of_ne hn ..
  · rw [User.view]
    show _ = (Function.update u.last b.blocknum (some b.data) b.blocknum).getD _
    rw [Function.update_self]
    rfl
  · intro n hbn hpn
    by_cases he : n = b.blocknum
    · subst he
      have hpf : p = false := by
        have : Function.update u.pending b.blocknum p b.blocknum = false := hpn
        rwa [Function.update_self] at this
      rw [hbn rfl, hpf] at hd
      exact absurd hd (by simp)
    · have hpn' : Function.update u.pending b.blocknum p n = false := hpn
      rw [Function.update_of_ne he] at hpn'
      exact ⟨Function.update_of_ne he .., fun hn => absurd hn he, hpn'⟩
  · intro _
    show Function.update u.last b.blocknum (some b.data) b.blocknum ≠ none
    rw [Function.update_self]
    exact Option.some_ne_none _
  · rw [href, h.counts i hi, hnum]
    rfl
  · intro n hn
    have hn : Function.update u.pending b.blocknum p n = true := hn
    by_cases he : n = b.blocknum
    · subst he
      rw [Function.update_self] at hn
      exact hp hn
    · rw [Function.update_of_ne he] at hn
      exact h.pend n hn
  · intro n d hn
    have hn : Function.update u.last b.blocknum (some b.data) n = some d := hn
    by_cases he : n = b.blocknum
    · subst he
      rw [Function.update_self] at hn
      cases hn
      exact hlen
    · rw [Function.update_of_ne he] at hn
      exact h.lens n d hn

theorem Content.mark (h : Content g origin c u mem) (hi : i ∈ mem) (hn : (c.blocks i).blocknum = n) :
    Content g origin (c.setBlock i { c.blocks i with isDirty := true })
      { u with pending := Function.update u.pending n false } mem := by
  subst hn
  refine h.set hi rfl (fun _ _ => rfl) (h.data i hi) ?_ id (h.counts i hi) (fun _ _ => rfl)
    (fun k hk => Or.inl hk) ?_ h.lens
  · intro n hbn hp
    have hne : n ≠ (c.blocks i).blocknum := fun he => Bool.noConfusion (hbn he)
    have hp : Function.update u.pending (c.blocks i).blocknum false n = false := hp
    rw [Function.update_of_ne hne] at hp
    exact ⟨rfl, fun he => absurd he hne, hp⟩
  · intro n hn
    have hn : Function.update u.pending (c.blocks i).blocknum false n = true := hn
    by_cases he : n = (c.blocks i).blocknum
    · rw [he, Function.update_self] at hn
      cases hn
    · rw [Function.update_of_ne he] at hn
      exact h.pend n hn

theorem Content.get (h : Content g origin c u mem) (hi : i ∈ mem) (hn : (c.blocks i).blocknum = n) :
    Content g origin (c.setBlock i { c.blocks i with refCount := (c.blocks i).refCount + 1 })
      { u with handles := (n, i) :: u.handles } mem := by
  subst hn
  have hcons : ∀ m, User.count { u with handles := ((c.blocks i).blocknum, i) :: u.handles } m
      = u.count m + if (c.blocks i).blocknum = m then 1 else 0 := by
    intro m
    rw [User.count, List.countP_cons]
    simp [User.count]
  refine h.set hi rfl (fun _ _ => rfl) (h.data i hi) ?_ id ?_ ?_ ?_ ?_ h.lens
  · intro n hbn hp
    exact ⟨rfl, hbn, hp⟩
  · show (c.blocks i).refCount + 1 = _
    rw [h.counts i hi, hcons, if_pos rfl]
    rfl
  · intro m hm
    rw [hcons, if_neg (fun he => hm he.symm)]
    rfl
  · intro k hk
    exact (List.mem_cons.mp hk).symm
  · intro m hm
    rw [hcons]
    exact Nat.lt_of_lt_of_le (h.pend m hm) (Nat.le_add_right ..)

theorem Content.put (h : Content g origin c u mem) (hi : i ∈ mem) (hn : (c.blocks i).blocknum = n)
    (hc : 0 < u.count n) (hp : u.pending n = true → 1 < u.count n) :
    Content g origin (c.setBlock i { c.blocks i with refCount := (c.blocks i).refCount - 1 })
      { u with handles := u.handles.eraseP fun k => k.1 = n } mem := by
  subst hn
  obtain ⟨k, hk, hkn⟩ := List.countP_pos_iff.mp hc
  obtain ⟨k, l₁, l₂, _, hkn, hu, her⟩ := List.exists_of_eraseP
    (p := fun k : UInt32 × Nat => decide (k.1 = (c.blocks i).blocknum)) hk hkn
  have hkn : k.1 = (c.blocks i).blocknum := by simpa using hkn
  have hcount : ∀ m, u.count m = User.count { u with
      handles := u.handles.eraseP fun k => k.1 = (c.blocks i).blocknum } m
        + if (c.blocks i).blocknum = m then 1 else 0 := by
    intro m
    rw [User.count, User.count, her, hu, List.countP_append, List.countP_append, List.countP_cons, hkn]
    simp [Nat.add_assoc]
  have hself := hcount (c.blocks i).blocknum
  rw [if_pos rfl] at hself
  have hother : ∀ m, m ≠ (c.blocks i).blocknum →
      User.count { u with handles := u.handles.eraseP fun k => k.1 = (c.blocks i).blocknum } m
        = u.count m := by
    intro m hm
    rw [hcount m, if_neg (fun he => hm he.symm), Nat.add_zero]
  refine h.set hi rfl (fun _ _ => rfl) (h.data i hi) ?_ id ?_ hother ?_ ?_ h.lens
  · intro n hbn hp
    exact ⟨rfl, hbn, hp⟩
  · show (c.blocks i).refCount - 1 = _
    rw [h.counts i hi, hself, Nat.cast_add, Nat.cast_one, add_sub_cancel_right]
  · intro k hk
    exact Or.inl (List.mem_of_mem_eraseP hk)
  · intro m hm
    by_cases he : m = (c.blocks i).blocknum
    · subst he
      have := hp hm
      omega
    · rw [hother m he]
      exact h.pend m hm

end TX2SecureUart.Bcache
