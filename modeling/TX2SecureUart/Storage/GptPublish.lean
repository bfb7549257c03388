/-
# `Storage.GptPublish` — the partitions of a GPT

`tegrabl_gpt_publish` has its own idea of an entry: 128 bytes each, as many as
the buffer has, and used when the last LBA is past the first.  The table has
`num_entries` entries of `entry_size` bytes, used when the type GUID is not zero.
The lists agree exactly when the two ideas do on the entries that there are.
-/
import TX2SecureUart.Storage.GptTable

namespace TX2SecureUart.Storage

open Prog ByteStore

variable {dev : Bdev} {heap : Heap} {disk : Disk} {g : Gpt} {e : GptEntry}

/-! ## Entries and partitions -/

/-- An entry that stands for a partition. -/
def GptEntry.used (e : GptEntry) : Bool :=
  e.ptypeGuid.any (fun b => decide (b ≠ 0)) && decide (e.firstLba ≤ e.lastLba)

def GptEntry.sectors (e : GptEntry) : Nat := e.lastLba.toNat - e.firstLba.toNat + 1

def Gpt.entries (g : Gpt) : List GptEntry :=
  (List.range g.numEntries).map fun i => gptEntry (field g.table (i * g.entrySize) g.entrySize)

/-- What looks like entries after the table. -/
def Gpt.restEntries (g : Gpt) : List GptEntry := (List.range (g.rest.length / 128)).map (entryAt g.rest)

/-- A partition, with its numbers as they are. -/
structure Partition where
  name : List UInt8
  guid : List UInt8
  ptypeGuid : List UInt8
  start : Nat
  sectors : Nat
  bytes : Nat

def PartitionInfo.val (p : PartitionInfo) : Partition :=
  ⟨p.name, p.guid, p.ptypeGuid, p.startSector.toNat, p.numSectors.toNat, p.totalSize.toNat⟩

/-- The partition that an entry stands for. -/
def GptEntry.partition (dev : Bdev) (e : GptEntry) : Partition where
  name := e.pname.map fun u => (u &&& 0xFF).toUInt8
  guid := guidToStr e.uniqueGuid
  ptypeGuid := guidToStr e.ptypeGuid
  start := e.firstLba.toNat
  sectors := e.sectors
  bytes := e.sectors * dev.B

/-- The partitions of a table, in its order. -/
def Gpt.partitions (g : Gpt) (dev : Bdev) : List Partition :=
  (g.entries.filter GptEntry.used).map (GptEntry.partition dev)

/-! ## The loops of `tegrabl_gpt_publish` -/

theorem publishLoop_eq (dev : Bdev) (n : Nat) (done : List PartitionInfo) (es : List GptEntry)
    (h : n = done.length + es.countP GptEntry.taken) :
    publishLoop dev n done es = done ++ (es.filter GptEntry.taken).map (publishEntry dev) := by
  induction es generalizing done with
  | nil => simp [publishLoop]
  | cons e es ih =>
      by_cases ht : e.lastLba ≤ e.firstLba
      · have hskip : e.taken = false := decide_eq_false (UInt64.not_lt.mpr ht)
        rw [publishLoop, if_pos ht, List.filter_cons, hskip]
        rw [List.countP_cons, hskip] at h
        exact ih done h
      · have htake : e.taken = true := decide_eq_true (UInt64.not_le.mp ht)
        rw [publishLoop, if_neg ht, List.filter_cons, htake, if_pos rfl, List.map_cons]
        rw [List.countP_cons, htake, if_pos rfl] at h
        have hlen : (done ++ [publishEntry dev e]).length = done.length + 1 := by simp
        by_cases hfull : (done ++ [publishEntry dev e]).length = n
        · have hnone : es.countP GptEntry.taken = 0 := by omega
          have hnil : es.filter GptEntry.taken = [] := by
            rw [← List.length_eq_zero_iff, ← List.countP_eq_length_filter]
            exact hnone
          rw [if_pos hfull, hnil]
          rfl
        · rw [if_neg hfull, ih _ (by omega), List.append_assoc]
          rfl

/-- All that the code sees in its buffer. -/
def areaEntries (area : List UInt8) : List GptEntry :=
  (List.range gptMaxPartitionEntries).map (entryAt area)

/-- A buffer with nothing to take is an error. -/
theorem publishArea_run (dev : Bdev) (disk : Disk) (area : List UInt8) :
    ((areaEntries area).filter GptEntry.taken = [] ∧ Refused (gptPublishArea dev area) disk) ∨
    ((areaEntries area).filter GptEntry.taken ≠ [] ∧ gptPublishArea dev area disk
      = .ok (((areaEntries area).filter GptEntry.taken).map (publishEntry dev)) disk) := by
  have hcount : (areaEntries area).countP GptEntry.taken = 0 ↔
      (areaEntries area).filter GptEntry.taken = [] := by
    rw [← List.length_eq_zero_iff, List.countP_eq_length_filter]
  by_cases hn : (areaEntries area).countP GptEntry.taken = 0
  · exact Or.inl ⟨hcount.mp hn, tegrablError .gpt .noMemory 1, congrFun (if_pos hn) disk⟩
  · refine Or.inr ⟨fun hnil => hn (hcount.mpr hnil), (congrFun (if_neg hn) disk).trans ?_⟩
    show EStateM.Result.ok (publishLoop dev ((areaEntries area).countP GptEntry.taken) []
      (areaEntries area)) disk = _
    rw [publishLoop_eq dev _ [] _ (Nat.zero_add _).symm, List.nil_append]

/-- A list that is published is not empty. -/
theorem publish_ne_nil {offset : UInt64} {infos : List PartitionInfo} {t : Disk}
    (h : tegrablGptPublish dev heap offset disk = .ok infos t) : infos ≠ [] := by
  simp only [tegrablGptPublish, run_bind] at h
  cases hread : tegrablGptRead dev heap offset disk with
  | error f s =>
      rw [hread] at h
      cases h
  | ok area s =>
      rw [hread] at h
      have h : gptPublishArea dev area s = .ok infos t := h
      obtain ⟨_, _, herr⟩ | ⟨hne, hok⟩ := publishArea_run dev s area
      · rw [herr] at h
        cases h
      · rw [hok] at h
        cases h
        exact fun hnil => hne (List.map_eq_nil_iff.mp hnil)

/-! ## The buffer -/

theorem entryAt_append_left {x y : List UInt8} {n k : Nat} (hx : x.length = 128 * n) (hk : k < n) :
    entryAt (x ++ y) k = entryAt x k := by
  have hdrop : ((x ++ y).drop (128 * k)).take 128 = (x.drop (128 * k)).take 128 := by
    rw [List.drop_append_of_le_length (by omega), List.take_append_of_le_length]
    rw [List.length_drop]
    omega
  rw [entryAt, entryAt, field, field, hdrop]

theorem entryAt_append_right {x y : List UInt8} {n : Nat} (hx : x.length = 128 * n) (k : Nat) :
    entryAt (x ++ y) (n + k) = entryAt y k := by
  have hdrop : (x ++ y).drop (128 * (n + k)) = y.drop (128 * k) := by
    rw [Nat.mul_add, ← hx, ← List.drop_drop, List.drop_left]
  rw [entryAt, entryAt, field, field, hdrop]

/-- Entries of two buffers, one behind the other. -/
theorem entries_append {x y : List UInt8} {n : Nat} (hx : x.length = 128 * n) (m : Nat) :
    (List.range (n + m)).map (entryAt (x ++ y)) =
      (List.range n).map (entryAt x) ++ (List.range m).map (entryAt y) := by
  rw [List.range_add, List.map_append, List.map_map]
  congr 1
  · refine List.map_congr_left ?_
    intro k hk
    exact entryAt_append_left hx (List.mem_range.mp hk)
  · refine List.map_congr_left ?_
    intro k _
    exact entryAt_append_right hx k

theorem leNat_replicate (n : Nat) : leNat (List.replicate n 0) = 0 := by
  induction n with
  | zero => rfl
  | succ n ih =>
      rw [List.replicate_succ, leNat, ih]
      rfl

theorem field_replicate (n off m : Nat) :
    field (List.replicate n 0) off m = List.replicate (min m (n - off)) 0 := by
  rw [field, List.drop_replicate, List.take_replicate]

/-- Zeros are no entry that the code takes. -/
theorem taken_replicate (n k : Nat) : (entryAt (List.replicate n 0) k).taken = false := by
  refine decide_eq_false ?_
  simp only [entryAt, gptEntry, le64, field_replicate, leNat_replicate]
  exact UInt64.lt_irrefl _

/-- A table of 128-byte entries, whose last block fits the buffer. -/
structure Gpt.Sized (g : Gpt) : Prop where
  entrySize : g.entrySize = 128
  table : g.table.length = 128 * g.numEntries
  rest : 128 ∣ g.rest.length
  fits : g.table.length + g.rest.length ≤ gptTableArea

theorem Gpt.Sized.entries_eq (h : g.Sized) : g.entries = (List.range g.numEntries).map (entryAt g.table) := by
  refine List.map_congr_left ?_
  intro i _
  rw [entryAt, h.entrySize, Nat.mul_comm]

/-- The code takes entries from the table and from what is after it. -/
theorem Gpt.Sized.area_taken (h : g.Sized) :
    (areaEntries g.area).filter GptEntry.taken = (g.entries ++ g.restEntries).filter GptEntry.taken := by
  obtain ⟨m, hm⟩ := h.rest
  have hfits : g.table.length + g.rest.length ≤ 128 * 128 := h.fits
  have htable := h.table
  have hcount : gptMaxPartitionEntries = g.numEntries + (m + (128 - g.numEntries - m)) := by
    show 128 = _
    omega
  have hrest : g.rest.length / 128 = m := by
    rw [hm]
    exact Nat.mul_div_cancel_left _ (by norm_num)
  have hzeros : ((List.range (128 - g.numEntries - m)).map (entryAt (List.replicate
      (gptTableArea - (g.table.length + g.rest.length)) 0))).filter GptEntry.taken = [] := by
    refine List.filter_eq_nil_iff.mpr ?_
    intro e he
    obtain ⟨k, _, rfl⟩ := List.mem_map.mp he
    rw [taken_replicate]
    exact Bool.false_ne_true
  rw [areaEntries, Gpt.area, hcount, List.append_assoc, entries_append h.table, entries_append hm,
    ← List.append_assoc, List.filter_append, hzeros, List.append_nil, h.entries_eq, Gpt.restEntries,
    hrest]

/-! ## The two lists -/

def GptEntry.Fits (dev : Bdev) (e : GptEntry) : Prop := e.sectors * dev.B < 2 ^ 64

theorem taken_lt (h : e.taken = true) : e.firstLba.toNat < e.lastLba.toNat :=
  UInt64.lt_iff_toNat_lt.mp (of_decide_eq_true h)

theorem used_iff : e.used = true ↔
    e.ptypeGuid.any (fun b => decide (b ≠ 0)) = true ∧ e.firstLba.toNat ≤ e.lastLba.toNat := by
  rw [GptEntry.used, Bool.and_eq_true, decide_eq_true_eq, UInt64.le_iff_toNat_le]

theorem numSectors_toNat (dev : Bdev) (h : e.taken = true) :
    (publishEntry dev e).numSectors.toNat = e.sectors % 2 ^ 64 := by
  have hlt := taken_lt h
  show (e.lastLba - e.firstLba + 1).toNat = _
  rw [UInt64.toNat_add, UInt64.toNat_sub_of_le _ _ (by rw [UInt64.le_iff_toNat_le]; exact hlt.le)]
  rfl

theorem totalSize_toNat (hk : dev.blockSizeLog2.toNat < 64) (h : e.taken = true) :
    (publishEntry dev e).totalSize.toNat = e.sectors * dev.B % 2 ^ 64 := by
  have hnum := numSectors_toNat dev h
  have hnum : (e.lastLba - e.firstLba + 1).toNat = e.sectors % 2 ^ 64 := hnum
  show ((e.lastLba - e.firstLba + 1) <<< dev.blockSizeLog2.toUInt64).toNat = _
  rw [UInt64.toNat_shiftLeft, toNat_shift_mod hk, Nat.shiftLeft_eq, hnum, Nat.mod_mul_mod]
  rfl

/-- An entry that is taken gives its partition when its bytes can be counted. -/
theorem val_publishEntry (hk : dev.blockSizeLog2.toNat < 64) (h : e.taken = true) :
    (publishEntry dev e).val = e.partition dev ↔ e.Fits dev := by
  have hnum := numSectors_toNat dev h
  have htotal := totalSize_toNat hk h
  constructor
  · intro hval
    have hbytes : (publishEntry dev e).totalSize.toNat = e.sectors * dev.B :=
      congrArg Partition.bytes hval
    rw [GptEntry.Fits, ← hbytes]
    exact (publishEntry dev e).totalSize.toNat_lt
  · intro hfits
    have hsec : e.sectors < 2 ^ 64 :=
      Nat.lt_of_le_of_lt (Nat.le_mul_of_pos_right _ dev.B_pos) hfits
    rw [Nat.mod_eq_of_lt hsec] at hnum
    rw [Nat.mod_eq_of_lt hfits] at htotal
    rw [PartitionInfo.val, hnum, htotal]
    rfl

theorem setHex_zero : ∀ b : UInt8, setHex b = setHex 0 → b = 0 := by
  decide +kernel

/-- Where `guid_to_str` puts the digits of each byte. -/
def guidPlaces : List Nat := [6, 4, 2, 0, 11, 9, 16, 14, 19, 21, 24, 26, 28, 30, 32, 34]

theorem guidToStr_at (guid : List UInt8) {i : Nat} (h : i < 16) :
    ((guidToStr guid).drop (guidPlaces.getD i 0)).take 2 = setHex (guid.getD i 0) := by
  interval_cases i <;> rfl

theorem any_ne_zero {l : List UInt8} (hl : l.length ≤ 16) :
    l.any (fun x => decide (x ≠ 0)) = false ↔ ∀ i < 16, l.getD i 0 = 0 := by
  rw [List.any_eq_false]
  constructor
  · intro h i _
    by_cases hi : i < l.length
    · rw [List.getD_eq_getElem _ _ hi]
      have := h _ (List.getElem_mem hi)
      simpa using this
    · exact List.getD_eq_default _ _ (Nat.le_of_not_lt hi)
  · intro h x hx
    obtain ⟨i, hi, rfl⟩ := List.getElem_of_mem hx
    have := h i (by omega)
    rw [List.getD_eq_getElem _ _ hi] at this
    simpa using this

/-- The string of the zero GUID is that of no other. -/
theorem guidToStr_zero {a b : List UInt8} (ha : a.length ≤ 16) (hb : b.length ≤ 16)
    (hz : a.any (fun x => decide (x ≠ 0)) = false) (h : guidToStr b = guidToStr a) :
    b.any (fun x => decide (x ≠ 0)) = false := by
  refine (any_ne_zero hb).mpr ?_
  intro i hi
  have hdigits := guidToStr_at b hi
  rw [h, guidToStr_at a hi, (any_ne_zero ha).mp hz i hi] at hdigits
  exact setHex_zero _ hdigits.symm

/-- What the type GUID of an entry can be. -/
theorem ptypeGuid_length (b : List UInt8) : (gptEntry b).ptypeGuid.length ≤ 16 := List.length_take_le _ _

/-- Entries `L` of a table and `M` after it: what is taken from both is what the
table lists if and only if what is used is what is taken, every partition has a
size, and nothing is taken from `M`. -/
theorem listing_iff (hk : dev.blockSizeLog2.toNat < 64) (L M : List GptEntry)
    (hL : ∀ e ∈ L ++ M, e.ptypeGuid.length ≤ 16) :
    (((L ++ M).filter GptEntry.taken).map (publishEntry dev)).map PartitionInfo.val
        = (L.filter GptEntry.used).map (GptEntry.partition dev) ↔
      (∀ e ∈ L, e.used = e.taken) ∧ (∀ e ∈ L, e.used = true → e.Fits dev) ∧ ∀ e ∈ M, e.taken = false := by
  constructor
  · intro hsame
    have hto : ∀ e ∈ L, e.used = true → e.taken = true := by
      intro e he hu
      by_contra ht
      have hmem : e.partition dev ∈ (L.filter GptEntry.used).map (GptEntry.partition dev) :=
        List.mem_map_of_mem (List.mem_filter.mpr ⟨he, hu⟩)
      rw [← hsame, List.map_map] at hmem
      obtain ⟨e', he', hval⟩ := List.mem_map.mp hmem
      have ht' : e'.taken = true := (List.mem_filter.mp he').2
      have hsec : (publishEntry dev e').numSectors.toNat = e.sectors := congrArg Partition.sectors hval
      rw [numSectors_toNat dev ht'] at hsec
      have hlt := taken_lt ht'
      have hmax := e'.lastLba.toNat_lt
      have hle := (used_iff.mp hu).2
      have hge : ¬ e.firstLba.toNat < e.lastLba.toNat := fun h =>
        ht (decide_eq_true (UInt64.lt_iff_toNat_lt.mpr h))
      rw [GptEntry.sectors, GptEntry.sectors] at hsec
      omega
    have hof : ∀ e ∈ L, e.taken = true → e.used = true := by
      intro e he ht
      have hmem : (publishEntry dev e).val ∈
          (((L ++ M).filter GptEntry.taken).map (publishEntry dev)).map PartitionInfo.val :=
        List.mem_map_of_mem (List.mem_map_of_mem (List.mem_filter.mpr
          ⟨List.mem_append_left _ he, ht⟩))
      rw [hsame] at hmem
      obtain ⟨e', he', hval⟩ := List.mem_map.mp hmem
      obtain ⟨hmem', hu'⟩ := List.mem_filter.mp he'
      have hguid : guidToStr e'.ptypeGuid = guidToStr e.ptypeGuid := congrArg Partition.ptypeGuid hval
      refine used_iff.mpr ⟨?_, (taken_lt ht).le⟩
      by_contra hz
      have hnone := guidToStr_zero (hL e (List.mem_append_left _ he))
        (hL e' (List.mem_append_left _ hmem')) (Bool.not_eq_true _ ▸ hz) hguid
      rw [(used_iff.mp hu').1] at hnone
      cases hnone
    have hagree : ∀ e ∈ L, e.used = e.taken := fun e he =>
      Bool.eq_iff_iff.mpr ⟨hto e he, hof e he⟩
    have hfilter : L.filter GptEntry.used = L.filter GptEntry.taken := List.filter_congr hagree
    rw [hfilter, List.filter_append] at hsame
    have hlen := congrArg List.length hsame
    simp only [List.length_map, List.length_append] at hlen
    have hM : M.filter GptEntry.taken = [] := List.length_eq_zero_iff.mp (by omega)
    rw [hM, List.append_nil, List.map_map] at hsame
    refine ⟨hagree, ?_, ?_⟩
    · intro e he hu
      have ht := hto e he hu
      have hval := List.map_inj_left.mp hsame e (List.mem_filter.mpr ⟨he, ht⟩)
      exact (val_publishEntry hk ht).mp hval
    · intro e he
      exact Bool.not_eq_true _ ▸ List.filter_eq_nil_iff.mp hM e he
  · rintro ⟨hagree, hfits, hM⟩
    have hnil : M.filter GptEntry.taken = [] := by
      refine List.filter_eq_nil_iff.mpr ?_
      intro e he
      rw [hM e he]
      exact Bool.false_ne_true
    rw [List.filter_append, hnil, List.append_nil, List.filter_congr hagree, List.map_map]
    refine List.map_congr_left ?_
    intro e he
    obtain ⟨hmem, ht⟩ := List.mem_filter.mp he
    exact (val_publishEntry hk ht).mpr (hfits e hmem (by rw [hagree e hmem]; exact ht))

/-! ## From the device to the list -/

/-- The blocks that the code reads are the ones with the header and the table in
them, and the table has entries of 128 bytes. -/
structure Readable (dev : Bdev) (disk : Disk) (offset : UInt64) : Prop where
  blockSize : dev.blockSizeLog2.toNat ≤ 14
  aligned : offset.toNat % dev.B = 0
  block : offset.toNat / dev.B + 1 < 2 ^ 32
  table : ∀ p ∈ gptPlaces dev offset, HeaderGood (slice disk p 92) dev.blockCount.toNat →
    (headerAt disk p).entrySize.toNat = 128 ∧
      (headerAt disk p).tableStartLba.toNat + (headerAt disk p).tableBlocks dev < 2 ^ 32

/-- What the code finds where a GPT is looked for. -/
def Answers (dev : Bdev) (heap : Heap) (disk : Disk) (o : UInt64) (p : Nat) : Prop :=
  Refused (tegrablGptReadValidate dev heap o) disk ∧ (∀ g, gptAt dev disk p = some g → g.table = []) ∨
    ∃ g, gptAt dev disk p = some g ∧ tegrablGptReadValidate dev heap o disk = .ok g.area disk

theorem readFirst_run {os : List UInt64} {ps : List Nat}
    (h : List.Forall₂ (Answers dev heap disk) os ps) :
    (∀ g, ps.findSome? (gptAt dev disk) = some g → g.table ≠ [] →
      gptReadFirst dev heap os disk = .ok g.area disk) ∧
    (ps.findSome? (gptAt dev disk) = none → Refused (gptReadFirst dev heap os) disk) := by
  induction h with
  | nil =>
      refine ⟨?_, fun _ => gptFail_refused _ _⟩
      intro g hg
      cases hg
  | @cons o p os ps hop _ ih =>
      obtain ⟨⟨e, herr⟩, hempty⟩ | ⟨g₀, hg₀, hok⟩ := hop
      · have hstep : gptReadFirst dev heap (o :: os) disk = gptReadFirst dev heap os disk := by
          simp only [gptReadFirst, herr]
        cases hp : gptAt dev disk p with
        | none =>
            rw [List.findSome?_cons_of_isNone (by rw [hp]; rfl)]
            simp only [Refused, hstep]
            exact ih
        | some g₀ =>
            rw [List.findSome?_cons_of_isSome (by rw [hp]; rfl), hp]
            refine ⟨?_, ?_⟩
            · intro g hg hne
              cases hg
              exact absurd (hempty g₀ hp) hne
            · intro hnone
              cases hnone
      · have hstep : gptReadFirst dev heap (o :: os) disk = .ok g₀.area disk := by
          simp only [gptReadFirst, hok]
        rw [List.findSome?_cons_of_isSome (by rw [hg₀]; rfl), hg₀]
        refine ⟨?_, ?_⟩
        · intro g hg _
          cases hg
          exact hstep
        · intro hnone
          cases hnone

theorem answers_of_readable (heap : Heap) {offset o : UInt64} (hr : dev.ref ≠ 0) (h : Readable dev disk offset)
    (hmem : o.toNat ∈ gptPlaces dev offset) (hmod : o.toNat % dev.B = 0)
    (hlow : o.toNat / dev.B + 1 < 2 ^ 32) : Answers dev heap disk o o.toNat :=
  readValidate_cases dev heap disk hr h.blockSize hmod hlow fun hg => (h.table _ hmem hg).2

/-- A device without blocks has no header. -/
theorem answers_empty (hr : dev.ref ≠ 0) (hz : dev.blockCount = 0) (o : UInt64) (p : Nat) :
    Answers dev heap disk o p := by
  have hsize : dev.size.toNat = 0 := by
    have := dev.size_eq
    rw [hz] at this
    rw [this]
    exact Nat.zero_mul _
  refine Or.inl ⟨?_, ?_⟩
  · have hpast : ∀ b : UInt32, (decide (b > dev.blockCount) || decide (b + 1 > dev.blockCount)) = true := by
      intro b
      rw [hz, Bool.or_eq_true, decide_eq_true_eq, decide_eq_true_eq, gt_iff_lt, gt_iff_lt,
        UInt32.lt_iff_toNat_lt, UInt32.lt_iff_toNat_lt, UInt32.toNat_add]
      have hb := b.toNat_lt
      show 0 < b.toNat ∨ 0 < (b.toNat + 1) % 2 ^ 32
      omega
    refine ⟨(tegrablError .blockDev .overflow 1).setHighestModule .gpt, ?_⟩
    simp only [tegrablGptReadValidate, run_bind, underModule, tegrablBlockdevReadBlock,
      if_neg (show ¬ (1 : UInt32) = 0 by decide), heap_bufferAligned dev heap, Bool.not_true,
      Bool.false_eq_true, if_false, if_neg hr, hpast, if_true]
    rfl
  · intro g hg
    have := (gptAt_eq_some hg).1
    omega

/-- What `tegrabl_gpt_read` finds is the GPT of the device. -/
theorem gptRead_run (heap : Heap) {offset : UInt64} (hr : dev.ref ≠ 0) (h : Readable dev disk offset) :
    (∀ g, findGpt dev disk offset = some g → g.table ≠ [] →
      tegrablGptRead dev heap offset disk = .ok g.area disk) ∧
    (findGpt dev disk offset = none → Refused (tegrablGptRead dev heap offset) disk) := by
  have hmem := h.table
  unfold tegrablGptRead findGpt
  by_cases ho : offset > 0
  · have hplace : gptPlaces dev offset = [offset.toNat] := if_pos ho
    have hin : offset.toNat ∈ gptPlaces dev offset := by
      rw [hplace]
      exact List.mem_singleton_self _
    have hans : Answers dev heap disk offset offset.toNat :=
      answers_of_readable heap hr h hin h.aligned h.block
    rw [hplace, if_pos ho]
    exact readFirst_run (.cons hans .nil)
  · have hplace : gptPlaces dev offset = [dev.B, dev.size.toNat - dev.B] := if_neg ho
    have hB : dev.B ≤ 2 ^ 14 := Nat.pow_le_pow_right (by norm_num) h.blockSize
    have hpos := dev.B_pos
    have hk : dev.blockSizeLog2.toNat < 64 := Nat.lt_of_le_of_lt h.blockSize (by norm_num)
    have hblock : dev.blockSize.toUInt32.toUInt64.toNat = dev.B := by
      rw [UInt32.toNat_toUInt64, UInt64.toNat_toUInt32, Bdev.blockSize_toNat hk]
      show dev.B % 2 ^ 32 = _
      exact Nat.mod_eq_of_lt (by omega)
    rw [if_neg ho, hplace]
    by_cases hz : dev.blockCount = 0
    · exact readFirst_run (.cons (answers_empty hr hz _ _) (.cons (answers_empty hr hz _ _) .nil))
    have hbc : 0 < dev.blockCount.toNat := by
      refine Nat.pos_of_ne_zero ?_
      intro h
      exact hz (UInt32.toNat_inj.mp h)
    have hlt := dev.blockCount.toNat_lt
    have hsize : dev.size.toNat = dev.blockCount.toNat * dev.B := dev.size_eq
    have hlast : dev.size.toNat - dev.B = (dev.blockCount.toNat - 1) * dev.B := by
      rw [Nat.sub_mul, Nat.one_mul, hsize]
    have hle : dev.B ≤ dev.size.toNat := by
      rw [hsize]
      exact Nat.le_mul_of_pos_left _ hbc
    have hsub : (dev.size - dev.blockSize.toUInt32.toUInt64).toNat = dev.size.toNat - dev.B := by
      rw [UInt64.toNat_sub_of_le _ _ (by rw [UInt64.le_iff_toNat_le, hblock]; exact hle), hblock]
    have hfirst : Answers dev heap disk dev.blockSize.toUInt32.toUInt64 dev.B := by
      have := answers_of_readable heap (o := dev.blockSize.toUInt32.toUInt64) hr h
        (by rw [hblock, hplace]; exact List.mem_cons_self)
        (by rw [hblock]; exact Nat.mod_self _) (by rw [hblock, Nat.div_self hpos]; norm_num)
      rwa [hblock] at this
    have hsecond : Answers dev heap disk (dev.size - dev.blockSize.toUInt32.toUInt64)
        (dev.size.toNat - dev.B) := by
      have := answers_of_readable heap (o := dev.size - dev.blockSize.toUInt32.toUInt64) hr h
        (by rw [hsub, hplace]; exact List.mem_cons_of_mem _ (List.mem_singleton_self _))
        (by rw [hsub, hlast]; exact Nat.mul_mod_left _ _)
        (by rw [hsub, hlast, Nat.mul_div_cancel _ hpos]; show _ < 4294967296; omega)
      rwa [hsub] at this
    exact readFirst_run (.cons hfirst (.cons hsecond .nil))

/-- The table of a header that was found is one of 128-byte entries that fits. -/
theorem sized_of_find {offset : UInt64} (h : Readable dev disk offset)
    (hg : findGpt dev disk offset = some g) : g.Sized := by
  obtain ⟨p, hp, hat⟩ := List.exists_of_findSome?_eq_some hg
  obtain ⟨_, hgood, _, _, rfl⟩ := gptAt_eq_some hat
  obtain ⟨hes, _⟩ := h.table p hp hgood
  obtain ⟨_, harea⟩ := tableSize_toNat hgood.numEntries hgood.entrySize
  have hcover := tableBlocks_covers dev (headerAt disk p)
  have hblocks := tableBlocks_le dev h.blockSize harea
  have hsize : (headerAt disk p).tableSize = 128 * (headerAt disk p).numEntries.toNat := by
    rw [GptHeader.tableSize, hes, Nat.mul_comm]
  have hblock : 128 ∣ dev.B := Nat.pow_dvd_pow 2 (show 7 ≤ _ by have := dev.log2_ge; omega)
  refine ⟨hes, ?_, ?_, ?_⟩
  · show (slice disk _ (headerAt disk p).tableSize).length = _
    rw [length_slice, hsize]
    rfl
  · show 128 ∣ (slice disk _ ((headerAt disk p).tableBlocks dev * dev.B
      - (headerAt disk p).tableSize)).length
    rw [length_slice]
    refine Nat.dvd_sub (hblock.mul_left _) ?_
    rw [hsize]
    exact Nat.dvd_mul_right 128 _
  · show (slice disk _ (headerAt disk p).tableSize).length + (slice disk _
      ((headerAt disk p).tableBlocks dev * dev.B - (headerAt disk p).tableSize)).length ≤ _
    rw [length_slice, length_slice, Nat.add_sub_cancel' hcover]
    exact hblocks

/-- The call publishes the partitions of the GPT that the device has, and fails on
a device without one. -/
def PublishesExactly (dev : Bdev) (heap : Heap) (disk : Disk) (offset : UInt64) : Prop :=
  (∀ g, findGpt dev disk offset = some g → ∃ infos,
    tegrablGptPublish dev heap offset disk = .ok infos disk ∧
      infos.map PartitionInfo.val = g.partitions dev) ∧
  (findGpt dev disk offset = none → Refused (tegrablGptPublish dev heap offset) disk)

/-- A table with an entry in use, whose entries are in use exactly when the last
LBA is past the first, of partitions whose bytes 64 bits can count, and with
nothing after it in its last block that looks like an entry. -/
structure Gpt.Plain (dev : Bdev) (g : Gpt) : Prop where
  any : ∃ e ∈ g.entries, e.used = true
  agree : ∀ e ∈ g.entries, e.used = e.taken
  fits : ∀ e ∈ g.entries, e.used = true → e.Fits dev
  rest : ∀ e ∈ g.restEntries, e.taken = false

theorem ptypeGuid_le {e : GptEntry} (h : e ∈ g.entries ++ g.restEntries) : e.ptypeGuid.length ≤ 16 := by
  obtain h | h := List.mem_append.mp h
  · obtain ⟨_, _, rfl⟩ := List.mem_map.mp h
    exact ptypeGuid_length _
  · obtain ⟨_, _, rfl⟩ := List.mem_map.mp h
    exact ptypeGuid_length _

/-- A table with entries has bytes. -/
theorem Gpt.Sized.table_ne_nil (h : g.Sized) (hne : g.entries ≠ []) : g.table ≠ [] := by
  intro hnil
  have htable := h.table
  rw [hnil, List.length_nil] at htable
  refine hne ?_
  rw [Gpt.entries, show g.numEntries = 0 by omega]
  rfl

theorem plain_of_publishes {offset : UInt64} (hr : dev.ref ≠ 0) (h : Readable dev disk offset)
    (hpub : PublishesExactly dev heap disk offset) (hg : findGpt dev disk offset = some g) :
    g.Plain dev := by
  have hsized := sized_of_find h hg
  have hk : dev.blockSizeLog2.toNat < 64 := Nat.lt_of_le_of_lt h.blockSize (by norm_num)
  obtain ⟨infos, hok, hsame⟩ := hpub.1 g hg
  have hne : g.partitions dev ≠ [] := by
    rw [← hsame]
    exact fun hnil => publish_ne_nil hok (List.map_eq_nil_iff.mp hnil)
  have hany : ∃ e ∈ g.entries, e.used = true := by
    by_contra hnone
    refine hne ?_
    rw [Gpt.partitions, List.filter_eq_nil_iff.mpr fun e he hu => hnone ⟨e, he, hu⟩]
    rfl
  have htable : g.table ≠ [] := by
    obtain ⟨e, he, _⟩ := hany
    exact hsized.table_ne_nil (List.ne_nil_of_mem he)
  have hread := (gptRead_run heap hr h).1 g hg htable
  have hstep : tegrablGptPublish dev heap offset disk = gptPublishArea dev g.area disk := by
    simp only [tegrablGptPublish, run_bind, hread]
  obtain ⟨_, _, herr⟩ | ⟨_, hrun⟩ := publishArea_run dev disk g.area
  · rw [hstep, herr] at hok
    cases hok
  · rw [hstep, hrun, hsized.area_taken] at hok
    cases hok
    obtain ⟨hagree, hfits, hrest⟩ := (listing_iff hk g.entries g.restEntries fun e =>
      ptypeGuid_le).mp hsame
    exact ⟨hany, hagree, hfits, hrest⟩

theorem publishes_of_plain (heap : Heap) {offset : UInt64} (hr : dev.ref ≠ 0) (h : Readable dev disk offset)
    (hg : findGpt dev disk offset = some g) (hp : g.Plain dev) : ∃ infos,
    tegrablGptPublish dev heap offset disk = .ok infos disk ∧
      infos.map PartitionInfo.val = g.partitions dev := by
  have hsized := sized_of_find h hg
  have hk : dev.blockSizeLog2.toNat < 64 := Nat.lt_of_le_of_lt h.blockSize (by norm_num)
  obtain ⟨e, he, hu⟩ := hp.any
  have hread := (gptRead_run heap hr h).1 g hg (hsized.table_ne_nil (List.ne_nil_of_mem he))
  have hstep : tegrablGptPublish dev heap offset disk = gptPublishArea dev g.area disk := by
    simp only [tegrablGptPublish, run_bind, hread]
  obtain ⟨hnil, _⟩ | ⟨_, hrun⟩ := publishArea_run dev disk g.area
  · rw [hsized.area_taken] at hnil
    have hmem : e ∈ (g.entries ++ g.restEntries).filter GptEntry.taken :=
      List.mem_filter.mpr ⟨List.mem_append_left _ he, hp.agree e he ▸ hu⟩
    rw [hnil] at hmem
    cases hmem
  · rw [hsized.area_taken] at hrun
    exact ⟨_, hstep.trans hrun, (listing_iff hk g.entries g.restEntries fun e => ptypeGuid_le).mpr
      ⟨hp.agree, hp.fits, hp.rest⟩⟩

/-- Eight blocks of 512 bytes. -/
def eightBlocks : Bdev where
  ref := 1
  size := 4096
  blockSizeLog2 := 9
  blockCount := 8
  bufAlignSize := 4
  log2_ge := sector_log2_ge
  size_eq := by decide
  align_dvd := word_dvd

def gptHeap : Heap where
  addr := fun _ => 4096
  nonnull := fun _ => page_nonnull
  aligned := fun _ => page_aligned

/-- A primary header in block 1, and in block 2 a table with one partition, from
block 3 to `last`. -/
def onePartition (hdrCrc tableCrc last : Nat) : Disk :=
  patch (patch (fun _ => 0) 512
    (efiPart ++ leBytes 4 0x10000 ++ leBytes 4 92 ++ leBytes 4 hdrCrc ++ leBytes 4 0 ++ leBytes 8 1
      ++ leBytes 8 7 ++ leBytes 8 3 ++ leBytes 8 7 ++ List.replicate 16 0 ++ leBytes 8 2
      ++ leBytes 4 1 ++ leBytes 4 128 ++ leBytes 4 tableCrc)) 1024
    (List.replicate 16 0xA2 ++ List.replicate 16 0x11 ++ leBytes 8 3 ++ leBytes 8 last ++ leBytes 8 0
      ++ [0x62, 0, 0x6F, 0, 0x6F, 0, 0x74, 0])

theorem findGpt_onePartition {hdrCrc tableCrc last : Nat}
    (h : gptAt eightBlocks (onePartition hdrCrc tableCrc last) 512
      = some (tableAt eightBlocks (onePartition hdrCrc tableCrc last) 512)) :
    findGpt eightBlocks (onePartition hdrCrc tableCrc last) 0
      = some (tableAt eightBlocks (onePartition hdrCrc tableCrc last) 512) := by
  have hplaces : gptPlaces eightBlocks 0 = [512, 3584] := by decide
  rw [findGpt, hplaces, List.findSome?_cons_of_isSome (by rw [h]; rfl), h]

theorem readable_onePartition {hdrCrc tableCrc last : Nat}
    (hp : (headerAt (onePartition hdrCrc tableCrc last) 512).entrySize.toNat = 128 ∧
      (headerAt (onePartition hdrCrc tableCrc last) 512).tableStartLba.toNat
        + (headerAt (onePartition hdrCrc tableCrc last) 512).tableBlocks eightBlocks < 2 ^ 32)
    (hs : (headerAt (onePartition hdrCrc tableCrc last) 3584).signature ≠ efiPart) :
    Readable eightBlocks (onePartition hdrCrc tableCrc last) 0 := by
  refine ⟨by decide, by decide, by decide, ?_⟩
  have hplaces : gptPlaces eightBlocks 0 = [512, 3584] := by decide
  intro p hmem hgood
  rw [hplaces] at hmem
  obtain rfl | hmem := List.mem_cons.mp hmem
  · exact hp
  · obtain rfl := List.mem_singleton.mp hmem
    exact absurd hgood.signature hs

theorem gptAt_onePartition : gptAt eightBlocks (onePartition 0xAF701CC2 0x727B8021 5) 512
    = some (tableAt eightBlocks (onePartition 0xAF701CC2 0x727B8021 5) 512) := by
  refine if_pos ?_
  decide +kernel

theorem readable_three : Readable eightBlocks (onePartition 0xAF701CC2 0x727B8021 5) 0 :=
  readable_onePartition (by decide +kernel) (by decide +kernel)

theorem plain_three :
    (tableAt eightBlocks (onePartition 0xAF701CC2 0x727B8021 5) 512).Plain eightBlocks := by
  refine ⟨by decide +kernel, by decide +kernel, ?_, by decide +kernel⟩
  show ∀ e ∈ (tableAt eightBlocks (onePartition 0xAF701CC2 0x727B8021 5) 512).entries,
    e.used = true → e.sectors * eightBlocks.B < 2 ^ 64
  decide +kernel

end TX2SecureUart.Storage
