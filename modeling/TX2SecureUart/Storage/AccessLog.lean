/-
# `Storage.AccessLog` — the blocks that a range is moved in

A read or a write of a range asks the driver for blocks of the range only, in
whichever access the device fails; and when it fails on a range in the device, it
is the device that failed.
-/
import TX2SecureUart.Storage.Exact
import TX2SecureUart.Storage.Partition

namespace TX2SecureUart.Storage

open Prog ByteStore

variable {b : Behaviour} {dev : Bdev} {heap : Heap} {s t u : PartState} {lo hi : Nat} {r r' : Rest}
  {offset len : UInt64} {data : List UInt8} {a : Access}

/-! ## Accesses and the log -/

/-- An access to blocks from `lo` up to `hi`. -/
def Access.Within (lo hi : Nat) (a : Access) : Prop :=
  lo ≤ a.block.toNat ∧ a.block.toNat + a.count.toNat ≤ hi

/-- From one state to the other, nothing happened but accesses to such blocks. -/
structure Grows (lo hi : Nat) (s t : PartState) : Prop where
  offset : t.offset = s.offset
  log : ∃ l, t.log = s.log ++ l ∧ ∀ a ∈ l, a.Within lo hi

theorem Grows.refl (lo hi : Nat) (s : PartState) : Grows lo hi s s :=
  ⟨rfl, [], (List.append_nil _).symm, fun _ h => absurd h List.not_mem_nil⟩

theorem Grows.trans (h : Grows lo hi s t) (h' : Grows lo hi t u) : Grows lo hi s u := by
  obtain ⟨l, hl, hin⟩ := h.log
  obtain ⟨l', hl', hin'⟩ := h'.log
  refine ⟨h'.offset.trans h.offset, l ++ l', ?_, ?_⟩
  · rw [hl', hl, List.append_assoc]
  · intro a ha
    exact (List.mem_append.mp ha).elim (hin a) (hin' a)

theorem Grows.access (s : PartState) (h : a.Within lo hi) :
    Grows lo hi s { s with log := s.log ++ [a] } := by
  refine ⟨rfl, [a], rfl, ?_⟩
  intro a' ha
  rw [List.mem_singleton.mp ha]
  exact h

/-- An error, because the device failed in one of these blocks. -/
def Denied (b : Behaviour) (lo hi : Nat) (f : Fault) : Prop :=
  (∃ e, f = .err e) ∧ ∃ a : Access, a.Within lo hi ∧ b.fails a ≠ none

theorem wp_access (h : a.Within lo hi) :
    wp (b.access a) (fun _ t => Grows lo hi s t) (fun f t => Grows lo hi s t ∧ Denied b lo hi f) s := by
  simp only [Behaviour.access, wp_bind, wp_modify]
  cases hf : b.fails a with
  | none => exact Grows.access s h
  | some e =>
      have hne : b.fails a ≠ none := by
        rw [hf]
        exact Option.some_ne_none e
      exact ⟨Grows.access s h, ⟨e, rfl⟩, a, h, hne⟩

theorem Denied.named {m : ErrModule} {e : TegrablErr} (h : Grows lo hi s t ∧ Denied b lo hi (.err e)) :
    Grows lo hi s t ∧ Denied b lo hi (.err (e.setHighestModule m)) :=
  ⟨h.1, ⟨_, rfl⟩, h.2.2⟩

/-! ## Whole blocks -/

section

variable {buf : UInt64} {block count : UInt32}

theorem readBlock_grows (hc : count ≠ 0) (hb : bufferAligned dev buf = true) (hr : dev.ref ≠ 0)
    (hrange : ¬ (block > dev.blockCount ∨ block + count > dev.blockCount))
    (hin : Access.Within lo hi ⟨.read, block, count⟩) :
    wp (tegrablBlockdevReadBlock b.hooks.toDriver dev buf block count) (fun _ t => Grows lo hi s t)
      (fun f t => Grows lo hi s t ∧ Denied b lo hi f) s := by
  have hrange : ¬ (decide (block > dev.blockCount) || decide (block + count > dev.blockCount)) = true := by
    simpa using hrange
  simp only [tegrablBlockdevReadBlock, if_neg hc, hb, Bool.not_true, Bool.false_eq_true, if_false,
    if_neg hr, if_neg hrange]
  refine wp_underModule ?_ fun e t h => Denied.named h
  exact wp_seq (wp_access hin) fun _ t h => h

theorem writeBlock_grows (hc : count ≠ 0) (hn : buf ≠ 0) (hb : bufferAligned dev buf = true)
    (hr : dev.ref ≠ 0) (hrange : ¬ (block > dev.blockCount ∨ block + count > dev.blockCount))
    (hin : Access.Within lo hi ⟨.write, block, count⟩) :
    wp (tegrablBlockdevWriteBlock b.hooks.toDriver dev buf data block count)
      (fun _ t => Grows lo hi s t) (fun f t => Grows lo hi s t ∧ Denied b lo hi f) s := by
  have hrange : ¬ (decide (block > dev.blockCount) || decide (block + count > dev.blockCount)) = true := by
    simpa using hrange
  have hcn : ¬ (decide (count = 0) || decide (buf = 0)) = true := by
    simp [hc, hn]
  simp only [tegrablBlockdevWriteBlock, if_neg hcn, hb, Bool.not_true, Bool.false_eq_true, if_false,
    if_neg hr, if_neg hrange]
  exact wp_underModule (wp_access hin) fun e t h => Denied.named h

end

/-! ## The pieces of a range -/

/-- What is left of a range lies in the blocks. -/
def Rest.In (dev : Bdev) (lo hi : Nat) (r : Rest) : Prop :=
  r.len.toNat ≠ 0 → lo ≤ r.block.toNat ∧ r.block.toNat * dev.B + r.len.toNat ≤ hi * dev.B

/-- A range of bytes in blocks of the device. -/
structure InBlocks (dev : Bdev) (offset len : UInt64) (lo hi : Nat) : Prop where
  start : lo * dev.B ≤ offset.toNat
  stop : offset.toNat + len.toNat ≤ hi * dev.B
  device : hi ≤ dev.blockCount.toNat

theorem InBlocks.size (h : InBlocks dev offset len lo hi) :
    offset.toNat + len.toNat ≤ dev.size.toNat := by
  have hsize : dev.size.toNat = dev.blockCount.toNat * dev.B := dev.size_eq
  rw [hsize]
  exact Nat.le_trans h.stop (Nat.mul_le_mul_right dev.B h.device)

theorem AfterHead.rest_in {buf : UInt64} {n : Nat} (h : AfterHead dev offset buf len n r)
    (hin : InBlocks dev offset len lo hi) : r.In dev lo hi := by
  intro hne
  have hle := h.le
  have hleft := h.left
  have hb := h.boundary (by omega)
  have hstart := hin.start
  have hstop := hin.stop
  refine ⟨Nat.le_of_mul_le_mul_right (show lo * dev.B ≤ r.block.toNat * dev.B by omega) dev.B_pos, ?_⟩
  omega

theorem AfterMiddle.rest_in (h : AfterMiddle dev r r') (hin : r.In dev lo hi) : r'.In dev lo hi := by
  intro hne
  have hleft := h.left
  have hne' : r.len.toNat ≠ 0 := by
    intro hz
    rw [hz, Nat.zero_mod] at hleft
    exact hne hleft
  obtain ⟨hlo, hhi⟩ := hin hne'
  have hsplit := Nat.div_add_mod r.len.toNat dev.B
  rw [Nat.mul_comm] at hsplit
  rw [h.block, hleft, Nat.add_mul]
  exact ⟨Nat.le_trans hlo (Nat.le_add_right _ _), by omega⟩

/-- The blocks of the middle. -/
theorem Rest.In.middle (h : r.In dev lo hi) (hdev : hi ≤ dev.blockCount.toNat)
    (hk : dev.blockSizeLog2.toNat < 32) (hge : dev.B ≤ r.len.toNat) (kind : AccessKind) :
    r.block.toNat * dev.B + r.len.toNat ≤ dev.size.toNat ∧
      Access.Within lo hi ⟨kind, r.block, (divFloorLog2 r.len dev.blockSizeLog2).toUInt32⟩ := by
  have hpos := dev.B_pos
  obtain ⟨hlo, hhi⟩ := h (by omega)
  have hsize : dev.size.toNat = dev.blockCount.toNat * dev.B := dev.size_eq
  have hin : r.block.toNat * dev.B + r.len.toNat ≤ dev.size.toNat := by
    rw [hsize]
    exact Nat.le_trans hhi (Nat.mul_le_mul_right dev.B hdev)
  refine ⟨hin, hlo, ?_⟩
  show r.block.toNat + (divFloorLog2 r.len dev.blockSizeLog2).toUInt32.toNat ≤ hi
  rw [(middle_count hk hin).1]
  refine Nat.le_of_mul_le_mul_right (c := dev.B) ?_ hpos
  have hmul := Nat.div_mul_le_self r.len.toNat dev.B
  rw [Nat.add_mul]
  omega

/-- The block of the tail. -/
theorem Rest.In.tail (h : r.In dev lo hi) (hdev : hi ≤ dev.blockCount.toNat) (hne : r.len.toNat ≠ 0)
    (kind : AccessKind) :
    r.block.toNat + (1 : UInt32).toNat ≤ dev.blockCount.toNat ∧
      Access.Within lo hi ⟨kind, r.block, 1⟩ := by
  obtain ⟨hlo, hhi⟩ := h hne
  have hlt : r.block.toNat < hi := by
    refine Nat.lt_of_mul_lt_mul_right (a := dev.B) ?_
    omega
  exact ⟨Nat.le_trans hlt hdev, hlo, hlt⟩

/-- The block of the head. -/
theorem InBlocks.head (h : InBlocks dev offset len lo hi) (hk : dev.blockSizeLog2.toNat < 64)
    (hl : len ≠ 0) (kind : AccessKind) :
    (divFloorLog2 offset dev.blockSizeLog2).toUInt32.toNat + (1 : UInt32).toNat ≤ dev.blockCount.toNat ∧
      Access.Within lo hi ⟨kind, (divFloorLog2 offset dev.blockSizeLog2).toUInt32, 1⟩ := by
  have hpos := dev.B_pos
  have hsize := h.size
  have hlen := ne_zero_toNat hl
  obtain ⟨hblock, hin⟩ := startBlock hk (show offset.toNat < dev.size.toNat by omega)
  refine ⟨by rw [hblock]; exact hin, ?_, ?_⟩
  · show lo ≤ (divFloorLog2 offset dev.blockSizeLog2).toUInt32.toNat
    rw [hblock, Nat.le_div_iff_mul_le hpos]
    exact h.start
  · show (divFloorLog2 offset dev.blockSizeLog2).toUInt32.toNat + 1 ≤ hi
    have hstop := h.stop
    rw [hblock]
    refine (Nat.div_lt_iff_lt_mul hpos).mpr ?_
    omega

theorem readHead_grows (heap : Heap) (hk : dev.blockSizeLog2.toNat < 64) (hr : dev.ref ≠ 0) (hl : len ≠ 0)
    (hin : InBlocks dev offset len lo hi) (buf : UInt64) :
    wp (readHead b.hooks.toDriver dev (scratch dev heap offset len) offset
        ⟨buf, len, (divFloorLog2 offset dev.blockSizeLog2).toUInt32⟩)
      (fun p t => Grows lo hi s t ∧ ∃ n, AfterHead dev offset buf len n p.2)
      (fun f t => Grows lo hi s t ∧ Denied b lo hi f) s := by
  have ho : offset.toNat < dev.size.toNat := by
    have hsize := hin.size
    have hlen := ne_zero_toNat hl
    omega
  by_cases hmod : offset.toNat % dev.B = 0
  · have hz : ¬ modLog2 offset dev.blockSizeLog2 ≠ 0 := by
      rw [modLog2_ne_zero hk]
      exact not_not.mpr hmod
    rw [readHead, if_neg hz]
    exact ⟨Grows.refl lo hi s, 0, afterHead_nil hk ho hmod buf len⟩
  · obtain ⟨n, hn⟩ := scratch_isSome heap len hk (Or.inl hmod)
    obtain ⟨hdev, hacc⟩ := hin.head hk hl .read
    rw [readHead, if_pos ((modLog2_ne_zero hk).mpr hmod), hn, Option.getD_some]
    refine wp_seq (readBlock_grows (by decide) (heap_bufferAligned dev heap n) hr
      (count_in_device dev _ _ hdev) hacc) ?_
    intro bytes t ht
    exact ⟨ht, _, afterHead_cons hk ho hmod buf len⟩

theorem writeHead_grows (heap : Heap) (hk : dev.blockSizeLog2.toNat < 64) (hr : dev.ref ≠ 0)
    (hl : len ≠ 0) (hin : InBlocks dev offset len lo hi) (buf : UInt64) :
    wp (writeHead b.hooks.toDriver dev (scratch dev heap offset len) offset data
        ⟨buf, len, (divFloorLog2 offset dev.blockSizeLog2).toUInt32⟩)
      (fun p t => Grows lo hi s t ∧ ∃ n, AfterHead dev offset buf len n p.2)
      (fun f t => Grows lo hi s t ∧ Denied b lo hi f) s := by
  have ho : offset.toNat < dev.size.toNat := by
    have hsize := hin.size
    have hlen := ne_zero_toNat hl
    omega
  by_cases hmod : offset.toNat % dev.B = 0
  · have hz : ¬ modLog2 offset dev.blockSizeLog2 ≠ 0 := by
      rw [modLog2_ne_zero hk]
      exact not_not.mpr hmod
    rw [writeHead, if_neg hz]
    exact ⟨Grows.refl lo hi s, 0, afterHead_nil hk ho hmod buf len⟩
  · obtain ⟨n, hn⟩ := scratch_isSome heap len hk (Or.inl hmod)
    obtain ⟨hdev, hread⟩ := hin.head hk hl .read
    obtain ⟨_, hwrite⟩ := hin.head hk hl .write
    have hrange := count_in_device dev _ _ hdev
    rw [writeHead, if_pos ((modLog2_ne_zero hk).mpr hmod), hn, Option.getD_some]
    refine wp_seq (readBlock_grows (by decide) (heap_bufferAligned dev heap n) hr hrange hread) ?_
    intro bytes t ht
    refine wp_bind _ _ |>.mpr (wp_mono (writeBlock_grows (by decide) (heap.nonnull n)
      (heap_bufferAligned dev heap n) hr hrange hwrite) ?_ ?_)
    · intro _ u hu
      exact ⟨ht.trans hu, _, afterHead_cons hk ho hmod buf len⟩
    · intro f u hu
      exact ⟨ht.trans hu.1, hu.2⟩

theorem readMiddle_grows (heap : Heap) (hk : dev.blockSizeLog2.toNat < 32) (hr : dev.ref ≠ 0)
    (hin : r.In dev lo hi) (hdev : hi ≤ dev.blockCount.toNat) :
    wp (readMiddle b.hooks.toDriver dev heap r)
      (fun p t => Grows lo hi s t ∧ AfterMiddle dev r p.2)
      (fun f t => Grows lo hi s t ∧ Denied b lo hi f) s := by
  obtain ⟨one, hone, hrun⟩ := oneBlock_run s hk
  refine wp_bind _ _ |>.mpr (wp_run hrun ?_)
  by_cases hge : dev.B ≤ r.len.toNat
  · obtain ⟨hsize, hacc⟩ := hin.middle hdev hk hge .read
    obtain ⟨hcz, hrange, hlen, hfit⟩ := middle_checks hk hsize hone hge
    rw [if_pos hlen, if_neg hfit]
    cases hb : bufferAligned dev r.buf with
    | true =>
        rw [Bool.not_true, if_neg Bool.false_ne_true]
        refine wp_seq (readBlock_grows hcz hb hr hrange hacc) ?_
        intro bytes t ht
        exact ⟨ht, afterMiddle_skip hk hsize⟩
    | false =>
        rw [Bool.not_false, if_pos rfl]
        refine wp_seq (readBlock_grows hcz (heap_bufferAligned dev heap _) hr hrange hacc) ?_
        intro bytes t ht
        exact ⟨ht, afterMiddle_skip hk hsize⟩
  · rw [if_neg (not_ge_one hone hge)]
    exact ⟨Grows.refl lo hi s, afterMiddle_none (Nat.lt_of_not_le hge)⟩

theorem writeMiddle_grows (heap : Heap) (hk : dev.blockSizeLog2.toNat < 32) (hr : dev.ref ≠ 0)
    (hin : r.In dev lo hi) (hdev : hi ≤ dev.blockCount.toNat) (hbuf : r.len.toNat ≠ 0 → r.buf ≠ 0) :
    wp (writeMiddle b.hooks.toDriver dev heap data r)
      (fun p t => Grows lo hi s t ∧ AfterMiddle dev r p.2)
      (fun f t => Grows lo hi s t ∧ Denied b lo hi f) s := by
  obtain ⟨one, hone, hrun⟩ := oneBlock_run s hk
  refine wp_bind _ _ |>.mpr (wp_run hrun ?_)
  by_cases hge : dev.B ≤ r.len.toNat
  · obtain ⟨hsize, hacc⟩ := hin.middle hdev hk hge .write
    obtain ⟨hcz, hrange, hlen, hfit⟩ := middle_checks hk hsize hone hge
    have hpos := dev.B_pos
    rw [if_pos hlen, if_neg hfit]
    cases hb : bufferAligned dev r.buf with
    | true =>
        rw [Bool.not_true, if_neg Bool.false_ne_true]
        refine wp_seq (writeBlock_grows hcz (hbuf (by omega)) hb hr hrange hacc) ?_
        intro _ t ht
        exact ⟨ht, afterMiddle_skip hk hsize⟩
    | false =>
        rw [Bool.not_false, if_pos rfl]
        refine wp_seq (writeBlock_grows hcz (heap.nonnull _) (heap_bufferAligned dev heap _) hr hrange
          hacc) ?_
        intro _ t ht
        exact ⟨ht, afterMiddle_skip hk hsize⟩
  · rw [if_neg (not_ge_one hone hge)]
    exact ⟨Grows.refl lo hi s, afterMiddle_none (Nat.lt_of_not_le hge)⟩

section

variable {partialBuf : Option UInt64}

theorem readTail_grows (heap : Heap) (hr : dev.ref ≠ 0) (hin : r.In dev lo hi) (hdev : hi ≤ dev.blockCount.toNat)
    (hp : r.len.toNat ≠ 0 → ∃ n, partialBuf = some (heap.addr n)) :
    wp (readTail b.hooks.toDriver dev partialBuf r) (fun _ t => Grows lo hi s t)
      (fun f t => Grows lo hi s t ∧ Denied b lo hi f) s := by
  unfold readTail
  by_cases hz : r.len.toNat = 0
  · have hle : ¬ r.len > 0 := by
      rw [gt_iff_lt, UInt64.lt_iff_toNat_lt, hz]
      exact Nat.lt_irrefl 0
    rw [if_neg hle]
    exact Grows.refl lo hi s
  · obtain ⟨n, rfl⟩ := hp hz
    obtain ⟨hone, hacc⟩ := hin.tail hdev hz .read
    have hpos : r.len > 0 := by
      rw [gt_iff_lt, UInt64.lt_iff_toNat_lt]
      exact Nat.pos_of_ne_zero hz
    rw [if_pos hpos]
    exact wp_seq (readBlock_grows (by decide) (heap_bufferAligned dev heap n) hr
      (count_in_device dev _ _ hone) hacc) fun _ t h => h

theorem writeTail_grows (heap : Heap) (hr : dev.ref ≠ 0) (hin : r.In dev lo hi) (hdev : hi ≤ dev.blockCount.toNat)
    (hp : r.len.toNat ≠ 0 → ∃ n, partialBuf = some (heap.addr n)) :
    wp (writeTail b.hooks.toDriver dev partialBuf data r) (fun _ t => Grows lo hi s t)
      (fun f t => Grows lo hi s t ∧ Denied b lo hi f) s := by
  unfold writeTail
  by_cases hz : r.len.toNat = 0
  · have hle : ¬ r.len > 0 := by
      rw [gt_iff_lt, UInt64.lt_iff_toNat_lt, hz]
      exact Nat.lt_irrefl 0
    rw [if_neg hle]
    exact Grows.refl lo hi s
  · obtain ⟨n, rfl⟩ := hp hz
    obtain ⟨hone, hread⟩ := hin.tail hdev hz .read
    obtain ⟨_, hwrite⟩ := hin.tail hdev hz .write
    have hrange := count_in_device dev _ _ hone
    have hpos : r.len > 0 := by
      rw [gt_iff_lt, UInt64.lt_iff_toNat_lt]
      exact Nat.pos_of_ne_zero hz
    rw [if_pos hpos]
    refine wp_seq (readBlock_grows (by decide) (heap_bufferAligned dev heap n) hr hrange hread) ?_
    intro bytes t ht
    refine wp_mono (writeBlock_grows (by decide) (heap.nonnull n) (heap_bufferAligned dev heap n) hr
      hrange hwrite) ?_ ?_
    · intro _ u hu
      exact ht.trans hu
    · intro f u hu
      exact ⟨ht.trans hu.1, hu.2⟩

end

/-! ## Ranges -/

/-- A later part of a call that only adds accesses. -/
theorem wp_grows {α : Type} {m : PartM α} (hst : Grows lo hi s t)
    (h : wp m (fun _ u => Grows lo hi t u) (fun f u => Grows lo hi t u ∧ Denied b lo hi f) t) :
    wp m (fun _ u => Grows lo hi s u) (fun f u => Grows lo hi s u ∧ Denied b lo hi f) t :=
  wp_mono h (fun _ _ hu => hst.trans hu) fun _ _ hu => ⟨hst.trans hu.1, hu.2⟩

theorem defaultRead_grows (heap : Heap) (buffer : Buffer len) (hk : dev.blockSizeLog2.toNat < 32)
    (hr : dev.ref ≠ 0) (hl : len ≠ 0) (hin : InBlocks dev offset len lo hi) :
    wp (tegrablBlockdevDefaultRead b.hooks.toDriver dev heap buffer.addr offset len)
      (fun _ t => Grows lo hi s t) (fun f t => Grows lo hi s t ∧ Denied b lo hi f) s := by
  have hk' : dev.blockSizeLog2.toNat < 64 := by omega
  rw [tegrablBlockdevDefaultRead, if_neg buffer.nonnull]
  refine wp_seq (readHead_grows heap hk' hr hl hin buffer.addr) ?_
  rintro ⟨head, r⟩ t ⟨ht, n, hh⟩
  refine wp_bind _ _ |>.mpr (wp_mono (readMiddle_grows heap hk hr (hh.rest_in hin) hin.device) ?_ ?_)
  · rintro ⟨middle, r'⟩ u ⟨hu, hm⟩
    refine wp_bind _ _ |>.mpr (wp_grows (ht.trans hu) (wp_mono (readTail_grows heap hr
      (hm.rest_in (hh.rest_in hin)) hin.device (hh.scratch hk' hm.left)) ?_ fun _ _ h => h))
    intro tail v hv
    exact hv
  · intro f u hu
    exact ⟨ht.trans hu.1, hu.2⟩

theorem defaultWrite_grows (heap : Heap) (buffer : Buffer len) (data : List UInt8)
    (hk : dev.blockSizeLog2.toNat < 32) (hr : dev.ref ≠ 0) (hl : len ≠ 0)
    (hin : InBlocks dev offset len lo hi) :
    wp (tegrablBlockdevDefaultWrite b.hooks.toDriver dev heap buffer.addr data offset len)
      (fun _ t => Grows lo hi s t) (fun f t => Grows lo hi s t ∧ Denied b lo hi f) s := by
  have hk' : dev.blockSizeLog2.toNat < 64 := by omega
  rw [tegrablBlockdevDefaultWrite, if_neg buffer.nonnull]
  refine wp_seq (writeHead_grows heap hk' hr hl hin buffer.addr) ?_
  rintro ⟨data, r⟩ t ⟨ht, n, hh⟩
  have hbuf : r.len.toNat ≠ 0 → r.buf ≠ 0 := by
    intro hne
    have hleft : r.len.toNat = len.toNat - n := hh.left
    exact hh.buf_ne_zero (show n < len.toNat by omega)
  refine wp_bind _ _ |>.mpr (wp_mono (writeMiddle_grows heap hk hr (hh.rest_in hin) hin.device hbuf)
    ?_ ?_)
  · rintro ⟨data, r'⟩ u ⟨hu, hm⟩
    exact wp_grows (ht.trans hu) (writeTail_grows heap hr (hm.rest_in (hh.rest_in hin)) hin.device
      (hh.scratch hk' hm.left))
  · intro f u hu
    exact ⟨ht.trans hu.1, hu.2⟩

/-- The blocks of a range of bytes. -/
def firstOf (dev : Bdev) (offset : Nat) : Nat := offset / dev.B

def lastOf (dev : Bdev) (stop : Nat) : Nat := (stop + (dev.B - 1)) / dev.B

theorem inBlocks_of_le (h : offset.toNat + len.toNat ≤ dev.size.toNat) :
    InBlocks dev offset len (firstOf dev offset.toNat) (lastOf dev (offset.toNat + len.toNat)) := by
  have hpos := dev.B_pos
  refine ⟨Nat.div_mul_le_self _ _, ?_, ?_⟩
  · have hup := Nat.div_add_mod (offset.toNat + len.toNat + (dev.B - 1)) dev.B
    have hmod := Nat.mod_lt (offset.toNat + len.toNat + (dev.B - 1)) hpos
    rw [Nat.mul_comm] at hup
    show _ ≤ (offset.toNat + len.toNat + (dev.B - 1)) / dev.B * dev.B
    omega
  · have hceil := ceil_le_iff dev 0 (offset.toNat + len.toNat)
    rw [Nat.zero_add, Nat.zero_mul, Nat.zero_add] at hceil
    exact hceil.mpr h

/-- What a call about a range of bytes does to the log, when the end of the range
does not wrap: nothing on a range past the end of the device. -/
structure RangeRun (b : Behaviour) (dev : Bdev) (offset len : UInt64) (s t : PartState) (failed : Bool) :
    Prop where
  grows : Grows (firstOf dev offset.toNat) (lastOf dev (offset.toNat + len.toNat)) s t
  device : t.log ≠ s.log → offset.toNat + len.toNat ≤ dev.size.toNat
  error : failed = true → offset.toNat + len.toNat ≤ dev.size.toNat →
    ∃ a : Access, a.Within (firstOf dev offset.toNat) (lastOf dev (offset.toNat + len.toNat)) ∧
      b.fails a ≠ none

theorem rangeRun_of_grows (failed : Bool) (hin : offset.toNat + len.toNat ≤ dev.size.toNat)
    (hg : Grows (firstOf dev offset.toNat) (lastOf dev (offset.toNat + len.toNat)) s t)
    (hd : failed = true → ∃ a : Access,
      a.Within (firstOf dev offset.toNat) (lastOf dev (offset.toNat + len.toNat)) ∧ b.fails a ≠ none) :
    RangeRun b dev offset len s t failed :=
  ⟨hg, fun _ => hin, fun hf _ => hd hf⟩

/-- A refused call. -/
theorem rangeRun_refused (failed : Bool) (hout : ¬ offset.toNat + len.toNat ≤ dev.size.toNat) :
    RangeRun b dev offset len s s failed :=
  ⟨Grows.refl _ _ s, fun h => absurd rfl h, fun _ hin => absurd hin hout⟩

theorem checks_refuse (hwrap : offset.toNat + len.toNat < 2 ^ 64)
    (hout : ¬ offset.toNat + len.toNat ≤ dev.size.toNat) :
    (decide (offset ≥ dev.size) || decide (offset + len > dev.size)) = true := by
  refine checks_stop (Or.inr ?_)
  rw [Nat.mod_eq_of_lt hwrap]
  exact Nat.lt_of_not_le hout

theorem blockdevRead_range (heap : Heap) (buffer : Buffer len) (hk : dev.blockSizeLog2.toNat < 32)
    (hr : dev.ref ≠ 0) (hl : len ≠ 0) (hwrap : offset.toNat + len.toNat < 2 ^ 64) :
    wp (tegrablBlockdevRead b.hooks.toDriver dev heap buffer.addr offset len)
      (fun _ t => RangeRun b dev offset len s t false)
      (fun f t => (∃ e, f = .err e) ∧ RangeRun b dev offset len s t true) s := by
  rw [tegrablBlockdevRead, if_neg hl, if_neg hr]
  by_cases hin : offset.toNat + len.toNat ≤ dev.size.toNat
  · have hlen := ne_zero_toNat hl
    rw [if_neg (checks_pass (by omega) (by rw [Nat.mod_eq_of_lt hwrap]; exact hin))]
    refine wp_mono (defaultRead_grows heap buffer hk hr hl (inBlocks_of_le hin)) ?_ ?_
    · intro _ t ht
      exact rangeRun_of_grows false hin ht fun h => absurd h Bool.false_ne_true
    · rintro f t ⟨ht, he, hd⟩
      exact ⟨he, rangeRun_of_grows true hin ht fun _ => hd⟩
  · rw [if_pos (checks_refuse hwrap hin)]
    exact ⟨⟨_, rfl⟩, rangeRun_refused true hin⟩

theorem blockdevWrite_range (heap : Heap) (buffer : Buffer len) (data : List UInt8)
    (hk : dev.blockSizeLog2.toNat < 32) (hr : dev.ref ≠ 0) (hl : len ≠ 0)
    (hwrap : offset.toNat + len.toNat < 2 ^ 64) :
    wp (tegrablBlockdevWrite b.hooks.toDriver dev heap buffer.addr data offset len)
      (fun _ t => RangeRun b dev offset len s t false)
      (fun f t => (∃ e, f = .err e) ∧ RangeRun b dev offset len s t true) s := by
  rw [tegrablBlockdevWrite, if_neg hl, if_neg hr]
  by_cases hin : offset.toNat + len.toNat ≤ dev.size.toNat
  · have hlen := ne_zero_toNat hl
    rw [if_neg (checks_pass (by omega) (by rw [Nat.mod_eq_of_lt hwrap]; exact hin))]
    refine wp_mono (defaultWrite_grows heap buffer data hk hr hl (inBlocks_of_le hin)) ?_ ?_
    · intro _ t ht
      exact rangeRun_of_grows false hin ht fun h => absurd h Bool.false_ne_true
    · rintro f t ⟨ht, he, hd⟩
      exact ⟨he, rangeRun_of_grows true hin ht fun _ => hd⟩
  · rw [if_pos (checks_refuse hwrap hin)]
    exact ⟨⟨_, rfl⟩, rangeRun_refused true hin⟩

end TX2SecureUart.Storage
