/-
# `Storage.Isolation` — a partition keeps to its blocks

What the calls on an open partition ask of the device lies in the partition and
in the device, as long as none of their sums wraps: the byte offset of a read or
a write, and the 32-bit block numbers of an erasure or a transfer.  A write moves
the offset even when the device fails, so it may not fail.
-/
import TX2SecureUart.Storage.AccessLog
import TX2SecureUart.Storage.GptPublish

namespace TX2SecureUart.Storage

open Prog ByteStore

variable {b : Behaviour} {dev : Bdev} {heap : Heap} {info : PartitionInfo} {e : GptEntry}
  {s t : PartState} {disk : Disk}

/-! ## When a call keeps to its partition -/

/-- The first byte of a partition on the device. -/
def PartitionInfo.start (info : PartitionInfo) (dev : Bdev) : Nat := info.startSector.toNat * dev.B

/-- A call that its own checks refuse, or none of whose sums wraps; and a write
that does not fail. -/
def PartAct.Contained (dev : Bdev) (info : PartitionInfo) (s : PartState) : PartAct × Behaviour → Prop
  | (.read buf n, _) => buf = 0 ∨ n = 0 ∨ info.totalSize < n + s.offset ∨
      s.offset.toNat + info.start dev + n.toNat < 2 ^ 64
  | (.write buf _ n, b) => buf = 0 ∨ n = 0 ∨ info.totalSize < n + s.offset ∨
      s.offset.toNat + info.start dev + n.toNat ≤ dev.size.toNat ∧
        ∀ a : Access, a.Within (firstOf dev (s.offset.toNat + info.start dev))
          (lastOf dev (s.offset.toNat + info.start dev + n.toNat)) → b.fails a = none
  | (.seek offset origin, _) => ∀ base, seekBase info s origin = some base →
      FitsInt64 (base + offset.toInt)
  | (.erase, _) => info.numSectors.toUInt32 = 0 ∨
      pastEnd dev info.startSector.toUInt32 info.numSectors.toUInt32 = true ∨
      info.startSector.toNat + info.numSectors.toUInt32.toNat < 2 ^ 32
  | (.asyncRead buf start n, _) | (.asyncWrite buf start n, _) => buf = 0 ∨ n = 0 ∨
      info.numSectors < start + n ∨ n.toUInt32 = 0 ∨
      pastEnd dev (info.startSector + start).toUInt32 n.toUInt32 = true ∨
      start.toNat + n.toNat < 2 ^ 64 ∧
        info.startSector.toNat + start.toNat + n.toUInt32.toNat < 2 ^ 32

/-- An access to blocks of the partition and of the device. -/
def Access.Inside (dev : Bdev) (e : GptEntry) (a : Access) : Prop :=
  ∀ x, a.block.toNat ≤ x → x < a.block.toNat + a.count.toNat →
    e.firstLba.toNat ≤ x ∧ x ≤ e.lastLba.toNat ∧ x < dev.blockCount.toNat

/-- What holds in every state: the offset is in the partition, and so is all that
the device was asked for. -/
structure PartInv (dev : Bdev) (info : PartitionInfo) (e : GptEntry) (s : PartState) : Prop where
  offset : s.offset.toNat ≤ info.totalSize.toNat
  log : ∀ a ∈ s.log, a.Inside dev e

/-! ## The numbers of a published partition -/

theorem start_toNat (dev : Bdev) (e : GptEntry) : (publishEntry dev e).startSector.toNat
    = e.firstLba.toNat := rfl

theorem base_toNat (hk : dev.blockSizeLog2.toNat < 64) (h : info.start dev < 2 ^ 64) :
    (info.base dev).toNat = info.start dev := shiftLeft_toNat hk h

theorem sectors_eq (h : e.taken = true) : e.firstLba.toNat + e.sectors = e.lastLba.toNat + 1 := by
  have hlt := taken_lt h
  rw [GptEntry.sectors]
  omega

theorem totalSize_le (hk : dev.blockSizeLog2.toNat < 64) (h : e.taken = true) :
    (publishEntry dev e).totalSize.toNat ≤ e.sectors * dev.B := by
  rw [totalSize_toNat hk h]
  exact Nat.mod_le _ _

theorem numSectors_le (dev : Bdev) (h : e.taken = true) :
    (publishEntry dev e).numSectors.toNat ≤ e.sectors := by
  rw [numSectors_toNat dev h]
  exact Nat.mod_le _ _

/-- Bytes of the partition are in its blocks. -/
theorem inside_of_within {offset n : Nat} {a : Access} (h : e.taken = true)
    (hn : offset + n ≤ e.sectors * dev.B) (hdev : offset + e.firstLba.toNat * dev.B + n ≤ dev.size.toNat)
    (ha : a.Within (firstOf dev (offset + e.firstLba.toNat * dev.B))
      (lastOf dev (offset + e.firstLba.toNat * dev.B + n))) : a.Inside dev e := by
  have hpos := dev.B_pos
  have hlo : e.firstLba.toNat ≤ firstOf dev (offset + e.firstLba.toNat * dev.B) := by
    rw [firstOf, Nat.le_div_iff_mul_le hpos]
    omega
  have hhi : lastOf dev (offset + e.firstLba.toNat * dev.B + n) ≤ e.firstLba.toNat + e.sectors := by
    refine (Nat.div_le_iff_le_mul_add_pred hpos).mpr ?_
    rw [Nat.mul_add, Nat.mul_comm dev.B, Nat.mul_comm dev.B]
    omega
  have hbc : lastOf dev (offset + e.firstLba.toNat * dev.B + n) ≤ dev.blockCount.toNat := by
    have hceil := ceil_le_iff dev 0 (offset + e.firstLba.toNat * dev.B + n)
    rw [Nat.zero_add, Nat.zero_mul, Nat.zero_add] at hceil
    exact hceil.mpr hdev
  have hsec := sectors_eq h
  obtain ⟨hfirst, hlast⟩ := ha
  intro x hx hx'
  omega

/-- The check of a sum that does not wrap. -/
theorem sum_checked {total n offset : UInt64} (h : ¬ total < n + offset)
    (hwrap : offset.toNat + n.toNat < 2 ^ 64) : offset.toNat + n.toNat ≤ total.toNat := by
  rw [UInt64.lt_iff_toNat_lt, UInt64.toNat_add, Nat.mod_eq_of_lt (by omega)] at h
  omega

/-! ## The calls -/

/-- What a call has to do: whatever it returns, the state is one of the partition,
and with an error the offset stays. -/
def Keeps (dev : Bdev) (info : PartitionInfo) (e : GptEntry) (s : PartState) (m : PartM Unit) : Prop :=
  wp m (fun _ t => PartInv dev info e t)
    (fun f t => (∃ err, f = .err err) ∧ PartInv dev info e t ∧ t.offset = s.offset) s

theorem keeps_fail (h : PartInv dev info e s) (reason : ErrReason) (aux : Nat) :
    Keeps dev info e s (partFail reason aux) := ⟨⟨_, rfl⟩, h, rfl⟩

/-- More of the log is of the partition. -/
theorem PartInv.grow {lo hi : Nat} (h : PartInv dev info e s) (hg : Grows lo hi s t)
    (hin : t.log ≠ s.log → ∀ a : Access, a.Within lo hi → a.Inside dev e) : PartInv dev info e t := by
  obtain ⟨l, hl, hw⟩ := hg.log
  refine ⟨by rw [hg.offset]; exact h.offset, ?_⟩
  intro a ha
  by_cases hsame : t.log = s.log
  · rw [hsame] at ha
    exact h.log a ha
  · rw [hl] at ha
    obtain ha | ha := List.mem_append.mp ha
    · exact h.log a ha
    · exact hin hsame a (hw a ha)

/-- Where a read or a write that no sum of wraps is on the device. -/
theorem devOffset_toNat (info : PartitionInfo) {n : UInt64} (hk : dev.blockSizeLog2.toNat < 64)
    (hwrap : s.offset.toNat + info.start dev + n.toNat < 2 ^ 64) :
    (s.offset + info.base dev).toNat = s.offset.toNat + info.start dev := by
  rw [UInt64.toNat_add, base_toNat hk (by omega)]
  exact Nat.mod_eq_of_lt (by omega)

/-- A range that the partition manager let through stays in the partition. -/
theorem PartInv.range {n : UInt64} {failed : Bool} (h : PartInv dev (publishEntry dev e) e s)
    (ht : e.taken = true) (hk : dev.blockSizeLog2.toNat < 64)
    (hcheck : ¬ (publishEntry dev e).totalSize < n + s.offset)
    (hwrap : s.offset.toNat + (publishEntry dev e).start dev + n.toNat < 2 ^ 64)
    (hrun : RangeRun b dev (s.offset + (publishEntry dev e).base dev) n s t failed) :
    PartInv dev (publishEntry dev e) e t ∧ t.offset = s.offset ∧
      s.offset.toNat + n.toNat ≤ (publishEntry dev e).totalSize.toNat := by
  have hsum := sum_checked hcheck (by omega)
  have htotal := totalSize_le hk ht
  have hoff := devOffset_toNat (publishEntry dev e) hk hwrap
  obtain ⟨hgrows, hdevice, _⟩ := hrun
  rw [hoff] at hgrows hdevice
  refine ⟨h.grow hgrows ?_, hgrows.offset, hsum⟩
  intro hne a ha
  exact inside_of_within ht (hsum.trans htotal) (hdevice hne) ha

theorem read_keeps (heap : Heap) {buf n : UInt64} (h : PartInv dev (publishEntry dev e) e s)
    (ht : e.taken = true) (hk : dev.blockSizeLog2.toNat < 32) (hr : dev.ref ≠ 0)
    (hbuf : buf.toNat + n.toNat ≤ 2 ^ 64)
    (hc : PartAct.Contained dev (publishEntry dev e) s (.read buf n, b)) :
    Keeps dev (publishEntry dev e) e s (PartAct.run b dev heap (publishEntry dev e) (.read buf n)) := by
  have hk' : dev.blockSizeLog2.toNat < 64 := by omega
  show wp (tegrablPartitionRead b dev heap (publishEntry dev e) buf n >>= fun _ => pure ()) _ _ s
  refine (wp_bind _ _).mpr ?_
  unfold tegrablPartitionRead
  by_cases hz : (decide (buf = 0) || decide (n = 0)) = true
  · rw [if_pos hz]
    exact keeps_fail h _ _
  rw [if_neg hz]
  rw [Bool.or_eq_true, decide_eq_true_eq, decide_eq_true_eq, not_or] at hz
  refine (wp_bind _ _).mpr (wp_get.mpr ?_)
  by_cases hcheck : (publishEntry dev e).totalSize < n + s.offset
  · rw [if_pos hcheck]
    exact keeps_fail h _ _
  rw [if_neg hcheck]
  have hwrap : s.offset.toNat + (publishEntry dev e).start dev + n.toNat < 2 ^ 64 :=
    ((hc.resolve_left hz.1).resolve_left hz.2).resolve_left hcheck
  have hoff := devOffset_toNat (publishEntry dev e) hk' hwrap
  refine (wp_bind _ _).mpr (wp_underModule (wp_mono (blockdevRead_range heap ⟨buf, hz.1, hbuf⟩ hk hr hz.2
    (by rw [hoff]; exact hwrap)) ?_ ?_) ?_)
  · intro bytes t hrun
    obtain ⟨hinv, hsame, hsum⟩ := h.range ht hk' hcheck hwrap hrun
    refine (wp_bind _ _).mpr (wp_modify _ |>.mpr ?_)
    refine ⟨?_, hinv.log⟩
    show (t.offset + n).toNat ≤ _
    rw [hsame, UInt64.toNat_add, Nat.mod_eq_of_lt (by omega)]
    exact hsum
  · rintro f t ⟨herr, hrun⟩
    obtain ⟨hinv, hsame, _⟩ := h.range ht hk' hcheck hwrap hrun
    exact ⟨herr, hinv, hsame⟩
  · rintro err t ⟨_, hinv, hsame⟩
    exact ⟨⟨_, rfl⟩, hinv, hsame⟩

theorem thenMove_ok {n : UInt64} {call : PartM Unit} (h : call s = .ok () t) :
    thenMove n call s = .ok () { t with offset := t.offset + n } := by
  rw [thenMove, h]

theorem write_keeps (heap : Heap) {buf n : UInt64} (data : List UInt8)
    (h : PartInv dev (publishEntry dev e) e s) (ht : e.taken = true) (hk : dev.blockSizeLog2.toNat < 32)
    (hr : dev.ref ≠ 0) (hbuf : buf.toNat + n.toNat ≤ 2 ^ 64)
    (hc : PartAct.Contained dev (publishEntry dev e) s (.write buf data n, b)) :
    Keeps dev (publishEntry dev e) e s
      (PartAct.run b dev heap (publishEntry dev e) (.write buf data n)) := by
  have hk' : dev.blockSizeLog2.toNat < 64 := by omega
  show wp (tegrablPartitionWrite b dev heap (publishEntry dev e) buf data n) _ _ s
  unfold tegrablPartitionWrite
  by_cases hz : (decide (buf = 0) || decide (n = 0)) = true
  · rw [if_pos hz]
    exact keeps_fail h _ _
  rw [if_neg hz]
  rw [Bool.or_eq_true, decide_eq_true_eq, decide_eq_true_eq, not_or] at hz
  refine (wp_bind _ _).mpr (wp_get.mpr ?_)
  by_cases hcheck : (publishEntry dev e).totalSize < n + s.offset
  · rw [if_pos hcheck]
    exact keeps_fail h _ _
  rw [if_neg hcheck]
  obtain ⟨hin, hnone⟩ := ((hc.resolve_left hz.1).resolve_left hz.2).resolve_left hcheck
  have hlt := dev.size.toNat_lt
  have hwrap : s.offset.toNat + (publishEntry dev e).start dev + n.toNat < 2 ^ 64 := by omega
  have hoff := devOffset_toNat (publishEntry dev e) hk' hwrap
  have hcall : wp (underModule .partitionManager (tegrablBlockdevWrite b.hooks.toDriver dev heap buf data
      (s.offset + (publishEntry dev e).base dev) n))
      (fun _ t => RangeRun b dev (s.offset + (publishEntry dev e).base dev) n s t false)
      (fun _ _ => False) s := by
    refine wp_underModule (wp_mono (blockdevWrite_range heap ⟨buf, hz.1, hbuf⟩ data hk hr hz.2
      (by rw [hoff]; exact hwrap)) (fun _ _ hrun => hrun) ?_) fun _ _ hf => hf
    rintro f t ⟨_, hrun⟩
    obtain ⟨a, ha, hfail⟩ := hrun.error rfl (by rw [hoff]; exact hin)
    rw [hoff] at ha
    exact hfail (hnone a ha)
  obtain ⟨_, t, hok, hrun⟩ := wp_total hcall
  obtain ⟨hinv, hsame, hsum⟩ := h.range ht hk' hcheck hwrap hrun
  refine wp_run (thenMove_ok hok) ⟨?_, hinv.log⟩
  show (t.offset + n).toNat ≤ _
  rw [hsame, UInt64.toNat_add, Nat.mod_eq_of_lt (by omega)]
  exact hsum

theorem seek_keeps {offset : Int64} {origin : UInt32} (h : PartInv dev info e s)
    (hc : ∀ base, seekBase info s origin = some base → FitsInt64 (base + offset.toInt)) :
    Keeps dev info e s (tegrablPartitionSeek info offset origin) := by
  unfold tegrablPartitionSeek
  refine (wp_bind _ _).mpr (wp_get.mpr ?_)
  cases hb : seekBase info s origin with
  | none => exact keeps_fail h _ _
  | some base =>
      dsimp only
      rw [if_neg (not_not.mpr (hc base hb))]
      by_cases hneg : base + offset.toInt < 0
      · rw [if_pos hneg]
        exact keeps_fail h _ _
      rw [if_neg hneg]
      by_cases hpast : info.totalSize < UInt64.ofNat (base + offset.toInt).toNat
      · rw [if_pos hpast]
        exact keeps_fail h _ _
      · rw [if_neg hpast]
        exact ⟨Nat.not_lt.mp fun hlt => hpast (UInt64.lt_iff_toNat_lt.mpr hlt), h.log⟩

/-- An access to blocks that the device has been checked for. -/
theorem inside_of_checked {kind : AccessKind} {block count : UInt32} (first : Nat) (ht : e.taken = true)
    (hblock : block.toNat = e.firstLba.toNat + first) (hn : first + count.toNat ≤ e.sectors)
    (hwrap : block.toNat + count.toNat < 2 ^ 32) (hcheck : ¬ pastEnd dev block count = true) :
    Access.Inside dev e ⟨kind, block, count⟩ := by
  have hsec := sectors_eq ht
  rw [pastEnd, Bool.or_eq_true, decide_eq_true_eq, decide_eq_true_eq, gt_iff_lt, gt_iff_lt,
    UInt32.lt_iff_toNat_lt, UInt32.lt_iff_toNat_lt, UInt32.toNat_add, Nat.mod_eq_of_lt hwrap] at hcheck
  intro x hx hx'
  have hx : block.toNat ≤ x := hx
  have hx' : x < block.toNat + count.toNat := hx'
  omega

theorem access_keeps {m : ErrModule} {a : Access} (h : PartInv dev info e s) (ha : a.Inside dev e) :
    Keeps dev info e s (underModule m (b.access a)) := by
  have hlog : PartInv dev info e { s with log := s.log ++ [a] } := by
    refine ⟨h.offset, ?_⟩
    intro a' ha'
    obtain ha' | ha' := List.mem_append.mp ha'
    · exact h.log a' ha'
    · rw [List.mem_singleton.mp ha']
      exact ha
  refine wp_underModule ?_ fun err t hf => ⟨⟨_, rfl⟩, hf.2⟩
  simp only [Behaviour.access, wp_bind, wp_modify]
  cases b.fails a with
  | none => exact hlog
  | some err => exact ⟨⟨err, rfl⟩, hlog, rfl⟩

theorem erase_keeps (h : PartInv dev (publishEntry dev e) e s) (ht : e.taken = true)
    (hc : PartAct.Contained dev (publishEntry dev e) s (.erase, b)) :
    Keeps dev (publishEntry dev e) e s (tegrablPartitionErase b dev (publishEntry dev e)) := by
  refine wp_underModule ?_ fun err t hf => ⟨⟨_, rfl⟩, hf.2⟩
  unfold tegrablBlockdevErase
  by_cases hz : (publishEntry dev e).numSectors.toUInt32 = 0
  · rw [if_pos hz]
    exact ⟨⟨_, rfl⟩, h, rfl⟩
  rw [if_neg hz]
  by_cases hpast : pastEnd dev (publishEntry dev e).startSector.toUInt32
      (publishEntry dev e).numSectors.toUInt32 = true
  · rw [if_pos hpast]
    exact ⟨⟨_, rfl⟩, h, rfl⟩
  rw [if_neg hpast]
  by_cases hr : dev.ref = 0
  · rw [if_pos hr]
    exact ⟨⟨_, rfl⟩, h, rfl⟩
  rw [if_neg hr]
  have hwrap := (hc.resolve_left hz).resolve_left hpast
  have hblock : (publishEntry dev e).startSector.toUInt32.toNat = e.firstLba.toNat := by
    rw [UInt64.toNat_toUInt32]
    exact Nat.mod_eq_of_lt (Nat.lt_of_le_of_lt (Nat.le_add_right _ _) hwrap)
  refine access_keeps h (inside_of_checked 0 ht hblock ?_ (by rw [hblock]; exact hwrap) hpast)
  rw [Nat.zero_add, UInt64.toNat_toUInt32]
  exact (Nat.mod_le _ _).trans (numSectors_le dev ht)

theorem async_keeps (aux : Nat) {buf start n : UInt64} (h : PartInv dev (publishEntry dev e) e s)
    (ht : e.taken = true)
    (hc : PartAct.Contained dev (publishEntry dev e) s (.asyncRead buf start n, b)) :
    Keeps dev (publishEntry dev e) e s (partitionAsync b dev (publishEntry dev e) aux buf start n) := by
  unfold partitionAsync
  by_cases hz : (decide (buf = 0) || decide (n = 0)) = true
  · rw [if_pos hz]
    exact keeps_fail h _ _
  rw [if_neg hz]
  rw [Bool.or_eq_true, decide_eq_true_eq, decide_eq_true_eq, not_or] at hz
  by_cases hcheck : (publishEntry dev e).numSectors < start + n
  · rw [if_pos hcheck]
    exact keeps_fail h _ _
  rw [if_neg hcheck]
  show Keeps dev _ e s (tegrablBlockdevXfer _ dev _ _ _)
  unfold tegrablBlockdevXfer
  by_cases hpast : pastEnd dev ((publishEntry dev e).startSector + start).toUInt32 n.toUInt32 = true
  · rw [if_pos hpast]
    exact ⟨⟨_, rfl⟩, h, rfl⟩
  rw [if_neg hpast]
  by_cases hr : dev.ref = 0
  · rw [if_pos hr]
    exact ⟨⟨_, rfl⟩, h, rfl⟩
  rw [if_neg hr]
  refine access_keeps h ?_
  obtain hzero | hpast' | ⟨hsum, hwrap⟩ := ((hc.resolve_left hz.1).resolve_left hz.2).resolve_left hcheck
  · intro x hx hx'
    have hx' : x < _ + n.toUInt32.toNat := hx'
    rw [hzero] at hx'
    exact absurd hx' (Nat.not_lt.mpr hx)
  · exact absurd hpast' hpast
  · have hcomm : ¬ (publishEntry dev e).numSectors < n + start := by
      rw [add_comm]
      exact hcheck
    have hle := (sum_checked hcomm hsum).trans (numSectors_le dev ht)
    have hcount : n.toUInt32.toNat ≤ n.toNat := by
      rw [UInt64.toNat_toUInt32]
      exact Nat.mod_le _ _
    have hblock : ((publishEntry dev e).startSector + start).toUInt32.toNat
        = e.firstLba.toNat + start.toNat := by
      have hlt : e.firstLba.toNat + start.toNat < 2 ^ 32 :=
        Nat.lt_of_le_of_lt (Nat.le_add_right _ _) hwrap
      rw [UInt64.toNat_toUInt32, UInt64.toNat_add, start_toNat, Nat.mod_eq_of_lt (by omega)]
      exact Nat.mod_eq_of_lt (by omega)
    exact inside_of_checked start.toNat ht hblock (by omega) (by rw [hblock]; exact hwrap) hpast

theorem run_keeps (heap : Heap) (a : PartAct) (h : PartInv dev (publishEntry dev e) e s)
    (ht : e.taken = true) (hk : dev.blockSizeLog2.toNat < 32) (hr : dev.ref ≠ 0) (hallowed : a.Allowed)
    (hc : PartAct.Contained dev (publishEntry dev e) s (a, b)) :
    Keeps dev (publishEntry dev e) e s (a.run b dev heap (publishEntry dev e)) := by
  cases a with
  | read buf n => exact read_keeps heap h ht hk hr hallowed hc
  | write buf data n => exact write_keeps heap data h ht hk hr hallowed.1 hc
  | seek offset origin => exact seek_keeps h hc
  | erase => exact erase_keeps h ht hc
  | asyncRead buf start n => exact async_keeps 7 h ht hc
  | asyncWrite buf start n => exact async_keeps 11 h ht hc

/-! ## Runs -/

/-- What the claims of a partition come to: its blocks are the only ones that were
asked for, and a call that returns an error leaves the offset.  `ok` are the calls
that are meant. -/
structure Isolated (dev : Bdev) (heap : Heap) (info : PartitionInfo) (e : GptEntry)
    (ok : PartState → PartAct × Behaviour → Prop) (s : PartState) : Prop extends PartInv dev info e s where
  returns : ∀ a b, a.Allowed → ok s (a, b) → ∃ r t, a.call b dev heap info s = .ok r t ∧
    (r ≠ none → t.offset = s.offset)

theorem wp_call {a : PartAct} (h : Keeps dev info e s (a.run b dev heap info)) :
    wp (a.call b dev heap info) (fun r t => PartInv dev info e t ∧ (r ≠ none → t.offset = s.offset))
      (fun _ _ => False) s := by
  unfold Keeps wp at h
  unfold wp
  rw [PartAct.call]
  cases hrun : a.run b dev heap info s with
  | ok _ t =>
      rw [hrun] at h
      exact ⟨h, fun hne => absurd rfl hne⟩
  | error f t =>
      rw [hrun] at h
      obtain ⟨⟨err, rfl⟩, hinv, hsame⟩ := h
      exact ⟨hinv, fun _ => hsame⟩

theorem isolated_of_reachable (ht : e.taken = true) (hk : dev.blockSizeLog2.toNat < 32)
    (hr : dev.ref ≠ 0) (hs : (partition dev heap (publishEntry dev e)).Reachable
      (PartAct.Contained dev (publishEntry dev e)) s) :
    Isolated dev heap (publishEntry dev e) e (PartAct.Contained dev (publishEntry dev e)) s := by
  have hinv : PartInv dev (publishEntry dev e) e s := by
    refine Machine.invariant (I := PartInv dev (publishEntry dev e) e) (E := fun _ _ _ _ => True) ?_ ?_ hs
    · exact ⟨Nat.zero_le _, fun a ha => absurd ha List.not_mem_nil⟩
    · rintro s ⟨a, b⟩ h hallowed hc
      refine (wp_bind _ _).mpr (wp_mono (wp_call (run_keeps heap a h ht hk hr hallowed hc)) ?_ ?_)
      · intro _ t hinv
        exact hinv.1
      · intro _ _ hf
        exact hf.elim
  refine ⟨hinv, ?_⟩
  intro a b hallowed hc
  obtain ⟨r, t, hcall, _, hsame⟩ := wp_total (wp_call (run_keeps heap a hinv ht hk hr hallowed hc))
  exact ⟨r, t, hcall, hsame⟩

/-! ## What is published -/

theorem wp_readBlock_sized {buf : UInt64} {block count : UInt32} :
    wp (tegrablBlockdevReadBlock (exactDriver dev) dev buf block count)
      (fun x _ => count ≠ 0 ∧ dev.ref ≠ 0 ∧ x.length = count.toNat * dev.B) anyStop disk := by
  unfold tegrablBlockdevReadBlock
  by_cases hc : count = 0
  · rw [if_pos hc]
    exact trivial
  rw [if_neg hc]
  by_cases hb : (!bufferAligned dev buf) = true
  · rw [if_pos hb]
    exact trivial
  rw [if_neg hb]
  by_cases hr : dev.ref = 0
  · rw [if_pos hr]
    exact trivial
  rw [if_neg hr]
  by_cases hrange : (decide (block > dev.blockCount) || decide (block + count > dev.blockCount)) = true
  · rw [if_pos hrange]
    exact trivial
  · rw [if_neg hrange]
    exact ⟨hc, hr, length_slice _ _ _⟩

/-- A table that was read is of an open device with blocks of at most 16 KiB. -/
theorem wp_readTable_sized {buffer : UInt64} {hdr : GptHeader} :
    wp (gptReadTable dev buffer hdr) (fun _ _ => dev.ref ≠ 0 ∧ dev.B ≤ gptTableArea) anyStop disk := by
  unfold gptReadTable
  by_cases hn : hdr.numEntries.toNat > gptMaxPartitionEntries
  · rw [if_pos hn]
    exact trivial
  rw [if_neg hn]
  by_cases he : hdr.entrySize.toNat > 128
  · rw [if_pos he]
    exact trivial
  rw [if_neg he]
  refine wp_seq (wp_underModule wp_readBlock_sized fun _ _ _ => trivial) ?_
  rintro x t ⟨hc, hr, hlen⟩
  by_cases hover : x.length > gptTableArea
  · rw [if_pos hover]
    exact trivial
  rw [if_neg hover]
  have hcount : 0 < (divCeilLog2 (hdr.numEntries * hdr.entrySize).toUInt64
      dev.blockSizeLog2).toUInt32.toNat := by
    refine Nat.pos_of_ne_zero ?_
    intro hz
    exact hc (UInt32.toNat_inj.mp hz)
  have hle := Nat.le_mul_of_pos_left dev.B hcount
  rw [← hlen] at hle
  refine (wp_ite _ _ _).mpr ?_
  split
  · exact trivial
  · exact ⟨hr, hle.trans (Nat.not_lt.mp hover)⟩

theorem wp_readValidate_sized {offset : UInt64} :
    wp (tegrablGptReadValidate dev heap offset) (fun _ _ => dev.ref ≠ 0 ∧ dev.B ≤ gptTableArea) anyStop
      disk := by
  refine wp_seq (R := fun _ _ => True) (wp_any _ _) ?_
  intro x t _
  exact wp_seq (R := fun _ _ => True) (wp_any _ _) fun _ u _ => wp_readTable_sized

theorem wp_readFirst_sized {os : List UInt64} {disk : Disk} :
    wp (gptReadFirst dev heap os) (fun _ _ => dev.ref ≠ 0 ∧ dev.B ≤ gptTableArea) anyStop disk := by
  induction os generalizing disk with
  | nil => exact trivial
  | cons o os ih =>
      have hfirst : wp (tegrablGptReadValidate dev heap o)
        (fun _ _ => dev.ref ≠ 0 ∧ dev.B ≤ gptTableArea) anyStop disk := wp_readValidate_sized
      cases hrun : tegrablGptReadValidate dev heap o disk with
      | ok x t =>
          have hstep : gptReadFirst dev heap (o :: os) disk = .ok x t := by
            simp only [gptReadFirst, hrun]
          have hpost := wp_ok hfirst hrun
          exact wp_run hstep hpost
      | error f t =>
          cases f with
          | err err =>
              have hstep : gptReadFirst dev heap (o :: os) disk = gptReadFirst dev heap os t := by
                simp only [gptReadFirst, hrun]
              unfold wp at ih ⊢
              rw [hstep]
              exact ih
          | undefined =>
              have hstep : gptReadFirst dev heap (o :: os) disk = .error .undefined t := by
                simp only [gptReadFirst, hrun]
              unfold wp
              rw [hstep]
              trivial

/-- What can be opened after a table was accepted. -/
theorem publish_accepts {offset : UInt64} {infos : List PartitionInfo} {t : Disk}
    (h : tegrablGptPublish dev heap offset disk = .ok infos t) :
    dev.ref ≠ 0 ∧ dev.blockSizeLog2.toNat < 32 ∧
      ∀ info ∈ infos, ∃ e : GptEntry, e.taken = true ∧ info = publishEntry dev e := by
  have hspec : wp (tegrablGptPublish dev heap offset) (fun infos _ => (dev.ref ≠ 0 ∧
      dev.B ≤ gptTableArea) ∧ ∀ info ∈ infos, ∃ e : GptEntry, e.taken = true ∧
        info = publishEntry dev e) anyStop disk := by
    have hread : wp (tegrablGptRead dev heap offset) (fun _ _ => dev.ref ≠ 0 ∧ dev.B ≤ gptTableArea)
        anyStop disk := by
      unfold tegrablGptRead
      split
      · exact wp_readFirst_sized
      · exact wp_readFirst_sized
    refine wp_seq hread ?_
    intro area u hdev
    obtain ⟨_, err, herr⟩ | ⟨_, hok⟩ := publishArea_run dev u area
    · unfold wp
      rw [herr]
      trivial
    · refine wp_run hok ⟨hdev, ?_⟩
      intro info hinfo
      obtain ⟨e, he, rfl⟩ := List.mem_map.mp hinfo
      exact ⟨e, (List.mem_filter.mp he).2, rfl⟩
  obtain ⟨⟨hr, hB⟩, hinfos⟩ := wp_ok hspec h
  refine ⟨hr, ?_, hinfos⟩
  have hpow : 2 ^ dev.blockSizeLog2.toNat ≤ 2 ^ 14 := hB
  have := (Nat.pow_le_pow_iff_right (by norm_num)).mp hpow
  omega

/-- For every table that is accepted and every partition opened from it: in a run
whose calls meet the condition, the partition keeps to its blocks and the device's,
its offset to its size, and every error leaves the offset. -/
theorem partition_isolated (dev : Bdev) (heap : Heap) (disk t : Disk) (offset : UInt64)
    (infos : List PartitionInfo) (info : PartitionInfo)
    (hpub : tegrablGptPublish dev heap offset disk = .ok infos t) (hinfo : info ∈ infos) :
    ∃ e : GptEntry, e.taken = true ∧ info = publishEntry dev e ∧
      ∀ s, (partition dev heap info).Reachable (PartAct.Contained dev info) s →
        Isolated dev heap info e (PartAct.Contained dev info) s := by
  obtain ⟨hr, hk, hinfos⟩ := publish_accepts hpub
  obtain ⟨e, ht, rfl⟩ := hinfos info hinfo
  exact ⟨e, ht, rfl, fun s hs => isolated_of_reachable ht hk hr hs⟩

/-- The partition of blocks 3 to 5, as it is published. -/
theorem published_three : ∃ infos info, tegrablGptPublish eightBlocks gptHeap 0
      (onePartition 0xAF701CC2 0x727B8021 5) = .ok infos (onePartition 0xAF701CC2 0x727B8021 5) ∧
    info ∈ infos ∧ info.startSector = 3 ∧ info.numSectors = 3 ∧ info.totalSize = 1536 := by
  obtain ⟨infos, hok, hsame⟩ := publishes_of_plain gptHeap (by decide) readable_three
    (findGpt_onePartition gptAt_onePartition) plain_three
  have hnumbers : ((tableAt eightBlocks (onePartition 0xAF701CC2 0x727B8021 5) 512).partitions
      eightBlocks).map (fun p => (p.start, p.sectors, p.bytes)) = [(3, 3, 1536)] := by
    decide +kernel
  rw [← hsame, List.map_map] at hnumbers
  obtain ⟨info, hinfos, hinfo⟩ := List.map_eq_singleton_iff.mp hnumbers
  have hstart : info.startSector.toNat = 3 := congrArg Prod.fst hinfo
  have hsectors : info.numSectors.toNat = 3 := congrArg (fun p => p.2.1) hinfo
  have hbytes : info.totalSize.toNat = 1536 := congrArg (fun p => p.2.2) hinfo
  refine ⟨infos, info, hok, ?_, UInt64.toNat_inj.mp hstart, UInt64.toNat_inj.mp hsectors,
    UInt64.toNat_inj.mp hbytes⟩
  rw [hinfos]
  exact List.mem_singleton_self _

/-- A device that does what it is asked. -/
def obeying : Behaviour := ⟨fun _ => none, fun _ => []⟩

theorem erase_run (name guid ptypeGuid : List UInt8) :
    (partition eightBlocks gptHeap ⟨name, guid, ptypeGuid, 3, 3, 1536⟩).run (.erase, obeying) ⟨0, []⟩
      = .ok ⟨⟩ ⟨0, [⟨.erase, 3, 3⟩]⟩ := rfl

/-- After an erasure. -/
theorem partition_isolated_erased : ∃ info e s, (partition eightBlocks gptHeap info).Reachable
      (PartAct.Contained eightBlocks info) s ∧ s.log = [⟨.erase, 3, 3⟩] ∧
    Isolated eightBlocks gptHeap info e (PartAct.Contained eightBlocks info) s := by
  obtain ⟨infos, info, hok, hmem, hstart, hsectors, hbytes⟩ := published_three
  obtain ⟨e, _, _, hall⟩ := partition_isolated eightBlocks gptHeap _ _ 0 infos info hok hmem
  obtain ⟨name, guid, ptypeGuid, startSector, numSectors, totalSize⟩ := info
  cases hstart
  cases hsectors
  cases hbytes
  have hreach : (partition eightBlocks gptHeap ⟨name, guid, ptypeGuid, 3, 3, 1536⟩).Reachable
      (PartAct.Contained eightBlocks ⟨name, guid, ptypeGuid, 3, 3, 1536⟩) ⟨0, [⟨.erase, 3, 3⟩]⟩ :=
    Relation.ReflTransGen.single ⟨(.erase, obeying), trivial,
      Or.inr (Or.inr (show 3 + 3 < 2 ^ 32 by omega)), erase_run name guid ptypeGuid⟩
  exact ⟨_, e, _, hreach, rfl, hall _ hreach⟩

theorem asyncRead_before (name guid ptypeGuid : List UInt8) :
    (partition eightBlocks gptHeap ⟨name, guid, ptypeGuid, 3, 3, 1536⟩).run
      (.asyncRead 4096 0xFFFFFFFFFFFFFFFF 1, obeying) ⟨0, []⟩ = .ok ⟨⟩ ⟨0, [⟨.read, 2, 1⟩]⟩ := by
  have hblock : ((3 : UInt64) + 0xFFFFFFFFFFFFFFFF).toUInt32 = 2 := by decide
  have hcall : partitionAsync obeying eightBlocks ⟨name, guid, ptypeGuid, 3, 3, 1536⟩ 7 4096
      0xFFFFFFFFFFFFFFFF 1 ⟨0, []⟩ = .ok () ⟨0, [⟨.read, 2, 1⟩]⟩ := by
    unfold partitionAsync
    rw [if_neg (by decide), if_neg (show ¬ (3 : UInt64) < 0xFFFFFFFFFFFFFFFF + 1 by decide)]
    dsimp only
    rw [hblock]
    rfl
  simp only [partition, PartAct.call, PartAct.run, tegrablPartitionAsyncRead, run_bind, hcall, run_pure]

/-- A transfer of one sector from sector 2^64 - 1 on reads the block before the
partition. -/
theorem sector_before_partition : ¬ ∀ (dev : Bdev) (heap : Heap) (disk t : Disk) (offset : UInt64)
    (infos : List PartitionInfo) (info : PartitionInfo),
    tegrablGptPublish dev heap offset disk = .ok infos t → info ∈ infos →
    ∃ e : GptEntry, e.taken = true ∧ info = publishEntry dev e ∧
      ∀ s, (partition dev heap info).Reachable (fun _ _ => True) s →
        Isolated dev heap info e (fun _ _ => True) s := by
  intro hall
  obtain ⟨infos, info, hok, hmem, hstart, hsectors, hbytes⟩ := published_three
  obtain ⟨e, _, he, hisolated⟩ := hall eightBlocks gptHeap _ _ 0 infos info hok hmem
  have hfirst : e.firstLba = 3 := by
    rw [← hstart, he]
    rfl
  obtain ⟨name, guid, ptypeGuid, startSector, numSectors, totalSize⟩ := info
  cases hstart
  cases hsectors
  cases hbytes
  have hreach : (partition eightBlocks gptHeap ⟨name, guid, ptypeGuid, 3, 3, 1536⟩).Reachable
      (fun _ _ => True) ⟨0, [⟨.read, 2, 1⟩]⟩ :=
    Relation.ReflTransGen.single ⟨(.asyncRead 4096 0xFFFFFFFFFFFFFFFF 1, obeying), trivial, trivial,
      asyncRead_before name guid ptypeGuid⟩
  have hin := (hisolated _ hreach).log ⟨.read, 2, 1⟩ (List.mem_singleton_self _) 2 (le_refl _)
    (Nat.lt_succ_self _)
  rw [hfirst] at hin
  exact absurd hin.1 (by decide)

end TX2SecureUart.Storage
