/-
# `Ivc.Channel` — frames through an IVC channel, and its re-synchronisation

One end of a channel of `tegra-ivc.c`.  The counters in the channel headers count
frames, modulo 2^32; `w_pos` and `r_pos` go round the `nframes` frames of a queue.
`tegra_ivc_channel_sync` finds the positions again from the counters.

What the peer owns is read when it is needed, and can be different every time:
`Seen` is what one call finds.  Barriers and caches are left out.
-/
import Mathlib

namespace TX2SecureUart.IvcChannel

/-- `ivc_state_t` -/
inductive IvcState where
  | established
  | sync
  | ack
deriving DecidableEq

inductive Errno where
  | connReset
  | noMem
  | tooBig
  | inval
deriving DecidableEq

/-- `struct ivc`, and the words of the two headers that this end owns -/
structure Ivc where
  nframes : UInt32
  frameSize : UInt32
  wPos : UInt32
  rPos : UInt32
  /-- `tx_channel->w_count` -/
  wCount : UInt32
  /-- `tx_channel->state` -/
  state : IvcState
  /-- `rx_channel->r_count` -/
  rCount : UInt32
  /-- The frames behind `tx_channel`. -/
  txFrames : UInt32 → List UInt8

/-- The peer's counter, as the first check reads it, the second, and the last look
at it; and the frames behind `rx_channel`. -/
structure Seen where
  first : UInt32
  second : UInt32
  last : UInt32
  rxFrames : UInt32 → List UInt8

/-! ## The checks -/

/-- `ivc_channel_empty`; more frames than the queue has count as none -/
def channelEmpty (nframes wCount rCount : UInt32) : Bool :=
  if wCount - rCount > nframes then true else wCount == rCount

/-- `ivc_channel_full` -/
def channelFull (nframes wCount rCount : UInt32) : Bool := wCount - rCount ≥ nframes

/-- `ivc_check_read` -/
def checkRead (ivc : Ivc) (seen : Seen) : Option Errno :=
  if ivc.state ≠ .established then some .connReset
  else if !channelEmpty ivc.nframes seen.first ivc.rCount then none
  else if channelEmpty ivc.nframes seen.second ivc.rCount then some .noMem
  else none

/-- `ivc_check_write` -/
def checkWrite (ivc : Ivc) (seen : Seen) : Option Errno :=
  if ivc.state ≠ .established then some .connReset
  else if !channelFull ivc.nframes ivc.wCount seen.first then none
  else if channelFull ivc.nframes ivc.wCount seen.second then some .noMem
  else none

/-! ## The calls -/

/-- The position after `pos`. -/
def nextPos (nframes pos : UInt32) : UInt32 := if pos = nframes - 1 then 0 else pos + 1

/-- `ivc_advance_tx` -/
def Ivc.advanceTx (ivc : Ivc) : Ivc :=
  { ivc with wCount := ivc.wCount + 1, wPos := nextPos ivc.nframes ivc.wPos }

/-- `ivc_advance_rx` -/
def Ivc.advanceRx (ivc : Ivc) : Ivc :=
  { ivc with rCount := ivc.rCount + 1, rPos := nextPos ivc.nframes ivc.rPos }

/-- What a call that succeeds leaves and hands over. -/
structure Done where
  ivc : Ivc
  data : List UInt8
  notified : Bool

/-- A frame has been read. -/
def Ivc.readDone (ivc : Ivc) (seen : Seen) (data : List UInt8) : Done where
  ivc := ivc.advanceRx
  data := data
  notified := seen.last - ivc.advanceRx.rCount = ivc.nframes - 1

/-- A frame has been written. -/
def Ivc.writeDone (ivc : Ivc) (seen : Seen) : Done where
  ivc := ivc.advanceTx
  data := []
  notified := ivc.advanceTx.wCount - seen.last = 1

/-- `tegra_ivc_read` -/
def tegraIvcRead (ivc : Ivc) (seen : Seen) (maxRead : Nat) : Except Errno Done :=
  if ivc.frameSize.toNat < maxRead then .error .tooBig
  else
    match checkRead ivc seen with
    | some e => .error e
    | none => .ok (ivc.readDone seen ((seen.rxFrames ivc.rPos).take maxRead))

/-- `tegra_ivc_read_advance` -/
def tegraIvcReadAdvance (ivc : Ivc) (seen : Seen) : Except Errno Done :=
  match checkRead ivc seen with
  | some e => .error e
  | none => .ok (ivc.readDone seen [])

/-- `memcpy` and `memset` of a frame -/
def Ivc.fillFrame (ivc : Ivc) (buf : List UInt8) : Ivc :=
  { ivc with
    txFrames := Function.update ivc.txFrames ivc.wPos
      (buf ++ List.replicate (ivc.frameSize.toNat - buf.length) 0) }

/-- `tegra_ivc_write` -/
def tegraIvcWrite (ivc : Ivc) (seen : Seen) (buf : List UInt8) : Except Errno Done :=
  if ivc.frameSize.toNat < buf.length then .error .tooBig
  else
    match checkWrite ivc seen with
    | some e => .error e
    | none => .ok ((ivc.fillFrame buf).writeDone seen)

/-- `tegra_ivc_write_advance` -/
def tegraIvcWriteAdvance (ivc : Ivc) (seen : Seen) : Except Errno Done :=
  match checkWrite ivc seen with
  | some e => .error e
  | none => .ok (ivc.writeDone seen)

/-- `tegra_ivc_channel_sync` -/
def tegraIvcChannelSync (ivc : Ivc) : Except Errno Ivc :=
  if ivc.nframes = 0 then .error .inval
  else .ok { ivc with wPos := ivc.wCount % ivc.nframes, rPos := ivc.rCount % ivc.nframes }

/-! ## Histories -/

inductive Call where
  | read (seen : Seen) (maxRead : Nat)
  | readAdvance (seen : Seen)
  | write (seen : Seen) (buf : List UInt8)
  | writeAdvance (seen : Seen)

def Call.isWrite : Call → Bool
  | .write _ _ => true
  | .writeAdvance _ => true
  | _ => false

def Call.run (ivc : Ivc) : Call → Except Errno Done
  | .read seen maxRead => tegraIvcRead ivc seen maxRead
  | .readAdvance seen => tegraIvcReadAdvance ivc seen
  | .write seen buf => tegraIvcWrite ivc seen buf
  | .writeAdvance seen => tegraIvcWriteAdvance ivc seen

/-- The channel, the frames written and the frames read. -/
structure History where
  ivc : Ivc
  written : Nat
  read : Nat

/-- A call that fails changes nothing. -/
def History.call (h : History) (c : Call) : History :=
  match c.run h.ivc with
  | .error _ => h
  | .ok d =>
      { ivc := d.ivc
        written := h.written + c.isWrite.toNat
        read := h.read + (!c.isWrite).toNat }

def history (ivc : Ivc) (calls : List Call) : History := calls.foldl History.call ⟨ivc, 0, 0⟩

/-- The channel is established and its counters are zero. -/
structure Fresh (ivc : Ivc) : Prop where
  nframes : ivc.nframes ≠ 0
  state : ivc.state = .established
  wCount : ivc.wCount = 0
  wPos : ivc.wPos = 0
  rCount : ivc.rCount = 0
  rPos : ivc.rPos = 0

/-- A re-synchronisation leaves the positions. -/
def Resyncs (ivc : Ivc) : Prop :=
  ∃ ivc', tegraIvcChannelSync ivc = .ok ivc' ∧ ivc'.wPos = ivc.wPos ∧ ivc'.rPos = ivc.rPos

/-! ## One position -/

/-- A counter and its position, after `k` frames. -/
structure Counted (nframes count pos : UInt32) (k : Nat) : Prop where
  count : count.toNat = k % 2 ^ 32
  pos : pos.toNat = k % nframes.toNat

variable {nframes count pos : UInt32} {k : Nat}

theorem toNat_pos (h : nframes ≠ 0) : 0 < nframes.toNat :=
  Nat.pos_of_ne_zero fun hz => h (UInt32.toNat_inj.mp hz)

theorem nextPos_toNat (hn : nframes ≠ 0) (h : pos.toNat = k % nframes.toNat) :
    (nextPos nframes pos).toNat = (k + 1) % nframes.toNat := by
  have hpos := toNat_pos hn
  have hlt := Nat.mod_lt k hpos
  have hmax := nframes.toNat_lt
  have hone : (1 : UInt32).toNat = 1 := rfl
  have hlast : (nframes - 1).toNat = nframes.toNat - 1 :=
    UInt32.toNat_sub_of_le _ _ (UInt32.le_iff_toNat_le.mpr hpos)
  rw [← Nat.mod_add_mod, nextPos]
  split
  · rename_i heq
    rw [heq, hlast] at h
    have hfull : k % nframes.toNat + 1 = nframes.toNat := by omega
    rw [hfull, Nat.mod_self]
    rfl
  · rename_i hne
    have hne' : pos.toNat ≠ nframes.toNat - 1 := by
      intro heq
      exact hne (UInt32.toNat_inj.mp (heq.trans hlast.symm))
    have hsmall : k % nframes.toNat + 1 < nframes.toNat := by omega
    rw [UInt32.toNat_add, hone, h, Nat.mod_eq_of_lt hsmall]
    exact Nat.mod_eq_of_lt (hsmall.trans hmax)

theorem Counted.next (hn : nframes ≠ 0) (h : Counted nframes count pos k) :
    Counted nframes (count + 1) (nextPos nframes pos) (k + 1) where
  count := by
    have hone : (1 : UInt32).toNat = 1 := rfl
    rw [UInt32.toNat_add, hone, h.count, Nat.mod_add_mod]
  pos := nextPos_toNat hn h.pos

/-- The position that is found from the counter. -/
theorem Counted.resync_iff (h : Counted nframes count pos k) :
    count % nframes = pos ↔ nframes.toNat ∣ 2 ^ 32 * (k / 2 ^ 32) := by
  have hle : k % 2 ^ 32 ≤ k := Nat.mod_le _ _
  have hsub : k - k % 2 ^ 32 = 2 ^ 32 * (k / 2 ^ 32) := by
    have := Nat.div_add_mod k (2 ^ 32)
    omega
  rw [← UInt32.toNat_inj, UInt32.toNat_mod, h.count, h.pos, ← hsub]
  exact Nat.modEq_iff_dvd' hle

/-! ## The channel -/

/-- Both positions of a channel are those of the frames that went through. -/
structure History.Counted (h : History) (nframes : UInt32) : Prop where
  same : h.ivc.nframes = nframes
  tx : IvcChannel.Counted nframes h.ivc.wCount h.ivc.wPos h.written
  rx : IvcChannel.Counted nframes h.ivc.rCount h.ivc.rPos h.read

/-- A write that succeeds moves the channel on by one frame, and so does a read. -/
theorem Call.run_ok {ivc : Ivc} {c : Call} {d : Done} (h : c.run ivc = .ok d) :
    ∃ frames, d.ivc = if c.isWrite then { ivc.advanceTx with txFrames := frames }
      else { ivc.advanceRx with txFrames := frames } := by
  cases c with
  | read seen maxRead =>
      rw [Call.run, tegraIvcRead] at h
      split at h
      · cases h
      split at h <;> cases h
      exact ⟨ivc.txFrames, rfl⟩
  | readAdvance seen =>
      rw [Call.run, tegraIvcReadAdvance] at h
      split at h <;> cases h
      exact ⟨ivc.txFrames, rfl⟩
  | write seen buf =>
      rw [Call.run, tegraIvcWrite] at h
      split at h
      · cases h
      split at h <;> cases h
      exact ⟨(ivc.fillFrame buf).txFrames, rfl⟩
  | writeAdvance seen =>
      rw [Call.run, tegraIvcWriteAdvance] at h
      split at h <;> cases h
      exact ⟨ivc.txFrames, rfl⟩

theorem History.Counted.call {h : History} (hn : nframes ≠ 0) (hc : h.Counted nframes) (c : Call) :
    (h.call c).Counted nframes := by
  rw [History.call]
  cases hrun : c.run h.ivc with
  | error e => exact hc
  | ok d =>
      show History.Counted
        ⟨d.ivc, h.written + c.isWrite.toNat, h.read + (!c.isWrite).toNat⟩ nframes
      obtain ⟨frames, hivc⟩ := Call.run_ok hrun
      have hsame := hc.same
      cases hw : c.isWrite with
      | true =>
          rw [hw, if_pos rfl] at hivc
          refine ⟨?_, ?_, ?_⟩
          · rw [hivc]
            exact hc.same
          · rw [hivc]
            show IvcChannel.Counted nframes (h.ivc.wCount + 1) (nextPos h.ivc.nframes h.ivc.wPos) _
            rw [hsame]
            exact hc.tx.next hn
          · rw [hivc]
            exact hc.rx
      | false =>
          rw [hw, if_neg Bool.false_ne_true] at hivc
          refine ⟨?_, ?_, ?_⟩
          · rw [hivc]
            exact hc.same
          · rw [hivc]
            exact hc.tx
          · rw [hivc]
            show IvcChannel.Counted nframes (h.ivc.rCount + 1) (nextPos h.ivc.nframes h.ivc.rPos) _
            rw [hsame]
            exact hc.rx.next hn

theorem Fresh.counted {ivc : Ivc} (h : Fresh ivc) : History.Counted ⟨ivc, 0, 0⟩ ivc.nframes where
  same := rfl
  tx := by
    show IvcChannel.Counted ivc.nframes ivc.wCount ivc.wPos 0
    rw [h.wCount, h.wPos]
    exact ⟨rfl, (Nat.zero_mod _).symm⟩
  rx := by
    show IvcChannel.Counted ivc.nframes ivc.rCount ivc.rPos 0
    rw [h.rCount, h.rPos]
    exact ⟨rfl, (Nat.zero_mod _).symm⟩

theorem counted_foldl (hn : nframes ≠ 0) (calls : List Call) {h : History}
    (hc : h.Counted nframes) : (calls.foldl History.call h).Counted nframes := by
  induction calls generalizing h with
  | nil => exact hc
  | cons c calls ih => exact ih (hc.call hn c)

/-- The positions of a history, found again. -/
theorem History.Counted.resyncs_iff {h : History} (hn : nframes ≠ 0) (hc : h.Counted nframes) :
    Resyncs h.ivc ↔ nframes.toNat ∣ 2 ^ 32 * (h.written / 2 ^ 32) ∧
      nframes.toNat ∣ 2 ^ 32 * (h.read / 2 ^ 32) := by
  rw [← hc.tx.resync_iff, ← hc.rx.resync_iff, Resyncs, tegraIvcChannelSync, hc.same, if_neg hn]
  constructor
  · rintro ⟨ivc', hok, hw, hr⟩
    cases hok
    exact ⟨hw, hr⟩
  · rintro ⟨hw, hr⟩
    exact ⟨_, rfl, hw, hr⟩

/-- After any history a re-synchronisation leaves the positions if and only if the
frames that the two counters have lost are whole rounds of the queue. -/
theorem resync_keeps_iff (ivc : Ivc) (hfresh : Fresh ivc) (calls : List Call) :
    Resyncs (history ivc calls).ivc ↔
      ivc.nframes.toNat ∣ 2 ^ 32 * ((history ivc calls).written / 2 ^ 32) ∧
      ivc.nframes.toNat ∣ 2 ^ 32 * ((history ivc calls).read / 2 ^ 32) :=
  (counted_foldl hfresh.nframes calls hfresh.counted).resyncs_iff hfresh.nframes

/-- A channel of `n` frames of 64 bytes. -/
def freshIvc (n : UInt32) : Ivc where
  nframes := n
  frameSize := 64
  wPos := 0
  rPos := 0
  wCount := 0
  state := .established
  rCount := 0
  txFrames := fun _ => []

/-- The peer has read all that was written. -/
def caughtUp (count : UInt32) : Seen := ⟨count, count, count, fun _ => []⟩

theorem resync_keeps_two :
    Resyncs (history (freshIvc 3) [.writeAdvance (caughtUp 0), .readAdvance (caughtUp 1)]).ivc :=
  (resync_keeps_iff (freshIvc 3) ⟨by decide, rfl, rfl, rfl, rfl, rfl⟩ _).mpr
    ⟨by decide, by decide⟩

/-! ## A counter that has wrapped -/

/-- `k` writes to a peer that keeps up. -/
def manyWrites (k : Nat) : List Call :=
  (List.range k).map fun i => .writeAdvance (caughtUp (UInt32.ofNat i))

theorem manyWrites_written (k : Nat) :
    (history (freshIvc 3) (manyWrites k)).written = k ∧
      (history (freshIvc 3) (manyWrites k)).ivc.state = .established := by
  have hcounted : ∀ k, (history (freshIvc 3) (manyWrites k)).Counted 3 := fun k =>
    counted_foldl (by decide) _ (Fresh.counted ⟨by decide, rfl, rfl, rfl, rfl, rfl⟩)
  induction k with
  | zero => exact ⟨rfl, rfl⟩
  | succ k ih =>
      obtain ⟨hwritten, hstate⟩ := ih
      have hsplit : history (freshIvc 3) (manyWrites (k + 1)) =
          (history (freshIvc 3) (manyWrites k)).call (.writeAdvance (caughtUp (UInt32.ofNat k))) := by
        rw [history, manyWrites, List.range_succ, List.map_append, List.foldl_append]
        rfl
      have hcount : (history (freshIvc 3) (manyWrites k)).ivc.wCount = UInt32.ofNat k := by
        rw [← UInt32.toNat_inj, (hcounted k).tx.count, hwritten]
        rfl
      have hcheck : checkWrite (history (freshIvc 3) (manyWrites k)).ivc
          (caughtUp (UInt32.ofNat k)) = none := by
        rw [checkWrite, if_neg (not_not.mpr hstate), hcount, (hcounted k).same, if_pos]
        show (!decide (UInt32.ofNat k - UInt32.ofNat k ≥ 3)) = true
        rw [sub_self]
        rfl
      rw [hsplit, History.call, Call.run, tegraIvcWriteAdvance, hcheck]
      exact ⟨congrArg (· + 1) hwritten, hstate⟩

/-- 2^32 frames of a queue of three: the counter is 0 again, the position is 1. -/
theorem wrapped_counter_loses_position :
    ¬ Resyncs (history (freshIvc 3) (manyWrites (2 ^ 32))).ivc := by
  have hc : (history (freshIvc 3) (manyWrites (2 ^ 32))).Counted 3 :=
    counted_foldl (by decide) _ (Fresh.counted ⟨by decide, rfl, rfl, rfl, rfl, rfl⟩)
  rw [hc.resyncs_iff (by decide), (manyWrites_written (2 ^ 32)).1]
  rintro ⟨hdvd, -⟩
  exact absurd hdvd (by decide)

end TX2SecureUart.IvcChannel
