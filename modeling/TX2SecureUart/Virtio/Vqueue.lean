/-
# `Virtio.Vqueue` — the queues between the two worlds

`vqueue.c`: the other side publishes heads of descriptor chains in the avail ring, this side
takes them off and returns them in the used ring.  The other side may write to its ring at
any time, so what a look into it finds is an argument of the functions: `look n` is the
avail ring and `desc n` the table of descriptors when they are looked at for the `n`-th
time.

The used ring is written by this side alone.
-/
import TX2SecureUart.Err
import TX2SecureUart.Lib.RingQueue
import TX2SecureUart.Tipc.Iovs

namespace TX2SecureUart.Vqueue

open RingQueue Tipc

/-! ## The rings -/

/-- `VRING_DESC_F_NEXT` -/
def vringDescFNext : UInt16 := 1

/-- `VRING_DESC_F_WRITE` -/
def vringDescFWrite : UInt16 := 2

/-- `VRING_USED_F_NO_NOTIFY` -/
def vringUsedFNoNotify : UInt16 := 1

/-- `struct vring_desc` -/
structure VringDesc where
  addr : UInt64
  len : UInt32
  flags : UInt16
  next : UInt16

/-- `struct vring_avail`; its flags are not looked at. -/
structure VringAvail where
  idx : UInt16
  ring : Nat → UInt16

/-- `struct vring_used_elem` -/
structure VringUsedElem where
  id : UInt32
  len : UInt32
deriving DecidableEq

/-- `struct vring_used` -/
structure VringUsed where
  flags : UInt16
  idx : UInt16
  ring : Nat → VringUsedElem

/-- `struct vqueue`, without what a notification needs. -/
structure Vqueue where
  num : UInt32
  used : VringUsed
  /-- `vring_addr` is not `NULL`. -/
  mapped : Bool
  lastAvailIdx : UInt16
  /-- `avail_event` is signalled. -/
  availEvent : Bool

/-- `struct vqueue_buf` -/
structure VqBuf where
  head : UInt16
  inIovs : VqueueIovs
  outIovs : VqueueIovs

/-- What a call comes to. -/
inductive Outcome where
  | panic
  /-- The loop has not come to its end. -/
  | running
  | ret (code : Int) (vq : Vqueue) (buf : VqBuf)

/-! ## A chain of descriptors -/

def VqBuf.iovs (buf : VqBuf) (write : Bool) : VqueueIovs := if write then buf.outIovs else buf.inIovs

def VqBuf.setIovs (buf : VqBuf) (write : Bool) (l : VqueueIovs) : VqBuf :=
  if write then { buf with outIovs := l } else { buf with inIovs := l }

/-- `iovs[used].len = len; phys[used] = phys; used++` -/
def putIov (l : VqueueIovs) (len : UInt32) (phys : UInt64) (h : l.used < l.iovs.length) : VqueueIovs where
  used := l.used + 1
  iovs := l.iovs.modify l.used fun v => { v with len := len.toUInt64, phys := phys }
  used_le := by rw [List.length_modify]; exact h

variable (desc : Nat → Nat → VringDesc)

/-- The loop of `_vqueue_get_avail_buf_locked`; a pass looks at its descriptor six times, and the
first pass begins with the look `k`. -/
def gather (vq : Vqueue) : Nat → Nat → UInt16 → VqBuf → Outcome
  | 0, _, _, _ => .running
  | fuel + 1, k, nextIdx, buf =>
      if vq.num ≤ nextIdx.toUInt32 then .ret errNotValid vq buf
      else
        let d := fun n => desc (k + n) nextIdx.toNat
        let write := decide ((d 0).flags &&& vringDescFWrite ≠ 0)
        let iovlist := buf.iovs write
        if h : iovlist.used < iovlist.iovs.length then
          -- `assert(iovlist->phys[iovlist->used] == desc->addr)`
          if (d 2).addr ≠ (d 3).addr then .panic
          else
            let buf := buf.setIovs write (putIov iovlist (d 1).len (d 2).addr h)
            if (d 5).flags &&& vringDescFNext ≠ 0 then gather vq fuel (k + 6) (d 4).next buf
            else .ret noError vq buf
        else .ret errTooBig vq buf

/-- How many iovecs there are, for both directions, and one pass more. -/
def VqBuf.passes (buf : VqBuf) : Nat := buf.inIovs.iovs.length + buf.outIovs.iovs.length + 1

/-! ## The functions -/

def VqueueIovs.cleared (l : VqueueIovs) : VqueueIovs := { l with used := 0, used_le := Nat.zero_le _ }

/-- `_vqueue_get_avail_buf_locked` from the look into the ring on -/
def takeHead (look : Nat → VringAvail) (vq : Vqueue) (buf : VqBuf) : Outcome :=
  let nextIdx := (look 3).ring (vq.lastAvailIdx.toNat % vq.num.toNat)
  let vq := { vq with lastAvailIdx := vq.lastAvailIdx + 1 }
  if vq.num ≤ nextIdx.toUInt32 then .panic
  else
    gather desc vq buf.passes 0 nextIdx
      { head := nextIdx, inIovs := VqueueIovs.cleared buf.inIovs, outIovs := VqueueIovs.cleared buf.outIovs }

/-- `_vqueue_get_avail_buf_locked` -/
def vqueueGetAvailBuf (look : Nat → VringAvail) (vq : Vqueue) (buf : VqBuf) : Outcome :=
  if vq.mapped = false then .ret errChannelClosed vq buf
  else if vq.num.toUInt16 < (look 0).idx - vq.lastAvailIdx then .panic
  else if vq.lastAvailIdx = (look 1).idx then
    if vq.lastAvailIdx = (look 2).idx then
      .ret errNotEnoughBuffer { vq with
        availEvent := false, used := { vq.used with flags := vq.used.flags &&& ~~~vringUsedFNoNotify } } buf
    else
      takeHead desc look { vq with
        availEvent := true
        used := { vq.used with
          flags := (vq.used.flags &&& ~~~vringUsedFNoNotify) ||| vringUsedFNoNotify } } buf
  else takeHead desc look vq buf

/-- `_vqueue_add_buf_locked` -/
def vqueueAddBuf (vq : Vqueue) (buf : VqBuf) (len : UInt32) : Int × Vqueue :=
  if vq.mapped = false then (errChannelClosed, vq)
  else if vq.num ≤ buf.head.toUInt32 then (errNotValid, vq)
  else
    (noError, { vq with used := { vq.used with
      idx := vq.used.idx + 1
      ring := Function.update vq.used.ring (vq.used.idx.toNat % vq.num.toNat)
        ⟨buf.head.toUInt32, len⟩ } })

end TX2SecureUart.Vqueue
