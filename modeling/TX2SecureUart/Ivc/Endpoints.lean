/-
# `Ivc.Endpoints` — the two ends of an IVC channel

Each end owns its counters and its state, and looks at those of the other.  A call looks, and
stores later: in between the other end goes on.  A reset takes both ends through `sync` and `ack`
back to `established`, and on the way each end clears the counters that it owns.

`sent` and `got` are no part of the program.  They are the frames that an end has written, and
those that it has read, since it last cleared its counters.

What is proved holds as long as no end resets while the other one is in
`tegra_ivc_channel_notified`, behind its look at the state.  `reset_in_notified_jams` is a run
in which one does: both ends are established in the end, and one of them can never write.
-/
import TX2SecureUart.Ivc.Channel
import TX2SecureUart.Lib.Machine
import TX2SecureUart.Lib.RingWindow

namespace TX2SecureUart.IvcChannel

open Prog

/-! ## The other calls -/

/-- `tegra_ivc_channel_reset` -/
def tegraIvcChannelReset (ivc : Ivc) : Ivc := { ivc with state := .sync }

/-- The counters that this end owns, and its positions, are cleared. -/
def Ivc.clear (ivc : Ivc) : Ivc := { ivc with wCount := 0, rCount := 0, wPos := 0, rPos := 0 }

/-- `tegra_ivc_channel_notified`, with the state of the peer that it has found.  The peer is
notified whenever the state is stored. -/
def tegraIvcChannelNotified (ivc : Ivc) (peerState : IvcState) : Ivc × Bool :=
  if peerState = .sync then ({ ivc.clear with state := .ack }, true)
  else if ivc.state = .sync ∧ peerState = .ack then ({ ivc.clear with state := .established }, true)
  else if ivc.state = .ack then ({ ivc with state := .established }, true)
  else (ivc, false)

/-- `tegra_ivc_write_get_next_frame`: the position of the frame -/
def tegraIvcWriteGetNextFrame (ivc : Ivc) (seen : Seen) : Option UInt32 :=
  if (checkWrite ivc seen).isSome then none else some ivc.wPos

/-- `tegra_ivc_write_poke` -/
def tegraIvcWritePoke (ivc : Ivc) (seen : Seen) (buf : List UInt8) (off : Nat) : Except Errno Ivc :=
  if ivc.frameSize.toNat < off ∨ ivc.frameSize.toNat < off + buf.length then .error .tooBig
  else
    match checkWrite ivc seen with
    | some e => .error e
    | none =>
        let frame := ivc.txFrames ivc.wPos
        .ok { ivc with
          txFrames := Function.update ivc.txFrames ivc.wPos
            (frame.take off ++ buf ++ frame.drop (off + buf.length)) }

/-- `tegra_ivc_read_peek` -/
def tegraIvcReadPeek (ivc : Ivc) (seen : Seen) (off count : Nat) : Except Errno (List UInt8) :=
  if ivc.frameSize.toNat < off ∨ ivc.frameSize.toNat < off + count then .error .tooBig
  else
    match checkRead ivc seen with
    | some e => .error e
    | none => .ok (((seen.rxFrames ivc.rPos).drop off).take count)

/-! ## An end -/

/-- Where an end is. -/
inductive Pc where
  | idle
  /-- In `tegra_ivc_channel_notified`, with the state that it has found -/
  | notified (peerState : IvcState)
  /-- In a call that reads or writes, with what its two checks have found -/
  | looked (write : Bool) (first second : UInt32)

structure Endpoint where
  ivc : Ivc
  pc : Pc
  sent : List (List UInt8)
  got : List (List UInt8)

/-- The calls that move the channel on. -/
inductive Request where
  | read (maxRead : Nat)
  | readAdvance
  | write (buf : List UInt8)
  | writeAdvance

def Request.call (seen : Seen) : Request → Call
  | .read maxRead => .read seen maxRead
  | .readAdvance => .readAdvance seen
  | .write buf => .write seen buf
  | .writeAdvance => .writeAdvance seen

def Request.isWrite : Request → Bool
  | .write _ | .writeAdvance => true
  | _ => false

/-- The frames behind `tx_channel` when the counter is stored. -/
def Request.frames (ivc : Ivc) : Request → UInt32 → List UInt8
  | .write buf => (ivc.fillFrame buf).txFrames
  | _ => ivc.txFrames

namespace Endpoint

/-- The counter of the peer that a read or a write looks at. -/
def peerCount (peer : Endpoint) (write : Bool) : UInt32 :=
  if write then peer.ivc.rCount else peer.ivc.wCount

/-- What a call has seen by the time that it ends. -/
def seen (peer : Endpoint) (write : Bool) (first second : UInt32) : Seen :=
  ⟨first, second, peer.peerCount write, peer.ivc.txFrames⟩

/-- The rest of `tegra_ivc_channel_notified` -/
def answer (e : Endpoint) (peerState : IvcState) : Endpoint :=
  let cleared := peerState = .sync ∨ e.ivc.state = .sync ∧ peerState = .ack
  { ivc := (tegraIvcChannelNotified e.ivc peerState).1
    pc := .idle
    sent := if cleared then [] else e.sent
    got := if cleared then [] else e.got }

/-- The rest of a call that moves the channel on -/
def finish (e peer : Endpoint) (r : Request) (first second : UInt32) : Endpoint :=
  match (r.call (peer.seen r.isWrite first second)).run e.ivc with
  | .error _ => { e with pc := .idle }
  | .ok d =>
      if r.isWrite then
        { e with ivc := d.ivc, pc := .idle, sent := e.sent ++ [r.frames e.ivc e.ivc.wPos] }
      else
        { e with ivc := d.ivc, pc := .idle, got := e.got ++ [peer.ivc.txFrames e.ivc.rPos] }

/-- `tegra_ivc_write_poke` ends. -/
def poke (e peer : Endpoint) (buf : List UInt8) (off : Nat) (first second : UInt32) : Endpoint :=
  match tegraIvcWritePoke e.ivc (peer.seen true first second) buf off with
  | .error _ => { e with pc := .idle }
  | .ok ivc => { e with ivc := ivc, pc := .idle }

/-- `tegra_ivc_write_get_next_frame` ends, and its caller fills the frame. -/
def fill (e peer : Endpoint) (frame : List UInt8) (first second : UInt32) : Endpoint :=
  match tegraIvcWriteGetNextFrame e.ivc (peer.seen true first second) with
  | none => { e with pc := .idle }
  | some pos =>
      { e with ivc := { e.ivc with txFrames := Function.update e.ivc.txFrames pos frame }, pc := .idle }

end Endpoint

/-! ## What the ends do -/

inductive EndAction where
  | reset
  /-- `tegra_ivc_channel_notified`: the look and the rest -/
  | look
  | answer (peerState : IvcState)
  /-- A call that reads or writes: the first look, one more, and the rest -/
  | start (write : Bool)
  | again (write : Bool) (first second : UInt32)
  | finish (r : Request) (first second : UInt32)
  | poke (buf : List UInt8) (off : Nat) (first second : UInt32)
  | fill (frame : List UInt8) (first second : UInt32)

def EndAction.apply (e peer : Endpoint) : EndAction → Endpoint
  | .reset => { e with ivc := tegraIvcChannelReset e.ivc }
  | .look => { e with pc := .notified peer.ivc.state }
  | .answer peerState => e.answer peerState
  | .start write => { e with pc := .looked write (peer.peerCount write) (peer.peerCount write) }
  | .again write first _ => { e with pc := .looked write first (peer.peerCount write) }
  | .finish r first second => e.finish peer r first second
  | .poke buf off first second => e.poke peer buf off first second
  | .fill frame first second => e.fill peer frame first second

def EndAction.Enabled (e : Endpoint) : EndAction → Prop
  | .reset | .look | .start _ => e.pc = .idle
  | .answer peerState => e.pc = .notified peerState
  | .again write first second => e.pc = .looked write first second
  | .finish r first second => e.pc = .looked r.isWrite first second
  | .poke _ _ first second | .fill _ first second => e.pc = .looked true first second

inductive Side where
  | left
  | right
deriving DecidableEq

def Side.other : Side → Side
  | .left => .right
  | .right => .left

abbrev Pair := Side → Endpoint

/-- Two ends of `n` frames each, established and cleared -/
def freshEnd (ivc : Ivc) : Endpoint := ⟨ivc, .idle, [], []⟩

/-- The pair from a state on. -/
def ends (init : Pair) : Machine Empty Pair (Side × EndAction) where
  init := init
  run := fun a => modify fun p => Function.update p a.1 (a.2.apply (p a.1) (p a.1.other))
  Enabled := fun p a => a.2.Enabled (p a.1)

/-- An end resets only when the peer is not in `tegra_ivc_channel_notified`. -/
def Apart (p : Pair) (a : Side × EndAction) : Prop :=
  a.2 = .reset → ∀ peerState, (p a.1.other).pc ≠ .notified peerState

/-! ## The states -/

/-- The state of an end in `tegra_ivc_channel_notified`, what it has found, and what the state of
the peer can be by now. -/
def Agrees (s : IvcState) : Pc → IvcState → Prop
  | .notified .sync, t => s = .ack ∨ s = .established ∧ t = .sync ∨ s = .sync ∧ t ≠ .established
  | .notified .ack, t => s = .sync ∧ t = .ack ∨ s ≠ .sync ∧ t ≠ .sync
  | .notified .established, t =>
      s = .ack ∧ t = .established ∨ s = .established ∧ t = .established ∨ s = .sync ∧ t ≠ .sync
  | _, _ => True

/-- What the state of an end is after its answer. -/
def answered (s peerState : IvcState) : IvcState :=
  if peerState = .sync then .ack
  else if s = .sync ∧ peerState = .ack ∨ s = .ack then .established
  else s

instance (s : IvcState) (pc : Pc) (t : IvcState) : Decidable (Agrees s pc t) := by
  unfold Agrees
  split <;> infer_instance

theorem agrees_look (s t : IvcState) : Agrees s (.notified t) t := by
  cases s <;> cases t <;> decide

/-- The answer of an end leaves what the peer has found true enough. -/
theorem agrees_answered {s t peerState : IvcState} {pc : Pc} (hx : Agrees s (.notified peerState) t)
    (hy : Agrees t pc s) : Agrees t pc (answered s peerState) := by
  cases pc with
  | idle | looked => trivial
  | notified found =>
      revert hx hy
      cases s <;> cases t <;> cases peerState <;> cases found <;> decide

/-- An end that is established is left alone: the peer clears nothing that counts. -/
theorem agrees_cleared {s t peerState : IvcState} (hx : Agrees s (.notified peerState) t)
    (ht : t = .established)
    (hclear : peerState = .sync ∨ s = .sync ∧ peerState = .ack) : s = .ack := by
  revert hx hclear
  subst ht
  cases s <;> cases peerState <;> decide

/-- An end that becomes established finds a peer that is, or that has cleared its counters. -/
theorem agrees_established {s t peerState : IvcState} (hx : Agrees s (.notified peerState) t)
    (hanswer : answered s peerState = .established) (hs : s ≠ .established) :
    t = .ack ∨ s = .ack ∧ t = .established := by
  revert hx hanswer hs
  cases s <;> cases t <;> cases peerState <;> decide

variable {n : UInt32} {x y : Endpoint}

/-- The cells of the frames of an end. -/
def Ivc.cell (ivc : Ivc) (i : Nat) : Option (List UInt8) := some (ivc.txFrames (UInt32.ofNat i))

/-- The frames on the way from `x` to `y`. -/
structure Dir (n : UInt32) (x y : Endpoint) : Prop where
  order : y.got <+: x.sent
  room : x.sent.length ≤ y.got.length + n.toNat
  cells : RingWindow.Fresh n.toNat (y.got.length + n.toNat) x.sent.length (x.sent[·]?) x.ivc.cell

/-- An end on its own. -/
structure Sound (n : UInt32) (x : Endpoint) : Prop where
  same : x.ivc.nframes = n
  tx : Counted n x.ivc.wCount x.ivc.wPos x.sent.length
  rx : Counted n x.ivc.rCount x.ivc.rPos x.got.length
  zero : x.ivc.state = .ack → x.sent = [] ∧ x.got = []

/-- What a look at the peer's counter is worth by now. -/
def Glimpse (n : UInt32) (x y : Endpoint) (write : Bool) (v : UInt32) : Prop :=
  if write then ∃ j, j ≤ y.got.length ∧ x.sent.length ≤ j + n.toNat ∧ v = UInt32.ofNat j
  else ∃ k, x.got.length ≤ k ∧ k ≤ y.sent.length ∧ v = UInt32.ofNat k

/-- An end next to its peer. -/
structure Fits (n : UInt32) (x y : Endpoint) : Prop where
  sound : Sound n x
  agrees : Agrees x.ivc.state x.pc y.ivc.state
  dir : x.ivc.state = .established ∨ y.ivc.state = .established → Dir n x y
  looks : ∀ write first second, x.pc = .looked write first second → x.ivc.state = .established →
    Glimpse n x y write first ∧ Glimpse n x y write second

/-! ## Counters -/

theorem ofNat_sub_ofNat {j k : Nat} (h : j ≤ k) (hlt : k - j < 2 ^ 32) :
    (UInt32.ofNat k - UInt32.ofNat j).toNat = k - j := by
  have hsum : UInt32.ofNat k = UInt32.ofNat (k - j) + UInt32.ofNat j := by
    rw [← UInt32.ofNat_add, Nat.sub_add_cancel h]
  rw [hsum, UInt32.add_sub_cancel, UInt32.toNat_ofNat_of_lt' hlt]

theorem Counted.eq_ofNat {count pos : UInt32} {k : Nat} (h : Counted n count pos k) :
    count = UInt32.ofNat k := by
  rw [← UInt32.toNat_inj, h.count, UInt32.toNat_ofNat']

theorem Counted.pos_eq {count pos : UInt32} {k : Nat} (h : Counted n count pos k) :
    pos = UInt32.ofNat (k % n.toNat) := by
  rw [← h.pos, UInt32.ofNat_toNat]

/-- A queue of `k` frames written and `j` read is empty if there are no others, -/
theorem channelEmpty_iff {j k : Nat} (h : j ≤ k) (hle : k ≤ j + n.toNat) :
    channelEmpty n (UInt32.ofNat k) (UInt32.ofNat j) = true ↔ k = j := by
  have hn := n.toNat_lt
  have hsub := ofNat_sub_ofNat h (by omega)
  have hnot : ¬ UInt32.ofNat k - UInt32.ofNat j > n := by
    rw [gt_iff_lt, UInt32.lt_iff_toNat_lt, hsub]
    omega
  rw [channelEmpty, if_neg hnot, beq_iff_eq]
  constructor
  · intro heq
    rw [heq, sub_self] at hsub
    have hzero : (0 : UInt32).toNat = 0 := rfl
    omega
  · rintro rfl
    rfl

/-- and full if there are `n` of them. -/
theorem channelFull_iff {j k : Nat} (h : j ≤ k) (hle : k ≤ j + n.toNat) :
    channelFull n (UInt32.ofNat k) (UInt32.ofNat j) = true ↔ k = j + n.toNat := by
  have hn := n.toNat_lt
  have hsub := ofNat_sub_ofNat h (by omega)
  rw [channelFull, decide_eq_true_iff, ge_iff_le, UInt32.le_iff_toNat_le, hsub]
  omega

/-! ## The calls of an end -/

/-- A check that passes has seen a frame. -/
theorem checkRead_none {ivc : Ivc} {seen : Seen} (h : checkRead ivc seen = none) :
    ivc.state = .established ∧ (channelEmpty ivc.nframes seen.first ivc.rCount = false ∨
      channelEmpty ivc.nframes seen.second ivc.rCount = false) := by
  rw [checkRead] at h
  split at h
  · cases h
  next hstate =>
    refine ⟨not_not.mp hstate, ?_⟩
    split at h
    next hfirst => exact Or.inl (by simpa using hfirst)
    next =>
      split at h
      · cases h
      next hsecond => exact Or.inr (by simpa using hsecond)

/-- A check that passes has seen room. -/
theorem checkWrite_none {ivc : Ivc} {seen : Seen} (h : checkWrite ivc seen = none) :
    ivc.state = .established ∧ (channelFull ivc.nframes ivc.wCount seen.first = false ∨
      channelFull ivc.nframes ivc.wCount seen.second = false) := by
  rw [checkWrite] at h
  split at h
  · cases h
  next hstate =>
    refine ⟨not_not.mp hstate, ?_⟩
    split at h
    next hfirst => exact Or.inl (by simpa using hfirst)
    next =>
      split at h
      · cases h
      next hsecond => exact Or.inr (by simpa using hsecond)

theorem run_write {ivc : Ivc} {seen : Seen} {r : Request} {d : Done}
    (h : (r.call seen).run ivc = .ok d) (hw : r.isWrite = true) :
    checkWrite ivc seen = none ∧ d.ivc = { ivc.advanceTx with txFrames := r.frames ivc } := by
  cases r with
  | read _ | readAdvance => cases hw
  | write buf =>
      rw [Request.call, Call.run, tegraIvcWrite] at h
      split at h
      · cases h
      split at h
      · cases h
      next hcheck =>
        cases h
        exact ⟨hcheck, rfl⟩
  | writeAdvance =>
      rw [Request.call, Call.run, tegraIvcWriteAdvance] at h
      split at h
      · cases h
      next hcheck =>
        cases h
        exact ⟨hcheck, rfl⟩

theorem run_read {ivc : Ivc} {seen : Seen} {r : Request} {d : Done}
    (h : (r.call seen).run ivc = .ok d) (hr : r.isWrite = false) :
    checkRead ivc seen = none ∧ d.ivc = ivc.advanceRx := by
  cases r with
  | write _ | writeAdvance => cases hr
  | read maxRead =>
      rw [Request.call, Call.run, tegraIvcRead] at h
      split at h
      · cases h
      split at h
      · cases h
      next hcheck =>
        cases h
        exact ⟨hcheck, rfl⟩
  | readAdvance =>
      rw [Request.call, Call.run, tegraIvcReadAdvance] at h
      split at h
      · cases h
      next hcheck =>
        cases h
        exact ⟨hcheck, rfl⟩

/-- An established end that a check lets read has a frame before it, -/
theorem Fits.unread (hx : Fits n x y) (hy : Fits n y x) {first second : UInt32}
    (hpc : x.pc = .looked false first second)
    (h : checkRead x.ivc (y.seen false first second) = none) :
    x.got.length < y.sent.length := by
  obtain ⟨hest, hseen⟩ := checkRead_none h
  obtain ⟨hfirst, hsecond⟩ := hx.looks false first second hpc hest
  have hroom := (hy.dir (Or.inr hest)).room
  have hlook : ∀ v, Glimpse n x y false v → channelEmpty x.ivc.nframes v x.ivc.rCount = false →
      x.got.length < y.sent.length := by
    rintro v ⟨k, hge, hle, rfl⟩ hempty
    have hne : ¬ k = x.got.length := by
      rw [← channelEmpty_iff (n := n) hge (by omega), ← hx.sound.rx.eq_ofNat, ← hx.sound.same, hempty]
      exact Bool.false_ne_true
    omega
  rcases hseen with hempty | hempty
  · exact hlook first hfirst hempty
  · exact hlook second hsecond hempty

/-- and one that may write has room. -/
theorem Fits.unfilled (hx : Fits n x y) {first second : UInt32}
    (hpc : x.pc = .looked true first second)
    (h : checkWrite x.ivc (y.seen true first second) = none) :
    x.sent.length < y.got.length + n.toNat := by
  obtain ⟨hest, hseen⟩ := checkWrite_none h
  obtain ⟨hfirst, hsecond⟩ := hx.looks true first second hpc hest
  have horder := (hx.dir (Or.inl hest)).order.length_le
  have hlook : ∀ v, Glimpse n x y true v → channelFull x.ivc.nframes x.ivc.wCount v = false →
      x.sent.length < y.got.length + n.toNat := by
    rintro v ⟨j, hle, hroom, rfl⟩ hfull
    have hne : ¬ x.sent.length = j + n.toNat := by
      rw [← channelFull_iff (n := n) (by omega) hroom, ← hx.sound.tx.eq_ofNat, ← hx.sound.same, hfull]
      exact Bool.false_ne_true
    omega
  rcases hseen with hfull | hfull
  · exact hlook first hfirst hfull
  · exact hlook second hsecond hfull

/-! ## What a step changes -/

theorem Dir.congr {x' y' : Endpoint} (h : Dir n x y) (hsent : x'.sent = x.sent)
    (hframes : x'.ivc.txFrames = x.ivc.txFrames) (hgot : y'.got = y.got) : Dir n x' y' where
  order := by
    rw [hsent, hgot]
    exact h.order
  room := by
    rw [hsent, hgot]
    exact h.room
  cells := by
    have hcell : x'.ivc.cell = x.ivc.cell := by
      unfold Ivc.cell
      rw [hframes]
    rw [hsent, hgot, hcell]
    exact h.cells

theorem Dir.nil (hx : x.sent = []) (hy : y.got = []) : Dir n x y where
  order := by
    rw [hx, hy]
  room := by
    rw [hx]
    exact Nat.zero_le _
  cells := by
    rw [hx]
    intro p _ hp
    exact absurd hp (Nat.not_lt_zero p)

theorem Sound.congr {x' : Endpoint} (h : Sound n x) (hivc : x'.ivc = x.ivc) (hsent : x'.sent = x.sent)
    (hgot : x'.got = x.got) : Sound n x' where
  same := by rw [hivc, h.same]
  tx := by
    rw [hivc, hsent]
    exact h.tx
  rx := by
    rw [hivc, hgot]
    exact h.rx
  zero := by
    rw [hivc, hsent, hgot]
    exact h.zero

theorem Glimpse.congr {x' y' : Endpoint} {write : Bool} {v : UInt32} (h : Glimpse n x y write v)
    (hxs : x'.sent = x.sent) (hxg : x'.got = x.got) (hys : y.sent <+: y'.sent)
    (hyg : y.got <+: y'.got) : Glimpse n x' y' write v := by
  cases write with
  | true =>
      obtain ⟨j, hle, hroom, hv⟩ := h
      exact ⟨j, Nat.le_trans hle hyg.length_le, by rw [hxs]; exact hroom, hv⟩
  | false =>
      obtain ⟨k, hge, hle, hv⟩ := h
      exact ⟨k, by rw [hxg]; exact hge, Nat.le_trans hle hys.length_le, hv⟩

/-- A look at the counter as it is. -/
theorem Fits.look (hx : Fits n x y) (hy : Fits n y x) (write : Bool)
    (hest : x.ivc.state = .established) : Glimpse n x y write (y.peerCount write) := by
  cases write with
  | true => exact ⟨_, Nat.le_refl _, (hx.dir (Or.inl hest)).room, hy.sound.rx.eq_ofNat⟩
  | false => exact ⟨_, (hy.dir (Or.inr hest)).order.length_le, Nat.le_refl _, hy.sound.tx.eq_ofNat⟩

/-- An end moves inside a call. -/
theorem Fits.setPc (hx : Fits n x y) {pc : Pc} (hagrees : Agrees x.ivc.state pc y.ivc.state)
    (hlooks : ∀ write first second, pc = .looked write first second →
      x.ivc.state = .established → Glimpse n x y write first ∧ Glimpse n x y write second) :
    Fits n { x with pc := pc } y where
  sound := hx.sound.congr rfl rfl rfl
  agrees := hagrees
  dir := fun h => (hx.dir h).congr rfl rfl rfl
  looks := hlooks

/-- A call ends, and nothing has changed. -/
theorem Fits.giveUp (hx : Fits n x y) : Fits n { x with pc := .idle } y :=
  hx.setPc trivial fun _ _ _ h => by cases h

/-- The peer changes nothing that this end has seen. -/
theorem Fits.peer {y' : Endpoint} (hx : Fits n x y)
    (hagrees : Agrees x.ivc.state x.pc y'.ivc.state)
    (hdir : x.ivc.state = .established ∨ y'.ivc.state = .established → Dir n x y')
    (hsent : x.ivc.state = .established → y.sent <+: y'.sent)
    (hgot : x.ivc.state = .established → y.got <+: y'.got) : Fits n x y' where
  sound := hx.sound
  agrees := hagrees
  dir := hdir
  looks := fun write first second hpc hest => by
    obtain ⟨hfirst, hsecond⟩ := hx.looks write first second hpc hest
    exact ⟨hfirst.congr rfl rfl (hsent hest) (hgot hest), hsecond.congr rfl rfl (hsent hest) (hgot hest)⟩

theorem Fits.peer_setPc (hx : Fits n x y) (pc : Pc) : Fits n x { y with pc := pc } :=
  hx.peer hx.agrees (fun h => (hx.dir h).congr rfl rfl rfl) (fun _ => List.prefix_rfl)
    fun _ => List.prefix_rfl

/-! ## Frames -/

/-- A frame that is not on the way may change. -/
theorem fresh_refill {g k : Nat} {stream : Nat → Option (List UInt8)} {ivc ivc' : Ivc}
    (h : RingWindow.Fresh n.toNat (g + n.toNat) k stream ivc.cell) (hroom : k < g + n.toNat)
    (hother : ∀ i, i ≠ UInt32.ofNat (k % n.toNat) → ivc'.txFrames i = ivc.txFrames i) :
    RingWindow.Fresh n.toNat (g + n.toNat) k stream ivc'.cell := by
  intro p hp hlt
  rw [← h p hp hlt]
  refine congrArg some (hother _ ?_)
  have hn := n.toNat_lt
  have hpos : 0 < n.toNat := by omega
  have hne : p % n.toNat ≠ k % n.toNat := RingWindow.mod_ne_of_lt hlt (by omega)
  intro heq
  have hnat := congrArg UInt32.toNat heq
  rw [UInt32.toNat_ofNat_of_lt' (Nat.lt_trans (Nat.mod_lt p hpos) hn),
    UInt32.toNat_ofNat_of_lt' (Nat.lt_trans (Nat.mod_lt k hpos) hn)] at hnat
  exact hne hnat

/-- The frame is on the way when the counter is stored. -/
theorem fresh_push {g : Nat} {stream : List (List UInt8)} {frame : List UInt8} {ivc : Ivc}
    (h : RingWindow.Fresh n.toNat (g + n.toNat) stream.length (stream[·]?) ivc.cell)
    (hframe : ivc.txFrames (UInt32.ofNat (stream.length % n.toNat)) = frame) :
    RingWindow.Fresh n.toNat (g + n.toNat) (stream ++ [frame]).length ((stream ++ [frame])[·]?)
      ivc.cell := by
  intro p hp hlt
  rw [List.length_append, List.length_singleton] at hlt
  show _ = (stream ++ [frame])[p]?
  rcases Nat.lt_or_eq_of_le (Nat.le_of_lt_succ hlt) with hlt | heq
  · rw [List.getElem?_append_left hlt]
    exact h p hp hlt
  · rw [heq, List.getElem?_concat_length]
    exact congrArg some hframe

theorem frames_other {ivc : Ivc} (r : Request) {i : UInt32} (hi : i ≠ ivc.wPos) :
    r.frames ivc i = ivc.txFrames i := by
  cases r with
  | write buf => exact Function.update_of_ne hi _ _
  | read _ | readAdvance | writeAdvance => rfl

theorem prefix_concat {α : Type} {l l' : List α} {a : α} (h : l <+: l') (ha : l'[l.length]? = some a) :
    l ++ [a] <+: l' := by
  obtain ⟨rest, rfl⟩ := h
  rw [List.getElem?_append_right (Nat.le_refl _), Nat.sub_self] at ha
  cases rest with
  | nil => cases ha
  | cons b rest =>
      obtain rfl := Option.some.inj ha
      exact ⟨rest, by rw [List.append_assoc]; rfl⟩

/-! ## Steps -/

/-- The frame of the next write changes. -/
theorem Fits.refill (hx : Fits n x y) (hy : Fits n y x) {frames : UInt32 → List UInt8}
    (hroom : x.sent.length < y.got.length + n.toNat)
    (hother : ∀ i, i ≠ x.ivc.wPos → frames i = x.ivc.txFrames i) :
    Fits n { x with ivc := { x.ivc with txFrames := frames }, pc := .idle } y ∧
      Fits n y { x with ivc := { x.ivc with txFrames := frames }, pc := .idle } := by
  rw [hx.sound.tx.pos_eq] at hother
  refine ⟨⟨⟨hx.sound.same, hx.sound.tx, hx.sound.rx, hx.sound.zero⟩, trivial, ?_, ?_⟩, ?_⟩
  · intro h
    exact ⟨(hx.dir h).order, (hx.dir h).room, fresh_refill (hx.dir h).cells hroom hother⟩
  · intro _ _ _ h
    cases h
  · exact hy.peer hy.agrees (fun h => (hy.dir h).congr rfl rfl rfl) (fun _ => List.prefix_rfl)
      fun _ => List.prefix_rfl

/-- A write that succeeds. -/
theorem Fits.write (hn : n ≠ 0) (hx : Fits n x y) (hy : Fits n y x)
    {first second : UInt32} (hpc : x.pc = .looked true first second)
    (hcheck : checkWrite x.ivc (y.seen true first second) = none) (r : Request) :
    let x' : Endpoint := ⟨{ x.ivc.advanceTx with txFrames := r.frames x.ivc }, .idle,
      x.sent ++ [r.frames x.ivc x.ivc.wPos], x.got⟩
    Fits n x' y ∧ Fits n y x' := by
  intro x'
  have hroom := hx.unfilled hpc hcheck
  have hest := (checkWrite_none hcheck).1
  have hdir := hx.dir (Or.inl hest)
  have hpos := hx.sound.tx.pos_eq
  refine ⟨⟨⟨hx.sound.same, ?_, hx.sound.rx, ?_⟩, trivial, fun _ => ⟨?_, ?_, ?_⟩, ?_⟩, ?_⟩
  · show Counted n (x.ivc.wCount + 1) (nextPos x.ivc.nframes x.ivc.wPos) (x.sent ++ [_]).length
    rw [hx.sound.same, List.length_append]
    exact hx.sound.tx.next hn
  · intro hack
    exact absurd (hest.symm.trans hack) (by decide)
  · exact hdir.order.trans (List.prefix_append _ _)
  · show (x.sent ++ [_]).length ≤ _
    rw [List.length_append]
    exact hroom
  · refine fresh_push (fresh_refill hdir.cells hroom ?_) ?_
    · intro i hi
      exact frames_other r (hpos ▸ hi)
    · show r.frames x.ivc _ = r.frames x.ivc _
      rw [hpos]
  · intro _ _ _ h
    cases h
  · exact hy.peer hy.agrees (fun h => (hy.dir h).congr rfl rfl rfl) (fun _ => List.prefix_append _ _)
      fun _ => List.prefix_rfl

/-- A read that succeeds. -/
theorem Fits.read (hn : n ≠ 0) (hx : Fits n x y) (hy : Fits n y x)
    {first second : UInt32} (hpc : x.pc = .looked false first second)
    (hcheck : checkRead x.ivc (y.seen false first second) = none) :
    let x' : Endpoint := ⟨x.ivc.advanceRx, .idle, x.sent, x.got ++ [y.ivc.txFrames x.ivc.rPos]⟩
    Fits n x' y ∧ Fits n y x' := by
  intro x'
  have hlt := hx.unread hy hpc hcheck
  have hest := (checkRead_none hcheck).1
  have hdir := hy.dir (Or.inr hest)
  have hframe : y.sent[x.got.length]? = some (y.ivc.txFrames x.ivc.rPos) := by
    rw [hx.sound.rx.pos_eq]
    exact (hdir.cells x.got.length (Nat.le_refl _) hlt).symm
  have horder := prefix_concat hdir.order hframe
  refine ⟨⟨⟨hx.sound.same, hx.sound.tx, ?_, ?_⟩, trivial, ?_, ?_⟩, ?_⟩
  · show Counted n (x.ivc.rCount + 1) (nextPos x.ivc.nframes x.ivc.rPos) (x.got ++ [_]).length
    rw [hx.sound.same, List.length_append]
    exact hx.sound.rx.next hn
  · intro hack
    exact absurd (hest.symm.trans hack) (by decide)
  · exact fun h => (hx.dir h).congr rfl rfl rfl
  · intro _ _ _ h
    cases h
  · refine hy.peer hy.agrees (fun _ => ⟨horder, ?_, ?_⟩) (fun _ => List.prefix_rfl)
      fun _ => List.prefix_append _ _
    · show _ ≤ (x.got ++ [_]).length + _
      rw [List.length_append]
      have hroom := hdir.room
      omega
    · refine hdir.cells.mono ?_ (Nat.le_refl _)
      show _ ≤ (x.got ++ [_]).length + _
      rw [List.length_append]
      omega

/-- Whether the answer of an end clears its counters. -/
def Clears (s peerState : IvcState) : Prop := peerState = .sync ∨ s = .sync ∧ peerState = .ack

theorem answer_state (x : Endpoint) (peerState : IvcState) :
    (x.answer peerState).ivc.state = answered x.ivc.state peerState := by
  show (tegraIvcChannelNotified x.ivc peerState).1.state = _
  unfold tegraIvcChannelNotified answered
  generalize hs : x.ivc.state = s
  cases s <;> cases peerState <;> first | rfl | exact hs

theorem answer_of_clears {peerState : IvcState} (h : Clears x.ivc.state peerState) :
    (x.answer peerState).ivc = { x.ivc.clear with state := answered x.ivc.state peerState } ∧
      (x.answer peerState).sent = [] ∧ (x.answer peerState).got = [] := by
  refine ⟨?_, if_pos h, if_pos h⟩
  show (tegraIvcChannelNotified x.ivc peerState).1 = _
  unfold tegraIvcChannelNotified answered
  rcases h with hp | ⟨hs, hp⟩
  · rw [if_pos hp, if_pos hp]
  · have hne : peerState ≠ .sync := by
      rw [hp]
      decide
    rw [if_neg hne, if_pos ⟨hs, hp⟩, if_neg hne, if_pos (Or.inl ⟨hs, hp⟩)]

theorem answer_of_not_clears {peerState : IvcState} (h : ¬ Clears x.ivc.state peerState) :
    (x.answer peerState).ivc = { x.ivc with state := answered x.ivc.state peerState } ∧
      (x.answer peerState).sent = x.sent ∧ (x.answer peerState).got = x.got := by
  refine ⟨?_, if_neg h, if_neg h⟩
  show (tegraIvcChannelNotified x.ivc peerState).1 = _
  unfold tegraIvcChannelNotified answered
  have hp : peerState ≠ .sync := fun hp => h (Or.inl hp)
  have hs : ¬ (x.ivc.state = .sync ∧ peerState = .ack) := fun hs => h (Or.inr hs)
  rw [if_neg hp, if_neg hp, if_neg hs]
  by_cases hack : x.ivc.state = .ack
  · rw [if_pos hack, if_pos (Or.inr hack)]
  · rw [if_neg hack, if_neg (fun hor => hor.elim hs hack)]

theorem answered_ack {s peerState : IvcState} (h : answered s peerState = .ack) :
    Clears s peerState := by
  revert h
  unfold Clears
  cases s <;> cases peerState <;> decide

theorem Sound.answer (hx : Sound n x) (peerState : IvcState) : Sound n (x.answer peerState) := by
  by_cases h : Clears x.ivc.state peerState
  · obtain ⟨hivc, hsent, hgot⟩ := answer_of_clears h
    have hzero : Counted n 0 0 0 := ⟨rfl, (Nat.zero_mod _).symm⟩
    exact
      { same := by
          rw [hivc]
          exact hx.same
        tx := by
          rw [hivc, hsent]
          exact hzero
        rx := by
          rw [hivc, hgot]
          exact hzero
        zero := fun _ => ⟨hsent, hgot⟩ }
  · obtain ⟨hivc, hsent, hgot⟩ := answer_of_not_clears h
    exact
      { same := by
          rw [hivc]
          exact hx.same
        tx := by
          rw [hivc, hsent]
          exact hx.tx
        rx := by
          rw [hivc, hgot]
          exact hx.rx
        zero := fun hack => by
          rw [answer_state] at hack
          exact absurd (answered_ack hack) h }

/-- While the peer is established, an answer leaves the frames as they are. -/
theorem Fits.answer_same (hx : Fits n x y) {peerState : IvcState} (hpc : x.pc = .notified peerState)
    (hy : y.ivc.state = .established) :
    (x.answer peerState).sent = x.sent ∧ (x.answer peerState).got = x.got := by
  by_cases h : Clears x.ivc.state peerState
  · have hagrees := hx.agrees
    rw [hpc] at hagrees
    obtain ⟨hs, hg⟩ := hx.sound.zero (agrees_cleared hagrees hy h)
    obtain ⟨-, hsent, hgot⟩ := answer_of_clears h
    exact ⟨hsent.trans hs.symm, hgot.trans hg.symm⟩
  · exact (answer_of_not_clears h).2

theorem answer_frames (x : Endpoint) (peerState : IvcState) :
    (x.answer peerState).ivc.txFrames = x.ivc.txFrames := by
  by_cases h : Clears x.ivc.state peerState
  · rw [(answer_of_clears h).1]
    rfl
  · rw [(answer_of_not_clears h).1]

/-- An end that is established after its answer agrees with its peer on the frames. -/
theorem Fits.answer_dir (hx : Fits n x y) (hy : Fits n y x) {peerState : IvcState}
    (hpc : x.pc = .notified peerState)
    (h : (x.answer peerState).ivc.state = .established ∨ y.ivc.state = .established) :
    Dir n (x.answer peerState) y ∧ Dir n y (x.answer peerState) := by
  have hold : y.ivc.state = .established →
      Dir n (x.answer peerState) y ∧ Dir n y (x.answer peerState) := by
    intro hest
    obtain ⟨hsent, hgot⟩ := hx.answer_same hpc hest
    exact ⟨(hx.dir (Or.inr hest)).congr hsent (answer_frames x peerState) rfl,
      (hy.dir (Or.inl hest)).congr rfl rfl hgot⟩
  rcases h with hanswer | hest
  · rw [answer_state] at hanswer
    by_cases hs : x.ivc.state = .established
    · have hnot : ¬ Clears x.ivc.state peerState := by
        revert hanswer
        rw [hs]
        unfold Clears
        cases peerState <;> decide
      obtain ⟨-, hsent, hgot⟩ := answer_of_not_clears hnot
      exact ⟨(hx.dir (Or.inl hs)).congr hsent (answer_frames x peerState) rfl,
        (hy.dir (Or.inr hs)).congr rfl rfl hgot⟩
    · have hagrees := hx.agrees
      rw [hpc] at hagrees
      rcases agrees_established hagrees hanswer hs with hack | ⟨-, hest⟩
      · -- Both ends have cleared their counters.
        obtain ⟨hys, hyg⟩ := hy.sound.zero hack
        have hzero : (x.answer peerState).sent = [] ∧ (x.answer peerState).got = [] := by
          by_cases hclear : Clears x.ivc.state peerState
          · exact (answer_of_clears hclear).2
          · obtain ⟨-, hsent, hgot⟩ := answer_of_not_clears hclear
            have hxack : x.ivc.state = .ack := by
              revert hanswer hs hclear
              unfold Clears
              cases x.ivc.state <;> cases peerState <;> decide
            rw [hsent, hgot]
            exact hx.sound.zero hxack
        exact ⟨Dir.nil hzero.1 hyg, Dir.nil hys hzero.2⟩
      · exact hold hest
  · exact hold hest

theorem Fits.answer (hx : Fits n x y) (hy : Fits n y x) {peerState : IvcState}
    (hpc : x.pc = .notified peerState) :
    Fits n (x.answer peerState) y ∧ Fits n y (x.answer peerState) := by
  have hagrees := hx.agrees
  rw [hpc] at hagrees
  refine ⟨⟨hx.sound.answer peerState, trivial, fun h => (hx.answer_dir hy hpc h).1, ?_⟩, ?_⟩
  · intro _ _ _ h
    cases h
  · refine hy.peer ?_ (fun h => (hx.answer_dir hy hpc h.symm).2) ?_ ?_
    · rw [answer_state]
      exact agrees_answered hagrees hy.agrees
    · intro hest
      rw [(hx.answer_same hpc hest).1]
    · intro hest
      rw [(hx.answer_same hpc hest).2]

/-- A reset, while the peer is not about to answer. -/
theorem Fits.reset (hx : Fits n x y) (hy : Fits n y x) (hpc : x.pc = .idle)
    (hapart : ∀ peerState, y.pc ≠ .notified peerState) :
    Fits n { x with ivc := tegraIvcChannelReset x.ivc } y ∧
      Fits n y { x with ivc := tegraIvcChannelReset x.ivc } := by
  refine ⟨⟨⟨hx.sound.same, hx.sound.tx, hx.sound.rx, fun h => by cases h⟩, ?_, ?_, ?_⟩, ?_⟩
  · show Agrees .sync x.pc y.ivc.state
    rw [hpc]
    trivial
  · intro h
    rcases h with h | h
    · cases h
    · exact (hx.dir (Or.inr h)).congr rfl rfl rfl
  · intro _ _ _ _ h
    cases h
  · refine hy.peer ?_ ?_ (fun _ => List.prefix_rfl) fun _ => List.prefix_rfl
    · cases hpcy : y.pc with
      | idle | looked => trivial
      | notified peerState => exact absurd hpcy (hapart peerState)
    · intro h
      rcases h with h | h
      · exact (hy.dir (Or.inl h)).congr rfl rfl rfl
      · cases h

/-! ## Runs -/

/-- Both ends fit each other. -/
def Good (n : UInt32) (p : Pair) : Prop := ∀ s, Fits n (p s) (p s.other)

theorem Fits.apply (hn : n ≠ 0) (hx : Fits n x y) (hy : Fits n y x) {a : EndAction}
    (hen : a.Enabled x) (hapart : a = .reset → ∀ peerState, y.pc ≠ .notified peerState) :
    Fits n (a.apply x y) y ∧ Fits n y (a.apply x y) := by
  cases a with
  | reset => exact hx.reset hy hen (hapart rfl)
  | look =>
      exact ⟨hx.setPc (agrees_look _ _) fun _ _ _ h => (by cases h), hy.peer_setPc _⟩
  | answer peerState => exact hx.answer hy hen
  | start write =>
      refine ⟨hx.setPc trivial ?_, hy.peer_setPc _⟩
      intro write' first second h hest
      cases h
      exact ⟨hx.look hy write hest, hx.look hy write hest⟩
  | again write first second =>
      refine ⟨hx.setPc trivial ?_, hy.peer_setPc _⟩
      intro write' first' second' h hest
      cases h
      exact ⟨(hx.looks write first second hen hest).1, hx.look hy write hest⟩
  | finish r first second =>
      have hpc : x.pc = .looked r.isWrite first second := hen
      show Fits n (x.finish y r first second) y ∧ Fits n y (x.finish y r first second)
      unfold Endpoint.finish
      cases hrun : (r.call (y.seen r.isWrite first second)).run x.ivc with
      | error e => exact ⟨hx.giveUp, hy.peer_setPc _⟩
      | ok d =>
          cases hw : r.isWrite with
          | true =>
              rw [hw] at hrun hpc
              obtain ⟨hcheck, hivc⟩ := run_write hrun hw
              show Fits n (if true = true then _ else _) y ∧ Fits n y (if true = true then _ else _)
              rw [if_pos rfl, hivc]
              exact hx.write hn hy hpc hcheck r
          | false =>
              rw [hw] at hrun hpc
              obtain ⟨hcheck, hivc⟩ := run_read hrun hw
              show Fits n (if false = true then _ else _) y ∧ Fits n y (if false = true then _ else _)
              rw [if_neg Bool.false_ne_true, hivc]
              exact hx.read hn hy hpc hcheck
  | poke buf off first second =>
      have hpc : x.pc = .looked true first second := hen
      show Fits n (x.poke y buf off first second) y ∧ Fits n y (x.poke y buf off first second)
      unfold Endpoint.poke tegraIvcWritePoke
      split
      · exact ⟨hx.giveUp, hy.peer_setPc _⟩
      next hrun =>
        split at hrun
        · cases hrun
        split at hrun
        · cases hrun
        next hcheck =>
          cases hrun
          exact hx.refill hy (hx.unfilled hpc hcheck) fun i hi => Function.update_of_ne hi _ _
  | fill frame first second =>
      have hpc : x.pc = .looked true first second := hen
      show Fits n (x.fill y frame first second) y ∧ Fits n y (x.fill y frame first second)
      unfold Endpoint.fill tegraIvcWriteGetNextFrame
      cases hcheck : checkWrite x.ivc (y.seen true first second) with
      | some e => exact ⟨hx.giveUp, hy.peer_setPc _⟩
      | none => exact hx.refill hy (hx.unfilled hpc hcheck) fun i hi => Function.update_of_ne hi _ _

theorem Side.other_other (s : Side) : s.other.other = s := by cases s <;> rfl

theorem Side.other_ne (s : Side) : s.other ≠ s := by cases s <;> decide

theorem Side.eq_or (s t : Side) : t = s ∨ t = s.other := by cases s <;> cases t <;> decide

theorem Good.step (hn : n ≠ 0) {p : Pair} (h : Good n p) {a : Side × EndAction}
    (hen : a.2.Enabled (p a.1)) (hapart : Apart p a) :
    Good n (Function.update p a.1 (a.2.apply (p a.1) (p a.1.other))) := by
  have hpeer := h a.1.other
  rw [Side.other_other] at hpeer
  obtain ⟨hself, hpeer⟩ := (h a.1).apply hn hpeer hen hapart
  intro s
  rcases Side.eq_or a.1 s with rfl | rfl
  · rw [Function.update_self, Function.update_of_ne (Side.other_ne _)]
    exact hself
  · rw [Side.other_other, Function.update_self, Function.update_of_ne (Side.other_ne _)]
    exact hpeer

/-- An end at the start. -/
theorem fits_fresh {a : Ivc} (ha : Fresh a) (b : Ivc) :
    Fits a.nframes (freshEnd a) (freshEnd b) where
  sound :=
    { same := rfl
      tx := ha.counted.tx
      rx := ha.counted.rx
      zero := fun _ => ⟨rfl, rfl⟩ }
  agrees := trivial
  dir := fun _ => Dir.nil rfl rfl
  looks := fun _ _ _ h => by cases h

/-- However the calls of two ends interleave, as long as no end resets while the other one is about
to answer a look at its state: whenever an end is established, each end has read frames that the
other one has written since the counters were cleared, every one of them once and in order, no
more than `nframes` are on the way, and the counters tell how many. -/
theorem ends_deliver (a b : Ivc) (ha : Fresh a) (hb : Fresh b) (hab : a.nframes = b.nframes)
    {p : Pair} (h : (ends fun s => if s = .left then freshEnd a else freshEnd b).Reachable Apart p)
    (s : Side)
    (hest : (p s).ivc.state = .established ∨ (p s.other).ivc.state = .established) :
    (p s.other).got <+: (p s).sent ∧
      (p s).sent.length ≤ (p s.other).got.length + a.nframes.toNat ∧
      (channelEmpty a.nframes (p s).ivc.wCount (p s.other).ivc.rCount = true ↔
        (p s).sent.length = (p s.other).got.length) ∧
      (channelFull a.nframes (p s).ivc.wCount (p s.other).ivc.rCount = true ↔
        (p s).sent.length = (p s.other).got.length + a.nframes.toNat) := by
  have hgood : Good a.nframes p := by
    refine Machine.invariant (E := fun _ _ _ _ => True) ?_ ?_ h
    · intro s
      cases s with
      | left => exact fits_fresh ha b
      | right =>
          show Fits a.nframes (freshEnd b) (freshEnd a)
          rw [hab]
          exact fits_fresh hb a
    · intro p act hp hen hapart
      exact hp.step ha.nframes hen hapart
  have hdir := (hgood s).dir hest
  have hle := hdir.order.length_le
  rw [(hgood s).sound.tx.eq_ofNat, (hgood s.other).sound.rx.eq_ofNat]
  exact ⟨hdir.order, hdir.room, channelEmpty_iff hle hdir.room, channelFull_iff hle hdir.room⟩

/-! ## A reset in the way -/

def twoEnds : Pair := fun _ => freshEnd (freshIvc 3)

/-- The state of the pair after some actions. -/
def afterActions (p : Pair) (acts : List (Side × EndAction)) : Pair :=
  acts.foldl (fun p a => Function.update p a.1 (a.2.apply (p a.1) (p a.1.other))) p

/-- The actions of a run, each in the state that it meets. -/
def Legal (ok : Pair → Side × EndAction → Prop) (p : Pair) : List (Side × EndAction) → Prop
  | [] => True
  | a :: rest => a.2.Enabled (p a.1) ∧ ok p a ∧ Legal ok (afterActions p [a]) rest

theorem Legal.reachable {ok : Pair → Side × EndAction → Prop} {p : Pair} {acts : List (Side × EndAction)}
    (hacts : Legal ok p acts) (h : (ends twoEnds).Reachable ok p) :
    (ends twoEnds).Reachable ok (afterActions p acts) := by
  induction acts generalizing p with
  | nil => exact h
  | cons a rest ih =>
      obtain ⟨hen, hok, hrest⟩ := hacts
      exact ih hrest (Machine.Reachable.step h hen hok rfl)

/-- The left end resets, both come back, and it writes a frame. -/
def resetAndWrite : List (Side × EndAction) :=
  [(.left, .reset), (.right, .look), (.right, .answer .sync), (.left, .look), (.left, .answer .ack),
    (.left, .start true), (.left, .finish (.write [7]) 0 0), (.right, .look)]

/-- The right end reads it, having found the left end established.  If the left end has not been
reset in between, that is all. -/
def answerAndRead : List (Side × EndAction) :=
  [(.right, .answer .established), (.right, .start false), (.right, .finish (.read 64) 1 1)]

theorem ends_deliver_after_reset :
    (afterActions twoEnds (resetAndWrite ++ answerAndRead) .right).got.length = 1 ∧
      (afterActions twoEnds (resetAndWrite ++ answerAndRead) .right).got <+:
        (afterActions twoEnds (resetAndWrite ++ answerAndRead) .left).sent := by
  have hfresh : Fresh (freshIvc 3) := ⟨by decide, rfl, rfl, rfl, rfl, rfl⟩
  have happart : ∀ {p : Pair} {a : Side × EndAction}, a.2 ≠ .reset → Apart p a := fun h heq =>
    absurd heq h
  have hlegal : Legal Apart twoEnds (resetAndWrite ++ answerAndRead) := by
    refine ⟨rfl, fun _ _ h => (by cases h), ?_⟩
    repeat' first | exact True.intro | refine ⟨rfl, happart (by simp), ?_⟩
  have hrun := hlegal.reachable Machine.Reachable.init
  have hinit : twoEnds = fun s => if s = .left then freshEnd (freshIvc 3) else freshEnd (freshIvc 3) := by
    funext s
    exact (ite_self _).symm
  rw [hinit] at hrun
  have hdeliver := ends_deliver (freshIvc 3) (freshIvc 3) hfresh hfresh rfl hrun .left (Or.inl rfl)
  rw [← hinit] at hdeliver
  exact ⟨rfl, hdeliver.1⟩

/-- The left end resets while the right end is about to answer.  Both are established in the end,
and to the left end the channel is full, although the right end has read all that there is. -/
theorem reset_in_notified_jams : ∃ p, (ends twoEnds).Reachable (fun _ _ => True) p ∧
    (p .left).ivc.state = .established ∧ (p .right).ivc.state = .established ∧
      (p .left).pc = .idle ∧ (p .right).pc = .idle ∧ (p .left).sent = [] ∧
        channelFull 3 (p .left).ivc.wCount (p .right).ivc.rCount = true := by
  have hlegal : Legal (fun _ _ => True) twoEnds (resetAndWrite ++ [(.left, .reset), (.left, .look)] ++
      answerAndRead ++ [(.left, .answer .ack)]) := by
    repeat' first | exact True.intro | refine ⟨rfl, trivial, ?_⟩
  exact ⟨_, hlegal.reachable Machine.Reachable.init, rfl, rfl, rfl, rfl, rfl, rfl⟩

end TX2SecureUart.IvcChannel
