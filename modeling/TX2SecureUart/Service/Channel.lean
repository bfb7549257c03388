/-
# `Service.Channel` — a channel with one buffer each way

The port of the UART service has one buffer of 4096 bytes, so the queue of
each end of a channel is its only item: free, filled, or read.  `Stands` says
where a channel stands: whether the client still is there, and the state of
the two items.  The message calls of either end move it, and so does a client
that closes its handle.
-/
import TX2SecureUart.Ipc.Runs
import TX2SecureUart.Ipc.MsgRefine

namespace TX2SecureUart.Service

open Prog Ipc

/-! ## One item -/

/-- `ports[0].num_of_buffers` -/
def numOfBuffers : Nat := 1

/-- `ports[0].ind_buffer_size` -/
def indBufferSize : Nat := 1024 * 4

structure OneBuffer (mq : MsgQueue) (st : MsgItemState) : Prop where
  inv : mq.Inv
  numItems : mq.numItems = numOfBuffers
  itemSz : mq.itemSz = indBufferSize
  slot : (mq.items 0).state = st

/-- A mailbox of one item. -/
def Slot (b : Box) : MsgItemState → Prop
  | .free => b.waiting = [] ∧ b.held = []
  | .filled => (∃ m, b.waiting = [m]) ∧ b.held = []
  | .read => b.waiting = [] ∧ ∃ m, b.held = [(0, m)]

section

variable {mq mq' : MsgQueue} {st st' : MsgItemState} {s : Registry} {c d : ChanId} {C D : Chan}

theorem OneBuffer.mailbox (h : OneBuffer mq st) : Slot mq.mailbox st := by
  have hlen := h.inv.length_lists
  have hmem : 0 ∈ mq.listOf st :=
    (h.inv.mem_listOf (by rw [h.numItems]; decide)).mpr h.slot
  have hall : ∀ i ∈ mq.readList, i = 0 := fun i hi => by
    have hlt := (h.inv.all i).mp (by simp [hi])
    rw [h.numItems] at hlt
    exact Nat.lt_one_iff.mp hlt
  have hone : mq.freeList.length + mq.filledList.length + mq.readList.length = 1 :=
    hlen.trans h.numItems
  have hpos : 0 < (mq.listOf st).length := List.length_pos_of_mem hmem
  cases st with
  | free =>
      have hfree : 0 < mq.freeList.length := hpos
      have hf : mq.filledList = [] := List.length_eq_zero_iff.mp (by omega)
      have hr : mq.readList = [] := List.length_eq_zero_iff.mp (by omega)
      simp [Slot, MsgQueue.mailbox, hf, hr]
  | filled =>
      have hfilled : 0 < mq.filledList.length := hpos
      have hr : mq.readList = [] := List.length_eq_zero_iff.mp (by omega)
      obtain ⟨i, hi⟩ := List.length_eq_one_iff.mp (by omega : mq.filledList.length = 1)
      simp [Slot, MsgQueue.mailbox, hi, hr]
  | read =>
      have hread : 0 < mq.readList.length := hpos
      have hf : mq.filledList = [] := List.length_eq_zero_iff.mp (by omega)
      obtain ⟨i, hi⟩ := List.length_eq_one_iff.mp (by omega : mq.readList.length = 1)
      obtain rfl : i = 0 := hall i (by simp [hi])
      simp [Slot, MsgQueue.mailbox, hi, hf]

/-- The mailbox tells the state of the item. -/
theorem OneBuffer.of_mailbox (hinv : mq.Inv) (hnum : mq.numItems = numOfBuffers)
    (hsz : mq.itemSz = indBufferSize) (hslot : Slot mq.mailbox st) : OneBuffer mq st := by
  have h : OneBuffer mq (mq.items 0).state := ⟨hinv, hnum, hsz, rfl⟩
  have hbox := h.mailbox
  refine ⟨hinv, hnum, hsz, ?_⟩
  cases hst : (mq.items 0).state <;> cases st <;> simp_all [Slot]

theorem Slot.eq_filled {b : Box} (h : Slot b st) (hw : b.waiting ≠ []) : st = .filled := by
  cases st with
  | free => exact absurd h.1 hw
  | filled => rfl
  | read => exact absurd h.1 hw

theorem Slot.eq_read {b : Box} (h : Slot b st) (hh : b.held ≠ []) : st = .read := by
  cases st with
  | free => exact absurd h.2 hh
  | filled => exact absurd h.2 hh
  | read => rfl

theorem Slot.look (h : Slot mq.mailbox st) (i : Nat) :
    (mq.mailbox.look i).isSome ↔ st = .read ∧ i = 0 := by
  unfold Mailbox.look
  cases st with
  | free => simp [h.2]
  | filled => simp [h.2]
  | read =>
      obtain ⟨-, m, hm⟩ := h
      by_cases hi : i = 0
      · simp [hm, hi]
      · have hb : (i == 0) = false := beq_eq_false_iff_ne.mpr hi
        simp [hm, List.lookup_cons, hb, hi]

/-- There is room exactly in a free item. -/
theorem OneBuffer.freeList (h : OneBuffer mq st) :
    mq.freeList = [] ↔ st ≠ .free := by
  have hroom : mq.mailbox.waiting.length + mq.mailbox.held.length + mq.freeList.length = 1 :=
    h.inv.unretired.trans h.numItems
  have hbox := h.mailbox
  rw [← List.length_eq_zero_iff]
  cases st with
  | free =>
      simp only [hbox.1, hbox.2, List.length_nil] at hroom
      exact iff_of_false (by omega) (not_not.mpr rfl)
  | filled =>
      obtain ⟨⟨m, hm⟩, hh⟩ := hbox
      rw [hm, hh, List.length_singleton, List.length_nil] at hroom
      exact iff_of_true (by omega) nofun
  | read =>
      obtain ⟨hw, m, hm⟩ := hbox
      rw [hw, hm, List.length_singleton, List.length_nil] at hroom
      exact iff_of_true (by omega) nofun

/-! ## A channel of the service -/

/-- `handle_close` -/
def handleClose (h : HandlePtr) : IpcM Unit := do
  handleShutdown h
  handleDecref h

/-- `c` is the service's end of a channel, `d` the client's; `own` is the item
for requests and `reply` the one for replies.  Once the client is gone, only
the service's end matters. -/
inductive Stands (c d : ChanId) (s : Registry) : Bool → MsgItemState → MsgItemState → Prop
  | here {mq mq' : MsgQueue} {own reply : MsgItemState} :
      Inv nobody (fun _ => True) s → Pair s numOfBuffers indBufferSize c d mq mq' →
      (mq.items 0).state = own → (mq'.items 0).state = reply → Stands c d s true own reply
  | gone {mq : MsgQueue} {C : Chan} {own reply : MsgItemState} :
      Inv nobody (fun _ => True) s → s.chans c = some C → 0 < C.handle.refcnt →
      C.state = .disconnecting → C.msgQueue = some mq → OneBuffer mq own →
      Stands c d s false own reply

theorem pair_own (h : Pair s numOfBuffers indBufferSize c d mq mq')
    (hst : (mq.items 0).state = st) : OneBuffer mq st :=
  ⟨h.inv, h.numItems, h.itemSz, hst⟩

/-- A connected channel with a handle. -/
theorem connected_refcnt (h : Inv nobody (fun _ => True) s) (hC : s.chans c = some C)
    (hst : C.state = .connected) : 0 < C.handle.refcnt :=
  ((h.chan hC).held (Or.inr (Or.inr hst))).resolve_left id

/-- The state of the item after a call of its owner that sends nothing. -/
def slotAfter : MsgItemState → MsgCall → MsgItemState
  | .filled, .ipcGet | .filled, .sysGet true => .read
  | .read, .put msgId => if msgId = 0 then .free else .read
  | st, _ => st

/-- A call that sends nothing, as far as the caller's own item goes. -/
theorem slotAfter_spec {sz : Nat} {peer : Box} {call : MsgCall} {r : MsgResult}
    {l l' : List BoxLabel} (hst : OneBuffer mq st) (hinv : mq'.Inv)
    (hnum : mq'.numItems = numOfBuffers) (hsz : mq'.itemSz = indBufferSize)
    (hsends : call.sends = none) (hcopied : call ≠ .sysGet false)
    (hcall : CallSpec sz mq.mailbox peer call r l l') (hrun : Mailbox.Run mq.mailbox l mq'.mailbox) :
    OneBuffer mq' (slotAfter st call) ∧ l' = [] := by
  have hbox := hst.mailbox
  have hsame : Mailbox.Run mq.mailbox [] mq'.mailbox → OneBuffer mq' st := fun hnil =>
    .of_mailbox hinv hnum hsz (hnil.nil_eq ▸ hbox)
  cases hcall with
  | sent hs _ => simp [hsends] at hs
  | notSent hs _ => simp [hsends] at hs
  | got hg hw _ =>
      -- a message was waiting, and now is held
      obtain rfl := hbox.eq_filled (by simp [hw])
      have hafter : slotAfter .filled call = .read := by
        cases call with
        | ipcGet => rfl
        | sysGet copied =>
            cases copied with
            | false => exact absurd rfl hcopied
            | true => rfl
        | _ => simp [MsgCall.gets] at hg
      have h' : OneBuffer mq' (mq'.items 0).state := ⟨hinv, hnum, hsz, rfl⟩
      have hread := h'.mailbox.eq_read (by simp [hrun.step.held_get])
      rw [hafter]
      exact ⟨hread ▸ h', rfl⟩
  | noMsg hg hw =>
      have hafter : slotAfter st call = st := by
        cases st with
        | filled => simp [Slot, hw] at hbox
        | _ => cases call <;> simp_all [MsgCall.gets, slotAfter]
      rw [hafter]
      exact ⟨hsame hrun, rfl⟩
  | infoFault => exact absurd rfl hcopied
  | read hr _ _ | notRead hr _ _ =>
      have hafter : slotAfter st call = st := by
        cases call <;> cases st <;> simp_all [MsgCall.reads, slotAfter]
      rw [hafter]
      exact ⟨hsame hrun, rfl⟩
  | @retired msgId hlook =>
      obtain ⟨rfl, hid⟩ := (hbox.look _).mp hlook
      obtain ⟨hw, m, hm⟩ := hbox
      have hzero : msgId = 0 := UInt32.toNat_inj.mp hid
      have hfree : Slot mq'.mailbox .free := by
        rw [hrun.step.eq_put]
        exact ⟨hw, by simp [hm, hid]⟩
      exact ⟨by simpa [slotAfter, hzero] using OneBuffer.of_mailbox hinv hnum hsz hfree, rfl⟩
  | @notRetired msgId hlook =>
      have hafter : slotAfter st (.put msgId) = st := by
        cases st with
        | read =>
            have hid : ¬ msgId = 0 := fun hzero => by
              have := (hbox.look msgId.toNat).mpr ⟨rfl, by simp [hzero]⟩
              simp [hlook] at this
            simp [slotAfter, hid]
        | _ => rfl
      rw [hafter]
      exact ⟨hsame hrun, rfl⟩

/-- An item that no label touched. -/
theorem OneBuffer.unchanged (h : OneBuffer mq st) (hinv : mq'.Inv)
    (hnum : mq'.numItems = numOfBuffers) (hsz : mq'.itemSz = indBufferSize)
    (hrun : Mailbox.Run mq.mailbox [] mq'.mailbox) : OneBuffer mq' st :=
  .of_mailbox hinv hnum hsz (hrun.nil_eq ▸ h.mailbox)

/-- The message information cannot be copied out: nothing happens. -/
theorem wp_sysGetMsg_fault {E : Fault → Registry → Prop}
    (h : Pair s numOfBuffers indBufferSize c d mq mq') :
    wp (sysGetMsg (some (.chan c)) false) (fun _ t => t = s) E s := by
  obtain ⟨C, hC⟩ := h.own
  simp only [sysGetMsg, checkChannelLocked, getQueue, wp_bind, wp_getChan, hC.live, hC.queue,
    Option.elim_some, wp_pure]
  cases mq.peekNextFilled <;> simp

/-- A call of the client that sends nothing. -/
theorem Stands.wp_clientCall {own reply : MsgItemState} (h : Stands c d s true own reply)
    {call : MsgCall} (hsends : call.sends = none) :
    wp (call.run (some (.chan d))) (fun _ t => Stands c d t true own (slotAfter reply call))
      (fun _ _ => False) s := by
  cases h with
  | @here mq mq' _ _ hinv hpair hown hreply =>
      by_cases hcopied : call = .sysGet false
      · subst hcopied
        refine (wp_map _ _).mpr (wp_conseq (wp_sysGetMsg_fault hpair.symm) fun _ t ht => ?_)
        have hafter : slotAfter reply (.sysGet false) = reply := by cases reply <;> rfl
        rw [ht, hafter]
        exact .here hinv hpair hown hreply
      · obtain ⟨D, hD⟩ := hpair.other
        have hpos := connected_refcnt hinv hD.live hD.state
        refine wp_mono (wp_and (wp_msgCall hpair.symm (by decide) call)
          (hinv.wp_msgCall hD.live hpos call)) (fun r t ht => ?_) fun _ _ he => he.1
        obtain ⟨⟨nq', nq, ls', ls, hpair', hcall, hrun', hrun⟩, hinv'⟩ := ht
        obtain ⟨hslot, rfl⟩ := slotAfter_spec (pair_own hpair.symm hreply) hpair'.inv
          hpair'.numItems hpair'.itemSz hsends hcopied hcall hrun'
        have hown' := (pair_own hpair hown).unchanged hpair'.inv' hpair'.numItems'
          hpair'.itemSz' hrun
        exact .here hinv' hpair'.symm hown'.slot hslot.slot

/-- Dropping a reference to one channel is nothing to another. -/
theorem wp_handleDecref_other (hne : c ≠ d) :
    wp (handleDecref (.chan d)) (fun _ t => t.chans c = s.chans c) (fun _ _ => True) s := by
  simp only [handleDecref, wp_bind, wp_getChan, wp_modifyChan, wp_ite, wp_pure, chanHandleDestroy]
  cases hD : s.chans d with
  | none => trivial
  | some D =>
      simp only [Option.elim_some]
      split
      · rw [Ipc.wp_chanDelRef]
        simp only [Registry.setChan_chans, if_true, Option.elim_some]
        repeat' split
        all_goals simp [hne]
      · simp [hne]

/-- The client closes its handle. -/
theorem Stands.wp_handleClose {own reply : MsgItemState} (h : Stands c d s true own reply) :
    wp (handleClose (.chan d)) (fun _ t => Stands c d t false own reply) (fun _ _ => False) s := by
  cases h with
  | @here mq mq' _ _ hinv hpair hown hreply =>
      obtain ⟨C, hC⟩ := hpair.own
      obtain ⟨D, hD⟩ := hpair.other
      have hpos := connected_refcnt hinv hC.live hC.state
      simp only [handleClose, handleShutdown, wp_bind]
      refine wp_mono (hinv.wp_chanShutdownLocked hD.live) (fun _ t ht => ?_) fun _ _ he => ?_
      · obtain ⟨hinv', hdown⟩ := ht
        obtain ⟨D', hD', hpeer', hhandle', hst', -⟩ := hdown.self
        have hserver := hdown.peer hD.peer hC.live ((hinv.chan hC.live).handleRef.mpr hpos)
        have hposD : 0 < D'.handle.refcnt := hhandle' ▸ connected_refcnt hinv hD.live hD.state
        have hclosed : D'.state = .disconnecting := hst' (by simp [hD.state])
        refine wp_mono (wp_and (hinv'.wp_handleDecref_chan (E := fun _ _ => False) hD' hposD
          fun _ => ⟨hclosed, hpeer'⟩) (wp_handleDecref_other hpair.ne)) (fun _ u hu => ?_)
          fun _ _ he => he.1
        exact .gone hu.1 (hu.2.trans hserver) hpos rfl hC.queue (pair_own hpair hown)
      · simp [hD.state] at he

/-- A client that is there sees the same channel from the other side. -/
theorem Stands.symm {own reply : MsgItemState} (h : Stands c d s true own reply) :
    Stands d c s true reply own := by
  cases h with
  | here hinv hpair hown hreply => exact .here hinv hpair.symm hreply hown

/-! ## The calls of the service -/

/-- The service's end of the channel, and what becomes of it with another
queue. -/
theorem Stands.own_queue {b : Bool} {own reply : MsgItemState} (h : Stands c d s b own reply) :
    Inv nobody (fun _ => True) s ∧ ∃ C mq, s.chans c = some C ∧ C.msgQueue = some mq ∧
      OneBuffer mq own ∧ ∀ nq own', OneBuffer nq own' →
        Stands c d (s.setChan c { C with msgQueue := some nq }) b own' reply := by
  cases h with
  | @here mq mq' _ _ hinv hpair hown hreply =>
      obtain ⟨C, hC⟩ := hpair.own
      refine ⟨hinv, C, mq, hC.live, hC.queue, pair_own hpair hown, fun nq own' hnq => ?_⟩
      exact .here (hinv.setQueue hC.live (by simp [hC.queue]) nq)
        (hpair.setQueue hC.live hnq.inv hnq.numItems hnq.itemSz) hnq.slot hreply
  | @gone mq C _ _ hinv hC hpos hst hq hown =>
      refine ⟨hinv, C, mq, hC, hq, hown, fun nq own' hnq => ?_⟩
      exact .gone (C := { C with msgQueue := some nq }) (hinv.setQueue hC (by simp [hq]) nq)
        (by simp) hpos hst rfl hnq

theorem Stands.wp_getMsg {b : Bool} {own reply : MsgItemState} (h : Stands c d s b own reply) :
    wp (sysGetMsg (some (.chan c)) true)
      (fun r t => (own = .filled → ∃ info, r = (noError, some info) ∧ info.id = 0 ∧
          Stands c d t b .read reply) ∧
        (own ≠ .filled → r = (errNoMsg, none) ∧ Stands c d t b own reply))
      (fun _ _ => False) s := by
  obtain ⟨-, C, mq, hC, hq, hown, hset⟩ := h.own_queue
  have hspec := hown.inv.getFilled (by rw [hown.itemSz]; decide)
  have hbox := hown.mailbox
  simp only [sysGetMsg, checkChannelLocked, getQueue, wp_bind, wp_getChan, hC, hq, Option.elim_some,
    wp_pure]
  cases hpeek : mq.peekNextFilled with
  | none =>
      cases hget : mq.getFilled with
      | some nq => simp [hpeek, hget] at hspec
      | none =>
          simp only [hpeek, hget] at hspec
          have hne : own ≠ .filled := fun hf => by
            subst hf
            simp [Slot, hspec] at hbox
          exact ⟨fun hf => absurd hf hne, fun _ => ⟨rfl, h⟩⟩
  | some info =>
      cases hget : mq.getFilled with
      | none => simp [hpeek, hget] at hspec
      | some nq =>
          simp only [hpeek, hget] at hspec
          obtain ⟨hinv, m, rest, hw, -, -, hnq⟩ := hspec
          obtain rfl := hbox.eq_filled (by simp [hw])
          obtain ⟨hnum, hsz⟩ := MsgQueue.getFilled_size hget
          have hread : OneBuffer nq (nq.items 0).state :=
            ⟨hinv, hnum.trans hown.numItems, hsz.trans hown.itemSz, rfl⟩
          have hslot := hread.mailbox
          have hst := hslot.eq_read (by simp [hnq])
          rw [hst] at hread hslot
          -- the only item has the identifier 0
          have hid : info.id = 0 := by
            obtain ⟨-, m', hheld⟩ := hslot
            rw [hnq, hbox.2, List.nil_append, List.singleton_inj] at hheld
            exact UInt32.toNat_inj.mp (Prod.ext_iff.mp hheld).1
          simp only [Bool.not_true, Bool.false_eq_true, if_false, setQueue, wp_bind,
            wp_modifyChan, hC, Option.elim_some, wp_pure]
          exact ⟨fun _ => ⟨info, rfl, hid, hset nq .read hread⟩, fun hne => absurd rfl hne⟩

theorem copyOut_mapped {n : Nat} {data bytes : List UInt8} (hn : n ≤ bytes.length) :
    (copyOut data (.user [.mapped n bytes] 0)).1 = min data.length n := by
  simp only [copyOut, membufToUserIovec, toUserLoop]
  by_cases hdata : data.length = 0
  · simp [hdata]
  · have hshort : ¬ bytes.length < min data.length n := by omega
    simp only [hdata, hshort, if_false]
    split <;> simp_all

/-- The message obtained is read into the buffer of the service. -/
theorem Stands.wp_readMsg {b : Bool} {reply : MsgItemState} (h : Stands c d s b .read reply) {n : Nat}
    {bytes : List UInt8} (hn : n ≤ bytes.length) :
    wp (sysReadMsg (some (.chan c)) 0 0 (some (.user [.mapped n bytes] 0)))
      (fun r t => (0 ≤ r.1 ∧ r.1 ≤ n) ∧ t = s) (fun _ _ => False) s := by
  obtain ⟨-, C, mq, hC, hq, hown, -⟩ := h.own_queue
  obtain ⟨-, m, hm⟩ := hown.mailbox
  have hlook : mq.mailbox.look (0 : UInt32).toNat = some m := by
    simp [Mailbox.look, hm]
  simp only [sysReadMsg, readMsgLocked, checkChannelLocked, getQueue, wp_bind, wp_getChan, hC, hq,
    Option.elim_some, wp_pure, hown.inv.read, hlook]
  have hoff : ¬ m.length < (0 : UInt32).toNat := Nat.not_lt_zero _
  rw [if_neg hoff, copyOut_mapped hn]
  exact ⟨⟨by omega, by omega⟩, trivial⟩

/-- The peer's auxiliary state is no part of it. -/
theorem Stands.setAux_peer {b : Bool} {own reply : MsgItemState} (h : Stands c d s b own reply)
    {p : ChanId} {P : Chan} (hC : s.chans c = some C) (hp : C.peer = some p)
    (hP : s.chans p = some P) (aux : AuxState) :
    Stands c d (s.setChan p { P with auxState := aux }) b own reply := by
  cases h with
  | @here mq mq' _ _ hinv hpair hown hreply =>
      obtain ⟨C', hC'⟩ := hpair.own
      obtain rfl : C = C' := Option.some.inj (hC.symm.trans hC'.live)
      obtain rfl : p = d := Option.some.inj (hp.symm.trans hC'.peer)
      exact .here (hinv.setMsg hP aux Iff.rfl) (hpair.symm.setAux hP aux).symm hown hreply
  | @gone mq C' _ _ hinv hC' hpos hst hq hown =>
      obtain rfl : C = C' := Option.some.inj (hC.symm.trans hC')
      obtain ⟨P', hP', -, hcompat⟩ := hinv.peers.peer hC hp
      have hne : c ≠ p := by
        rintro rfl
        obtain rfl : C = P' := Option.some.inj (hC.symm.trans hP')
        exact (iff_not_self hcompat.roles).elim
      exact .gone (hinv.setMsg hP aux Iff.rfl) (by simp [hne, hC]) hpos hst hq hown

/-- The message is retired. -/
theorem Stands.wp_putMsg {b : Bool} {reply : MsgItemState} (h : Stands c d s b .read reply) :
    wp (ipcPutMsg (some (.chan c)) 0) (fun r t => r = noError ∧ Stands c d t b .free reply)
      (fun _ _ => False) s := by
  obtain ⟨-, C, mq, hC, hq, hown, hset⟩ := h.own_queue
  obtain ⟨hw, m, hm⟩ := hown.mailbox
  have hspec := hown.inv.putRead 0
  simp only [ipcPutMsg, checkChannelLocked, getQueue, wp_bind, wp_getChan, hC, hq, Option.elim_some,
    wp_pure]
  cases hput : mq.putRead 0 with
  | none => simp [hput, Mailbox.look, hm] at hspec
  | some nq =>
      simp only [hput] at hspec
      obtain ⟨hinv, -, hnq⟩ := hspec
      obtain ⟨hnum, hsz⟩ := MsgQueue.putRead_size hput
      have hfree : OneBuffer nq .free := by
        refine .of_mailbox hinv (hnum.trans hown.numItems) (hsz.trans hown.itemSz) ?_
        rw [hnq]
        exact ⟨hw, by simp [hm]⟩
      have hstands := hset nq .free hfree
      have hlive : (s.setChan c { C with msgQueue := some nq }).chans c =
          some { C with msgQueue := some nq } := by simp
      simp only [setQueue, wp_bind, wp_modifyChan, hC, Option.elim_some]
      generalize s.setChan c { C with msgQueue := some nq } = t at hstands hlive ⊢
      simp only [wp_getChan, hlive, Option.elim_some]
      cases hpeer : C.peer with
      | none => exact ⟨rfl, hstands⟩
      | some p =>
          obtain ⟨hinv', -⟩ := hstands.own_queue
          obtain ⟨P, hP, -, -⟩ := hinv'.peers.peer hlive hpeer
          simp only [wp_bind, wp_getChan, hP, Option.elim_some, wp_ite, wp_modifyChan,
            wp_handleNotify_chan, Registry.setChan_chans, if_true, wp_pure]
          split
          · exact ⟨trivial, hstands.setAux_peer hlive hpeer hP _⟩
          · exact ⟨trivial, hstands⟩

theorem copyIn_mapped {buf : Nat → UInt8} {pos len n : Nat} {bytes : List UInt8}
    (hn : n ≤ bytes.length) : 0 ≤ (copyIn buf pos len (.user [.mapped n bytes] 0)).1 := by
  simp only [copyIn, userIovecToMembuf, userLoop]
  have hshort : ¬ bytes.length < min len n := by omega
  simp only [hshort, if_false]
  repeat' split
  all_goals simp_all

/-- A send on a connected channel fails for want of room, and, if the bytes can
be read, for nothing else. -/
theorem wp_sendMsg_ret {num sz : Nat} (h : Pair s num sz c d mq mq') {msg : MsgDesc}
    (hok : ∀ buf pos len, 0 ≤ (copyIn buf pos len msg).1) :
    wp (sendMsgLocked (some (.chan c)) msg)
      (fun r _ => (mq'.freeList = [] → r = errNotEnoughBuffer) ∧ (mq'.freeList ≠ [] → 0 ≤ r))
      (fun _ _ => False) s := by
  obtain ⟨C, hC⟩ := h.own
  obtain ⟨D, hD⟩ := h.other
  have hne : c ≠ d := h.ne
  simp only [sendMsgLocked, checkChannelLocked, msgWriteLocked, getQueue, wp_bind, wp_getChan,
    hC.live, hC.state, hC.peer, hD.live, hD.queue, Option.elim_some, wp_pure]
  cases hfree : mq'.freeList with
  | nil => simp [hC.live]
  | cons item rest =>
      have hret : 0 ≤ (mq'.fill item msg).1 := by
        simp only [MsgQueue.fill]
        rw [if_neg (Int.not_lt.mpr (hok _ _ _))]
        exact Int.natCast_nonneg _
      simp only [setQueue, wp_bind, wp_modifyChan, hD.live, Option.elim_some, wp_pure, wp_ite,
        wp_getChan, Registry.setChan_chans, hne, if_false, hC.live, hC.peer,
        wp_handleNotify_chan, if_true, ite_self]
      exact ⟨by simp, fun _ => hret⟩

/-- A reply is sent exactly if the client is there and has room for it. -/
theorem Stands.wp_sendMsg {b : Bool} {own reply : MsgItemState} (h : Stands c d s b own reply)
    {n : Nat} {bytes : List UInt8} (hn : n ≤ bytes.length) :
    wp (sysSendMsg (some (.chan c)) (some (.user [.mapped n bytes] 0)))
      (fun r t => (b = false → r = errChannelClosed ∧ Stands c d t b own reply) ∧
        (b = true → reply ≠ .free → r = errNotEnoughBuffer ∧ Stands c d t b own reply) ∧
        (b = true → reply = .free → 0 ≤ r ∧ Stands c d t b own .filled))
      (fun _ _ => False) s := by
  cases h with
  | @here mq mq' _ _ hinv hpair hown hreply =>
      obtain ⟨C, hC⟩ := hpair.own
      have hown' := pair_own hpair hown
      have hreply' := pair_own hpair.symm hreply
      refine wp_mono (wp_and (wp_and (wp_sendMsgLocked hpair
        (rfl : (MsgCall.sysSend (some (.user [.mapped n bytes] 0))).sends = _))
        (wp_sendMsg_ret hpair fun _ _ _ => copyIn_mapped hn)) (hinv.wp_sendMsgLocked hC.live _)) (fun r t ht => ?_)
        fun _ _ he => he.2
      obtain ⟨⟨⟨nq, nq', ls, ls', hpair', hcall, hrun, hrun'⟩, hfull, hroom⟩, hinv'⟩ := ht
      rw [hreply'.freeList] at hfull
      have hkept : Mailbox.Run mq.mailbox [] nq.mailbox → OneBuffer nq own := fun hnil =>
        hown'.unchanged hpair'.inv hpair'.numItems hpair'.itemSz hnil
      cases hcall with
      | sent _ _ =>
          -- the item of the client was free, and now is filled
          have hfilled : OneBuffer nq' (nq'.items 0).state := pair_own hpair'.symm rfl
          have hst := hfilled.mailbox.eq_filled (by simp [hrun'.step.waiting_send])
          refine ⟨by simp, fun _ hne => ?_, fun _ hfree => ⟨Int.natCast_nonneg _, ?_⟩⟩
          · have hcode : errNotEnoughBuffer < 0 := by decide
            rw [← hfull hne] at hcode
            exact absurd hcode (Int.not_lt.mpr (Int.natCast_nonneg _))
          · exact .here hinv' hpair' (hkept hrun).slot hst
      | notSent _ hneg =>
          have hsame := hreply'.unchanged hpair'.inv' hpair'.numItems' hpair'.itemSz' hrun'
          refine ⟨by simp, fun _ hne => ⟨hfull hne, ?_⟩, fun _ hfree => ?_⟩
          · exact .here hinv' hpair' (hkept hrun).slot hsame.slot
          · have := hroom fun hf => hreply'.freeList.mp hf hfree
            omega
  | @gone mq C _ _ hinv hC hpos hst hq hown =>
      simp only [sysSendMsg, sendMsgLocked, checkChannelLocked, wp_bind, wp_getChan, hC, hst,
        Option.elim_some, wp_pure]
      exact ⟨fun _ => ⟨trivial, .gone hinv hC hpos hst hq hown⟩, by simp, by simp⟩

/-- A connection that was just accepted. -/
theorem stands_of_create {buf buf' : Nat → UInt8} (h : ipc.Reachable anyStep s) (hne : c ≠ d)
    (hC : ∃ C, Connected s c d (MsgQueue.create numOfBuffers indBufferSize buf) C)
    (hD : ∃ D, Connected s d c (MsgQueue.create numOfBuffers indBufferSize buf') D) :
    Stands c d s true .free .free := by
  have hnum : numOfBuffers ≤ 256 := by decide
  obtain ⟨-, -, -, hnumC, hszC, -⟩ :=
    MsgQueue.create_lists numOfBuffers indBufferSize buf numOfBuffers
  obtain ⟨-, -, -, hnumD, hszD, -⟩ :=
    MsgQueue.create_lists numOfBuffers indBufferSize buf' numOfBuffers
  exact .here (inv_of_reachable h) ⟨hne, hC, hD, MsgQueue.inv_create hnum _ _,
    MsgQueue.inv_create hnum _ _, hnumC, hnumD, hszC, hszD⟩ rfl rfl

end

end TX2SecureUart.Service
