/-
# `Service.Flow` — flow control of a channel

A send that finds no free item in the peer's queue sets `SEND_BLOCKED`.  The
peer's next `put_msg` turns that into `SEND_UNBLOCKED`, which `chan_poll` reports
and `chan_finalize_event` clears.
-/
import TX2SecureUart.Service.Session
import TX2SecureUart.Ipc.MsgRefine
import TX2SecureUart.Ql.Wait

namespace TX2SecureUart.Service

open Prog Ipc

/-! ## Polling -/

/-- The events of `chan_poll`. -/
def pollEvents (C : Chan) : UInt32 :=
  if C.state = .invalid then ipcHandlePollError
  else
    (if C.state = .disconnecting then ipcHandlePollHup else 0) |||
      (if C.auxState.connected then ipcHandlePollReady else 0) |||
      (if C.msgQueue.any (fun mq => !mq.isEmpty) then ipcHandlePollMsg else 0) |||
      (if C.auxState.sendUnblocked then ipcHandlePollSendUnblocked else 0)

/-- `chan_poll` -/
def chanPoll (c : ChanId) : IpcM UInt32 := do
  let C ← getChan c
  return pollEvents C

/-! ## The flags -/

def auxOf (s : Registry) (c : ChanId) : Option AuxState := (s.chans c).map Chan.auxState

/-- What `msg_write_locked` does to the flags when there is no free item. -/
def blockSend (a : AuxState) : AuxState := { a with sendBlocked := true }

/-- What `msg_put_read_locked` does to the flags of the peer. -/
def unblockSend (a : AuxState) : AuxState :=
  if a.sendBlocked then { a with sendBlocked := false, sendUnblocked := true } else a

/-- What `chan_finalize_event` does to the flags. -/
def finalizeAux (a : AuxState) (event : UInt32) : AuxState :=
  { a with
    sendUnblocked := if polled event ipcHandlePollSendUnblocked then false else a.sendUnblocked
    connected := if polled event ipcHandlePollReady then false else a.connected }

/-- A call that finds no free item in the peer's queue. -/
def blocks (call : MsgCall) (peer : MsgQueue) : Bool :=
  match call.sends with
  | some (some _) => peer.freeList.isEmpty
  | _ => false

/-- A call that retired a message. -/
def retires (call : MsgCall) (r : MsgResult) : Bool :=
  match call, r with
  | .put _, .ret r => r == 0
  | _, _ => false

section

variable {s : Registry} {num sz : Nat} {c d : ChanId} {mq mq' : MsgQueue} {C D : Chan}
  {E : Fault → Registry → Prop} {event : UInt32}

theorem polled_pollEvents (h : C.state = .connected) :
    polled (pollEvents C) ipcHandlePollError = false ∧
      polled (pollEvents C) ipcHandlePollHup = false ∧
      polled (pollEvents C) ipcHandlePollReady = C.auxState.connected ∧
      polled (pollEvents C) ipcHandlePollMsg = C.msgQueue.any (fun mq => !mq.isEmpty) ∧
      polled (pollEvents C) ipcHandlePollSendUnblocked = C.auxState.sendUnblocked := by
  have hevents : pollEvents C = (0 ||| (if C.auxState.connected then ipcHandlePollReady else 0) |||
      (if C.msgQueue.any (fun mq => !mq.isEmpty) then ipcHandlePollMsg else 0) |||
      (if C.auxState.sendUnblocked then ipcHandlePollSendUnblocked else 0)) := by
    rw [pollEvents, if_neg (by rw [h]; decide), if_neg (by rw [h]; decide)]
  rw [hevents]
  generalize C.auxState.connected = ready
  generalize C.msgQueue.any (fun mq => !mq.isEmpty) = msg
  generalize C.auxState.sendUnblocked = unblocked
  revert ready msg unblocked
  decide

theorem pollEvents_eq_zero (h : C.state = .connected) :
    pollEvents C = 0 ↔ C.auxState.connected = false ∧
      C.msgQueue.any (fun mq => !mq.isEmpty) = false ∧ C.auxState.sendUnblocked = false := by
  rw [pollEvents, if_neg (by rw [h]; decide), if_neg (by rw [h]; decide)]
  generalize C.auxState.connected = ready
  generalize C.msgQueue.any (fun mq => !mq.isEmpty) = msg
  generalize C.auxState.sendUnblocked = unblocked
  revert ready msg unblocked
  decide

theorem wp_chanPoll {Q : UInt32 → Registry → Prop} (hC : s.chans c = some C) :
    wp (chanPoll c) Q E s ↔ Q (pollEvents C) s := by
  rw [chanPoll, wp_bind, wp_getChan, hC]
  rfl

theorem auxOf_eq (hC : s.chans c = some C) : auxOf s c = some C.auxState := by
  rw [auxOf, hC]
  rfl

theorem auxOf_setChan_self : auxOf (s.setChan c C) c = some C.auxState := by
  rw [auxOf, Registry.setChan_chans, if_pos rfl]
  rfl

theorem auxOf_setChan_ne (h : d ≠ c) : auxOf (s.setChan c C) d = auxOf s d := by
  rw [auxOf, Registry.setChan_chans, if_neg h]
  rfl

theorem wp_finalize_aux (hC : s.chans c = some C) :
    wp (Ql.chanFinalizeEvent c event) (fun _ t => t = s.setChan c
      { C with auxState := finalizeAux C.auxState event }) E s := by
  rw [Ql.wp_chanFinalizeEvent hC, Ql.finalizedChan, finalizeAux, polled, polled]
  simp only [decide_eq_true_eq]
  rfl

/-- The flags after a send. -/
theorem wp_sendMsgLocked_aux (h : Pair s num sz c d mq mq') (msg : MsgDesc) :
    wp (sendMsgLocked (some (.chan c)) msg) (fun _ t =>
      auxOf t c = (auxOf s c).map (if mq'.freeList.isEmpty then blockSend else id) ∧
        auxOf t d = auxOf s d) (fun _ _ => False) s := by
  obtain ⟨C, hC⟩ := h.own
  obtain ⟨D, hD⟩ := h.other
  have hne : c ≠ d := h.ne
  simp only [sendMsgLocked, checkChannelLocked, msgWriteLocked, getQueue, wp_bind, wp_getChan,
    hC.live, hC.state, hC.peer, hD.live, hD.queue, Option.elim_some, wp_pure]
  cases hfree : mq'.freeList with
  | nil =>
      simp only [wp_bind, wp_modifyChan, hC.live, Option.elim_some, wp_pure]
      refine ⟨?_, auxOf_setChan_ne hne.symm⟩
      rw [auxOf_setChan_self, auxOf_eq hC.live]
      rfl
  | cons item rest =>
      simp only [setQueue, wp_bind, wp_modifyChan, hD.live, Option.elim_some, wp_pure, wp_ite,
        wp_getChan, Registry.setChan_chans, hne, if_false, hC.live, hC.peer,
        wp_handleNotify_chan, if_true, ite_self]
      refine ⟨?_, ?_⟩
      · rw [auxOf_setChan_ne hne]
        simp
      · rw [auxOf_setChan_self, auxOf_eq hD.live]

/-- The flags after `put_msg`. -/
theorem wp_ipcPutMsg_aux (h : Pair s num sz c d mq mq') (msgId : UInt32) :
    wp (ipcPutMsg (some (.chan c)) msgId) (fun r t => auxOf t c = auxOf s c ∧
      auxOf t d = (auxOf s d).map (if r = 0 then unblockSend else id)) (fun _ _ => False) s := by
  obtain ⟨C, hC⟩ := h.own
  obtain ⟨D, hD⟩ := h.other
  have hcd : c ≠ d := h.ne
  have hdc : d ≠ c := h.ne.symm
  simp only [ipcPutMsg, checkChannelLocked, getQueue, wp_bind, wp_getChan, hC.live, hC.queue,
    Option.elim_some, wp_pure]
  cases hput : mq.putRead msgId with
  | none => exact ⟨rfl, by rw [if_neg (by decide)]; simp⟩
  | some nq =>
      simp only [setQueue, wp_bind, wp_modifyChan, hC.live, Option.elim_some, wp_getChan,
        Registry.setChan_chans, if_true, hC.peer, hdc, if_false, hD.live, wp_ite,
        wp_handleNotify_chan, wp_pure]
      cases hblocked : D.auxState.sendBlocked with
      | true =>
          refine ⟨?_, ?_⟩
          · rw [auxOf_setChan_ne hcd, auxOf_setChan_self, auxOf_eq hC.live]
          · rw [auxOf_setChan_self, auxOf_eq hD.live, Option.map_some,
              unblockSend, if_pos hblocked]
      | false =>
          refine ⟨?_, ?_⟩
          · rw [auxOf_setChan_self, auxOf_eq hC.live]
          · rw [auxOf_setChan_ne hdc, auxOf_eq hD.live, Option.map_some,
              unblockSend, if_neg (by simp [hblocked])]

/-- The flags after a call that obtains a message. -/
theorem wp_sysGetMsg_aux (h : Pair s num sz c d mq mq') (copied : Bool) :
    wp (sysGetMsg (some (.chan c)) copied) (fun _ t => auxOf t c = auxOf s c ∧
      auxOf t d = auxOf s d) (fun _ _ => True) s := by
  obtain ⟨C, hC⟩ := h.own
  simp only [sysGetMsg, checkChannelLocked, getQueue, wp_bind, wp_getChan, hC.live, hC.queue,
    Option.elim_some, wp_pure]
  cases hpeek : mq.peekNextFilled with
  | none => exact ⟨rfl, rfl⟩
  | some info =>
      cases copied with
      | false => exact ⟨rfl, rfl⟩
      | true =>
          cases hget : mq.getFilled with
          | none => exact trivial
          | some nq =>
              simp only [Bool.not_true, Bool.false_eq_true, if_false, setQueue, wp_bind,
                wp_modifyChan, hC.live, Option.elim_some, wp_pure]
              refine ⟨?_, auxOf_setChan_ne h.ne.symm⟩
              rw [auxOf_setChan_self, auxOf_eq hC.live]

/-- The flags after a call that reads a message. -/
theorem wp_readMsgLocked_aux (h : Pair s num sz c d mq mq') (msgId offset : UInt32)
    (msg : MsgDesc) :
    wp (readMsgLocked (some (.chan c)) msgId offset msg) (fun _ t => t = s)
      (fun _ _ => True) s := by
  obtain ⟨C, hC⟩ := h.own
  simp only [readMsgLocked, checkChannelLocked, getQueue, wp_bind, wp_getChan, hC.live, hC.queue,
    Option.elim_some, wp_pure]

/-- What a call does to the flags of the two ends. -/
def FlagsAfter (c d : ChanId) (mq' : MsgQueue) (call : MsgCall) (s : Registry) (r : MsgResult)
    (t : Registry) : Prop :=
  auxOf t c = (auxOf s c).map (if blocks call mq' then blockSend else id) ∧
    auxOf t d = (auxOf s d).map (if retires call r then unblockSend else id)

theorem flagsAfter_of_eq {call : MsgCall} {r : MsgResult} {t : Registry}
    (hblocks : blocks call mq' = false) (hretires : retires call r = false)
    (hc : auxOf t c = auxOf s c) (hd : auxOf t d = auxOf s d) :
    FlagsAfter c d mq' call s r t := by
  rw [FlagsAfter, hblocks, hretires, hc, hd]
  simp

theorem wp_msgCall_aux (h : Pair s num sz c d mq mq') (call : MsgCall) :
    wp (call.run (some (.chan c))) (fun r t => FlagsAfter c d mq' call s r t)
      (fun _ _ => True) s := by
  have hsend : ∀ {call : MsgCall} (msg : MsgDesc), call.sends = some (some msg) →
      wp (sendMsgLocked (some (.chan c)) msg) (fun r t => FlagsAfter c d mq' call s (.ret r) t)
        (fun _ _ => True) s := by
    intro call msg hcall
    refine wp_mono (wp_sendMsgLocked_aux h msg) ?_ ?_
    · rintro r t ⟨hc, hd⟩
      have hblocks : blocks call mq' = mq'.freeList.isEmpty := by rw [blocks, hcall]
      have hretires : retires call (.ret r) = false := by
        cases call with
        | put => cases hcall
        | _ => rfl
      rw [FlagsAfter, hblocks, hretires, hc, hd]
      simp
    · intro _ _ _
      trivial
  have hget : ∀ {call : MsgCall} (copied : Bool), call.gets = true →
      wp (sysGetMsg (some (.chan c)) copied)
        (fun r t => FlagsAfter c d mq' call s (.info r.1 r.2) t) (fun _ _ => True) s := by
    intro call copied hcall
    refine wp_conseq (wp_sysGetMsg_aux h copied) ?_
    rintro r t ⟨hc, hd⟩
    cases call with
    | ipcGet => exact flagsAfter_of_eq rfl rfl hc hd
    | sysGet => exact flagsAfter_of_eq rfl rfl hc hd
    | _ => cases hcall
  have hread : ∀ {call : MsgCall} (msgId offset : UInt32) (msg : MsgDesc),
      call.reads = some (msgId, offset, some msg) →
      wp (readMsgLocked (some (.chan c)) msgId offset msg)
        (fun r t => FlagsAfter c d mq' call s (.bytes r.1 r.2) t) (fun _ _ => True) s := by
    intro call msgId offset msg hcall
    refine wp_conseq (wp_readMsgLocked_aux h msgId offset msg) ?_
    rintro r t rfl
    cases call with
    | ipcRead => exact flagsAfter_of_eq rfl rfl rfl rfl
    | sysRead => exact flagsAfter_of_eq rfl rfl rfl rfl
    | _ => cases hcall
  cases call with
  | ipcSend msg =>
      cases msg with
      | none => exact flagsAfter_of_eq rfl rfl rfl rfl
      | some msg => exact (wp_map _ _).mpr (hsend msg rfl)
  | sysSend msg =>
      cases msg with
      | none => exact flagsAfter_of_eq rfl rfl rfl rfl
      | some msg => exact (wp_map _ _).mpr (hsend msg rfl)
  | ipcGet => exact (wp_map _ _).mpr (hget true rfl)
  | sysGet copied => exact (wp_map _ _).mpr (hget copied rfl)
  | ipcRead msgId offset msg =>
      cases msg with
      | none => exact flagsAfter_of_eq rfl rfl rfl rfl
      | some msg => exact (wp_map _ _).mpr (hread msgId offset msg rfl)
  | sysRead msgId offset msg =>
      cases msg with
      | none => exact flagsAfter_of_eq rfl rfl rfl rfl
      | some msg => exact (wp_map _ _).mpr (hread msgId offset msg rfl)
  | put msgId =>
      refine (wp_map _ _).mpr (wp_mono (wp_ipcPutMsg_aux h msgId) ?_ ?_)
      · rintro r t ⟨hc, hd⟩
        have hblocks : blocks (.put msgId) mq' = false := rfl
        have hretires : retires (.put msgId) (.ret r) = (r == 0) := rfl
        rw [FlagsAfter, hblocks, hretires, hc, hd]
        simp
      · intro _ _ _
        trivial

/-! ## A send that fails for want of room -/

/-- A send for which there was no free item. -/
def failsSend (call : MsgCall) (r : MsgResult) : Bool :=
  call.sends.isSome && decide (r = .ret errNotEnoughBuffer)

theorem kernLoop_ret {iov : List KernIov} {buf : Nat → UInt8} {pos len copied : Nat} :
    (kernLoop buf pos len copied iov).1 ≠ errNotEnoughBuffer := by
  have hcount : ∀ n : Nat, (n : Int) ≠ errNotEnoughBuffer := by
    intro n h
    have := h ▸ Int.natCast_nonneg n
    exact absurd this (by decide)
  induction iov generalizing buf pos len copied with
  | nil => exact hcount copied
  | cons entry iov ih =>
      cases entry with
      | null n =>
          rw [kernLoop]
          split
          · exact ih
          · show errInvalidArgs ≠ errNotEnoughBuffer
            decide
      | mem bytes =>
          simp only [kernLoop]
          split
          · exact ih
          split
          · exact hcount _
          · exact ih

theorem userLoop_ret {iov : List UserIov} {buf : Nat → UInt8} {pos len copied : Nat} :
    (userLoop buf pos len copied iov).1 ≠ errNotEnoughBuffer := by
  have hcount : ∀ n : Nat, (n : Int) ≠ errNotEnoughBuffer := by
    intro n h
    have := h ▸ Int.natCast_nonneg n
    exact absurd this (by decide)
  induction iov generalizing buf pos len copied with
  | nil => exact hcount copied
  | cons entry iov ih =>
      cases entry with
      | unmapped =>
          show errFault ≠ errNotEnoughBuffer
          decide
      | mapped n bytes =>
          simp only [userLoop]
          split
          · show errFault ≠ errNotEnoughBuffer
            decide
          split
          · exact hcount _
          · exact ih

theorem copyIn_ret {buf : Nat → UInt8} {pos len : Nat} {msg : MsgDesc} :
    (copyIn buf pos len msg).1 ≠ errNotEnoughBuffer := by
  have hcodes : errNotSupported ≠ errNotEnoughBuffer ∧ errInvalidArgs ≠ errNotEnoughBuffer ∧
      (0 : Int) ≠ errNotEnoughBuffer := by decide
  obtain ⟨hsupported, hargs, hzero⟩ := hcodes
  cases msg with
  | kern null iov numHandles =>
      simp only [copyIn, kernIovecToMembuf]
      split
      · exact hsupported
      split
      · exact hzero
      split
      · exact hargs
      · exact kernLoop_ret
  | user iov numHandles =>
      simp only [copyIn, userIovecToMembuf]
      split
      · exact hsupported
      split
      · exact hzero
      · exact userLoop_ret

theorem fill_ret {i : Nat} {msg : MsgDesc} : (mq.fill i msg).1 ≠ errNotEnoughBuffer := by
  simp only [MsgQueue.fill]
  split
  · exact copyIn_ret
  · intro h
    have hpos : (0 : Int) ≤ errNotEnoughBuffer := h ▸ Int.natCast_nonneg _
    exact absurd hpos (by decide)

theorem wp_sendMsgLocked_full (h : Pair s num sz c d mq mq') (msg : MsgDesc) :
    wp (sendMsgLocked (some (.chan c)) msg) (fun r _ =>
      r = errNotEnoughBuffer → mq'.freeList = []) (fun _ _ => False) s := by
  obtain ⟨C, hC⟩ := h.own
  obtain ⟨D, hD⟩ := h.other
  have hne : c ≠ d := h.ne
  simp only [sendMsgLocked, checkChannelLocked, msgWriteLocked, getQueue, wp_bind, wp_getChan,
    hC.live, hC.state, hC.peer, hD.live, hD.queue, Option.elim_some, wp_pure]
  cases hfree : mq'.freeList with
  | nil => simp [hC.live]
  | cons item rest =>
      simp only [setQueue, wp_bind, wp_modifyChan, hD.live, Option.elim_some, wp_pure, wp_ite,
        wp_getChan, Registry.setChan_chans, hne, if_false, hC.live, hC.peer,
        wp_handleNotify_chan, if_true, ite_self]
      intro hret
      exact absurd hret fill_ret

/-- A send that fails for want of room finds no free item. -/
theorem wp_msgCall_full (h : Pair s num sz c d mq mq') (call : MsgCall) :
    wp (call.run (some (.chan c))) (fun r _ => failsSend call r = true → blocks call mq' = true)
      (fun _ _ => True) s := by
  have hsend : ∀ {call : MsgCall} (msg : MsgDesc), call.sends = some (some msg) →
      wp (sendMsgLocked (some (.chan c)) msg) (fun r _ =>
        failsSend call (.ret r) = true → blocks call mq' = true) (fun _ _ => True) s := by
    intro call msg hcall
    refine wp_mono (wp_sendMsgLocked_full h msg) ?_ ?_
    · intro r t hret hfails
      have hr : r = errNotEnoughBuffer := by simpa [failsSend, hcall] using hfails
      simp [blocks, hcall, hret hr]
    · intro _ _ _
      trivial
  have hother : ∀ {m : IpcM MsgResult} {call : MsgCall}, call.sends = none →
      wp m (fun r _ => failsSend call r = true → blocks call mq' = true) (fun _ _ => True) s := by
    intro m call hcall
    rw [wp]
    split
    · intro hfails
      simp [failsSend, hcall] at hfails
    · trivial
  cases call with
  | ipcSend msg =>
      cases msg with
      | none =>
          intro hfails
          cases hfails
      | some msg => exact (wp_map _ _).mpr (hsend msg rfl)
  | sysSend msg =>
      cases msg with
      | none =>
          intro hfails
          cases hfails
      | some msg => exact (wp_map _ _).mpr (hsend msg rfl)
  | _ => exact hother rfl

end

end TX2SecureUart.Service
