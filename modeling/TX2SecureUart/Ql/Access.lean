/-
# `Ql.Access` — which bytes of the shared buffer a command touches

The size of the buffer is fixed when the device is made.  The size of a command
is checked against its header, and never against the buffer.  What a handler
does with that length decides: connecting copies less than a page, receiving is
bounded by the buffer, an event has a fixed size.  Sending hands the length on,
and the only other bound there is the item the message is written to.

`Confined` is the rule of the first three, one lemma for each construct.
-/
import TX2SecureUart.Ql.Device
import TX2SecureUart.Ipc.Runs

namespace TX2SecureUart.Ql

open Prog Ipc

/-! ## Accesses -/

/-- Every byte of the access is among the first `sz`. -/
def Access.Within (sz : Nat) (a : Access) : Prop :=
  ∀ k, a.off ≤ k → k < a.off + a.len → k < sz

theorem Access.within_iff {sz : Nat} {a : Access} (hoff : a.off ≤ sz) :
    a.Within sz ↔ a.off + a.len ≤ sz := by
  constructor
  · intro h
    by_contra hlt
    have := h (a.off + a.len - 1) (by omega) (by omega)
    omega
  · intro h k _ hk
    omega

/-- The accesses of one command, also when it stops. -/
def accesses (env : CmdEnv) (cmdSz : UInt32) (s : QlState) : List Access :=
  (stateOf (qlTipcHandleCmd env cmdSz { s with log := [] })).log

/-- A buffer made of pages has a page. -/
theorem QlTipcDev.page_le (dev : QlTipcDev) : pageSize ≤ dev.nsSz.toNat := by
  obtain ⟨hzero, hpages⟩ := dev.sized
  have hmod : dev.nsSz.toNat % 4096 = 0 := by
    have := congrArg UInt32.toNat hpages
    rw [UInt32.toNat_and] at this
    simpa using (Nat.and_two_pow_sub_one_eq_mod dev.nsSz.toNat 12).symm.trans this
  have hpos : dev.nsSz.toNat ≠ 0 := by
    intro h
    exact hzero (UInt32.toNat_inj.mp h)
  rw [pageSize]
  omega

/-! ## A program that stays inside -/

/-- The accesses so far are inside a buffer of `sz` bytes. -/
def LogWithin (sz : Nat) (s : QlState) : Prop := ∀ a ∈ s.log, a.Within sz

/-- And the buffer has that size. -/
structure Inside (sz : Nat) (s : QlState) : Prop where
  size : s.dev.nsSz.toNat = sz
  log : LogWithin sz s

/-- The program leaves the buffer as it is and stays inside it. -/
def Confined {α : Type} (sz : Nat) (m : QlM α) : Prop :=
  ∀ s, Inside sz s → wp m (fun _ t => Inside sz t) (fun _ t => Inside sz t) s

section

variable {α β : Type} {sz : Nat} {m : QlM α} {s : QlState}

theorem Confined.pure (a : α) : Confined sz (Pure.pure a) := fun _ h => h

theorem Confined.throw (e : Stop) : Confined sz (MonadExcept.throw e : QlM α) := fun _ h => h

theorem Confined.get : Confined sz (MonadState.get : QlM QlState) := fun _ h => h

theorem Confined.bind {f : α → QlM β} (h : Confined sz m) (hf : ∀ a, Confined sz (f a)) :
    Confined sz (m >>= f) :=
  fun s hs => wp_seq (h s hs) fun a t ht => hf a t ht

theorem Confined.ite {c : Prop} [Decidable c] {n : QlM α} (hm : Confined sz m)
    (hn : Confined sz n) : Confined sz (if c then m else n) := by
  split
  · exact hm
  · exact hn

theorem Confined.get_bind {f : QlState → QlM α} (hf : ∀ s, Inside sz s → Confined sz (f s)) :
    Confined sz (MonadState.get >>= f) :=
  fun s hs => hf s hs s hs

/-- A call into the IPC layer of which it is known what it returns. -/
theorem Confined.onReg_bind {m : IpcM α} {f : α → QlM β} {P : α → Prop}
    (hm : ∀ reg, wp m (fun a _ => P a) anyStop reg) (hf : ∀ a, P a → Confined sz (f a)) :
    Confined sz (Ql.onReg m >>= f) := by
  intro s hs
  rw [wp_bind, wp_onReg]
  refine wp_mono (hm s.reg) ?_ ?_
  · intro a reg ha
    exact hf a ha _ ⟨hs.size, hs.log⟩
  · intro e reg _
    exact ⟨hs.size, hs.log⟩

/-- A step that is made only if `c`, and what comes after it. -/
theorem Confined.when {c : Prop} [Decidable c] {n : QlM PUnit} {f : PUnit → QlM α}
    (hn : Confined sz n) (hf : ∀ u, Confined sz (f u)) :
    Confined sz (if c then n >>= f else f ⟨⟩) :=
  .ite (.bind hn hf) (hf ⟨⟩)

theorem Confined.onReg (m : IpcM α) : Confined sz (onReg m) := by
  intro s hs
  rw [wp_onReg, wp]
  split
  · exact ⟨hs.size, hs.log⟩
  · exact ⟨hs.size, hs.log⟩

theorem Confined.modify {f : QlState → QlState} (hsize : ∀ s, (f s).dev.nsSz = s.dev.nsSz)
    (hlog : ∀ s, (f s).log = s.log) : Confined sz (modify f : QlM Unit) := by
  intro s hs
  refine ⟨?_, ?_⟩
  · rw [hsize]
    exact hs.size
  · rw [LogWithin, hlog]
    exact hs.log

theorem Confined.logWithin (h : Confined sz m) (hs : Inside sz s) :
    wp m (fun _ t => LogWithin sz t) (fun _ t => LogWithin sz t) s :=
  wp_mono (h s hs) (fun _ _ ht => ht.log) fun _ _ ht => ht.log

theorem Inside.access (hs : Inside sz s) {a : Access} (ha : a.off + a.len ≤ sz) :
    ∀ b ∈ s.log ++ [a], b.Within sz := by
  intro b hb
  rcases List.mem_append.mp hb with hb | hb
  · exact hs.log b hb
  · rw [List.mem_singleton.mp hb]
    exact (Access.within_iff (by omega)).mpr ha

theorem Confined.load {off len : Nat} (h : off + len ≤ sz) : Confined sz (load off len) :=
  fun _ hs => ⟨hs.size, hs.access h⟩

theorem Confined.store {off : Nat} {bytes : List UInt8} (h : off + bytes.length ≤ sz) :
    Confined sz (store off bytes) :=
  fun _ hs => ⟨hs.size, hs.access h⟩

end

/-! ## The commands -/

section

variable {sz : Nat} {s : QlState}

theorem confined_setStatus (hsz : pageSize ≤ sz) (cmd : UInt16) (err : Int) (len : Nat) :
    Confined sz (setStatus cmd err len) := by
  rw [pageSize] at hsz
  refine .bind (.store ?_) fun _ => .bind (.store ?_) fun _ => .bind (.store ?_) fun _ => .pure _
  all_goals rw [length_leBytes]; omega

theorem confined_handleClose (c : ChanId) : Confined sz (handleClose c) :=
  .bind (.onReg _) fun _ => .onReg _

theorem confined_handleSetCookie (c : ChanId) (cookie : Option Nat) :
    Confined sz (handleSetCookie c cookie) :=
  .bind (.onReg _) fun _ => .modify (fun _ => rfl) fun _ => rfl

theorem confined_handleGetCookie (c : ChanId) : Confined sz (handleGetCookie c) :=
  .bind (.onReg _) fun _ => .bind .get fun _ => .pure _

theorem confined_prepareWaitHandle (c : ChanId) : Confined sz (prepareWaitHandle c) :=
  .bind (.onReg _) fun _ => .bind .get fun _ =>
    .ite (.pure _) (.bind (.modify (fun _ => rfl) fun _ => rfl) fun _ => .pure _)

theorem confined_finishWaitHandle (c : ChanId) : Confined sz (finishWaitHandle c) :=
  .bind (.onReg _) fun _ => .modify (fun _ => rfl) fun _ => rfl

theorem confined_waitLoop (c : ChanId) (polls : List (ChanId → UInt32)) :
    Confined sz (waitLoop c polls) := by
  induction polls with
  | nil => exact .pure _
  | cons poll polls ih =>
      exact .bind (.onReg _) fun _ => .ite (.bind (.onReg _) fun _ => .pure _) ih

theorem confined_handleWait (c : ChanId) (polls : List (ChanId → UInt32)) :
    Confined sz (handleWait c polls) :=
  .bind (confined_prepareWaitHandle c) fun _ => .ite (.pure _) <|
    .bind (confined_waitLoop c polls) fun _ => .bind (confined_finishWaitHandle c) fun _ => .pure _

theorem confined_setHandleList (l : List ChanId) : Confined sz (setHandleList l) :=
  .modify (fun _ => rfl) fun _ => rfl

theorem confined_handleListAdd (c : ChanId) : Confined sz (handleListAdd c) :=
  .bind (.onReg _) fun _ => .bind .get fun _ =>
    .when (.throw _) fun _ => .bind .get fun _ => confined_setHandleList _

theorem confined_handleListDel (c : ChanId) : Confined sz (handleListDel c) :=
  .bind .get fun _ => .when (.throw _) fun _ => .bind .get fun _ =>
    .bind (confined_setHandleList _) fun _ => .onReg _

theorem confined_hlistFinishWait (last : Option ChanId) (l : List ChanId) :
    Confined sz (hlistFinishWait last l) := by
  induction l with
  | nil => exact .pure _
  | cons c rest ih =>
      exact .bind (confined_finishWaitHandle c) fun _ => .ite (.pure _) ih

theorem confined_hlistPoll (poll : ChanId → UInt32) (prepare : Bool) (l : List ChanId) :
    ∀ lastPrep, Confined sz (hlistPoll poll prepare lastPrep l) := by
  induction l with
  | nil =>
      intro lastPrep
      exact .pure _
  | cons c rest ih =>
      intro lastPrep
      have hpolled : ∀ ret, Confined sz (do
          if ret ≠ 0 then return (ret, none, lastPrep)
          let lastPrep := if prepare then some c else lastPrep
          let _ ← onReg (getChan c)
          if poll c ≠ 0 then return (1, some (c, poll c), lastPrep)
          hlistPoll poll prepare lastPrep rest) :=
        fun ret => .ite (.pure _) (.bind (.onReg _) fun _ => .ite (.pure _) (ih _))
      rw [hlistPoll]
      exact .ite (.bind (confined_prepareWaitHandle c) hpolled) (.bind (.pure _) hpolled)

theorem confined_hlistDoPollLocked (poll : ChanId → UInt32) (prepare : Bool) :
    Confined sz (hlistDoPollLocked poll prepare) :=
  .bind .get fun _ => .ite (.pure _) <| .bind (confined_hlistPoll poll prepare _ _) fun _ =>
    .when (confined_hlistFinishWait _ _) fun _ => .pure _

theorem confined_listWaitLoop (polls : List (ChanId → UInt32)) :
    Confined sz (listWaitLoop polls) := by
  induction polls with
  | nil => exact .pure _
  | cons poll polls ih =>
      exact .bind (confined_hlistDoPollLocked poll false) fun _ => .ite ih (.pure _)

theorem confined_listReady (found : Option (ChanId × UInt32)) : Confined sz (listReady found) := by
  cases found with
  | none => exact .throw _
  | some ready =>
      exact .bind (.onReg _) fun _ => .bind (.onReg _) fun _ => .bind .get fun _ =>
        .bind (confined_setHandleList _) fun _ => .pure _

theorem confined_handleListWait (poll : ChanId → UInt32) (polls : List (ChanId → UInt32)) :
    Confined sz (handleListWait poll polls) := by
  refine .bind (confined_hlistDoPollLocked poll true) fun r => .ite (.pure _) ?_
  have hready : ∀ r : Int × Option (ChanId × UInt32), Confined sz
      (if r.1 = 1 then listReady r.2 else return r) :=
    fun r => .ite (confined_listReady _) (.pure _)
  refine .ite (.bind ?_ hready) (.bind (.pure _) hready)
  exact .bind (confined_listWaitLoop polls) fun _ => .bind .get fun _ =>
    .bind (confined_hlistFinishWait _ _) fun _ => .pure _

theorem confined_allocLocalAddr (c : ChanId) (cookie : UInt64) :
    Confined sz (allocLocalAddr c cookie) := by
  refine .bind .get fun s => ?_
  cases bitmapFfz s.dev.inuse with
  | none => exact .pure _
  | some slot => exact .bind (.modify (fun _ => rfl) fun _ => rfl) fun _ => .pure _

theorem confined_freeLocalAddr (addr : UInt32) : Confined sz (freeLocalAddr addr) := by
  refine .modify ?_ ?_
  · intro s
    dsimp only
    split <;> rfl
  · intro s
    dsimp only
    split <;> rfl

theorem confined_devConnect (hsz : pageSize ≤ sz) (env : Env) (payloadLen : UInt32) :
    Confined sz (devConnect env payloadLen) := by
  have hstatus := confined_setStatus hsz qlTipcDevConnect
  rw [pageSize] at hsz
  rw [devConnect]
  split
  · exact hstatus _ _
  split
  · exact hstatus _ _
  rename_i hlen
  rw [sizeofReq] at hlen
  refine .bind (.load ?_) fun req => .bind .get fun _ => .bind (.onReg _) fun r => .ite (hstatus _ _) ?_
  · rw [sizeofTipcCmdHdr]
    omega
  cases r.2 with
  | none => exact .throw _
  | some c =>
      refine .bind (confined_allocLocalAddr c _) fun addr => .ite ?_ ?_
      · exact .bind (confined_handleClose c) fun _ => hstatus _ _
      · refine .bind .get fun _ => .bind (confined_handleSetCookie c _) fun _ =>
          .bind (confined_handleListAdd c) fun _ => .bind (.store ?_) fun _ => hstatus _ _
        rw [length_leBytes]
        omega

theorem confined_devDisconnect (hsz : pageSize ≤ sz) (addr : UInt32) :
    Confined sz (devDisconnect addr) := by
  refine .bind .get fun s => ?_
  cases s.dev.target addr with
  | none => exact .pure _
  | some found =>
      exact .bind (confined_handleListDel _) fun _ => .bind (confined_handleSetCookie _ _) fun _ =>
        .bind (confined_handleClose _) fun _ => .bind (confined_freeLocalAddr addr) fun _ =>
          confined_setStatus hsz _ _ _

theorem confined_storeEvent (hsz : pageSize ≤ sz) (handle event : UInt32) (cookie : UInt64) :
    Confined sz (storeEvent handle event cookie) := by
  rw [pageSize] at hsz
  refine .bind (.store ?_) fun _ => .bind (.store ?_) fun _ => .store ?_
  all_goals rw [length_leBytes, sizeofTipcCmdHdr]; omega

theorem confined_chanEvent (hsz : pageSize ≤ sz) (found : Option (ChanId × UInt32)) :
    Confined sz (chanEvent found) := by
  cases found with
  | none => exact .throw _
  | some ready =>
      refine .bind (confined_handleGetCookie _) fun cookie => ?_
      cases cookie with
      | none => exact .throw _
      | some slot => exact .bind .get fun _ => .bind (confined_storeEvent hsz _ _ _) fun _ => .onReg _

theorem confined_listEvent (hsz : pageSize ≤ sz) (rc : Int) (found : Option (ChanId × UInt32)) :
    Confined sz (listEvent rc found) :=
  .when (confined_storeEvent hsz _ _ _) fun _ => .ite (.throw _) (confined_chanEvent hsz found)

theorem confined_devGetEvent (hsz : pageSize ≤ sz) (poll : ChanId → UInt32)
    (polls : List (ChanId → UInt32)) (payloadLen addr : UInt32) :
    Confined sz (devGetEvent poll polls payloadLen addr) := by
  have hstatus := confined_setStatus hsz qlTipcDevGetEvent
  have hevent := confined_storeEvent hsz
  rw [devGetEvent]
  split
  · exact hstatus _ _
  split
  · refine .bind .get fun s => ?_
    cases s.dev.target addr with
    | none => exact hstatus _ _
    | some found =>
        refine .bind (confined_handleWait _ _) fun r => .bind ?_ fun _ => hstatus _ _
        exact .ite (hevent _ _ _) (.ite (.throw _) (.bind .get fun _ => hevent _ _ _))
  · refine .bind (confined_handleListWait _ _) fun r => .ite (hstatus _ _) ?_
    exact .bind (confined_listEvent hsz _ _) fun _ => hstatus _ _

/-! ### Receiving -/

theorem length_toKernLoop (bytes data : List UInt8) (copied : Nat) :
    (toKernLoop data copied [.mem bytes]).2.length ≤ bytes.length := by
  simp only [toKernLoop]
  split
  · exact Nat.zero_le _
  split
  · rw [List.length_take]
    omega
  · rw [List.append_nil, List.length_take]
    omega

/-- What is read into one entry fits the entry. -/
theorem length_read (mq : MsgQueue) (msgId offset : UInt32) (bytes : List UInt8) :
    (mq.read msgId offset (.kern false [.mem bytes] 0)).2.length ≤ bytes.length := by
  simp only [MsgQueue.read, copyOut, membufToKernIovec]
  repeat' split
  all_goals first | exact Nat.zero_le _ | exact length_toKernLoop _ _ _

theorem wp_ipcReadMsg_length {reg : Registry} {c : ChanId} {msgId offset : UInt32}
    {bytes : List UInt8} :
    wp (ipcReadMsg (some (.chan c)) msgId offset (some (.kern false [.mem bytes] 0)))
      (fun r _ => r.2.length ≤ bytes.length) anyStop reg := by
  simp only [ipcReadMsg, readMsgLocked, checkChannelLocked, getQueue, wp_bind, wp_getChan]
  cases reg.chans c with
  | none => trivial
  | some C =>
      rw [Option.elim_some]
      cases C.msgQueue with
      | none => trivial
      | some mq => exact length_read _ _ _ _

theorem confined_devRecv (hsz : pageSize ≤ sz) (addr : UInt32) : Confined sz (devRecv addr) := by
  have hstatus := confined_setStatus hsz qlTipcDevRecv
  refine .bind .get fun s => ?_
  cases s.dev.target addr with
  | none => exact hstatus _ _
  | some found =>
      refine .bind (.onReg _) fun r => .ite (hstatus _ _) ?_
      cases r.2 with
      | none => exact .throw _
      | some mi =>
          refine .get_bind fun t ht => .onReg_bind (fun _ => wp_ipcReadMsg_length) fun r hr => ?_
          refine .bind (.store ?_) fun _ => .bind (.onReg _) fun _ =>
            .ite (hstatus _ _) (.ite (hstatus _ _) (hstatus _ _))
          rw [length_bytesAt, ht.size] at hr
          rw [pageSize] at hsz
          rw [sizeofTipcCmdHdr] at hr ⊢
          omega

/-! ### Sending -/

/-- A buffer with room for `len` bytes takes no more from the entry. -/
theorem copyIn_take (buf : Nat → UInt8) (pos len : Nat) (bytes : List UInt8) :
    copyIn buf pos len (.kern false [.mem bytes] 0) =
      copyIn buf pos len (.kern false [.mem (bytes.take (min len bytes.length))] 0) := by
  have hlen : min len (min (min len bytes.length) bytes.length) = min len bytes.length := by omega
  simp only [copyIn, kernIovecToMembuf, kernLoop, List.length_take, hlen, List.take_take, min_self,
    List.length_singleton]

theorem fill_take (mq : MsgQueue) (i : Nat) (bytes : List UInt8) :
    mq.fill i (.kern false [.mem bytes] 0) =
      mq.fill i (.kern false [.mem (bytes.take (min mq.itemSz bytes.length))] 0) := by
  let m := mq.setItem i fun item => { item with numHandles := 0, len := 0 }
  have h : copyIn m.buf (m.getBuf i) m.itemSz (.kern false [.mem bytes] 0) =
      copyIn m.buf (m.getBuf i) m.itemSz
        (.kern false [.mem (bytes.take (min mq.itemSz bytes.length))] 0) :=
    copyIn_take _ _ _ bytes
  simp only [MsgQueue.fill]
  simp only [m] at h
  simp only [h]

theorem msgWriteLocked_reads {reg : Registry} {c : ChanId} {C : Chan} (hC : reg.chans c = some C)
    (hst : C.state = .connected) (bytes : List UInt8) :
    msgWriteLocked c (.kern false [.mem bytes] 0) reg =
      msgWriteLocked c (.kern false [.mem (bytes.take (sendReads reg c bytes.length))] 0) reg := by
  simp only [msgWriteLocked, getQueue, getChan, run_bind, run_get, hC, run_pure]
  cases hpeer : C.peer with
  | none => rfl
  | some peer =>
      simp only [run_bind, run_get]
      cases hY : reg.chans peer with
      | none => rfl
      | some Y =>
          simp only [run_pure]
          cases hmq : Y.msgQueue with
          | none => rfl
          | some mq =>
              simp only [run_pure]
              cases hfree : mq.freeList with
              | nil => rfl
              | cons item rest =>
                  have hreads : sendReads reg c bytes.length = min mq.itemSz bytes.length := by
                    simp [sendReads, sendRoom, hC, hst, hpeer, hY, hmq, hfree]
                  dsimp only
                  rw [hreads, ← fill_take]

/-- A message is what `sendReads` says of the entry: nothing else of it can be
seen in what the call does. -/
theorem ipcSendMsg_reads (reg : Registry) (c : ChanId) (bytes : List UInt8) :
    ipcSendMsg (some (.chan c)) (some (.kern false [.mem bytes] 0)) reg =
      ipcSendMsg (some (.chan c))
        (some (.kern false [.mem (bytes.take (sendReads reg c bytes.length))] 0)) reg := by
  simp only [ipcSendMsg, sendMsgLocked, checkChannelLocked, run_bind, getChan, run_get]
  cases hC : reg.chans c with
  | none => rfl
  | some C =>
      simp only [run_pure]
      cases hst : C.state with
      | connected => simp only [run_bind, msgWriteLocked_reads hC hst bytes]
      | _ => rfl

/-- Nothing that was accessed is forgotten. -/
theorem wp_devSend_tail {c : ChanId} {msg : Option MsgDesc} {a : Access} (ha : a ∈ s.log) :
    wp (do setStatus qlTipcDevSend (← onReg (ipcSendMsg (some (.chan c)) msg)) 0)
      (fun _ t => a ∈ t.log) (fun _ t => a ∈ t.log) s := by
  rw [wp_bind, wp_onReg, wp]
  split
  · simp [setStatus, ha]
  · exact ha

theorem wp_devSend_iff (hsz : pageSize ≤ sz) (hs : Inside sz s) (payloadLen addr : UInt32) :
    wp (devSend payloadLen addr) (fun _ t => LogWithin sz t) (fun _ t => LogWithin sz t) s ↔
      ∀ found room, s.dev.target addr = some found → sendRoom s.reg found.2 = some room →
        sizeofTipcCmdHdr + min room payloadLen.toNat ≤ sz := by
  have hstatus := confined_setStatus hsz qlTipcDevSend
  rw [pageSize] at hsz
  rw [devSend, wp_bind, wp_get]
  cases htarget : s.dev.target addr with
  | none => simpa using (hstatus _ _).logWithin hs
  | some found =>
      obtain ⟨slot, c⟩ := found
      rw [wp_bind, wp_get, wp_bind, wp_load]
      constructor
      · rintro h _ room ⟨⟩ hroom
        obtain ⟨a, ha⟩ : ∃ a : Access,
            a = ⟨false, sizeofTipcCmdHdr, sendReads s.reg c payloadLen.toNat⟩ := ⟨_, rfl⟩
        rw [← ha] at h
        have hlast : a ∈ ({ s with log := s.log ++ [a] } : QlState).log := by simp
        have hmem := @wp_devSend_tail _ c (some (.kern false
          [.mem (bytesAt s.mem sizeofTipcCmdHdr payloadLen.toNat)] 0)) _ hlast
        have hin : a.Within sz := (wp_stateOf (P := LogWithin sz)).mp h a
          ((wp_stateOf (P := fun t : QlState => a ∈ t.log)).mp hmem)
        rw [ha, Access.within_iff (Nat.le_trans (by simp [sizeofTipcCmdHdr]) hsz)] at hin
        simpa [sendReads, hroom] using hin
      · intro h
        refine (Confined.bind (.onReg _) fun _ => hstatus _ _).logWithin ⟨hs.size, hs.access ?_⟩
        rw [sendReads]
        cases hroom : sendRoom s.reg c with
        | none => exact Nat.le_trans (by simp [sizeofTipcCmdHdr]) hsz
        | some room => exact h _ room rfl hroom

/-! ## Any command -/

/-- The header says how long the payload is, and is not longer than the
command. -/
def WellSized (cmdSz : UInt32) (hdr : TipcCmdHdr) : Prop :=
  sizeofTipcCmdHdr ≤ cmdSz.toNat ∧ hdr.payloadLen.toNat = cmdSz.toNat - sizeofTipcCmdHdr

/-- A message is sent that neither the buffer nor the item it is written to
bounds: the command is longer than the buffer, and the item longer than what
the buffer holds after the header. -/
def Oversends (cmdSz : UInt32) (s : QlState) : Prop :=
  let hdr := cmdHdrOf (bytesAt s.mem 0 sizeofTipcCmdHdr)
  WellSized cmdSz hdr ∧ hdr.opcode = qlTipcDevSend ∧
    ∃ found room, s.dev.target hdr.handle = some found ∧ sendRoom s.reg found.2 = some room ∧
      s.dev.nsSz.toNat < cmdSz.toNat ∧ s.dev.nsSz.toNat < sizeofTipcCmdHdr + room

theorem confined_devHandleCmd (hsz : pageSize ≤ sz) (env : CmdEnv) {cmd : TipcCmdHdr}
    (hop : cmd.opcode ≠ qlTipcDevSend) : Confined sz (devHandleCmd env cmd) := by
  rw [devHandleCmd, if_neg hop]
  refine .ite (confined_devRecv hsz _) <| .ite (confined_devGetEvent hsz _ _ _ _) <|
    .ite (confined_devConnect hsz _ _) <| .ite (confined_devDisconnect hsz _) ?_
  exact confined_setStatus hsz _ _ _

theorem wp_qlTipcHandleCmd_iff (env : CmdEnv) (cmdSz : UInt32) (hs : Inside s.dev.nsSz.toNat s) :
    wp (qlTipcHandleCmd env cmdSz) (fun _ t => LogWithin s.dev.nsSz.toNat t)
      (fun _ t => LogWithin s.dev.nsSz.toNat t) s ↔ ¬ Oversends cmdSz s := by
  have hsz := s.dev.page_le
  have hhdr : Inside s.dev.nsSz.toNat
      { s with log := s.log ++ [⟨false, 0, sizeofTipcCmdHdr⟩] } :=
    ⟨rfl, hs.access (Nat.le_trans (by decide) hsz)⟩
  rw [qlTipcHandleCmd, wp_ite]
  split
  · rename_i hshort
    refine iff_of_true hs.log ?_
    intro h
    exact absurd h.1.1 (Nat.not_le_of_lt hshort)
  rename_i hlong
  rw [wp_bind, wp_load, wp_ite]
  split
  · rename_i hne
    refine iff_of_true hhdr.log ?_
    intro h
    exact hne h.1.2
  rename_i hlen
  have hsized : WellSized cmdSz (cmdHdrOf (bytesAt s.mem 0 sizeofTipcCmdHdr)) :=
    ⟨Nat.le_of_not_lt hlong, not_not.mp hlen⟩
  by_cases hop : (cmdHdrOf (bytesAt s.mem 0 sizeofTipcCmdHdr)).opcode = qlTipcDevSend
  · rw [devHandleCmd, if_pos hop, wp_devSend_iff hsz hhdr]
    constructor
    · rintro h ⟨-, -, found, room, htarget, hroom, hcmd, hitem⟩
      have := h found room htarget hroom
      have := hsized.1
      rw [hsized.2] at *
      omega
    · intro h found room htarget hroom
      by_contra hlt
      refine h ⟨hsized, hop, found, room, htarget, hroom, ?_, ?_⟩
      all_goals
        have := hsized.1
        rw [hsized.2] at hlt
        omega
  · refine iff_of_true ((confined_devHandleCmd hsz env hop).logWithin hhdr) ?_
    intro h
    exact hop h.2.1

end

section

variable {env : CmdEnv} {cmdSz : UInt32} {s : QlState}

theorem inside_nil (s : QlState) : Inside s.dev.nsSz.toNat { s with log := [] } := by
  refine ⟨rfl, ?_⟩
  intro a ha
  cases ha

theorem wp_accesses :
    (∀ a ∈ accesses env cmdSz s, a.Within s.dev.nsSz.toNat) ↔ wp (qlTipcHandleCmd env cmdSz)
      (fun _ t => LogWithin s.dev.nsSz.toNat t) (fun _ t => LogWithin s.dev.nsSz.toNat t)
      { s with log := [] } :=
  (wp_stateOf (P := LogWithin s.dev.nsSz.toNat)).symm

theorem Oversends.not_within (h : Oversends cmdSz s) :
    ¬ ∀ a ∈ accesses env cmdSz s, a.Within s.dev.nsSz.toNat := by
  rw [wp_accesses]
  intro hall
  exact (wp_qlTipcHandleCmd_iff env cmdSz (inside_nil s)).mp hall h

/-- A command touches the shared buffer only, unless it sends a message that is
longer than the buffer to a channel with items longer than the buffer. -/
theorem accesses_within_iff (env : CmdEnv) (cmdSz : UInt32) (s : QlState) :
    (∀ a ∈ accesses env cmdSz s, a.Within s.dev.nsSz.toNat) ↔ ¬ Oversends cmdSz s := by
  constructor
  · intro hall h
    exact h.not_within hall
  · intro h
    rw [wp_accesses]
    exact (wp_qlTipcHandleCmd_iff env cmdSz (inside_nil s)).mpr h

end

/-! ## A page for a buffer, and items of a page -/

/-- Everything outside says yes, and no channel has anything to report. -/
def quiet : CmdEnv := ⟨answering 0, fun _ => 0, []⟩

/-- A port with buffers of a page, published. -/
def pagePort : Registry :=
  stateOf ((do
    let _ ← ipcPortCreate quiet.ipc (some (.app 0)) [0x70] 1 pageSize ipcPortAllowNsConnect
    ipcPortPublish quiet.ipc 0) .empty)

/-- The device with a buffer of one page. -/
def pageDev : QlTipcDev where
  handleList := []
  nsSz := 4096
  nsPa := 0
  guest := 0
  uuid := some .zeroUuid
  inuse := fun _ => false
  epts := fun _ => ⟨none, 0⟩
  sized := ⟨by decide, by decide⟩

/-- The shared buffer with a command in it. -/
def cmdMem (opcode handle payloadLen : Nat) (payload : List UInt8) : Nat → UInt8 := fun k =>
  ((leBytes 2 opcode ++ leBytes 6 0 ++ leBytes 4 handle ++ leBytes 4 payloadLen ++ payload)[k]?).getD 0

/-- A request to connect to the port is in the buffer. -/
def beforeConnect : QlState where
  dev := pageDev
  reg := pagePort
  cookie := fun _ => none
  waitEvent := fun _ => false
  mem := cmdMem 1 0 18 (leBytes 16 5 ++ [0x70, 0])
  log := []

/-- The device connected to the port, and the connection was accepted. -/
def connected : QlState :=
  stateOf ((do
    let _ ← qlTipcHandleCmd quiet 34
    onReg (ipcPortAccept (some (.port 0)))) beforeConnect)

/-- A page is to be sent from behind the header. -/
def sendsPage : QlState := { connected with mem := cmdMem 3 32 4096 [] }

theorem oversends_sendsPage : Oversends 4112 sendsPage := by
  refine ⟨⟨by decide, by decide +kernel⟩, by decide +kernel, (0, 0), 4096, ?_, ?_, ?_, ?_⟩
  all_goals decide +kernel

/-- The last 16 bytes of the message are read behind the buffer. -/
theorem sendsPage_not_within :
    ¬ ∀ a ∈ accesses quiet 4112 sendsPage, a.Within sendsPage.dev.nsSz.toNat :=
  oversends_sendsPage.not_within

end TX2SecureUart.Ql
