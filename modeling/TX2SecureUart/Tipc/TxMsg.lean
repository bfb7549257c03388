/-
# `Tipc.TxMsg` — the messages that wait in a channel

`handle_tx_msg` obtains one message after the other and sends each with
`tipc_send_data`.  The message is read and retired in the callback, so a message whose
sending ends before the callback stays obtained, and keeps its place in the queue of
the channel for ever.
-/
import TX2SecureUart.Tipc.Device
import TX2SecureUart.Ipc.MsgRefine

namespace TX2SecureUart.Tipc

open Prog Ipc

variable (w : World)

/-! ## The functions -/

/-- An `ipc_put_msg` that succeeds is recorded. -/
def recordRetired (c : ChanId) (id : UInt32) (ret : Int) : TipcM Unit :=
  if ret = noError then record (.retired c id) else pure ()

/-- `tx_data_cb`, for a destination of `sz` bytes -/
def txDataCb (c : ChanId) (id : UInt32) (sz : Nat) : TipcM Int := do
  let r ← onReg (ipcReadMsg (some (.chan c)) id 0
    (some (.kern false [.mem (List.replicate sz 0)] 0)))
  let ret ← onReg (ipcPutMsg (some (.chan c)) id)
  recordRetired c id ret
  pure r.1

/-- The peer of a channel sends a message, if there is a peer. -/
def peerSends (c : ChanId) (msg : MsgDesc) : IpcM Unit := do
  let C ← getChan c
  match C.peer with
  | none => pure ()
  | some d => do
      let _ ← ipcSendMsg (some (.chan d)) (some msg)

/-- What arrives before the next message is asked for. -/
def arrivals (c : ChanId) : TipcM Unit := do
  let s ← get
  onReg ((w.arrive s.sent).forM (peerSends c))

/-- The loop of `handle_tx_msg`. -/
def txLoop (c : ChanId) (remote : UInt32) : Nat → TipcM Unit
  | 0 => throw .running
  | fuel + 1 => do
      arrivals w c
      let r ← onReg (ipcGetMsg (some (.chan c)))
      if r.1 = errNoMsg then pure ()
      else if r.1 ≠ noError then throw .panic
      else match r.2 with
        | none => throw .nullDeref
        | some info => do
            record (.got c info.id)
            let _ ← tipcSendData w 0 remote (txDataCb c info.id) (UInt16.ofNat info.len.toNat) true
            txLoop c remote fuel

/-- `handle_tx_msg` -/
def handleTxMsg (c : ChanId) (fuel : Nat) : TipcM Unit := do
  let ept ← handleGetCookie c
  match ept with
  | none => pure ()
  | some slot => do
      let s ← get
      txLoop w c (s.dev.epts slot).remote fuel

/-! ## The queue of a channel -/

variable {w} {s t : Registry} {c d : ChanId} {mq nq : MsgQueue}

/-- A channel with its queue, and with its peer if there is one. -/
structure Queued (s : Registry) (c : ChanId) (mq : MsgQueue) : Prop where
  chan : ∃ C, s.chans c = some C ∧ C.msgQueue = some mq ∧
    ∀ d, C.peer = some d → d ≠ c ∧ ∃ D, s.chans d = some D ∧ D.peer = some c
  inv : mq.Inv
  size : mq.itemSz < 2 ^ 32

/-- The peer is blocked only while no item is free. -/
def Unstuck (s : Registry) (c : ChanId) (mq : MsgQueue) : Prop :=
  ∀ C d D, s.chans c = some C → C.peer = some d → s.chans d = some D →
    D.auxState.sendBlocked = true → mq.freeList = []

theorem Queued.setQueue {C : Chan} (h : Queued s c mq) (hC : s.chans c = some C) (hinv : nq.Inv)
    (hsize : nq.itemSz = mq.itemSz) : Queued (s.setChan c { C with msgQueue := some nq }) c nq where
  chan := by
    obtain ⟨C', hC', -, hpeer⟩ := h.chan
    obtain rfl : C = C' := Option.some.inj (hC.symm.trans hC')
    refine ⟨{ C with msgQueue := some nq }, by simp, rfl, ?_⟩
    intro d hd
    obtain ⟨hne, D, hD, hback⟩ := hpeer d hd
    exact ⟨hne, D, by simp [hne, hD], hback⟩
  inv := hinv
  size := hsize ▸ h.size

/-- The auxiliary state of the peer is no part of it. -/
theorem Queued.setAux {D : Chan} (h : Queued s c mq) (hne : d ≠ c) (hD : s.chans d = some D)
    (aux : AuxState) : Queued (s.setChan d { D with auxState := aux }) c mq where
  chan := by
    obtain ⟨C, hC, hq, hpeer⟩ := h.chan
    refine ⟨C, by simp [hne.symm, hC], hq, ?_⟩
    intro e he
    obtain ⟨hec, E, hE, hback⟩ := hpeer e he
    by_cases hed : e = d
    · subst hed
      obtain rfl : D = E := Option.some.inj (hD.symm.trans hE)
      exact ⟨hec, { D with auxState := aux }, by simp, hback⟩
    · exact ⟨hec, E, by simp [hed, hE], hback⟩
  inv := h.inv
  size := h.size

/-- What is known of the peer's flag goes on to be known when the queue is replaced. -/
theorem Unstuck.setQueue {C : Chan} (h : Unstuck s c mq) (hq : Queued s c mq) (hC : s.chans c = some C)
    (hfree : mq.freeList = [] → nq.freeList = []) :
    Unstuck (s.setChan c { C with msgQueue := some nq }) c nq := by
  intro C' d D hC' hd hD hb
  obtain rfl : { C with msgQueue := some nq } = C' := by simpa using hC'
  obtain ⟨C'', hC'', -, hpeer⟩ := hq.chan
  obtain rfl : C = C'' := Option.some.inj (hC.symm.trans hC'')
  obtain ⟨hne, -⟩ := hpeer d hd
  rw [Registry.setChan_chans, if_neg hne] at hD
  exact hfree (h C d D hC hd hD hb)

theorem wp_getMsg (h : Queued s c mq) (hu : Unstuck s c mq) :
    wp (ipcGetMsg (some (.chan c))) (fun r t =>
      (r = (errNoMsg, none) ∧ t = s ∧ mq.filledList = []) ∨
      ∃ info nq, r = (noError, some info) ∧ Queued t c nq ∧ Unstuck t c nq ∧
        nq.readList = mq.readList ++ [info.id.toNat]) (fun _ _ => False) s := by
  obtain ⟨C, hC, hq, hpeer⟩ := h.chan
  have hspec := h.inv.getFilled h.size
  simp only [ipcGetMsg, sysGetMsg, checkChannelLocked, getQueue, wp_bind, wp_getChan, hC, hq,
    Option.elim_some, wp_pure]
  cases hfilled : mq.filledList with
  | nil =>
      have hpeek : mq.peekNextFilled = none := by rw [MsgQueue.peekNextFilled, hfilled]
      rw [hpeek]
      exact Or.inl ⟨rfl, rfl, rfl⟩
  | cons i rest =>
      obtain ⟨hfree, -, hread⟩ := h.inv.filled_head hfilled
      have hilt : i < mq.numItems := h.inv.lt_numItems (k := .filled) (by simp [MsgQueue.listOf, hfilled])
      have hid : (mq.items i).id.toUInt32.toNat = i := by simpa using h.inv.id i hilt
      cases hpeek : mq.peekNextFilled with
      | none => simp [MsgQueue.peekNextFilled, hfilled] at hpeek
      | some info =>
          cases hget : mq.getFilled with
          | none => simp [MsgQueue.getFilled, hfilled] at hget
          | some nq =>
              have hinfo : info.id.toNat = i := by
                simp only [MsgQueue.peekNextFilled, hfilled, Option.some.injEq] at hpeek
                rw [← hpeek]
                exact hid
              rw [hpeek, hget] at hspec
              simp only [Bool.not_true, Bool.false_eq_true, if_false, setQueue, wp_bind,
                wp_modifyChan, hC, Option.elim_some, wp_pure]
              have hlists : nq.freeList = mq.freeList ∧ nq.readList = mq.readList ++ [i] ∧
                  nq.itemSz = mq.itemSz := by
                simp only [MsgQueue.getFilled, hfilled, MsgQueue.setItem, MsgQueue.listDelete,
                  List.erase_of_not_mem hfree, List.erase_of_not_mem hread, Option.some.injEq] at hget
                subst hget
                exact ⟨rfl, rfl, rfl⟩
              obtain ⟨hf, hr, hsz⟩ := hlists
              refine Or.inr ⟨info, nq, rfl, h.setQueue hC hspec.1 hsz, ?_, ?_⟩
              · exact hu.setQueue h hC (fun h0 => hf.trans h0)
              · rw [hr, hinfo]

/-- Retiring a message that is held: the peer is not blocked any more. -/
theorem wp_putMsg {id : UInt32} (h : Queued s c mq) (hid : id.toNat ∈ mq.readList) :
    wp (ipcPutMsg (some (.chan c)) id) (fun r t => r = noError ∧ ∃ nq, Queued t c nq ∧
      Unstuck t c nq ∧ nq.readList = mq.readList.erase id.toNat) (fun _ _ => False) s := by
  obtain ⟨C, hC, hq, hpeer⟩ := h.chan
  have hspec := h.inv.putRead id
  have hlt : id.toNat < mq.numItems := h.inv.lt_numItems (k := .read) hid
  have hst : (mq.items id.toNat).state = .read := h.inv.state .read _ hid
  simp only [ipcPutMsg, checkChannelLocked, getQueue, wp_bind, wp_getChan, hC, hq,
    Option.elim_some, wp_pure]
  cases hput : mq.putRead id with
  | none => simp [MsgQueue.putRead, MsgQueue.getItem, hlt, hst] at hput
  | some nq =>
      rw [hput] at hspec
      have hlists : nq.readList = mq.readList.erase id.toNat ∧ nq.itemSz = mq.itemSz := by
        simp only [MsgQueue.putRead, MsgQueue.getItem, hlt, if_true, hst, ne_eq, not_true, if_false,
          MsgQueue.setItem, MsgQueue.listDelete, Option.some.injEq] at hput
        subst hput
        exact ⟨rfl, rfl⟩
      obtain ⟨hr, hsz⟩ := hlists
      have hnew := h.setQueue hC hspec.1 hsz
      simp only [setQueue, wp_bind, wp_modifyChan, hC, Option.elim_some, wp_getChan,
        Registry.setChan_chans, if_true]
      cases hp : C.peer with
      | none =>
          rw [hp] at hnew
          refine ⟨rfl, nq, hnew, ?_, hr⟩
          intro C' d D hC' hd
          rw [Registry.setChan_chans, if_pos rfl] at hC'
          obtain rfl := Option.some.inj hC'
          cases hd
      | some d =>
          obtain ⟨hne, D, hD, hback⟩ := hpeer d hp
          rw [hp] at hnew
          have hD' : (s.setChan c { C with peer := some d, msgQueue := some nq }).chans d = some D := by
            simp [hne, hD]
          simp only [wp_bind, wp_getChan, Registry.setChan_chans, hne, if_false, hD, Option.elim_some,
            wp_ite, wp_modifyChan, wp_handleNotify_chan, if_true, wp_pure]
          split
          · refine ⟨trivial, nq, hnew.setAux hne hD' _, ?_, hr⟩
            intro C' d' D' hC' hd' hD'' hb
            rw [Registry.setChan_chans, if_neg hne.symm, Registry.setChan_chans, if_pos rfl] at hC'
            obtain rfl := Option.some.inj hC'
            obtain rfl : d = d' := Option.some.inj hd'
            rw [Registry.setChan_chans, if_pos rfl] at hD''
            obtain rfl := Option.some.inj hD''
            cases hb
          · rename_i hclear
            refine ⟨trivial, nq, hnew, ?_, hr⟩
            intro C' d' D' hC' hd' hD'' hb
            rw [Registry.setChan_chans, if_pos rfl] at hC'
            obtain rfl := Option.some.inj hC'
            obtain rfl : d = d' := Option.some.inj hd'
            obtain rfl : D = D' := Option.some.inj (hD'.symm.trans hD'')
            exact absurd hb hclear

theorem wp_readMsg {id : UInt32} (h : Queued s c mq) (msg : MsgDesc) :
    wp (ipcReadMsg (some (.chan c)) id 0 (some msg)) (fun _ t => t = s) (fun _ _ => False) s := by
  obtain ⟨C, hC, hq, -⟩ := h.chan
  simp only [ipcReadMsg, readMsgLocked, checkChannelLocked, getQueue, wp_bind, wp_getChan, hC, hq,
    Option.elim_some, wp_pure]

/-- No item is held by filling one. -/
theorem fill_readList {item : Nat} {rest : List Nat} (h : mq.Inv) (hfree : mq.freeList = item :: rest)
    (msg : MsgDesc) : (mq.fill item msg).2.readList = mq.readList := by
  obtain ⟨-, -, hread⟩ := h.free_head hfree
  unfold MsgQueue.fill
  dsimp only
  split
  · rfl
  · exact List.erase_of_not_mem hread

/-- A message of the peer comes in behind the others, or not at all. -/
theorem wp_peerSends (h : Queued s c mq) (hu : Unstuck s c mq) (msg : MsgDesc) :
    wp (peerSends c msg) (fun _ t => ∃ nq, Queued t c nq ∧ Unstuck t c nq ∧
      nq.readList = mq.readList) (fun _ _ => False) s := by
  obtain ⟨C, hC, hq, hpeer⟩ := h.chan
  simp only [peerSends, wp_bind, wp_getChan, hC, Option.elim_some]
  cases hp : C.peer with
  | none => exact ⟨mq, h, hu, rfl⟩
  | some d =>
      obtain ⟨hne, D, hD, hback⟩ := hpeer d hp
      simp only [wp_bind, ipcSendMsg, sendMsgLocked, checkChannelLocked, wp_getChan, hD,
        Option.elim_some]
      cases hstate : D.state with
      | connected =>
          simp only [msgWriteLocked, getQueue, wp_bind, wp_getChan, hD, hback, hC, hq,
            Option.elim_some, wp_pure]
          cases hfree : mq.freeList with
          | nil =>
              simp only [wp_bind, wp_modifyChan, hD, Option.elim_some, wp_pure, wp_ite]
              have hneg : ¬0 ≤ errNotEnoughBuffer := by decide
              rw [if_neg hneg]
              exact ⟨mq, h.setAux hne hD _, fun _ _ _ _ _ _ _ => hfree, rfl⟩
          | cons item rest =>
              obtain ⟨hinv, -⟩ := h.inv.fill hfree msg
              obtain ⟨-, hsz⟩ := MsgQueue.fill_size mq item msg
              simp only [setQueue, wp_bind, wp_modifyChan, hC, hD, Option.elim_some, wp_pure, wp_ite,
                wp_getChan, Registry.setChan_chans, hne, if_false, hback, wp_handleNotify_chan, if_true,
                ite_self]
              refine ⟨_, h.setQueue hC hinv hsz, hu.setQueue h hC ?_, fill_readList h.inv hfree msg⟩
              intro h0
              rw [hfree] at h0
              cases h0
      | _ => exact ⟨mq, h, hu, rfl⟩


/-! ## One call of `tipc_send_data` -/

/-- The buffer that a caller gets who waits for it. -/
def firstBuf : List Avail → Option VqueueBuf
  | [] => none
  | .buf b :: _ => some b
  | .err ret txStop :: rest =>
      if ret ≠ errNotEnoughBuffer then none else if txStop = true then none else firstBuf rest

/-- The callback is called: there is a buffer with an out-iovec that holds a header,
and its iovecs can be mapped. -/
def Reaches (sw : SendWorld) : Prop :=
  ∃ b, firstBuf sw.avail = some b ∧ b.outIovs.used ≠ 0 ∧
    sizeofTipcHdr ≤ firstLen b.outIovs.iovs ∧ ∀ p ∈ b.outIovs.items, Passes sw.map p

theorem vqueueMapIovs_ret_iff (m : MapWorld) (flags : UInt32) (vqiovs : VqueueIovs)
    (regions : List Region) : (vqueueMapIovs m flags vqiovs regions).ret = noError ↔
      ∀ p ∈ vqiovs.items, Passes m p := by
  cases vqueueMapIovs_end m flags vqiovs regions with
  | all out hpass hret => exact ⟨fun _ => hpass, fun _ => hret⟩
  | check pre post p hitems hpass hfail hret =>
      have hp : p ∈ vqiovs.items := by
        rw [hitems]
        exact List.mem_append_right _ List.mem_cons_self
      exact ⟨fun h => absurd h hret, fun h => absurd (h p hp).1 hfail⟩
  | alloc pre post p hitems hpass hcheck hfail hret =>
      have hp : p ∈ vqiovs.items := by
        rw [hitems]
        exact List.mem_append_right _ List.mem_cons_self
      exact ⟨fun h => absurd h hret, fun h => absurd (h p hp) hfail⟩

theorem wp_getTxBuf (s : TipcState) (avail : List Avail) :
    wp (getTxBuf true avail) (fun r t => t = s ∧
      ((∃ ret, r = .error ret ∧ firstBuf avail = none) ∨ ∃ b, r = .ok b ∧ firstBuf avail = some b))
      (fun e _ => e = .waiting) s := by
  induction avail with
  | nil => exact rfl
  | cons a rest ih =>
      cases a with
      | buf b => exact ⟨rfl, Or.inr ⟨b, rfl, rfl⟩⟩
      | err ret txStop =>
          unfold getTxBuf firstBuf
          by_cases hret : ret ≠ errNotEnoughBuffer
          · rw [if_pos (Or.inl hret), if_pos hret]
            exact ⟨rfl, Or.inl ⟨ret, rfl, rfl⟩⟩
          · have hboth : ¬(ret ≠ errNotEnoughBuffer ∨ true = false) := by simp [hret]
            rw [if_neg hboth, if_neg hret]
            by_cases hstop : txStop = true
            · rw [if_pos hstop, if_pos hstop]
              exact ⟨rfl, Or.inl ⟨_, rfl, rfl⟩⟩
            · rw [if_neg hstop, if_neg hstop]
              exact ih

/-- An event at the queue of the channel. -/
def TipcEvent.ofQueue (c : ChanId) : TipcEvent → Bool
  | .got c' _ => decide (c' = c)
  | .retired c' _ => decide (c' = c)
  | _ => false

/-- What was done with the messages of the channel. -/
def queueOps (c : ChanId) (s : TipcState) : List TipcEvent :=
  s.log.filter (TipcEvent.ofQueue c)

/-- The channels and what was done with their messages are the same. -/
structure SameQueues (c : ChanId) (s t : TipcState) : Prop where
  reg : t.reg = s.reg
  sent : t.sent = s.sent
  ops : queueOps c t = queueOps c s

theorem SameQueues.trans {s t u : TipcState} (h : SameQueues c s t) (h' : SameQueues c t u) :
    SameQueues c s u :=
  ⟨h'.reg.trans h.reg, h'.sent.trans h.sent, h'.ops.trans h.ops⟩

/-- A property of the channels, and of what was done with their messages. -/
def OfQueues (c : ChanId) (Q : TipcState → Prop) : Prop :=
  ∀ s t, SameQueues c s t → Q s → Q t

theorem wp_sendMapped {Q : TipcState → Prop} {s : TipcState} {src dst : UInt32} {dataLen : UInt16}
    {cb : Nat → TipcM Int} {len : Nat} {E : Stop → TipcState → Prop}
    (hcb : ∀ sz t, SameQueues c s t → wp (cb sz) (fun _ => Q) E t) :
    wp (sendMapped src dst dataLen cb len) (fun _ => Q) E s := by
  unfold sendMapped record
  rw [wp_bind, wp_modify, wp_bind]
  refine wp_conseq (hcb _ _ ⟨rfl, rfl, ?_⟩) (fun _ _ h => h)
  rw [queueOps, queueOps, List.filter_append]
  exact List.append_nil _

/-- `tipc_send_data` calls the callback if it is reached, and leaves the channels alone
otherwise. -/
theorem wp_tipcSendData {Q : TipcState → Prop} {s : TipcState} {src dst : UInt32}
    {dataLen : UInt16} {cb : Nat → TipcM Int} {E : Stop → TipcState → Prop} (hQ : OfQueues c Q)
    (hnot : ¬Reaches (w.send s.sent) → Q { s with sent := s.sent + 1 })
    (hcb : Reaches (w.send s.sent) → ∀ sz t, SameQueues c { s with sent := s.sent + 1 } t →
      wp (cb sz) (fun _ => Q) E t)
    (hE : ∀ t, E .waiting t) :
    wp (tipcSendData w src dst cb dataLen true) (fun _ => Q) E s := by
  unfold tipcSendData
  rw [wp_bind, wp_get, wp_bind, wp_set]
  refine wp_seq (wp_mono (wp_getTxBuf _ _) (fun _ _ h => h) (fun e t he => he ▸ hE t)) ?_
  rintro r t ⟨rfl, hr⟩
  obtain ⟨ret, rfl, hnone⟩ | ⟨b, rfl, hb⟩ := hr
  · refine hnot ?_
    rintro ⟨b, hb, -⟩
    rw [hnone] at hb
    cases hb
  · have honly : Reaches (w.send s.sent) ↔ b.outIovs.used ≠ 0 ∧
        sizeofTipcHdr ≤ firstLen b.outIovs.iovs ∧ ∀ p ∈ b.outIovs.items, Passes (w.send s.sent).map p := by
      constructor
      · rintro ⟨b', hb', hrest⟩
        obtain rfl : b = b' := Option.some.inj (hb.symm.trans hb')
        exact hrest
      · intro h
        exact ⟨b, hb, h⟩
    dsimp only
    unfold sendBuf
    by_cases hused : b.outIovs.used = 0
    · rw [if_pos hused]
      exact hnot (fun h => (honly.mp h).1 hused)
    · rw [if_neg hused]
      by_cases hlen : firstLen b.outIovs.iovs < sizeofTipcHdr
      · rw [if_pos hlen]
        exact hnot (fun h => Nat.not_lt.mpr (honly.mp h).2.1 hlen)
      · rw [if_neg hlen]
        refine wp_seq (R := fun _ => Q) ?_ (fun _ _ h => h)
        unfold sendInto setRegions
        rw [wp_bind, wp_get, wp_bind, wp_modify]
        have hmap := vqueueMapIovs_ret_iff (w.send s.sent).map mapFlagsTx b.outIovs s.regions
        have hset : ∀ regions, SameQueues c { s with sent := s.sent + 1 }
            { s with sent := s.sent + 1, regions := regions } := fun _ => ⟨rfl, rfl, rfl⟩
        by_cases hret : (vqueueMapIovs (w.send s.sent).map mapFlagsTx b.outIovs s.regions).ret = noError
        · rw [if_neg (not_not.mpr hret)]
          have hreach : Reaches (w.send s.sent) := honly.mpr ⟨hused, Nat.not_lt.mp hlen, hmap.mp hret⟩
          refine wp_seq (R := fun _ => Q) (wp_sendMapped (c := c) (fun sz t ht => ?_)) ?_
          · exact hcb hreach sz t ((hset _).trans ht)
          · intro ret t ht
            exact hQ t _ ⟨rfl, rfl, rfl⟩ ht
        · rw [if_pos hret]
          exact hQ _ _ (hset _) (hnot (fun h => hret (hmap.mpr (honly.mp h).2.2)))


/-! ## One message -/

/-- A call into the IPC layer that does not stop. -/
theorem wp_onReg {α : Type} {m : IpcM α} {P : α → Registry → Prop} {E : Stop → TipcState → Prop}
    {s : TipcState} (h : wp m P (fun _ _ => False) s.reg) :
    wp (onReg m) (fun a t => ∃ reg, P a reg ∧ t = { s with reg := reg }) E s := by
  unfold onReg
  rw [wp_embed]
  refine wp_mono h ?_ ?_
  · intro a reg hP
    exact ⟨reg, hP, rfl⟩
  · intro _ _ hfalse
    exact hfalse.elim

theorem wp_arrivals {E : Stop → TipcState → Prop} {s : TipcState} (hq : Queued s.reg c mq)
    (hu : Unstuck s.reg c mq) :
    wp (arrivals w c) (fun _ t => ∃ nq, Queued t.reg c nq ∧ Unstuck t.reg c nq ∧
      nq.readList = mq.readList ∧ t = { s with reg := t.reg }) E s := by
  have hloop := wp_forM (f := peerSends c) (E := fun _ _ => False)
    (I := fun _ reg => ∃ nq, Queued reg c nq ∧ Unstuck reg c nq ∧ nq.readList = mq.readList)
    (fun msg _ reg hI => by
      obtain ⟨nq, hq, hu, hr⟩ := hI
      refine wp_conseq (wp_peerSends hq hu msg) ?_
      rintro _ t ⟨nq', hq', hu', hr'⟩
      exact ⟨nq', hq', hu', hr'.trans hr⟩)
    (w.arrive s.sent) ⟨mq, hq, hu, rfl⟩
  unfold arrivals
  rw [wp_bind, wp_get]
  refine wp_conseq (wp_onReg hloop) ?_
  rintro _ t ⟨reg, ⟨nq, hq, hu, hr⟩, rfl⟩
  exact ⟨nq, hq, hu, hr, rfl⟩

theorem queueOps_record {s : TipcState} {e : TipcEvent} (h : e.ofQueue c = true) :
    queueOps c { s with log := s.log ++ [e] } = queueOps c s ++ [e] := by
  rw [queueOps, queueOps, List.filter_append, List.filter_cons_of_pos h, List.filter_nil]

/-- The callback retires the message. -/
theorem wp_txDataCb {E : Stop → TipcState → Prop} {s : TipcState} {id : UInt32} {sz : Nat}
    (hq : Queued s.reg c mq) (hid : id.toNat ∈ mq.readList) :
    wp (txDataCb c id sz) (fun _ t => t.sent = s.sent ∧
      queueOps c t = queueOps c s ++ [.retired c id] ∧ ∃ nq, Queued t.reg c nq ∧ Unstuck t.reg c nq ∧
        nq.readList = mq.readList.erase id.toNat) E s := by
  unfold txDataCb
  refine wp_seq (wp_onReg (wp_readMsg hq _)) ?_
  rintro r t ⟨reg, rfl, rfl⟩
  refine wp_seq (wp_onReg (wp_putMsg hq hid)) ?_
  rintro ret u ⟨reg, ⟨rfl, nq, hq', hu', hr⟩, rfl⟩
  rw [recordRetired, if_pos rfl, wp_bind, record, wp_modify]
  exact ⟨rfl, queueOps_record (decide_eq_true rfl), nq, hq', hu', hr⟩

/-- The messages obtained, each with whether the callback was called for it. -/
inductive Rounds (w : World) : Nat → List (UInt32 × Bool) → Prop
  | nil (k : Nat) : Rounds w k []
  | cons {k : Nat} {id : UInt32} {reached : Bool} {rest : List (UInt32 × Bool)}
      (h : reached = true ↔ Reaches (w.send k)) (hrest : Rounds w (k + 1) rest) :
      Rounds w k ((id, reached) :: rest)

def roundOps (c : ChanId) (r : UInt32 × Bool) : List TipcEvent :=
  .got c r.1 :: if r.2 then [.retired c r.1] else []

/-- The items that stay in the read list. -/
def heldBack (rounds : List (UInt32 × Bool)) : List Nat :=
  (rounds.filter fun r => !r.2).map fun r => r.1.toNat

/-- What the loop has done, from `s` and its queue `mq` on. -/
structure Went (w : World) (c : ChanId) (s : TipcState) (mq : MsgQueue)
    (rounds : List (UInt32 × Bool)) (t : TipcState) (nq : MsgQueue) : Prop where
  reached : Rounds w s.sent rounds
  sent : t.sent = s.sent + rounds.length
  ops : queueOps c t = queueOps c s ++ rounds.flatMap (roundOps c)
  held : nq.readList = mq.readList ++ heldBack rounds
  queued : Queued t.reg c nq
  unstuck : Unstuck t.reg c nq

theorem Went.nil {s : TipcState} (hq : Queued s.reg c mq) (hu : Unstuck s.reg c mq) :
    Went w c s mq [] s mq :=
  ⟨.nil _, rfl, (List.append_nil _).symm, (List.append_nil _).symm, hq, hu⟩

/-- One message in front of the others. -/
theorem Went.cons {s t u : TipcState} {oq : MsgQueue} {id : UInt32} {reached : Bool}
    {rounds : List (UInt32 × Bool)} (hone : Went w c s mq [(id, reached)] t nq)
    (h : Went w c t nq rounds u oq) : Went w c s mq ((id, reached) :: rounds) u oq where
  reached := by
    cases hone.reached with
    | cons hr _ =>
        refine Rounds.cons hr ?_
        have hnext : s.sent + 1 = t.sent := hone.sent.symm
        exact hnext ▸ h.reached
  sent := by
    rw [h.sent, hone.sent, List.length_cons, List.length_cons, List.length_nil]
    omega
  ops := by
    rw [h.ops, hone.ops, List.append_assoc, ← List.flatMap_append]
    rfl
  held := by
    rw [h.held, hone.held, List.append_assoc, heldBack, heldBack, ← List.map_append,
      ← List.filter_append]
    rfl
  queued := h.queued
  unstuck := h.unstuck

/-- The round of a message that was just obtained. -/
theorem wp_round {E : Stop → TipcState → Prop} {s t : TipcState} {info : MsgInfo} {remote : UInt32}
    {len : UInt16} (hq : Queued t.reg c nq) (hu : Unstuck t.reg c nq)
    (hread : nq.readList = mq.readList ++ [info.id.toNat]) (hsent : t.sent = s.sent)
    (hops : queueOps c t = queueOps c s ++ [.got c info.id]) (hE : ∀ u, E .waiting u) :
    wp (tipcSendData w 0 remote (txDataCb c info.id) len true)
      (fun _ u => ∃ reached oq, Went w c s mq [(info.id, reached)] u oq) E t := by
  refine wp_tipcSendData (c := c) ?_ ?_ ?_ hE
  · rintro u v hsame ⟨reached, oq, hwent⟩
    exact ⟨reached, oq, hwent.reached, hsame.sent.trans hwent.sent, hsame.ops.trans hwent.ops,
      hwent.held, hsame.reg ▸ hwent.queued, hsame.reg ▸ hwent.unstuck⟩
  · intro hnot
    refine ⟨false, nq, .cons ⟨fun h => absurd h (by decide), fun h => absurd (hsent ▸ h) hnot⟩ (.nil _),
      congrArg (· + 1) hsent, hops, hread, hq, hu⟩
  · intro hreach sz u hsame
    have hid : info.id.toNat ∈ nq.readList := by
      rw [hread]
      exact List.mem_append_right _ List.mem_cons_self
    have hnew : info.id.toNat ∉ mq.readList := by
      have hnodup : nq.readList.Nodup := (List.nodup_append.mp hq.inv.nodup).2.1
      rw [hread] at hnodup
      intro hmem
      exact (List.nodup_append.mp hnodup).2.2 _ hmem _ List.mem_cons_self rfl
    have hq' : Queued u.reg c nq := hsame.reg ▸ hq
    refine wp_conseq (wp_txDataCb hq' hid) ?_
    rintro _ v ⟨hv, hops', oq, hoq, hou, hr⟩
    refine ⟨true, oq, .cons ⟨fun _ => hsent ▸ hreach, fun _ => rfl⟩ (.nil _), ?_, ?_, ?_, hoq, hou⟩
    · rw [hv, hsame.sent, hsent]
      rfl
    · rw [hops', hsame.ops]
      show queueOps c t ++ _ = _
      rw [hops, List.append_assoc]
      rfl
    · rw [hr, hread, List.erase_append_right _ hnew, List.erase_cons_head]
      rfl

/-! ## A whole run -/

theorem wp_txLoop {s : TipcState} {remote : UInt32} (fuel : Nat) (hq : Queued s.reg c mq)
    (hu : Unstuck s.reg c mq) :
    wp (txLoop w c remote fuel) (fun _ t => ∃ rounds nq, Went w c s mq rounds t nq)
      (fun e t => e = .waiting ∨ e = .running ∧ ∃ rounds nq, Went w c s mq rounds t nq) s := by
  induction fuel generalizing s mq with
  | zero => exact Or.inr ⟨rfl, [], mq, Went.nil hq hu⟩
  | succ fuel ih =>
      unfold txLoop
      refine wp_seq (wp_arrivals hq hu) ?_
      rintro _ t ⟨aq, haq, hau, hread, ht⟩
      refine wp_seq (wp_onReg (wp_getMsg haq hau)) ?_
      rintro r u ⟨reg, hr, rfl⟩
      obtain ⟨rfl, rfl, -⟩ | ⟨info, nq, rfl, hnq, hnu, hread'⟩ := hr
      · rw [if_pos rfl]
        refine ⟨[], aq, Rounds.nil _, ?_, ?_, ?_, haq, hau⟩
        · rw [ht]
          rfl
        · rw [ht, List.flatMap_nil, List.append_nil]
          rfl
        · exact hread.trans (List.append_nil _).symm
      · have hmsg : noError ≠ errNoMsg := by decide
        rw [if_neg hmsg, if_neg (not_not.mpr rfl)]
        dsimp only
        rw [wp_bind, record, wp_modify]
        have hsent : t.sent = s.sent := by rw [ht]
        have hops : queueOps c t = queueOps c s := by
          rw [ht]
          rfl
        have hround : wp (tipcSendData w 0 remote (txDataCb c info.id) (UInt16.ofNat info.len.toNat) true)
            (fun _ u => ∃ reached oq, Went w c s mq [(info.id, reached)] u oq)
            (fun e t => e = .waiting ∨ e = .running ∧ ∃ rounds nq, Went w c s mq rounds t nq)
            { t with reg := reg, log := t.log ++ [.got c info.id] } := by
          refine wp_round hnq hnu (hread ▸ hread') hsent ?_ (fun _ => Or.inl rfl)
          have hgot : (TipcEvent.got c info.id).ofQueue c = true := decide_eq_true rfl
          exact (queueOps_record hgot).trans (congrArg (· ++ [_]) hops)
        refine wp_seq hround ?_
        rintro _ v ⟨reached, oq, hone⟩
        refine wp_mono (ih hone.queued hone.unstuck) ?_ ?_
        · rintro _ x ⟨rounds, pq, hrest⟩
          exact ⟨_, pq, hone.cons hrest⟩
        · rintro e x (he | ⟨he, rounds, pq, hrest⟩)
          · exact Or.inl he
          · exact Or.inr ⟨he, _, pq, hone.cons hrest⟩


/-- Each message obtained is retired, once, before the next one is obtained. -/
def Retires (c : ChanId) (s t : TipcState) : Prop :=
  ∃ ids : List UInt32, queueOps c t = queueOps c s ++ ids.flatMap fun id => [.got c id, .retired c id]

/-- No message is held, and the peer is blocked only while every item waits to be
obtained. -/
def Settled (reg : Registry) (c : ChanId) : Prop :=
  ∃ mq, Queued reg c mq ∧ mq.readList = [] ∧
    ∀ C d D, reg.chans c = some C → C.peer = some d → reg.chans d = some D →
      D.auxState.sendBlocked = true → mq.filledList.length = mq.numItems

theorem heldBack_eq_nil_iff (rounds : List (UInt32 × Bool)) :
    heldBack rounds = [] ↔ ∀ r ∈ rounds, r.2 = true := by
  simp [heldBack]

theorem Rounds.all_iff {k : Nat} {rounds : List (UInt32 × Bool)} (h : Rounds w k rounds) :
    (∀ r ∈ rounds, r.2 = true) ↔ ∀ j, k ≤ j → j < k + rounds.length → Reaches (w.send j) := by
  induction h with
  | nil k =>
      refine ⟨fun _ j hle hlt => ?_, fun _ r hr => absurd hr List.not_mem_nil⟩
      rw [List.length_nil] at hlt
      omega
  | @cons k id reached rest hr _ ih =>
      rw [List.forall_mem_cons, ih, hr, List.length_cons]
      constructor
      · rintro ⟨hhead, htail⟩ j hle hlt
        by_cases hj : j = k
        · exact hj ▸ hhead
        · exact htail j (by omega) (by omega)
      · intro h
        exact ⟨h k (Nat.le_refl _) (by omega), fun j hle hlt => h j (by omega) (by omega)⟩

theorem flatMap_roundOps {rounds : List (UInt32 × Bool)} (h : ∀ r ∈ rounds, r.2 = true) :
    rounds.flatMap (roundOps c) =
      (rounds.map Prod.fst).flatMap fun id => [.got c id, .retired c id] := by
  induction rounds with
  | nil => rfl
  | cons r rest ih =>
      have hr : r.2 = true := h r List.mem_cons_self
      rw [List.flatMap_cons, List.map_cons, List.flatMap_cons,
        ih (fun r' hmem => h r' (List.mem_cons_of_mem _ hmem)), roundOps, if_pos hr]

theorem Went.retires_iff {s t : TipcState} {rounds : List (UInt32 × Bool)}
    (h : Went w c s mq rounds t nq) (hread : mq.readList = []) :
    Retires c s t ∧ Settled t.reg c ↔ ∀ k, s.sent ≤ k → k < t.sent → Reaches (w.send k) := by
  have hheld : nq.readList = heldBack rounds := by rw [h.held, hread, List.nil_append]
  rw [h.sent, ← h.reached.all_iff]
  constructor
  · rintro ⟨-, mq', hmq', hnone, -⟩
    obtain ⟨C, hC, hq, -⟩ := h.queued.chan
    obtain ⟨C', hC', hq', -⟩ := hmq'.chan
    obtain rfl : C = C' := Option.some.inj (hC.symm.trans hC')
    obtain rfl : nq = mq' := Option.some.inj (hq.symm.trans hq')
    exact (heldBack_eq_nil_iff rounds).mp (hheld.symm.trans hnone)
  · intro hall
    have hnone : nq.readList = [] := hheld.trans ((heldBack_eq_nil_iff rounds).mpr hall)
    refine ⟨⟨_, h.ops.trans (congrArg (queueOps c s ++ ·) (flatMap_roundOps hall))⟩,
      nq, h.queued, hnone, ?_⟩
    intro C d D hC hd hD hblocked
    have hfree : nq.freeList = [] := h.unstuck C d D hC hd hD hblocked
    have hlen := h.queued.inv.length_lists
    rw [hfree, hnone] at hlen
    simpa using hlen

/-- What a run of `handle_tx_msg` does, up to where it returns, or where its loop is cut
off. -/
theorem wp_handleTxMsg (fuel : Nat) {s : TipcState} (hq : Queued s.reg c mq)
    (hu : Unstuck s.reg c mq) :
    wp (handleTxMsg w c fuel) (fun _ t => ∃ rounds nq, Went w c s mq rounds t nq)
      (fun e t => e = .waiting ∨ e = .running ∧ ∃ rounds nq, Went w c s mq rounds t nq) s := by
  have hget : wp (handleGetCookie c) (fun _ t => t = s)
      (fun e t => e = .waiting ∨ e = .running ∧ ∃ rounds nq, Went w c s mq rounds t nq) s := by
    obtain ⟨C, hC, -⟩ := hq.chan
    have hchan : wp (getChan c) (fun _ reg => reg = s.reg) (fun _ _ => False) s.reg := by
      rw [wp_getChan, hC]
      exact rfl
    unfold handleGetCookie
    refine wp_seq (wp_onReg hchan) ?_
    rintro C' t ⟨reg, rfl, rfl⟩
    rfl
  unfold handleTxMsg
  refine wp_seq hget ?_
  rintro ept t rfl
  cases ept with
  | none => exact ⟨[], mq, Went.nil hq hu⟩
  | some slot =>
      dsimp only
      rw [wp_bind, wp_get]
      exact wp_txLoop fuel hq hu

/-- `handle_tx_msg` retires every message that it obtains, and leaves none of them held,
exactly when every sending reaches the callback.  It does not end otherwise than by
returning, unless it waits for a buffer that does not come. -/
theorem handleTxMsg_retires_iff (w : World) {c : ChanId} {mq : MsgQueue} {s : TipcState} (fuel : Nat)
    (hq : Queued s.reg c mq) (hu : Unstuck s.reg c mq) (hread : mq.readList = []) :
    (∀ t, handleTxMsg w c fuel s = .ok () t →
      (Retires c s t ∧ Settled t.reg c ↔ ∀ k, s.sent ≤ k → k < t.sent → Reaches (w.send k))) ∧
    ∀ e t, handleTxMsg w c fuel s = .error e t → e = .waiting ∨ e = .running ∧
      (Retires c s t ∧ Settled t.reg c ↔ ∀ k, s.sent ≤ k → k < t.sent → Reaches (w.send k)) := by
  have hrun := wp_handleTxMsg (w := w) fuel hq hu
  constructor
  · intro t ht
    obtain ⟨rounds, nq, hwent⟩ := wp_ok hrun ht
    exact hwent.retires_iff hread
  · intro e t ht
    cases wp_error hrun ht with
    | inl he => exact Or.inl he
    | inr hwent =>
        obtain ⟨he, rounds, nq, hwent⟩ := hwent
        exact Or.inr ⟨he, hwent.retires_iff hread⟩

/-! ## Two messages -/

/-- The buffers that the TX queue gives: their out-iovecs. -/
def withBuffer (iovs : List Iov) : SendWorld where
  avail := [.buf ⟨⟨0, [], Nat.le_refl _⟩, ⟨iovs.length, iovs, Nat.le_refl _⟩⟩]
  map := ⟨fun _ => noError, fun _ => some ⟨0x8000, by decide⟩⟩
  addBuf := noError

/-- The peer sends a byte before each of the first two times that it can. -/
def twoSent (iovs : List Iov) : World where
  env := ⟨fun _ _ _ => 0, true, true, true, fun _ => true, fun _ => true, fun _ => true, fun _ _ => 0⟩
  ns := fun _ _ => 0
  map := ⟨fun _ => noError, fun _ => none⟩
  send := fun _ => withBuffer iovs
  arrive := fun k => if k < 2 then [.kern false [.mem [0x11]] 0] else []

/-- The device with one channel, whose peer is not blocked. -/
def oneChannel : TipcState where
  dev := ⟨0, none, [0], fun _ => ⟨5, some 0⟩, fun slot => slot == 0⟩
  reg := connectedPair
  cookie := fun c => if c = 0 then some 0 else none
  regions := []
  fetches := 0
  sent := 0
  log := []

theorem oneChannel_queued : Queued oneChannel.reg 0 (MsgQueue.create 1 4096 fun _ => 0) where
  chan := by
    refine ⟨connectedChan 1 0, rfl, rfl, ?_⟩
    intro d hd
    obtain rfl : (1 : ChanId) = d := Option.some.inj hd
    exact ⟨by decide, connectedChan 0 ipcChanFlagServer, rfl, rfl⟩
  inv := MsgQueue.inv_create (by decide) 4096 _
  size := by decide

theorem oneChannel_unstuck : Unstuck oneChannel.reg 0 (MsgQueue.create 1 4096 fun _ => 0) := by
  intro C d D hC hd hD hblocked
  obtain rfl : connectedChan 1 0 = C := Option.some.inj hC
  obtain rfl : (1 : ChanId) = d := Option.some.inj hd
  obtain rfl : connectedChan 0 ipcChanFlagServer = D := Option.some.inj hD
  cases hblocked

/-- A buffer of one iovec that can be mapped. -/
def onePage : List Iov := [⟨0x1000, 0, 4096⟩]

theorem twoSent_retired : ∃ t, handleTxMsg (twoSent onePage) 0 3 oneChannel = .ok () t ∧
    t.sent = 2 ∧ Retires 0 oneChannel t ∧ Settled t.reg 0 := by
  have hreach : Reaches (withBuffer onePage) := by
    refine ⟨_, rfl, by decide, by decide, ?_⟩
    intro p hp
    obtain rfl := List.mem_singleton.mp hp
    exact ⟨rfl, Or.inr ⟨by decide, rfl⟩⟩
  have hret : returns (handleTxMsg (twoSent onePage) 0 3 oneChannel) = true := by decide +kernel
  obtain ⟨t, ht⟩ : ∃ t, handleTxMsg (twoSent onePage) 0 3 oneChannel = .ok () t := by
    obtain ⟨_, ht⟩ := eq_ok_of_returns hret
    exact ⟨_, ht⟩
  have hsent : (stateOf (handleTxMsg (twoSent onePage) 0 3 oneChannel)).sent = 2 := by
    decide +kernel
  rw [ht] at hsent
  have hiff := (handleTxMsg_retires_iff (twoSent onePage) 3 oneChannel_queued oneChannel_unstuck
    rfl).1 t ht
  have hall : ∀ k, oneChannel.sent ≤ k → k < t.sent →
      Reaches ((twoSent onePage).send k) := fun _ _ _ => hreach
  exact ⟨t, ht, hsent, hiff.mpr hall⟩

/-- Without an out-iovec the first message stays in the read list, and the peer, whose
second message finds no free item, stays blocked. -/
theorem noOutIovec_stays_held : ∃ t, handleTxMsg (twoSent []) 0 3 oneChannel = .ok () t ∧
    queueOps 0 t = [.got 0 0] ∧ (t.reg.chans 1).map (fun D => D.auxState.sendBlocked) = some true ∧
    ¬Settled t.reg 0 := by
  have hret : returns (handleTxMsg (twoSent []) 0 3 oneChannel) = true := by decide +kernel
  obtain ⟨t, ht⟩ : ∃ t, handleTxMsg (twoSent []) 0 3 oneChannel = .ok () t := by
    obtain ⟨_, ht⟩ := eq_ok_of_returns hret
    exact ⟨_, ht⟩
  have hend : queueOps 0 (stateOf (handleTxMsg (twoSent []) 0 3 oneChannel)) = [.got 0 0] ∧
      ((stateOf (handleTxMsg (twoSent []) 0 3 oneChannel)).reg.chans 1).map
        (fun D => D.auxState.sendBlocked) = some true ∧
      (((stateOf (handleTxMsg (twoSent []) 0 3 oneChannel)).reg.chans 0).bind Chan.msgQueue).map
        MsgQueue.readList = some [0] := by decide +kernel
  rw [ht] at hend
  obtain ⟨hops, hblocked, hread⟩ := hend
  refine ⟨t, ht, hops, hblocked, ?_⟩
  rintro ⟨mq, hq, hnone, -⟩
  obtain ⟨C, hC, hmq, -⟩ := hq.chan
  change ((t.reg.chans 0).bind Chan.msgQueue).map MsgQueue.readList = some [0] at hread
  rw [hC, Option.bind_some, hmq, Option.map_some, hnone] at hread
  cases hread

end TX2SecureUart.Tipc
