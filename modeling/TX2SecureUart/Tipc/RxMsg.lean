/-
# `Tipc.RxMsg` — a message from the non-secure world

`handle_rx_msg` looks into a buffer that the non-secure world may change at any time.
Every length is fetched once, checked against the length that the descriptor had, and
then used.  So whatever the looks find, they stay inside that length.
-/
import TX2SecureUart.Tipc.Device

namespace TX2SecureUart.Tipc

open Prog Ipc

variable (w : World)

/-! ## The shared buffer -/

/-- A look at `len` bytes of the shared buffer. -/
def fetchBytes (off len : Nat) : TipcM (List UInt8) := do
  let s ← get
  set { s with fetches := s.fetches + 1, log := s.log ++ [TipcEvent.fetch off len] }
  pure ((List.range len).map (w.ns s.fetches))

/-- A number in the shared buffer, fetched once. -/
def fetch (off len : Nat) : TipcM Nat := do
  let bytes ← fetchBytes w off len
  pure (leNat bytes)

/-- `strncpy` from the shared buffer: up to the terminator, or `n` bytes. -/
def strncpy (off : Nat) : Nat → TipcM (List UInt8)
  | 0 => pure []
  | n + 1 => do
      let c ← fetch w off 1
      if c = 0 then pure []
      else do
        let rest ← strncpy (off + 1) n
        pure (UInt8.ofNat c :: rest)

/-! ## Requests -/

/-- The end of `handle_conn_req` for a channel that has an address, or has none. -/
def finishConnReq (remote localAddr : UInt32) (err : Int) : Option ChanId → TipcM Int
  | some c => do
      let s ← get
      handleSetCookie c (s.dev.lookupEpt localAddr)
      handleListAdd c
      pure noError
  | none => do
      let _ ← sendConnRsp w localAddr remote err
      pure err

/-- `alloc_local_addr` in `handle_conn_req`: the address, and the channel unless it had
to be closed. -/
def bindChan (remote : UInt32) : Option ChanId → TipcM (UInt32 × Option ChanId)
  | none => pure (0, none)
  | some c => do
      let localAddr ← allocLocalAddr remote c
      if localAddr = 0 then do
        handleClose c
        pure (0, none)
      else pure (localAddr, some c)

/-- `handle_conn_req` -/
def handleConnReq (remote : UInt32) (off : Nat) : TipcM Int := do
  let name ← strncpy w off sizeofTipcConnReqBody
  let s ← get
  let r ← onReg (ipcPortConnectAsync w.env s.dev.guest s.dev.uuid name sizeofTipcConnReqBody 0)
  let b ← bindChan remote (if r.1 = noError then r.2 else none)
  finishConnReq w remote b.1 r.1 b.2

/-- The endpoint of `handle_disc_req`: by its local address, or else the first one with
the remote address. -/
def TipcDev.findEpt (dev : TipcDev) (target remote : UInt32) : Option Nat :=
  let bySearch := (List.range tipcAddrMaxNum).find? fun slot =>
    dev.inuse slot && decide ((dev.epts slot).remote = remote)
  match dev.lookupEpt target with
  | none => bySearch
  | some slot => if (dev.epts slot).remote = remote then some slot else bySearch

/-- The channel of an endpoint is taken out of the device and closed. -/
def dropChan : Option ChanId → TipcM Unit
  | none => pure ()
  | some c => do
      handleListDel c
      handleSetCookie c none
      handleClose c

def dropEpt : Option Nat → TipcM Unit
  | none => pure ()
  | some slot => do
      let s ← get
      dropChan (s.dev.epts slot).chan
      freeLocalAddr (slotToAddr slot)

/-- `handle_disc_req` -/
def handleDiscReq (remote : UInt32) (off : Nat) : TipcM Int := do
  let target ← fetch w off sizeofTipcDiscReqBody
  let s ← get
  dropEpt (s.dev.findEpt (UInt32.ofNat target) remote)
  pure noError

/-! ## Messages -/

/-- The `switch` of `handle_ctrl_msg`. -/
def dispatchCtrlMsg (remote : UInt32) (msgType msgBodyLen off : Nat) : TipcM Int :=
  if msgType = tipcCtrlMsgtypeConnReq then
    if msgBodyLen ≠ sizeofTipcConnReqBody then pure errNotValid
    else do
      record (.connReq remote off msgBodyLen)
      handleConnReq w remote off
  else if msgType = tipcCtrlMsgtypeDiscReq then
    if msgBodyLen ≠ sizeofTipcDiscReqBody then pure errNotValid
    else do
      record (.discReq remote off msgBodyLen)
      handleDiscReq w remote off
  else pure errNotValid

/-- `handle_ctrl_msg` -/
def handleCtrlMsg (remote : UInt32) (off msgLen : Nat) : TipcM Int :=
  if msgLen < sizeofTipcCtrlMsgHdr then pure errNotValid
  else do
    let msgType ← fetch w off 4
    let msgBodyLen ← fetch w (off + 4) 4
    if sizeofTipcCtrlMsgHdr + msgBodyLen ≠ msgLen then pure errNotValid
    else dispatchCtrlMsg w remote msgType msgBodyLen (off + sizeofTipcCtrlMsgHdr)

/-- `ipc_send_msg` with what it finds in the shared buffer, of which it may read less. -/
def sendShared (c : ChanId) (off len : Nat) : TipcM Int := do
  record (.sendMsg c off len)
  let bytes ← fetchBytes w off len
  onReg (ipcSendMsg (some (.chan c)) (some (.kern false [.mem bytes] 0)))

/-- The channel of an endpoint whose remote address is the sender's. -/
def TipcDev.chanOf (dev : TipcDev) (addr remote : UInt32) : Option ChanId :=
  (dev.lookupEpt addr).bind fun slot =>
    if (dev.epts slot).remote = remote then (dev.epts slot).chan else none

/-- `handle_chan_msg` -/
def handleChanMsg (remote localAddr : UInt32) (off len : Nat) : TipcM Int := do
  let s ← get
  match s.dev.chanOf localAddr remote with
  | none => pure errNotFound
  | some c => sendShared w c off len

/-- The part of `handle_rx_msg` with a buffer that is mapped. -/
def rxMapped (len : Nat) : TipcM Int :=
  if len < sizeofTipcHdr then pure errInvalidArgs
  else do
    let nsDataLen ← fetch w 12 2
    let srcAddr ← fetch w 0 4
    let dstAddr ← fetch w 4 4
    if nsDataLen + sizeofTipcHdr ≠ len then pure errInvalidArgs
    else if UInt32.ofNat dstAddr = tipcCtrlAddr then
      handleCtrlMsg w (UInt32.ofNat srcAddr) sizeofTipcHdr nsDataLen
    else handleChanMsg w (UInt32.ofNat srcAddr) (UInt32.ofNat dstAddr) sizeofTipcHdr nsDataLen

/-- `handle_rx_msg` -/
def handleRxMsg (b : VqueueBuf) : TipcM Int :=
  if b.inIovs.used = 0 then pure errInvalidArgs
  else do
    let s ← get
    let m := vqueueMapIovs w.map mapFlagsRx b.inIovs s.regions
    setRegions m.regions
    if m.ret ≠ noError then pure m.ret
    else do
      let ret ← rxMapped w (firstLen m.iovs)
      let t ← get
      setRegions (vqueueUnmapIovs (m.iovs.take b.inIovs.used) t.regions).2
      pure ret

/-! ## Every look is inside -/

variable {w} {s t u : TipcState} {L : Nat}

/-- What an event has to do with a buffer of `L` bytes. -/
def TipcEvent.Inside (L : Nat) : TipcEvent → Prop
  | .fetch off len => off + len ≤ L
  | .connReq _ off len => len = sizeofTipcConnReqBody ∧ off + len ≤ L
  | .discReq _ off len => len = sizeofTipcDiscReqBody ∧ off + len ≤ L
  | .sendMsg _ off len => off + len ≤ L
  | _ => True

/-- All events since `s` are inside. -/
def InsideSince (L : Nat) (s t : TipcState) : Prop :=
  ∃ es, t.log = s.log ++ es ∧ ∀ e ∈ es, e.Inside L

/-- However the program ends. -/
def Confined {α : Type} (L : Nat) (m : TipcM α) : Prop :=
  ∀ s, wp m (fun _ t => InsideSince L s t) (fun _ t => InsideSince L s t) s

theorem InsideSince.of_log (h : t.log = s.log) : InsideSince L s t :=
  ⟨[], by rw [h, List.append_nil], fun _ he => absurd he List.not_mem_nil⟩

theorem InsideSince.trans (h : InsideSince L s t) (h' : InsideSince L t u) : InsideSince L s u := by
  obtain ⟨es, hlog, hin⟩ := h
  obtain ⟨es', hlog', hin'⟩ := h'
  refine ⟨es ++ es', by rw [hlog', hlog, List.append_assoc], ?_⟩
  intro e he
  cases List.mem_append.mp he with
  | inl he => exact hin e he
  | inr he => exact hin' e he

theorem confined_pure {α : Type} (a : α) : Confined L (pure a : TipcM α) :=
  fun _ => InsideSince.of_log rfl

theorem confined_throw {α : Type} (e : Stop) : Confined L (throw e : TipcM α) :=
  fun _ => InsideSince.of_log rfl

theorem Confined.bind {α β : Type} {m : TipcM α} {f : α → TipcM β} (hm : Confined L m)
    (hf : ∀ a, Confined L (f a)) : Confined L (m >>= f) := by
  intro s
  refine (wp_bind m f).mpr (wp_conseq (hm s) ?_)
  intro a t ht
  exact wp_mono (hf a t) (fun _ _ h => ht.trans h) (fun _ _ h => ht.trans h)

theorem confined_get_bind {α : Type} {f : TipcState → TipcM α} (hf : ∀ s, Confined L (f s)) :
    Confined L (get >>= f) := by
  intro s
  rw [wp_bind, wp_get]
  exact hf s s

theorem confined_ite {α : Type} {c : Prop} [Decidable c] {m n : TipcM α} (hm : c → Confined L m)
    (hn : ¬c → Confined L n) : Confined L (if c then m else n) := by
  by_cases h : c
  · rw [if_pos h]
    exact hm h
  · rw [if_neg h]
    exact hn h

/-- A change of the state that does not touch the log. -/
theorem confined_modify {f : TipcState → TipcState} (hf : ∀ s, (f s).log = s.log) :
    Confined L (modify f : TipcM PUnit) :=
  fun s => InsideSince.of_log (hf s)

theorem confined_onReg {α : Type} (m : IpcM α) : Confined L (onReg m) := by
  intro s
  rw [onReg, wp_embed]
  have hlog : ∀ reg : Registry, InsideSince L s { s with reg := reg } := fun _ => InsideSince.of_log rfl
  exact wp_mono (wp_any m s.reg) (fun _ reg _ => hlog reg) (fun _ reg _ => hlog reg)

theorem confined_record {e : TipcEvent} (he : e.Inside L) : Confined L (record e) := by
  intro s
  refine ⟨[e], rfl, ?_⟩
  intro e' he'
  rw [List.mem_singleton.mp he']
  exact he

/-! ## The functions of the device -/

theorem confined_handleClose (c : ChanId) : Confined L (handleClose c) :=
  (confined_onReg _).bind (fun _ => confined_onReg _)

theorem confined_handleSetCookie (c : ChanId) (cookie : Option Nat) :
    Confined L (handleSetCookie c cookie) :=
  (confined_onReg _).bind (fun _ => confined_modify (fun _ => rfl))

theorem confined_handleListAdd (c : ChanId) : Confined L (handleListAdd c) := by
  refine (confined_onReg _).bind ?_
  intro _
  refine confined_get_bind ?_
  intro s
  refine confined_ite (fun _ => confined_throw _) ?_
  intro _
  exact confined_modify (fun _ => rfl)

theorem confined_handleListDel (c : ChanId) : Confined L (handleListDel c) := by
  refine confined_get_bind ?_
  intro s
  refine confined_ite (fun _ => confined_throw _) ?_
  intro _
  refine Confined.bind (confined_modify (fun _ => rfl)) ?_
  intro _
  exact confined_onReg _

theorem confined_allocLocalAddr (remote : UInt32) (c : ChanId) :
    Confined L (allocLocalAddr remote c) := by
  intro s
  rw [allocLocalAddr, wp_bind, wp_get]
  cases bitmapFfz s.dev.inuse with
  | none => exact InsideSince.of_log rfl
  | some slot => exact InsideSince.of_log rfl

theorem confined_freeLocalAddr (addr : UInt32) : Confined L (freeLocalAddr addr) := by
  refine confined_modify ?_
  intro s
  dsimp only
  split <;> rfl

theorem confined_getTxBuf (wait : Bool) (avail : List Avail) : Confined L (getTxBuf wait avail) := by
  induction avail with
  | nil => exact confined_throw _
  | cons a rest ih =>
      cases a with
      | buf b => exact confined_pure _
      | err ret txStop =>
          rw [getTxBuf]
          refine confined_ite (fun _ => confined_pure _) ?_
          intro _
          exact confined_ite (fun _ => confined_pure _) (fun _ => ih)

theorem confined_tipcSendData {src dst : UInt32} {cb : Nat → TipcM Int} {dataLen : UInt16}
    {wait : Bool} (hcb : ∀ n, Confined L (cb n)) :
    Confined L (tipcSendData w src dst cb dataLen wait) := by
  have hmapped : ∀ len, Confined L (sendMapped src dst dataLen cb len) := by
    intro len
    refine Confined.bind (confined_record ?_) ?_
    · trivial
    intro _
    refine (hcb _).bind ?_
    intro ret
    exact confined_pure _
  have hinto : ∀ sw b, Confined L (sendInto sw src dst dataLen cb b) := by
    intro sw b
    refine confined_get_bind ?_
    intro s
    refine Confined.bind (confined_modify (fun _ => rfl)) ?_
    intro _
    refine confined_ite (fun _ => confined_pure _) ?_
    intro _
    refine (hmapped _).bind ?_
    intro ret
    refine confined_get_bind ?_
    intro t
    exact Confined.bind (confined_modify (fun _ => rfl)) (fun _ => confined_pure _)
  have hbuf : ∀ sw b, Confined L (sendBuf sw src dst dataLen cb b) := by
    intro sw b
    refine confined_ite (fun _ => confined_pure _) ?_
    intro _
    refine confined_ite (fun _ => confined_pure _) ?_
    intro _
    exact (hinto sw b).bind (fun _ => confined_pure _)
  intro s
  rw [tipcSendData, wp_bind, wp_get, wp_bind, wp_set, wp_bind]
  refine wp_mono (confined_getTxBuf wait (w.send s.sent).avail _) ?_ (fun _ _ h => h)
  intro r t ht
  cases r with
  | error ret => exact ht
  | ok b => exact wp_mono (hbuf (w.send s.sent) b t) (fun _ _ h => ht.trans h) (fun _ _ h => ht.trans h)

theorem confined_sendConnRsp (src dst : UInt32) (status : Int) :
    Confined L (sendConnRsp w src dst status) := by
  refine Confined.bind (confined_record ?_) ?_
  · trivial
  intro _
  exact confined_tipcSendData (fun _ => confined_pure _)

/-! ## The functions that look into the buffer -/

theorem confined_fetchBytes {off len : Nat} (h : off + len ≤ L) : Confined L (fetchBytes w off len) := by
  intro s
  rw [fetchBytes, wp_bind, wp_get, wp_bind, wp_set]
  refine ⟨[.fetch off len], rfl, ?_⟩
  intro e he
  rw [List.mem_singleton.mp he]
  exact h

theorem confined_fetch {off len : Nat} (h : off + len ≤ L) : Confined L (fetch w off len) :=
  (confined_fetchBytes h).bind (fun _ => confined_pure _)

theorem confined_strncpy {off n : Nat} (h : off + n ≤ L) : Confined L (strncpy w off n) := by
  induction n generalizing off with
  | zero => exact confined_pure _
  | succ n ih =>
      refine (confined_fetch (by omega)).bind ?_
      intro c
      refine confined_ite (fun _ => confined_pure _) ?_
      intro _
      exact (ih (by omega)).bind (fun _ => confined_pure _)

theorem confined_handleConnReq {off : Nat} (remote : UInt32) (h : off + sizeofTipcConnReqBody ≤ L) :
    Confined L (handleConnReq w remote off) := by
  refine (confined_strncpy h).bind ?_
  intro name
  refine confined_get_bind ?_
  intro s
  refine (confined_onReg _).bind ?_
  intro r
  have hbind : ∀ c, Confined L (bindChan remote c) := by
    intro c
    cases c with
    | none => exact confined_pure _
    | some c =>
        refine (confined_allocLocalAddr remote c).bind ?_
        intro localAddr
        refine confined_ite ?_ (fun _ => confined_pure _)
        intro _
        exact (confined_handleClose c).bind (fun _ => confined_pure _)
  refine (hbind _).bind ?_
  rintro ⟨localAddr, c⟩
  cases c with
  | none => exact (confined_sendConnRsp _ _ _).bind (fun _ => confined_pure _)
  | some c =>
      refine confined_get_bind ?_
      intro t
      refine (confined_handleSetCookie c _).bind ?_
      intro _
      exact (confined_handleListAdd c).bind (fun _ => confined_pure _)

theorem confined_handleDiscReq {off : Nat} (remote : UInt32) (h : off + sizeofTipcDiscReqBody ≤ L) :
    Confined L (handleDiscReq w remote off) := by
  refine (confined_fetch h).bind ?_
  intro target
  refine confined_get_bind ?_
  intro s
  have hdrop : ∀ c, Confined L (dropChan c) := by
    intro c
    cases c with
    | none => exact confined_pure _
    | some c =>
        refine (confined_handleListDel c).bind ?_
        intro _
        exact (confined_handleSetCookie c none).bind (fun _ => confined_handleClose c)
  have hept : ∀ slot, Confined L (dropEpt slot) := by
    intro slot
    cases slot with
    | none => exact confined_pure _
    | some slot =>
        refine confined_get_bind ?_
        intro t
        exact (hdrop _).bind (fun _ => confined_freeLocalAddr _)
  exact (hept _).bind (fun _ => confined_pure _)

theorem confined_handleCtrlMsg {off msgLen : Nat} (remote : UInt32) (h : off + msgLen ≤ L) :
    Confined L (handleCtrlMsg w remote off msgLen) := by
  refine confined_ite (fun _ => confined_pure _) ?_
  intro hlen
  have hlen : sizeofTipcCtrlMsgHdr ≤ msgLen := Nat.not_lt.mp hlen
  have hhdr : sizeofTipcCtrlMsgHdr = 8 := rfl
  refine (confined_fetch (by omega)).bind ?_
  intro msgType
  refine (confined_fetch (by omega)).bind ?_
  intro msgBodyLen
  refine confined_ite (fun _ => confined_pure _) ?_
  intro hbody
  have hin : off + sizeofTipcCtrlMsgHdr + msgBodyLen ≤ L := by omega
  -- The body is what is left of the message, and has the size of its structure.
  refine confined_ite ?_ ?_
  · intro _
    refine confined_ite (fun _ => confined_pure _) ?_
    intro hsize
    have hsize : msgBodyLen = sizeofTipcConnReqBody := not_not.mp hsize
    refine Confined.bind (confined_record ⟨hsize, hin⟩) ?_
    intro _
    exact confined_handleConnReq remote (hsize ▸ hin)
  · intro _
    refine confined_ite ?_ (fun _ => confined_pure _)
    intro _
    refine confined_ite (fun _ => confined_pure _) ?_
    intro hsize
    have hsize : msgBodyLen = sizeofTipcDiscReqBody := not_not.mp hsize
    refine Confined.bind (confined_record ⟨hsize, hin⟩) ?_
    intro _
    exact confined_handleDiscReq remote (hsize ▸ hin)

theorem confined_handleChanMsg {off len : Nat} (remote localAddr : UInt32) (h : off + len ≤ L) :
    Confined L (handleChanMsg w remote localAddr off len) := by
  refine confined_get_bind ?_
  intro s
  cases s.dev.chanOf localAddr remote with
  | none => exact confined_pure _
  | some c =>
      refine Confined.bind (confined_record h) ?_
      intro _
      exact (confined_fetchBytes h).bind (fun _ => confined_onReg _)

theorem confined_rxMapped (len : Nat) : Confined len (rxMapped w len) := by
  refine confined_ite (fun _ => confined_pure _) ?_
  intro hlen
  have hlen : sizeofTipcHdr ≤ len := Nat.not_lt.mp hlen
  have hhdr : sizeofTipcHdr = 16 := rfl
  refine (confined_fetch (by omega)).bind ?_
  intro nsDataLen
  refine (confined_fetch (by omega)).bind ?_
  intro srcAddr
  refine (confined_fetch (by omega)).bind ?_
  intro dstAddr
  refine confined_ite (fun _ => confined_pure _) ?_
  intro hdata
  have hin : sizeofTipcHdr + nsDataLen ≤ len := by omega
  refine confined_ite ?_ ?_
  · intro _
    exact confined_handleCtrlMsg _ hin
  · intro _
    exact confined_handleChanMsg _ _ hin

theorem firstLen_vqueueMapIovs (m : MapWorld) (flags : UInt32) (vqiovs : VqueueIovs)
    (regions : List Region) :
    firstLen (vqueueMapIovs m flags vqiovs regions).iovs = firstLen vqiovs.iovs := by
  have hlen : ∀ iovs : List Iov, firstLen iovs = ((iovs.map Iov.len).headD 0).toNat := by
    intro iovs
    cases iovs with
    | nil => rfl
    | cons v vs => rfl
  rw [hlen, hlen, map_len_vqueueMapIovs]

/-- Whatever the looks into the shared buffer find, and however the handling ends:
every look is inside the length that the first iovec has, a request is handled only
with a body of exactly its size inside that length, and so are the bytes that
`ipc_send_msg` is given. -/
theorem handleRxMsg_inside (w : World) (b : VqueueBuf) (s : TipcState) :
    wp (handleRxMsg w b)
      (fun _ t => ∃ es, t.log = s.log ++ es ∧ ∀ e ∈ es, e.Inside (firstLen b.inIovs.iovs))
      (fun _ t => ∃ es, t.log = s.log ++ es ∧ ∀ e ∈ es, e.Inside (firstLen b.inIovs.iovs)) s := by
  have hconf : Confined (firstLen b.inIovs.iovs) (handleRxMsg w b) := by
    refine confined_ite (fun _ => confined_pure _) ?_
    intro _
    refine confined_get_bind ?_
    intro s
    refine Confined.bind (confined_modify (fun _ => rfl)) ?_
    intro _
    refine confined_ite (fun _ => confined_pure _) ?_
    intro _
    rw [firstLen_vqueueMapIovs]
    refine (confined_rxMapped _).bind ?_
    intro ret
    refine confined_get_bind ?_
    intro t
    exact Confined.bind (confined_modify (fun _ => rfl)) (fun _ => confined_pure _)
  exact hconf s

end TX2SecureUart.Tipc
