/-
# `Tipc.Device` — the TIPC device

`tipc_dev.c`: a device that carries the channels of the IPC layer to the non-secure
world over two virtqueues.  The RX thread handles the messages that come in, the TX
thread those that wait in the channels.

`World` is what the device meets: the values that it finds in the shared buffer of a
message, each time it looks, and the outcome of every call of `tipc_send_data`.  The
functions of the IPC layer run on its own state.

`log` is no part of the program.  It records the accesses to the shared buffer, what
was handed on, and the messages obtained from the channels.
-/
import TX2SecureUart.Ipc.Msg
import TX2SecureUart.Lib.LeBytes
import TX2SecureUart.Tipc.Iovs

namespace TX2SecureUart.Tipc

open Prog Ipc

/-! ## Constants -/

/-- `TIPC_CTRL_ADDR` -/
def tipcCtrlAddr : UInt32 := 53

/-- `TIPC_ADDR_MAX_NUM` -/
def tipcAddrMaxNum : Nat := 256

/-- `TIPC_ADDR_BASE` -/
def tipcAddrBase : UInt32 := 1000

/-- `TIPC_CTRL_MSGTYPE_CONN_REQ` -/
def tipcCtrlMsgtypeConnReq : Nat := 3

/-- `TIPC_CTRL_MSGTYPE_DISC_REQ` -/
def tipcCtrlMsgtypeDiscReq : Nat := 5

/-- `sizeof(struct tipc_hdr)` -/
def sizeofTipcHdr : Nat := 16

/-- `sizeof(struct tipc_ctrl_msg_hdr)` -/
def sizeofTipcCtrlMsgHdr : Nat := 8

/-- `sizeof(struct tipc_conn_req_body)`: a name of `TIPC_MAX_SRV_NAME_LEN` bytes. -/
def sizeofTipcConnReqBody : Nat := 256

/-- `sizeof(struct tipc_disc_req_body)` -/
def sizeofTipcDiscReqBody : Nat := 4

/-- The size of a connection response. -/
def sizeofConnRsp : Nat := 28

/-- Non-secure, no-execute, cached -/
def mapFlagsTx : UInt32 := 0x30

/-- Non-secure, no-execute, cached, read-only -/
def mapFlagsRx : UInt32 := 0x38

/-! ## State -/

/-- `struct tipc_ept` -/
structure TipcEpt where
  remote : UInt32
  chan : Option ChanId

/-- `struct tipc_dev`, without its threads and virtqueues. -/
structure TipcDev where
  guest : UInt32
  uuid : Option Uuid
  handleList : List ChanId
  epts : Nat → TipcEpt
  inuse : Nat → Bool

inductive TipcEvent where
  /-- Bytes of the shared buffer were read. -/
  | fetch (off len : Nat)
  /-- A request was handled whose body has these bytes. -/
  | connReq (remote : UInt32) (off len : Nat)
  | discReq (remote : UInt32) (off len : Nat)
  /-- `ipc_send_msg` was given these bytes. -/
  | sendMsg (c : ChanId) (off len : Nat)
  /-- A header was written to a buffer of the TX queue. -/
  | transmit (src dst : UInt32) (len : Nat)
  /-- A connection response is sent. -/
  | connRsp (src dst : UInt32) (status : Int)
  /-- A message was obtained from its channel, or retired. -/
  | got (c : ChanId) (id : UInt32)
  | retired (c : ChanId) (id : UInt32)
deriving DecidableEq

structure TipcState where
  dev : TipcDev
  reg : Registry
  /-- `handle->cookie`, as an index into `epts` -/
  cookie : ChanId → Option Nat
  regions : List Region
  /-- How often the device has looked into the shared buffer, and how often it has
  called `tipc_send_data`. -/
  fetches : Nat
  sent : Nat
  log : List TipcEvent

inductive Stop where
  | ipc (f : Fault)
  | nullDeref
  | panic
  /-- The thread waits for an event that does not come. -/
  | waiting
  /-- The loop has not come to its end. -/
  | running
deriving DecidableEq

abbrev TipcM := EStateM Stop TipcState

/-- `struct vqueue_buf` -/
structure VqueueBuf where
  inIovs : VqueueIovs
  outIovs : VqueueIovs

/-- A call of `vqueue_get_avail_buf`: the buffer, or the error and whether the device
is being stopped by the time that the event comes. -/
inductive Avail where
  | buf (b : VqueueBuf)
  | err (ret : Int) (txStop : Bool)

/-- What a call of `tipc_send_data` meets. -/
structure SendWorld where
  avail : List Avail
  map : MapWorld
  /-- `vqueue_add_buf` -/
  addBuf : Int

structure World where
  env : Env
  /-- The bytes that the `n`-th look into the shared buffer finds. -/
  ns : Nat → Nat → UInt8
  map : MapWorld
  send : Nat → SendWorld
  /-- The messages that the peer of the channel sends before the `n`-th time that the TX
  thread asks for one. -/
  arrive : Nat → List MsgDesc

/-- A call into the IPC layer. -/
def onReg {α : Type} (m : IpcM α) : TipcM α :=
  embed TipcState.reg (fun reg s => { s with reg := reg }) .ipc m

def record (e : TipcEvent) : TipcM Unit :=
  modify fun s => { s with log := s.log ++ [e] }

def setRegions (regions : List Region) : TipcM Unit :=
  modify fun s => { s with regions := regions }

/-! ## Handles -/

/-- `handle_close` -/
def handleClose (c : ChanId) : TipcM Unit := do
  onReg (handleShutdown (.chan c))
  onReg (handleDecref (.chan c))

/-- `handle_set_cookie` -/
def handleSetCookie (c : ChanId) (cookie : Option Nat) : TipcM Unit := do
  let _ ← onReg (getChan c)
  modify fun s => { s with cookie := Function.update s.cookie c cookie }

/-- `handle_get_cookie` -/
def handleGetCookie (c : ChanId) : TipcM (Option Nat) := do
  let _ ← onReg (getChan c)
  let s ← get
  pure (s.cookie c)

def setHandleList (l : List ChanId) : TipcM Unit :=
  modify fun s => { s with dev := { s.dev with handleList := l } }

/-- `handle_list_add`, without the waiter it may wake up -/
def handleListAdd (c : ChanId) : TipcM Unit := do
  onReg (handleIncref (.chan c))
  let s ← get
  if c ∈ s.dev.handleList then throw (.ipc .doubleLink)
  else setHandleList (s.dev.handleList ++ [c])

/-- `handle_list_del` -/
def handleListDel (c : ChanId) : TipcM Unit := do
  let s ← get
  if c ∉ s.dev.handleList then throw .nullDeref
  else do
    setHandleList (s.dev.handleList.erase c)
    onReg (handleDecref (.chan c))

/-! ## Addresses -/

/-- `addr_to_slot` -/
def addrToSlot (addr : UInt32) : UInt32 := addr - tipcAddrBase

/-- `slot_to_addr` -/
def slotToAddr (slot : Nat) : UInt32 := UInt32.ofNat slot + tipcAddrBase

/-- `bitmap_ffz` -/
def bitmapFfz (inuse : Nat → Bool) : Option Nat :=
  (List.range tipcAddrMaxNum).find? fun slot => !inuse slot

/-- `alloc_local_addr` -/
def allocLocalAddr (remote : UInt32) (c : ChanId) : TipcM UInt32 := do
  let s ← get
  match bitmapFfz s.dev.inuse with
  | none => pure 0
  | some slot => do
      set { s with dev := { s.dev with
        inuse := Function.update s.dev.inuse slot true
        epts := Function.update s.dev.epts slot ⟨remote, some c⟩ } }
      pure (slotToAddr slot)

/-- `lookup_ept` -/
def TipcDev.lookupEpt (dev : TipcDev) (addr : UInt32) : Option Nat :=
  let slot := (addrToSlot addr).toNat
  if slot < tipcAddrMaxNum ∧ dev.inuse slot = true then some slot else none

/-- `free_local_addr` -/
def freeLocalAddr (addr : UInt32) : TipcM Unit :=
  modify fun s =>
    let slot := (addrToSlot addr).toNat
    if slot < tipcAddrMaxNum then
      { s with dev := { s.dev with
        inuse := Function.update s.dev.inuse slot false
        epts := Function.update s.dev.epts slot ⟨0, none⟩ } }
    else s

/-! ## Sending -/

variable (w : World)

/-- The loop that gets a buffer of the TX queue. -/
def getTxBuf (wait : Bool) : List Avail → TipcM (Except Int VqueueBuf)
  | [] => throw .waiting
  | .buf b :: _ => pure (.ok b)
  | .err ret txStop :: rest =>
      if ret ≠ errNotEnoughBuffer ∨ wait = false then pure (.error ret)
      else if txStop = true then pure (.error errChannelClosed)
      else getTxBuf wait rest

/-- `iovs[0].len` -/
def firstLen (iovs : List Iov) : Nat :=
  (iovs.headD ⟨0, 0, 0⟩).len.toNat

/-- The part of `tipc_send_data` with a buffer that is mapped. -/
def sendMapped (src dst : UInt32) (dataLen : UInt16) (cb : Nat → TipcM Int) (len : Nat) :
    TipcM Int := do
  record (.transmit src dst dataLen.toNat)
  let ret ← cb (if len < sizeofTipcHdr + dataLen.toNat then len - sizeofTipcHdr else dataLen.toNat)
  pure (if ret ≥ 0 then ret + sizeofTipcHdr else ret)

/-- The part of `tipc_send_data` with a buffer whose first iovec holds a header. -/
def sendInto (sw : SendWorld) (src dst : UInt32) (dataLen : UInt16) (cb : Nat → TipcM Int)
    (b : VqueueBuf) : TipcM Int := do
  let s ← get
  let m := vqueueMapIovs sw.map mapFlagsTx b.outIovs s.regions
  setRegions m.regions
  if m.ret ≠ noError then pure m.ret
  else do
    let ret ← sendMapped src dst dataLen cb (firstLen m.iovs)
    let t ← get
    setRegions (vqueueUnmapIovs (m.iovs.take b.outIovs.used) t.regions).2
    pure ret

/-- The part of `tipc_send_data` with a buffer.  The buffer is returned in any case. -/
def sendBuf (sw : SendWorld) (src dst : UInt32) (dataLen : UInt16) (cb : Nat → TipcM Int)
    (b : VqueueBuf) : TipcM Int :=
  if b.outIovs.used = 0 then pure sw.addBuf
  else if firstLen b.outIovs.iovs < sizeofTipcHdr then pure sw.addBuf
  else do
    let _ ← sendInto sw src dst dataLen cb b
    pure sw.addBuf

/-- `tipc_send_data` -/
def tipcSendData (src dst : UInt32) (cb : Nat → TipcM Int) (dataLen : UInt16) (wait : Bool) :
    TipcM Int := do
  let s ← get
  set { s with sent := s.sent + 1 }
  match ← getTxBuf wait (w.send s.sent).avail with
  | .error ret => pure ret
  | .ok b => sendBuf (w.send s.sent) src dst dataLen cb b

/-- `tipc_send_buf` -/
def tipcSendBuf (src dst : UInt32) (dataLen : UInt16) (wait : Bool) : TipcM Int :=
  tipcSendData w src dst (fun sz => pure sz) dataLen wait

/-- `send_conn_rsp` -/
def sendConnRsp (src dst : UInt32) (status : Int) : TipcM Int := do
  record (.connRsp src dst status)
  tipcSendBuf w tipcCtrlAddr tipcCtrlAddr (UInt16.ofNat sizeofConnRsp) true

end TX2SecureUart.Tipc
