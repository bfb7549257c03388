/-
# `Ql.Device` — the quick-launch TIPC device

`tipc_dev_ql.c` with the handle lists of `handle.c`: one buffer shared with the
non-secure world, a table of 32 channels, and five commands.  The channels are
those of the IPC layer.

A command is a standard call, so one runs at a time; the channels change under
it.  `polls` is what they report, one function for every time the device looks:
once, and once more after each wakeup, until a wait times out.

`log` is no part of the program: it records the accesses to the shared buffer.
-/
import TX2SecureUart.Ipc.Msg
import TX2SecureUart.Lib.LeBytes

namespace TX2SecureUart.Ql

open Prog Ipc

/-! ## Constants -/

/-- `PAGE_SIZE` -/
def pageSize : Nat := 4096

/-- `QL_TIPC_DEV_MAX_NUM` -/
def qlTipcDevMaxNum : Nat := 2

/-- `QL_TIPC_ADDR_MAX_NUM` -/
def qlTipcAddrMaxNum : Nat := 32

/-- `QL_TIPC_ADDR_BASE` -/
def qlTipcAddrBase : UInt32 := 32

/-- `QL_TIPC_DEV_RESP` -/
def qlTipcDevResp : UInt16 := 0x8000

/-- `QL_TIPC_DEV_CONNECT` -/
def qlTipcDevConnect : UInt16 := 0x1

/-- `QL_TIPC_DEV_GET_EVENT` -/
def qlTipcDevGetEvent : UInt16 := 0x2

/-- `QL_TIPC_DEV_SEND` -/
def qlTipcDevSend : UInt16 := 0x3

/-- `QL_TIPC_DEV_RECV` -/
def qlTipcDevRecv : UInt16 := 0x4

/-- `QL_TIPC_DEV_DISCONNECT` -/
def qlTipcDevDisconnect : UInt16 := 0x5

/-- `SM_ERR_INVALID_PARAMETERS` -/
def smErrInvalidParameters : Int := -2

/-- `SM_ERR_INTERNAL_FAILURE` -/
def smErrInternalFailure : Int := -7

/-- `SM_ERR_NOT_ALLOWED` -/
def smErrNotAllowed : Int := -9

/-- `IPC_HANDLE_POLL_READY` -/
def ipcHandlePollReady : UInt32 := 0x1

/-- `IPC_HANDLE_POLL_SEND_UNBLOCKED` -/
def ipcHandlePollSendUnblocked : UInt32 := 0x10

/-- `sizeof(struct tipc_cmd_hdr)` -/
def sizeofTipcCmdHdr : Nat := 16

/-- `sizeof(struct tipc_event)` -/
def sizeofTipcEvent : Nat := 16

/-- `sizeof(struct tipc_wait_req)` -/
def sizeofTipcWaitReq : Nat := 8

/-- `sizeof(struct tipc_connect_req)` -/
def sizeofTipcConnectReq : Nat := 16

/-- `sizeof(req)` of `dev_connect`: a header, `TIPC_MAX_SRV_NAME_LEN + 1` bytes
and padding. -/
def sizeofReq : Nat := 280

/-! ## State -/

/-- `struct tipc_ept` -/
structure TipcEpt where
  chan : Option ChanId
  cookie : UInt64

/-- `struct ql_tipc_dev`.  `dev_create` refuses a buffer that is empty or not
made of pages. -/
structure QlTipcDev where
  handleList : List ChanId
  nsSz : UInt32
  nsPa : UInt64
  guest : UInt32
  uuid : Option Uuid
  inuse : Nat → Bool
  epts : Nat → TipcEpt
  sized : nsSz ≠ 0 ∧ nsSz &&& 4095 = 0

/-- `struct tipc_cmd_hdr` -/
structure TipcCmdHdr where
  opcode : UInt16
  flags : UInt16
  status : UInt32
  handle : UInt32
  payloadLen : UInt32

/-- Bytes of the shared buffer that were read or written. -/
structure Access where
  write : Bool
  off : Nat
  len : Nat
deriving DecidableEq

structure QlState where
  dev : QlTipcDev
  reg : Registry
  /-- `handle->cookie`, as an index into `epts` -/
  cookie : ChanId → Option Nat
  /-- somebody waits: `handle->wait_event` is not `NULL` -/
  waitEvent : ChanId → Bool
  /-- memory from `ns_va` on -/
  mem : Nat → UInt8
  log : List Access

inductive Stop where
  | ipc (f : Fault)
  | nullDeref
  | panic
deriving DecidableEq

abbrev QlM := EStateM Stop QlState

/-- A call into the IPC layer. -/
def onReg {α : Type} (m : IpcM α) : QlM α :=
  embed QlState.reg (fun reg s => { s with reg := reg }) .ipc m

/-! ## The shared buffer -/

/-- `memcpy(.., ns_va + off, len)` -/
def load (off len : Nat) : QlM (List UInt8) := do
  modify fun s => { s with log := s.log ++ [⟨false, off, len⟩] }
  return bytesAt (← get).mem off len

/-- `memcpy(ns_va + off, .., |bytes|)` -/
def store (off : Nat) (bytes : List UInt8) : QlM Unit :=
  modify fun s => { s with
    log := s.log ++ [⟨true, off, bytes.length⟩], mem := Ipc.write s.mem off bytes }

/-- `set_status` -/
def setStatus (cmd : UInt16) (err : Int) (len : Nat) : QlM Int := do
  store 4 (leBytes 4 (if err < 0 then 1 else 0))
  store 12 (leBytes 4 len)
  store 0 (leBytes 2 (cmd ||| qlTipcDevResp).toNat)
  return err

/-! ## Handles -/

/-- `chan_finalize_event` -/
def chanFinalizeEvent (c : ChanId) (event : UInt32) : IpcM Unit := do
  if event &&& ipcHandlePollSendUnblocked ≠ 0 then
    modifyChan c fun C => { C with auxState := { C.auxState with sendUnblocked := false } }
  if event &&& ipcHandlePollReady ≠ 0 then
    modifyChan c fun C => { C with auxState := { C.auxState with connected := false } }

/-- `handle_close` -/
def handleClose (c : ChanId) : QlM Unit := do
  onReg (handleShutdown (.chan c))
  onReg (handleDecref (.chan c))

/-- `handle_set_cookie` -/
def handleSetCookie (c : ChanId) (cookie : Option Nat) : QlM Unit := do
  let _ ← onReg (getChan c)
  modify fun s => { s with cookie := Function.update s.cookie c cookie }

/-- `handle_get_cookie` -/
def handleGetCookie (c : ChanId) : QlM (Option Nat) := do
  let _ ← onReg (getChan c)
  return (← get).cookie c

/-- `_prepare_wait_handle` -/
def prepareWaitHandle (c : ChanId) : QlM Int := do
  let _ ← onReg (getChan c)
  if (← get).waitEvent c then return errAlreadyStarted
  modify fun s => { s with waitEvent := Function.update s.waitEvent c true }
  return 0

/-- `_finish_wait_handle` -/
def finishWaitHandle (c : ChanId) : QlM Unit := do
  let _ ← onReg (getChan c)
  modify fun s => { s with waitEvent := Function.update s.waitEvent c false }

/-- The loop of `handle_wait`; with no reading left the wait has timed out. -/
def waitLoop (c : ChanId) : List (ChanId → UInt32) → QlM (Int × UInt32)
  | [] => return (errTimedOut, 0)
  | poll :: polls => do
      let _ ← onReg (getChan c)
      if poll c ≠ 0 then
        onReg (chanFinalizeEvent c (poll c))
        return (noError, poll c)
      waitLoop c polls

/-- `handle_wait` -/
def handleWait (c : ChanId) (polls : List (ChanId → UInt32)) : QlM (Int × UInt32) := do
  let ret ← prepareWaitHandle c
  if ret ≠ 0 then return (ret, 0)
  let r ← waitLoop c polls
  finishWaitHandle c
  return r

def setHandleList (l : List ChanId) : QlM Unit :=
  modify fun s => { s with dev := { s.dev with handleList := l } }

/-- `handle_list_add` -/
def handleListAdd (c : ChanId) : QlM Unit := do
  onReg (handleIncref (.chan c))
  if c ∈ (← get).dev.handleList then throw (.ipc .doubleLink)
  setHandleList ((← get).dev.handleList ++ [c])

/-- `handle_list_del` -/
def handleListDel (c : ChanId) : QlM Unit := do
  if c ∉ (← get).dev.handleList then throw .nullDeref
  setHandleList ((← get).dev.handleList.erase c)
  onReg (handleDecref (.chan c))

/-- `_hlist_finish_wait_locked`: up to and with `last`. -/
def hlistFinishWait (last : Option ChanId) : List ChanId → QlM Unit
  | [] => pure ()
  | c :: rest => do
      finishWaitHandle c
      if some c = last then pure () else hlistFinishWait last rest

/-- The loop of `_hlist_do_poll_locked`: `ret`, the handle that is ready with
its event, and the last one that was prepared. -/
def hlistPoll (poll : ChanId → UInt32) (prepare : Bool) (lastPrep : Option ChanId) :
    List ChanId → QlM (Int × Option (ChanId × UInt32) × Option ChanId)
  | [] => return (0, none, lastPrep)
  | c :: rest => do
      let ret ← if prepare then prepareWaitHandle c else pure 0
      if ret ≠ 0 then return (ret, none, lastPrep)
      let lastPrep := if prepare then some c else lastPrep
      let _ ← onReg (getChan c)
      if poll c ≠ 0 then return (1, some (c, poll c), lastPrep)
      hlistPoll poll prepare lastPrep rest

/-- `_hlist_do_poll_locked` -/
def hlistDoPollLocked (poll : ChanId → UInt32) (prepare : Bool) :
    QlM (Int × Option (ChanId × UInt32)) := do
  let l := (← get).dev.handleList
  if l = [] then return (errNotFound, none)
  let (ret, found, lastPrep) ← hlistPoll poll prepare none l
  if ret ≠ 0 ∧ prepare ∧ lastPrep.isSome then hlistFinishWait lastPrep l
  return (ret, found)

/-- The loop of `handle_list_wait`. -/
def listWaitLoop : List (ChanId → UInt32) → QlM (Int × Option (ChanId × UInt32))
  | [] => return (errTimedOut, none)
  | poll :: polls => do
      let r ← hlistDoPollLocked poll false
      if r.1 = 0 then listWaitLoop polls else return r

/-- What is after `c` comes first. -/
def rotate (c : ChanId) (l : List ChanId) : List ChanId :=
  let before := l.takeWhile (· ≠ c)
  (l.drop (before.length + 1)) ++ before ++ [c]

/-- `handle_list_wait`, when no handle was ready at first. -/
def listWaitMore (polls : List (ChanId → UInt32)) : QlM (Int × Option (ChanId × UInt32)) := do
  let r ← listWaitLoop polls
  hlistFinishWait none (← get).dev.handleList
  return r

/-- `handle_list_wait`, when a handle is ready. -/
def listReady : Option (ChanId × UInt32) → QlM (Int × Option (ChanId × UInt32))
  | none => throw .nullDeref
  | some (c, event) => do
      onReg (chanFinalizeEvent c event)
      onReg (handleIncref (.chan c))
      setHandleList (rotate c (← get).dev.handleList)
      return (noError, some (c, event))

/-- `handle_list_wait`: the handle pointer is `NULL` without a handle. -/
def handleListWait (poll : ChanId → UInt32) (polls : List (ChanId → UInt32)) :
    QlM (Int × Option (ChanId × UInt32)) := do
  let r ← hlistDoPollLocked poll true
  if r.1 < 0 then return r
  let r ← if r.1 = 0 then listWaitMore polls else pure r
  if r.1 = 1 then listReady r.2 else return r

/-! ## Addresses -/

/-- `addr_to_slot` -/
def addrToSlot (addr : UInt32) : UInt32 := addr - qlTipcAddrBase

/-- `slot_to_addr` -/
def slotToAddr (slot : Nat) : UInt32 := UInt32.ofNat slot + qlTipcAddrBase

/-- `bitmap_ffz` -/
def bitmapFfz (inuse : Nat → Bool) : Option Nat :=
  (List.range qlTipcAddrMaxNum).find? fun slot => !inuse slot

/-- `alloc_local_addr` -/
def allocLocalAddr (c : ChanId) (cookie : UInt64) : QlM UInt32 := do
  match bitmapFfz (← get).dev.inuse with
  | none => return 0
  | some slot =>
      modify fun s => { s with dev := { s.dev with
        inuse := Function.update s.dev.inuse slot true
        epts := Function.update s.dev.epts slot ⟨some c, cookie⟩ } }
      return slotToAddr slot

/-- `ept_lookup` -/
def QlTipcDev.eptLookup (dev : QlTipcDev) (addr : UInt32) : Option Nat :=
  let slot := (addrToSlot addr).toNat
  if slot < qlTipcAddrMaxNum ∧ dev.inuse slot = true then some slot else none

/-- The channel behind an address: `ept && ept->chan`. -/
def QlTipcDev.target (dev : QlTipcDev) (addr : UInt32) : Option (Nat × ChanId) :=
  (dev.eptLookup addr).bind fun slot => (dev.epts slot).chan.map (slot, ·)

/-- `free_local_addr` -/
def freeLocalAddr (addr : UInt32) : QlM Unit :=
  modify fun s =>
    let slot := (addrToSlot addr).toNat
    if slot < qlTipcAddrMaxNum then
      { s with dev := { s.dev with
        inuse := Function.update s.dev.inuse slot false
        epts := Function.update s.dev.epts slot ⟨none, 0⟩ } }
    else s

/-! ## Commands -/

/-- `dev_create`, without the list it enters the device into. -/
def devCreate (devs : List QlTipcDev) (bufPa : UInt64) (bufSz : UInt32) (allocated mapped : Bool) :
    Except Int QlTipcDev :=
  if devs.any fun dev => dev.nsPa = bufPa then .error smErrInvalidParameters
  else if bufPa &&& 4095 ≠ 0 then .error smErrInvalidParameters
  else if hzero : bufSz = 0 then .error smErrInvalidParameters
  else if hpages : bufSz &&& 4095 ≠ 0 then .error smErrInvalidParameters
  else if qlTipcDevMaxNum ≤ devs.length then .error smErrNotAllowed
  else if !allocated then .error smErrInternalFailure
  else if !mapped then .error smErrInternalFailure
  else .ok {
    handleList := [], nsSz := bufSz, nsPa := bufPa, guest := 0, uuid := some .zeroUuid
    inuse := fun _ => false, epts := fun _ => ⟨none, 0⟩
    sized := ⟨hzero, not_not.mp hpages⟩ }

/-- `dev_connect` -/
def devConnect (env : Env) (payloadLen : UInt32) : QlM Int := do
  let len := payloadLen.toNat
  if len ≤ sizeofTipcConnectReq then setStatus qlTipcDevConnect errInvalidArgs 0
  else if sizeofReq ≤ len then setStatus qlTipcDevConnect errInvalidArgs 0
  else
    let req ← load sizeofTipcCmdHdr len
    let name := (req.drop sizeofTipcConnectReq).takeWhile (· ≠ 0)
    let dev := (← get).dev
    let (rc, chan) ← onReg (ipcPortConnectAsync env dev.guest dev.uuid name
      (len - sizeofTipcConnectReq) 0)
    if rc ≠ noError then setStatus qlTipcDevConnect rc 0
    else
      match chan with
      | none => throw .nullDeref
      | some c =>
          let addr ← allocLocalAddr c (UInt64.ofNat (leNat (req.take 8)))
          if addr = 0 then
            handleClose c
            setStatus qlTipcDevConnect errNoResources 0
          else
            handleSetCookie c ((← get).dev.eptLookup addr)
            handleListAdd c
            store 8 (leBytes 4 addr.toNat)
            setStatus qlTipcDevConnect 0 0

/-- `dev_disconnect` -/
def devDisconnect (addr : UInt32) : QlM Int := do
  match (← get).dev.target addr with
  | none => return smErrInvalidParameters
  | some (_, c) =>
      handleListDel c
      handleSetCookie c none
      handleClose c
      freeLocalAddr addr
      setStatus qlTipcDevDisconnect 0 0

/-- The room of the item that a message sent on the channel is written to, if
there is one. -/
def sendRoom (reg : Registry) (c : ChanId) : Option Nat :=
  (reg.chans c).bind fun C =>
    if C.state = .connected then
      C.peer.bind fun peer => (reg.chans peer).bind fun Y => Y.msgQueue.bind fun mq =>
        if mq.freeList = [] then none else some mq.itemSz
    else none

/-- How many bytes `kern_iovec_to_membuf` takes from one entry of `len` bytes. -/
def sendReads (reg : Registry) (c : ChanId) (len : Nat) : Nat :=
  (sendRoom reg c).elim 0 fun room => min room len

/-- `dev_send` -/
def devSend (payloadLen addr : UInt32) : QlM Int := do
  match (← get).dev.target addr with
  | none => setStatus qlTipcDevSend errInvalidArgs 0
  | some (_, c) =>
      let s ← get
      let _ ← load sizeofTipcCmdHdr (sendReads s.reg c payloadLen.toNat)
      let rc ← onReg (ipcSendMsg (some (.chan c)) (some (.kern false
        [.mem (bytesAt s.mem sizeofTipcCmdHdr payloadLen.toNat)] 0)))
      setStatus qlTipcDevSend rc 0

/-- `dev_recv` -/
def devRecv (addr : UInt32) : QlM Int := do
  match (← get).dev.target addr with
  | none => setStatus qlTipcDevRecv errInvalidArgs 0
  | some (_, c) =>
      let (rc, info) ← onReg (ipcGetMsg (some (.chan c)))
      if rc < 0 then setStatus qlTipcDevRecv rc 0
      else
        match info with
        | none => throw .nullDeref
        | some mi =>
            let s ← get
            let (rc, stored) ← onReg (ipcReadMsg (some (.chan c)) mi.id 0 (some (.kern false
              [.mem (bytesAt s.mem sizeofTipcCmdHdr (s.dev.nsSz.toNat - sizeofTipcCmdHdr))] 0)))
            store sizeofTipcCmdHdr stored
            let _ ← onReg (ipcPutMsg (some (.chan c)) mi.id)
            if rc < 0 then setStatus qlTipcDevRecv rc 0
            else if rc < mi.len.toInt32.toInt then setStatus qlTipcDevRecv errBadLen 0
            else setStatus qlTipcDevRecv rc mi.len.toNat

/-- `evt->handle = ..; evt->event = ..; evt->cookie = ..` -/
def storeEvent (handle event : UInt32) (cookie : UInt64) : QlM Unit := do
  store (sizeofTipcCmdHdr + 4) (leBytes 4 handle.toNat)
  store sizeofTipcCmdHdr (leBytes 4 event.toNat)
  store (sizeofTipcCmdHdr + 8) (leBytes 8 cookie.toNat)

/-- `dev_get_event`, after the wait on one handle. -/
def handleEvent (addr : UInt32) (slot : Nat) (rc : Int) (event : UInt32) : QlM Unit := do
  if rc = errTimedOut then storeEvent 0 0 0
  else if rc < 0 then throw .panic
  else storeEvent addr event ((← get).dev.epts slot).cookie

/-- `dev_get_event`, with the handle that `handle_list_wait` filled in. -/
def chanEvent : Option (ChanId × UInt32) → QlM Unit
  | none => throw .nullDeref
  | some (c, event) => do
      match ← handleGetCookie c with
      | none => throw .nullDeref
      | some slot =>
          storeEvent (slotToAddr slot) event ((← get).dev.epts slot).cookie
          onReg (handleDecref (.chan c))

/-- `dev_get_event`, after the wait on the list.  A time-out does not end it. -/
def listEvent (rc : Int) (found : Option (ChanId × UInt32)) : QlM Unit := do
  if rc = errTimedOut then storeEvent 0 0 0
  if rc < 0 ∧ rc ≠ errTimedOut then throw .panic else chanEvent found

/-- `dev_get_event`; `poll` is the first reading. -/
def devGetEvent (poll : ChanId → UInt32) (polls : List (ChanId → UInt32))
    (payloadLen addr : UInt32) : QlM Int := do
  if payloadLen.toNat < sizeofTipcWaitReq then setStatus qlTipcDevGetEvent errInvalidArgs 0
  else if addr ≠ 0 then
    match (← get).dev.target addr with
    | none => setStatus qlTipcDevGetEvent errInvalidArgs 0
    | some (slot, c) =>
        let r ← handleWait c (poll :: polls)
        handleEvent addr slot r.1 r.2
        setStatus qlTipcDevGetEvent 0 sizeofTipcEvent
  else
    let r ← handleListWait poll polls
    if r.1 = errNotFound then setStatus qlTipcDevGetEvent r.1 0
    else
      listEvent r.1 r.2
      setStatus qlTipcDevGetEvent 0 sizeofTipcEvent

/-- What else a command depends on: the allocator and the access hook, and what
the channels report. -/
structure CmdEnv where
  ipc : Env
  poll : ChanId → UInt32
  polls : List (ChanId → UInt32)

/-- `dev_handle_cmd` -/
def devHandleCmd (env : CmdEnv) (cmd : TipcCmdHdr) : QlM Int :=
  if cmd.opcode = qlTipcDevSend then devSend cmd.payloadLen cmd.handle
  else if cmd.opcode = qlTipcDevRecv then devRecv cmd.handle
  else if cmd.opcode = qlTipcDevGetEvent then
    devGetEvent env.poll env.polls cmd.payloadLen cmd.handle
  else if cmd.opcode = qlTipcDevConnect then devConnect env.ipc cmd.payloadLen
  else if cmd.opcode = qlTipcDevDisconnect then devDisconnect cmd.handle
  else setStatus cmd.opcode errNotSupported 0

/-- The header in the first bytes of the buffer. -/
def cmdHdrOf (bytes : List UInt8) : TipcCmdHdr where
  opcode := UInt16.ofNat (leNat (bytes.take 2))
  flags := UInt16.ofNat (leNat ((bytes.drop 2).take 2))
  status := UInt32.ofNat (leNat ((bytes.drop 4).take 4))
  handle := UInt32.ofNat (leNat ((bytes.drop 8).take 4))
  payloadLen := UInt32.ofNat (leNat ((bytes.drop 12).take 4))

/-- `ql_tipc_handle_cmd`, for the device that `dev_lookup` finds. -/
def qlTipcHandleCmd (env : CmdEnv) (cmdSz : UInt32) : QlM Int := do
  if cmdSz.toNat < sizeofTipcCmdHdr then return smErrInvalidParameters
  let cmdHdr := cmdHdrOf (← load 0 sizeofTipcCmdHdr)
  if cmdHdr.payloadLen.toNat ≠ cmdSz.toNat - sizeofTipcCmdHdr then return smErrInvalidParameters
  devHandleCmd env cmdHdr

/-! ## Rules for the primitives -/

section

variable {α : Type} {E : Stop → QlState → Prop} {s : QlState}

@[simp] theorem wp_onReg {m : IpcM α} {Q : α → QlState → Prop} :
    wp (onReg m) Q E s ↔
      wp m (fun a reg => Q a { s with reg := reg }) (fun e reg => E (.ipc e) { s with reg := reg })
        s.reg :=
  wp_embed

@[simp] theorem wp_load {off len : Nat} {Q : List UInt8 → QlState → Prop} :
    wp (load off len) Q E s ↔
      Q (bytesAt s.mem off len) { s with log := s.log ++ [⟨false, off, len⟩] } := Iff.rfl

@[simp] theorem wp_store {off : Nat} {bytes : List UInt8} {Q : Unit → QlState → Prop} :
    wp (store off bytes) Q E s ↔
      Q () { s with
        log := s.log ++ [⟨true, off, bytes.length⟩], mem := Ipc.write s.mem off bytes } := Iff.rfl

@[simp] theorem wp_setHandleList {l : List ChanId} {Q : Unit → QlState → Prop} :
    wp (setHandleList l) Q E s ↔ Q () { s with dev := { s.dev with handleList := l } } := Iff.rfl

end

end TX2SecureUart.Ql
