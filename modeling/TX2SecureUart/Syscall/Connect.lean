/-
# `Syscall.Connect` — `sys_connect` and `sys_accept`

The two system calls of `ipc.c` that give an application a new handle, with
`handle_wait`, `handle_close` and the functions of `uctx.c` they use.  The handle
table belongs to the application, whose thread is in the call; the registry is
shared, and between two steps of a call others use it.

`others` and `chan` are no part of the program: they record the references that
everybody else has, and the channel that the call made or took.
-/
import TX2SecureUart.Ipc.Meanwhile
import TX2SecureUart.Ipc.PortCreate
import TX2SecureUart.Ql.Runs

namespace TX2SecureUart.Syscall

open Prog Ipc

/-! ## Constants -/

/-- `IPC_CONNECT_ASYNC` -/
def ipcConnectAsync : UInt32 := 0x2

/-- `IPC_CONNECT_MASK` -/
def ipcConnectMask : UInt32 := ipcConnectWaitForPort ||| ipcConnectAsync

/-- `IPC_HANDLE_POLL_ERROR` -/
def ipcHandlePollError : UInt32 := 0x2

/-- `IPC_HANDLE_POLL_HUP` -/
def ipcHandlePollHup : UInt32 := 0x4

/-- `IPC_HANDLE_POLL_MSG` -/
def ipcHandlePollMsg : UInt32 := 0x8

/-! ## State -/

structure CallState extends Task where
  others : HandlePtr → Nat
  chan : Option ChanId

inductive Stop where
  | ipc (f : Fault)
  /-- nothing wakes the thread any more -/
  | asleep
deriving DecidableEq

abbrev CallM := EStateM Stop CallState

def onTask {α : Type} (m : SysM α) : CallM α :=
  embed CallState.toTask (fun t s => { s with toTask := t }) .ipc m

def onReg {α : Type} (m : IpcM α) : CallM α := onTask (inRegistry m)

/-- Others go on. -/
def meanwhile (w : Meanwhile) : CallM Unit :=
  modify fun s =>
    let L := w.run ⟨s.reg, s.others⟩
    { s with reg := L.reg, others := L.refs }

/-- The channel of the call is written down. -/
def note (c : Option ChanId) : CallM Unit := modify fun s => { s with chan := c }

/-! ## Handles -/

/-- The events of `chan_poll`. -/
def pollEvents (C : Chan) : UInt32 :=
  if C.state = .invalid then ipcHandlePollError
  else
    (if C.state = .disconnecting then ipcHandlePollHup else 0) |||
    (if C.auxState.connected then Ql.ipcHandlePollReady else 0) |||
    (if C.msgQueue.any fun mq => !mq.isEmpty then ipcHandlePollMsg else 0) |||
    (if C.auxState.sendUnblocked then Ql.ipcHandlePollSendUnblocked else 0)

/-- `chan_poll` -/
def chanPoll (c : ChanId) : IpcM UInt32 := do
  let C ← getChan c
  return pollEvents C

/-- `handle_close` -/
def handleClose (h : HandlePtr) : CallM Unit := onReg (do handleShutdown h; handleDecref h)

/-- One `__do_wait`: what others do until it returns, and what it returns. -/
structure Sleep where
  meanwhile : Meanwhile
  ret : Int

/-- The end of `handle_wait`, with an event. -/
def gotEvent (c : ChanId) (event : UInt32) : CallM (Int × UInt32) := do
  onReg (Ql.chanFinalizeEvent c event)
  return (noError, event)

/-- The loop of `handle_wait`.  After the last of the sleeps the thread looks for
an event once more; if there is none, it sleeps for good. -/
def waitLoop (c : ChanId) : List Sleep → CallM (Int × UInt32)
  | [] => do
      let event ← onReg (chanPoll c)
      if event ≠ 0 then gotEvent c event else throw .asleep
  | sleep :: rest => do
      let event ← onReg (chanPoll c)
      if event ≠ 0 then gotEvent c event
      else do
        meanwhile sleep.meanwhile
        if sleep.ret < 0 then return (sleep.ret, 0) else waitLoop c rest

/-- A call of `handle_wait`: whether `_prepare_wait_handle` finds a waiter already,
and the sleeps. -/
structure Waiting where
  started : Bool
  sleeps : List Sleep

/-- `handle_wait`: the result, and the event if it is `NO_ERROR`. -/
def handleWait (c : ChanId) (w : Waiting) : CallM (Int × UInt32) :=
  if w.started then return (errAlreadyStarted, 0) else waitLoop c w.sleeps

/-- `uctx_handle_get`, storing the handle if it returns `NO_ERROR`.  A slot in use
holds a handle: the code asserts it. -/
def uctxHandleGet (id : UInt32) : SysM (Int × Option HandlePtr) := do
  match (← get).ctx.checkHandleId id with
  | .error e => return (e.val, none)
  | .ok id =>
      match (← get).ctx.handles id with
      | none => throw .nullDeref
      | some h =>
          inRegistry (handleIncref h)
          return (noError, some h)

/-! ## `sys_connect` -/

/-- What others do at each point of `sys_connect`, and its waits: `second` is the
one after a timeout of the first. -/
structure ConnectSchedule where
  made : Meanwhile
  first : Waiting
  second : Waiting
  connected : Meanwhile

/-- The first wait, and the second if it timed out. -/
def waitTwice (c : ChanId) (sched : ConnectSchedule) : CallM (Int × UInt32) := do
  let r ← handleWait c sched.first
  if r.1 = errTimedOut then handleWait c sched.second else return r

/-- The part of `sys_connect` that waits for the connection: `NO_ERROR`, or the
error it returns. -/
def awaitConnection (c : ChanId) (sched : ConnectSchedule) : CallM Int := do
  let (ret, event) ← waitTwice c sched
  if ret < 0 then
    handleClose (.chan c)
    return ret
  else if event &&& ipcHandlePollHup ≠ 0 ∧ event &&& ipcHandlePollMsg = 0 then
    handleClose (.chan c)
    return errChannelClosed
  else if event &&& Ql.ipcHandlePollReady = 0 then
    handleClose (.chan c)
    return errNotReady
  else return noError

/-- The end of `sys_connect`. -/
def installChan (c : ChanId) : CallM Int := do
  let (ret, id) ← onTask (uctxHandleInstall (.chan c))
  if ret ≠ noError then
    handleClose (.chan c)
    return ret
  else
    match id with
    | none => throw (.ipc .nullDeref)
    | some id => return id.val

/-- `sys_connect` from where the channel is made. -/
def finishConnect (flags : UInt32) (sched : ConnectSchedule) (c : ChanId) : CallM Int := do
  meanwhile sched.made
  if flags &&& ipcConnectAsync = 0 then
    let ret ← awaitConnection c sched
    if ret ≠ noError then return ret
    else
      meanwhile sched.connected
      installChan c
  else installChan c

/-- `sys_connect`; `guest` is `uctx_get_current_guest()`, `uuid` that of the
application, and `path` what is found at the address. -/
def sysConnect (env : Env) (guest : UInt32) (uuid : Uuid) (path : Option Path) (flags : UInt32)
    (sched : ConnectSchedule) : CallM Int := do
  note none
  if flags &&& ~~~ipcConnectMask ≠ 0 then return errInvalidArgs
  else
    match copyPath path with
    | .error ret => return ret
    | .ok tmpPath =>
        note (some (← get).reg.nextChan)
        let (ret, chan) ← onReg
          (ipcPortConnectAsync env guest (some uuid) tmpPath ipcPortPathMax flags)
        if ret ≠ noError then return ret
        else
          match chan with
          | none => throw (.ipc .nullDeref)
          | some c => finishConnect flags sched c

/-! ## `sys_accept` -/

/-- What others do at each point of `sys_accept`. -/
structure AcceptSchedule where
  found : Meanwhile
  accepted : Meanwhile
  installed : Meanwhile
  removed : Meanwhile

/-- `err_install` and what follows. -/
def errInstall (phandle chandle : HandlePtr) (ret : Int) : CallM Int := do
  handleClose chandle
  onReg (handleDecref phandle)
  return ret

/-- `err_uuid_copy` and what follows. -/
def errUuidCopy (sched : AcceptSchedule) (phandle chandle : HandlePtr) (newId : HandleId)
    (ret : Int) : CallM Int := do
  let (_, removed) ← onTask (uctxHandleRemove newId)
  meanwhile sched.removed
  errInstall phandle (removed.getD chandle) ret

/-- `sys_accept` from where the connection is accepted; `copied` tells whether
`copy_to_user` succeeds. -/
def finishAccept (sched : AcceptSchedule) (copied : Bool) (phandle : HandlePtr) (c : ChanId) :
    CallM Int := do
  meanwhile sched.accepted
  let (ret, id) ← onTask (uctxHandleInstall (.chan c))
  if ret ≠ noError then errInstall phandle (.chan c) ret
  else
    match id with
    | none => throw (.ipc .nullDeref)
    | some newId =>
        meanwhile sched.installed
        if copied then
          onReg (handleDecref phandle)
          return newId.val
        else errUuidCopy sched phandle (.chan c) newId errFault

/-- `sys_accept` -/
def sysAccept (handleId : UInt32) (sched : AcceptSchedule) (copied : Bool) : CallM Int := do
  note none
  let (ret, phandle) ← onTask (uctxHandleGet handleId)
  if ret ≠ noError then return ret
  else
    match phandle with
    | none => throw (.ipc .nullDeref)
    | some phandle =>
        meanwhile sched.found
        note ((← get).reg.nextPending phandle)
        let (ret, chan) ← onReg (ipcPortAccept (some phandle))
        if ret ≠ noError then
          onReg (handleDecref phandle)
          return ret
        else
          match chan with
          | none => throw (.ipc .nullDeref)
          | some (c, _) => finishAccept sched copied phandle c

/-! ## Rules -/

section

variable {α : Type} {E : Stop → CallState → Prop} {s : CallState}

@[simp] theorem wp_onTask {m : SysM α} {Q : α → CallState → Prop} :
    wp (onTask m) Q E s ↔
      wp m (fun a t => Q a { s with toTask := t }) (fun e t => E (.ipc e) { s with toTask := t })
        s.toTask :=
  wp_embed

@[simp] theorem wp_onReg {m : IpcM α} {Q : α → CallState → Prop} :
    wp (onReg m) Q E s ↔
      wp m (fun a reg => Q a { s with reg := reg }) (fun e reg => E (.ipc e) { s with reg := reg })
        s.reg := by
  rw [onReg, wp_onTask, wp_inRegistry]

@[simp] theorem wp_note {c : Option ChanId} {Q : Unit → CallState → Prop} :
    wp (note c) Q E s ↔ Q () { s with chan := c } := Iff.rfl

@[simp] theorem wp_meanwhile {w : Meanwhile} {Q : Unit → CallState → Prop} :
    wp (meanwhile w) Q E s ↔
      Q () { s with
        reg := (w.run ⟨s.reg, s.others⟩).reg, others := (w.run ⟨s.reg, s.others⟩).refs } := Iff.rfl

end

end TX2SecureUart.Syscall
