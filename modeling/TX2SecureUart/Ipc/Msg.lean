/-
# `Ipc.Msg` — the message calls of a channel

`ipc_msg.c`: sending, obtaining, reading and retiring messages through a
channel handle, from the kernel (`ipc_..`) and from an application (`sys_..`,
after the handle was looked up).  Only sending asks whether the channel is
connected.
-/
import TX2SecureUart.Ipc.Port

namespace TX2SecureUart.Ipc

open Prog

/-! ## The calls -/

/-- `check_channel_locked`, and the channel if it returns `NO_ERROR`. -/
def checkChannelLocked : Option HandlePtr → Option ChanId
  | none | some (.port _) => none
  | some (.chan c) => some c

/-- `chan->msg_queue->..` -/
def getQueue (c : ChanId) : IpcM MsgQueue := do
  match (← getChan c).msgQueue with
  | none => throw .nullDeref
  | some mq => pure mq

def setQueue (c : ChanId) (mq : MsgQueue) : IpcM Unit :=
  modifyChan c fun C => { C with msgQueue := some mq }

/-- `msg_write_locked` -/
def msgWriteLocked (c : ChanId) (msg : MsgDesc) : IpcM Int := do
  match (← getChan c).peer with
  | none => throw .nullDeref
  | some peer =>
      let mq ← getQueue peer
      match mq.freeList with
      | [] =>
          modifyChan c fun C => { C with auxState := { C.auxState with sendBlocked := true } }
          return errNotEnoughBuffer
      | item :: _ =>
          let (ret, mq) := mq.fill item msg
          setQueue peer mq
          return ret

/-- What `ipc_send_msg` and `sys_send_msg` do under the lock. -/
def sendMsgLocked (h : Option HandlePtr) (msg : MsgDesc) : IpcM Int := do
  match checkChannelLocked h with
  | none => return errInvalidArgs
  | some c =>
      match (← getChan c).state with
      | .connected =>
          let ret ← msgWriteLocked c msg
          if 0 ≤ ret then
            match (← getChan c).peer with
            | none => throw .nullDeref
            | some peer => handleNotify (.chan peer)
          return ret
      | .disconnecting => return errChannelClosed
      | _ => return errNotReady

/-- `ipc_send_msg`; `none` is a `NULL` descriptor. -/
def ipcSendMsg (h : Option HandlePtr) : Option MsgDesc → IpcM Int
  | none => return errInvalidArgs
  | some msg => sendMsgLocked h msg

/-- `sys_send_msg`; `none` is a descriptor that cannot be copied from user space. -/
def sysSendMsg (h : Option HandlePtr) : Option MsgDesc → IpcM Int
  | none => return errFault
  | some msg => sendMsgLocked h msg

/-- What `sys_get_msg` does under the lock; `copied` says whether the copy of
the message information to user space succeeds. -/
def sysGetMsg (h : Option HandlePtr) (copied : Bool) : IpcM (Int × Option MsgInfo) := do
  match checkChannelLocked h with
  | none => return (errInvalidArgs, none)
  | some c =>
      let mq ← getQueue c
      match mq.peekNextFilled with
      | none => return (errNoMsg, none)
      | some info =>
          if !copied then return (errFault, none)
          match mq.getFilled with
          | none => throw .nullDeref
          | some mq =>
              setQueue c mq
              return (noError, some info)

/-- `ipc_get_msg` -/
def ipcGetMsg (h : Option HandlePtr) : IpcM (Int × Option MsgInfo) := sysGetMsg h true

/-- `ipc_put_msg`, and `sys_put_msg` -/
def ipcPutMsg (h : Option HandlePtr) (msgId : UInt32) : IpcM Int := do
  match checkChannelLocked h with
  | none => return errInvalidArgs
  | some c =>
      let mq ← getQueue c
      match mq.putRead msgId with
      | none => return errInvalidArgs
      | some mq =>
          setQueue c mq
          match (← getChan c).peer with
          | none => return noError
          | some peer =>
              if (← getChan peer).auxState.sendBlocked then
                modifyChan peer fun C => { C with
                  auxState := { C.auxState with sendBlocked := false, sendUnblocked := true } }
                handleNotify (.chan peer)
              return noError

/-- What `ipc_read_msg` and `sys_read_msg` do under the lock. -/
def readMsgLocked (h : Option HandlePtr) (msgId offset : UInt32) (msg : MsgDesc) :
    IpcM (Int × List UInt8) := do
  match checkChannelLocked h with
  | none => return (errInvalidArgs, [])
  | some c =>
      let mq ← getQueue c
      return mq.read msgId offset msg

/-- `ipc_read_msg` -/
def ipcReadMsg (h : Option HandlePtr) (msgId offset : UInt32) :
    Option MsgDesc → IpcM (Int × List UInt8)
  | none => return (errInvalidArgs, [])
  | some msg => readMsgLocked h msgId offset msg

/-- `sys_read_msg` -/
def sysReadMsg (h : Option HandlePtr) (msgId offset : UInt32) :
    Option MsgDesc → IpcM (Int × List UInt8)
  | none => return (errFault, [])
  | some msg => readMsgLocked h msgId offset msg

/-! ## Any of them -/

inductive MsgCall where
  | ipcSend (msg : Option MsgDesc)
  | sysSend (msg : Option MsgDesc)
  | ipcGet
  | sysGet (copied : Bool)
  | ipcRead (msgId offset : UInt32) (msg : Option MsgDesc)
  | sysRead (msgId offset : UInt32) (msg : Option MsgDesc)
  | put (msgId : UInt32)

inductive MsgResult where
  | ret (r : Int)
  | info (r : Int) (info : Option MsgInfo)
  | bytes (r : Int) (stored : List UInt8)
deriving DecidableEq

def MsgCall.run (h : Option HandlePtr) : MsgCall → IpcM MsgResult
  | .ipcSend msg => .ret <$> ipcSendMsg h msg
  | .sysSend msg => .ret <$> sysSendMsg h msg
  | .ipcGet => (fun r => .info r.1 r.2) <$> ipcGetMsg h
  | .sysGet copied => (fun r => .info r.1 r.2) <$> sysGetMsg h copied
  | .ipcRead msgId offset msg => (fun r => .bytes r.1 r.2) <$> ipcReadMsg h msgId offset msg
  | .sysRead msgId offset msg => (fun r => .bytes r.1 r.2) <$> sysReadMsg h msgId offset msg
  | .put msgId => .ret <$> ipcPutMsg h msgId

end TX2SecureUart.Ipc
