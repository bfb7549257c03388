/-
# `Ipc.Port` — `ipc.c`: ports, connections, shutdown

Function by function.  A loop of `list_for_every_entry_safe` runs over the
list as it was when the loop started.
-/
import TX2SecureUart.Ipc.State

namespace TX2SecureUart.Ipc

open Prog

/-! ## Constants -/

/-- `IPC_PORT_ALLOW_TA_CONNECT` -/
def ipcPortAllowTaConnect : UInt32 := 0x1

/-- `IPC_PORT_ALLOW_NS_CONNECT` -/
def ipcPortAllowNsConnect : UInt32 := 0x2

/-- `IPC_PORT_PATH_MAX` -/
def ipcPortPathMax : Nat := 64

/-- `IPC_CHAN_FLAG_SERVER` -/
def ipcChanFlagServer : UInt32 := 0x1

/-- `IPC_CHAN_MAX_BUFS` -/
def ipcChanMaxBufs : Nat := 32

/-- `IPC_CHAN_MAX_BUF_SIZE` -/
def ipcChanMaxBufSize : Nat := 4096

/-- `IPC_CONNECT_WAIT_FOR_PORT` -/
def ipcConnectWaitForPort : UInt32 := 0x1

/-! ## Channels -/

/-- A channel from `calloc`; the reference of the caller is the first one. -/
def newChan (flags : UInt32) (uuid : Option Uuid) : Chan where
  refobj := {.tmp}
  peer := none
  uuid := uuid
  state := .invalid
  flags := flags
  auxState := ⟨false, false, false⟩
  handle := ⟨0, 0⟩
  node := none
  msgQueue := none
  path := none

/-- `chan_alloc` -/
def chanAlloc (flags : UInt32) (uuid : Option Uuid) (alloc : Bool) : IpcM (Option ChanId) := do
  if !alloc then return none
  let s ← get
  set (Registry.setChan { s with nextChan := s.nextChan + 1 } s.nextChan (newChan flags uuid))
  return some s.nextChan

/-- `_chan_shutdown_locked` -/
def chanShutdownOneLocked (c : ChanId) : IpcM Unit := do
  let C ← getChan c
  match C.state with
  | .connected | .connecting =>
      modifyChan c fun C => { C with state := .disconnecting }
      handleNotify (.chan c)
  | .waitingForPort =>
      if C.node.isNone then throw (.assertFailed .waitingInList)
      listDelete c
      chanDelRef c .node
      modifyChan c fun C => { C with state := .disconnecting }
  | .accepting => modifyChan c fun C => { C with state := .disconnecting }
  | .invalid | .disconnecting => pure ()

/-- `chan_shutdown_locked` -/
def chanShutdownLocked (c : ChanId) : IpcM Unit := do
  chanShutdownOneLocked c
  match (← getChan c).peer with
  | none => pure ()
  | some peer =>
      chanShutdownOneLocked peer
      chanDelRef peer (.peer c)
      modifyChan c fun C => { C with peer := none }

/-! ## Ports -/

/-- The port that `ipc_port_create` initialises; the caller has the first
reference to its handle. -/
def newPort (sid : Option Uuid) (path : Path) (numRecvBufs recvBufSize : Nat) (flags : UInt32) :
    Port where
  path := path
  uuid := sid
  state := .invalid
  flags := flags
  numRecvBufs := numRecvBufs
  recvBufSize := recvBufSize
  handle := .init
  pendingList := []
  node := false

/-- `ipc_port_create`, storing the handle through `phandle_ptr` if it returns
`NO_ERROR`. -/
def ipcPortCreate (env : Env) (sid : Option Uuid) (path : Path) (numRecvBufs recvBufSize : Nat)
    (flags : UInt32) : IpcM (Int × Option PortId) := do
  if sid.isNone then return (errInvalidArgs, none)
  if numRecvBufs = 0 ∨ ipcChanMaxBufs < numRecvBufs ∨
      recvBufSize = 0 ∨ ipcChanMaxBufSize < recvBufSize then
    return (errInvalidArgs, none)
  if !env.allocPort then return (errNoMemory, none)
  if path.length = 0 then return (errInvalidArgs, none)
  if ipcPortPathMax ≤ path.length then return (errTooBig, none)
  let s ← get
  set (Registry.setPort { s with nextPort := s.nextPort + 1 } s.nextPort
    (newPort sid path numRecvBufs recvBufSize flags))
  return (noError, some s.nextPort)

/-- The loop of `port_shutdown` over the pending connections. -/
def tearDownPending (p : PortId) : List ChanId → IpcM Unit
  | [] => pure ()
  | server :: rest => do
      chanShutdownLocked server
      listDelete server
      chanDelRef server .node
      handleDecref (.port p)
      tearDownPending p rest

/-- `port_shutdown` -/
def portShutdown (p : PortId) : IpcM Unit := do
  modifyPort p fun P => { P with state := .closing }
  if (← getPort p).node then
    modify fun s => s.setListed (s.ipcPortList.erase p)
    modifyPort p fun P => { P with node := false }
    handleDecref (.port p)
  tearDownPending p (← getPort p).pendingList

/-- The search of `port_find_locked`. -/
def portFind (path : Path) : List PortId → IpcM (Option PortId)
  | [] => return none
  | p :: rest => do
      if path = (← getPort p).path then return some p
      portFind path rest

/-- `port_find_locked` -/
def portFindLocked (path : Path) : IpcM (Option PortId) := do
  portFind path (← get).ipcPortList

/-- `check_access` -/
def checkAccess (P : Port) : Option Uuid → Int
  | none => errAccessDenied
  | some .zeroUuid =>
      if P.flags &&& ipcPortAllowNsConnect ≠ 0 then noError else errAccessDenied
  | some (.app _) =>
      if P.flags &&& ipcPortAllowTaConnect ≠ 0 then noError else errAccessDenied

/-- The end of `port_attach_client`, when everything is allocated: both
channels change state, hold each other, and the server is pending. -/
def portLink (p : PortId) (client server : ChanId) : IpcM Unit := do
  modifyChan server fun C => { C with state := .accepting }
  modifyChan client fun C => { C with state := .connecting }
  chanAddRef server (.peer client)
  modifyChan client fun C => { C with peer := some server }
  chanAddRef client (.peer server)
  modifyChan server fun C => { C with peer := some client }
  chanAddRef server .node
  listAddTail (.pending p) server
  handleIncref (.port p)
  handleNotify (.port p)
  let C ← getChan client
  let P ← getPort p
  modify (·.log (.attach client server C.uuid P))

/-- `port_attach_client` -/
def portAttachClient (env : Env) (p : PortId) (client : ChanId) : IpcM Int := do
  let P ← getPort p
  if P.state ≠ .listening then return errNotReady
  let C ← getChan client
  let ret := checkAccess P C.uuid
  if ret ≠ noError then return ret
  match ← chanAlloc ipcChanFlagServer P.uuid (env.allocServer client) with
  | none => return errNoMemory
  | some server =>
      if env.allocClientQueue client then
        modifyChan client fun C => { C with
          msgQueue := some (MsgQueue.create P.numRecvBufs P.recvBufSize (env.fresh client)) }
        if env.allocServerQueue client then
          modifyChan server fun C => { C with
            msgQueue := some (MsgQueue.create P.numRecvBufs P.recvBufSize (env.fresh server)) }
          portLink p client server
          chanDelRef server .tmp
          return noError
        else
          modifyChan client fun C => { C with msgQueue := none }
          chanDelRef server .tmp
          return errNoMemory
      else
        chanDelRef server .tmp
        return errNoMemory

/-- The call of the hook, with its answer recorded. -/
def trustyHypCheckGuestAccess (env : Env) (client : ChanId) (guest : UInt32)
    (peer : Option Uuid) : IpcM Int := do
  let ret := env.hypCheck client guest peer
  modify (·.log (.hypCheck guest peer ret))
  return ret

/-- The body of the loop of `ipc_port_publish`, for a client with the port's
path: the new value of `ret`. -/
def publishTo (env : Env) (p : PortId) (client : ChanId) : IpcM Int := do
  modifyChan client fun C => { C with path := none }
  chanAddRef client .tmp
  listDelete client
  chanDelRef client .node
  let guest := (← getChan client).handle.guestId
  let uuid := (← getPort p).uuid
  let ret ← trustyHypCheckGuestAccess env client guest uuid
  if ret = 0 then
    let err ← portAttachClient env p client
    if err ≠ 0 then chanShutdownLocked client
  chanDelRef client .tmp
  return ret

/-- The loop of `ipc_port_publish` over the waiting clients. -/
def publishLoop (env : Env) (p : PortId) (ret : Int) : List ChanId → IpcM Int
  | [] => return ret
  | client :: rest => do
      match (← getChan client).path with
      | none => throw .nullDeref
      | some path =>
          if path = (← getPort p).path then
            let ret ← publishTo env p client
            publishLoop env p ret rest
          else publishLoop env p ret rest

/-- `ipc_port_publish` -/
def ipcPortPublish (env : Env) (p : PortId) : IpcM Int := do
  let P ← getPort p
  match ← portFindLocked P.path with
  | some _ => return errAlreadyExists
  | none =>
      modifyPort p fun P => { P with state := .listening }
      modify fun s => s.setListed (s.ipcPortList ++ [p])
      modifyPort p fun P => { P with node := true }
      handleIncref (.port p)
      publishLoop env p noError (← get).waitingForPortChanList

/-! ## Connecting and accepting -/

/-- The two branches of `ipc_port_connect_async`: attach the client to the port
found, or let it wait for one. -/
def attachOrWait (env : Env) (guest : UInt32) (path : Path) (flags : UInt32) (client : ChanId) :
    IpcM Int := do
  match ← portFindLocked path with
  | some p =>
      let ret ← trustyHypCheckGuestAccess env client guest (← getPort p).uuid
      if ret ≠ 0 then return ret
      modifyPort p fun P => { P with handle := { P.handle with guestId := guest } }
      portAttachClient env p client
  | none =>
      if flags &&& ipcConnectWaitForPort = 0 then return errNotFound
      if !env.allocPath then return errNoMemory
      modifyChan client fun C => { C with path := some path }
      modifyChan client fun C => { C with state := .waitingForPort }
      listAddTail .waitingForPort client
      chanAddRef client .node
      return noError

/-- `ipc_port_connect_async`, storing the handle through `chandle_ptr` if it
returns `NO_ERROR`.  The bytes at `path` are `path` and then, if there is one
within `max_path` bytes, a terminator. -/
def ipcPortConnectAsync (env : Env) (guest : UInt32) (cid : Option Uuid) (path : Path)
    (maxPath : Nat) (flags : UInt32) : IpcM (Int × Option ChanId) := do
  if cid.isNone then return (errInvalidArgs, none)
  if path.length = 0 ∨ maxPath ≤ path.length then return (errInvalidArgs, none)
  match ← chanAlloc 0 cid env.allocChan with
  | none => return (errNoMemory, none)
  | some client =>
      let ret ← attachOrWait env guest path flags client
      if ret ≠ noError then
        chanDelRef client .tmp
        return (ret, none)
      chanHandleInit client
      modifyChan client fun C => { C with handle := { C.handle with guestId := guest } }
      chanDelRef client .tmp
      return (noError, some client)

/-- The end of `ipc_port_accept`, for a client that is still connecting. -/
def acceptConnect (server client : ChanId) : IpcM Unit := do
  modifyChan server fun C => { C with state := .connected }
  modifyChan client fun C => { C with
    state := .connected, auxState := { C.auxState with connected := true } }
  chanHandleInit server
  let guest := (← getChan client).handle.guestId
  modifyChan server fun C => { C with handle := { C.handle with guestId := guest } }
  handleNotify (.chan client)

/-- `ipc_port_accept`: the result, and the handle and client uuid stored when
it is `NO_ERROR`. -/
def ipcPortAccept : Option HandlePtr → IpcM (Int × Option (ChanId × Option Uuid))
  | none | some (.chan _) => return (errInvalidArgs, none)
  | some (.port p) => do
      let P ← getPort p
      if P.state ≠ .listening then return (errChannelClosed, none)
      match P.pendingList with
      | [] => return (errNoMsg, none)
      | server :: _ =>
          listDelete server
          chanAddRef server .tmp
          chanDelRef server .node
          handleDecref (.port p)
          let S ← getChan server
          match S.peer with
          | none =>
              chanShutdownLocked server
              chanDelRef server .tmp
              return (errChannelClosed, none)
          | some client =>
              let C ← getChan client
              if S.state ≠ .accepting ∨ C.state ≠ .connecting then
                chanShutdownLocked server
                chanDelRef server .tmp
                return (errChannelClosed, none)
              acceptConnect server client
              chanDelRef server .tmp
              return (noError, some (server, C.uuid))

/-! ## Closing -/

/-- The `shutdown` operation of a handle, the first half of `handle_close`; the
second is `handleDecref`. -/
def handleShutdown : HandlePtr → IpcM Unit
  | .chan c => chanShutdownLocked c
  | .port p => portShutdown p

end TX2SecureUart.Ipc
