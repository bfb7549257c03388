/-
# `Ipc.State` — ports, channels, and the primitives on them

The objects of `ipc.h` in a heap.  A channel or port is named by a number that
is never reused; `none` at a name that was allocated is a freed object.  The
C code keeps an object alive through its `obj_ref_t`s: `refobj` is the set of
references now linked into the object, and the object is destroyed when the
last one is unlinked.

The code runs under `ipc_lock`, so an operation is one program of `IpcM`.  It
stops with a `Fault` where the C code would panic, dereference `NULL` or a
freed object, or link a node twice.

`trace` is no part of the program: it records the answers of
`trusty_hyp_check_guest_access` and the attachments, as they happen.
-/
import TX2SecureUart.Lib.Prog
import TX2SecureUart.Ipc.MsgQueue
import Mathlib

namespace TX2SecureUart.Ipc

open Prog

/-! ## Objects -/

abbrev ChanId := Nat
abbrev PortId := Nat

/-- The bytes of a path, without the terminator. -/
abbrev Path := List UInt8

/-- `const uuid_t *`, not `NULL`: the address of `zero_uuid`, or of the uuid of
an application. -/
inductive Uuid where
  | zeroUuid
  | app (id : Nat)
deriving DecidableEq

/-- `IPC_PORT_STATE_*` -/
inductive PortState where
  | invalid
  | listening
  | closing
deriving DecidableEq

/-- `IPC_CHAN_STATE_*` -/
inductive ChanState where
  | invalid
  | accepting
  | connecting
  | connected
  | disconnecting
  | waitingForPort
deriving DecidableEq

/-- The bits of `aux_state`. -/
structure AuxState where
  sendBlocked : Bool
  sendUnblocked : Bool
  connected : Bool
deriving DecidableEq

/-- `handle_t`: its reference count and the guest it works for. -/
structure Handle where
  refcnt : Int
  guestId : UInt32
deriving DecidableEq

/-- The `obj_ref_t`s that can be linked into a channel's `refobj`. -/
inductive ObjRef where
  /-- `handle_ref` -/
  | handle
  /-- `node_ref` -/
  | node
  /-- `peer_ref` of another channel -/
  | peer (c : ChanId)
  /-- the local reference of the running operation -/
  | tmp
deriving DecidableEq

/-- The lists a channel's `node` can be in. -/
inductive ListId where
  /-- `waiting_for_port_chan_list` -/
  | waitingForPort
  /-- `pending_list` of a port -/
  | pending (p : PortId)
deriving DecidableEq

/-- `ipc_chan_t` -/
structure Chan where
  refobj : Finset ObjRef
  peer : Option ChanId
  uuid : Option Uuid
  state : ChanState
  flags : UInt32
  auxState : AuxState
  handle : Handle
  /-- the list `node` is linked into -/
  node : Option ListId
  msgQueue : Option MsgQueue
  path : Option Path

/-- `ipc_port_t` -/
structure Port where
  path : Path
  uuid : Option Uuid
  state : PortState
  flags : UInt32
  numRecvBufs : Nat
  recvBufSize : Nat
  handle : Handle
  pendingList : List ChanId
  /-- `list_in_list(&port->node)` -/
  node : Bool
deriving DecidableEq

/-- What is recorded of a run. -/
inductive Event where
  /-- `trusty_hyp_check_guest_access(guest, peer)` returned `ret` -/
  | hypCheck (guest : UInt32) (peer : Option Uuid) (ret : Int)
  /-- `port_attach_client` linked a client to a new server channel -/
  | attach (client server : ChanId) (clientUuid : Option Uuid) (port : Port)
deriving DecidableEq

structure Registry where
  chans : ChanId → Option Chan
  ports : PortId → Option Port
  nextChan : ChanId
  nextPort : PortId
  waitingForPortChanList : List ChanId
  ipcPortList : List PortId
  trace : List Event

/-- The registry before anything was created. -/
def Registry.empty : Registry where
  chans := fun _ => none
  ports := fun _ => none
  nextChan := 0
  nextPort := 0
  waitingForPortChanList := []
  ipcPortList := []
  trace := []

/-- The three `ASSERT`s on channels. -/
inductive Assertion where
  /-- `_chan_shutdown_locked`: a waiting channel is in a list -/
  | waitingInList
  /-- `__chan_destroy_refobj`: no peer is left -/
  | noPeer
  /-- `__chan_destroy_refobj`: the node is in no list -/
  | notInList
deriving DecidableEq

inductive Fault where
  | assertFailed (a : Assertion)
  | nullDeref
  | useAfterFree
  /-- a node is linked while it is in a list -/
  | doubleLink
deriving DecidableEq

abbrev IpcM := EStateM Fault Registry

/-- Behaviour of everything outside: the access hook, the allocator, and what
fresh memory contains.  At most one client is attached under each name in one
operation, so the answers are listed by client. -/
structure Env where
  /-- `trusty_hyp_check_guest_access` -/
  hypCheck : ChanId → UInt32 → Option Uuid → Int
  allocPort : Bool
  allocChan : Bool
  allocPath : Bool
  allocServer : ChanId → Bool
  allocClientQueue : ChanId → Bool
  allocServerQueue : ChanId → Bool
  fresh : ChanId → Nat → UInt8

/-! ## Updating the heap -/

namespace Registry

def setChan (s : Registry) (c : ChanId) (C : Chan) : Registry :=
  { s with chans := Function.update s.chans c (some C) }

def freeChan (s : Registry) (c : ChanId) : Registry :=
  { s with chans := Function.update s.chans c none }

def setPort (s : Registry) (p : PortId) (P : Port) : Registry :=
  { s with ports := Function.update s.ports p (some P) }

def freePort (s : Registry) (p : PortId) : Registry :=
  { s with ports := Function.update s.ports p none }

def setWaiting (s : Registry) (l : List ChanId) : Registry := { s with waitingForPortChanList := l }

def setListed (s : Registry) (l : List PortId) : Registry := { s with ipcPortList := l }

def log (s : Registry) (e : Event) : Registry := { s with trace := s.trace ++ [e] }

end Registry

/-- `c->..` -/
def getChan (c : ChanId) : IpcM Chan := do
  match (← get).chans c with
  | none => throw .useAfterFree
  | some C => pure C

def modifyChan (c : ChanId) (f : Chan → Chan) : IpcM Unit := do
  let C ← getChan c
  modify (·.setChan c (f C))

def getPort (p : PortId) : IpcM Port := do
  match (← get).ports p with
  | none => throw .useAfterFree
  | some P => pure P

def modifyPort (p : PortId) (f : Port → Port) : IpcM Unit := do
  let P ← getPort p
  modify (·.setPort p (f P))

/-! ## Nodes and references -/

/-- `list_add_tail(list, &c->node)` -/
def listAddTail (l : ListId) (c : ChanId) : IpcM Unit := do
  let C ← getChan c
  if C.node.isSome then throw .doubleLink
  modifyChan c fun C => { C with node := some l }
  match l with
  | .waitingForPort => modify fun s => s.setWaiting (s.waitingForPortChanList ++ [c])
  | .pending p => modifyPort p fun P => { P with pendingList := P.pendingList ++ [c] }

/-- `list_delete(&c->node)` -/
def listDelete (c : ChanId) : IpcM Unit := do
  let C ← getChan c
  match C.node with
  | none => throw .nullDeref
  | some .waitingForPort => modify fun s => s.setWaiting (s.waitingForPortChanList.erase c)
  | some (.pending p) => modifyPort p fun P => { P with pendingList := P.pendingList.erase c }
  modifyChan c fun C => { C with node := none }

/-- `__chan_destroy_refobj` -/
def chanDestroyRefobj (c : ChanId) : IpcM Unit := do
  let C ← getChan c
  if C.peer.isSome then throw (.assertFailed .noPeer)
  if C.node.isSome then throw (.assertFailed .notInList)
  modify (·.freeChan c)

/-- `chan_add_ref` -/
def chanAddRef (c : ChanId) (ref : ObjRef) : IpcM Unit := do
  let C ← getChan c
  if ref ∈ C.refobj then throw .doubleLink
  modifyChan c fun C => { C with refobj := insert ref C.refobj }

/-- `chan_del_ref` -/
def chanDelRef (c : ChanId) (ref : ObjRef) : IpcM Unit := do
  let C ← getChan c
  if ref ∉ C.refobj then throw .nullDeref
  modifyChan c fun C => { C with refobj := C.refobj.erase ref }
  if C.refobj.erase ref = ∅ then chanDestroyRefobj c

/-! ## Handles -/

/-- `handle_t *`, by the object it is part of. -/
inductive HandlePtr where
  | chan (c : ChanId)
  | port (p : PortId)
deriving DecidableEq

/-- `DEFAULT_GUEST_ID` -/
def defaultGuestId : UInt32 := 0xDEADFEED

/-- `handle_init` -/
def Handle.init : Handle := ⟨1, defaultGuestId⟩

/-- `handle_notify`: nothing but a wakeup, of an object that must exist. -/
def handleNotify : HandlePtr → IpcM Unit
  | .chan c => do let _ ← getChan c
  | .port p => do let _ ← getPort p

def handleIncref : HandlePtr → IpcM Unit
  | .chan c =>
      modifyChan c fun C => { C with handle := { C.handle with refcnt := C.handle.refcnt + 1 } }
  | .port p =>
      modifyPort p fun P => { P with handle := { P.handle with refcnt := P.handle.refcnt + 1 } }

/-- `chan_handle_destroy` -/
def chanHandleDestroy (c : ChanId) : IpcM Unit := chanDelRef c .handle

/-- `port_handle_destroy` -/
def portHandleDestroy (p : PortId) : IpcM Unit := modify (·.freePort p)

def handleDecref : HandlePtr → IpcM Unit
  | .chan c => do
      let C ← getChan c
      modifyChan c fun C => { C with handle := { C.handle with refcnt := C.handle.refcnt - 1 } }
      if C.handle.refcnt = 1 then chanHandleDestroy c
  | .port p => do
      let P ← getPort p
      modifyPort p fun P => { P with handle := { P.handle with refcnt := P.handle.refcnt - 1 } }
      if P.handle.refcnt = 1 then portHandleDestroy p

/-- `chan_handle_init` -/
def chanHandleInit (c : ChanId) : IpcM Unit := do
  modifyChan c fun C => { C with handle := .init }
  chanAddRef c .handle

/-! ## Rules for the primitives -/

section

variable {E : Fault → Registry → Prop} {s : Registry} {c d : ChanId} {p q : PortId} {C D : Chan}
  {P P' : Port}

@[simp] theorem Registry.setChan_chans :
    (s.setChan c C).chans d = if d = c then some C else s.chans d := by
  simp [setChan, Function.update_apply]

@[simp] theorem Registry.setChan_ports : (s.setChan c C).ports = s.ports := rfl
@[simp] theorem Registry.setChan_waiting :
    (s.setChan c C).waitingForPortChanList = s.waitingForPortChanList := rfl
@[simp] theorem Registry.setChan_ipcPortList : (s.setChan c C).ipcPortList = s.ipcPortList := rfl
@[simp] theorem Registry.setChan_nextChan : (s.setChan c C).nextChan = s.nextChan := rfl
@[simp] theorem Registry.setChan_nextPort : (s.setChan c C).nextPort = s.nextPort := rfl
@[simp] theorem Registry.setChan_trace : (s.setChan c C).trace = s.trace := rfl

@[simp] theorem Registry.freeChan_chans :
    (s.freeChan c).chans d = if d = c then none else s.chans d := by
  simp [freeChan, Function.update_apply]

@[simp] theorem Registry.freeChan_ports : (s.freeChan c).ports = s.ports := rfl
@[simp] theorem Registry.freeChan_waiting :
    (s.freeChan c).waitingForPortChanList = s.waitingForPortChanList := rfl
@[simp] theorem Registry.freeChan_ipcPortList : (s.freeChan c).ipcPortList = s.ipcPortList := rfl
@[simp] theorem Registry.freeChan_nextChan : (s.freeChan c).nextChan = s.nextChan := rfl
@[simp] theorem Registry.freeChan_nextPort : (s.freeChan c).nextPort = s.nextPort := rfl
@[simp] theorem Registry.freeChan_trace : (s.freeChan c).trace = s.trace := rfl

@[simp] theorem Registry.setPort_ports :
    (s.setPort p P).ports q = if q = p then some P else s.ports q := by
  simp [setPort, Function.update_apply]

@[simp] theorem Registry.freePort_ports :
    (s.freePort p).ports q = if q = p then none else s.ports q := by
  simp [freePort, Function.update_apply]

@[simp] theorem Registry.freePort_setPort : (s.setPort p P).freePort p = s.freePort p := by
  simp [setPort, freePort]

@[simp] theorem Registry.setPort_chans : (s.setPort p P).chans = s.chans := rfl
@[simp] theorem Registry.setPort_waiting :
    (s.setPort p P).waitingForPortChanList = s.waitingForPortChanList := rfl
@[simp] theorem Registry.setPort_ipcPortList : (s.setPort p P).ipcPortList = s.ipcPortList := rfl
@[simp] theorem Registry.setPort_nextChan : (s.setPort p P).nextChan = s.nextChan := rfl
@[simp] theorem Registry.setPort_nextPort : (s.setPort p P).nextPort = s.nextPort := rfl
@[simp] theorem Registry.setPort_trace : (s.setPort p P).trace = s.trace := rfl

@[simp] theorem Registry.setWaiting_chans {l : List ChanId} : (s.setWaiting l).chans = s.chans := rfl
@[simp] theorem Registry.setWaiting_ports {l : List ChanId} : (s.setWaiting l).ports = s.ports := rfl
@[simp] theorem Registry.setWaiting_setChan {l : List ChanId} :
    (s.setChan c C).setWaiting l = (s.setWaiting l).setChan c C := rfl

@[simp] theorem Registry.setListed_chans {l : List PortId} : (s.setListed l).chans = s.chans := rfl
@[simp] theorem Registry.setListed_ports {l : List PortId} : (s.setListed l).ports = s.ports := rfl
@[simp] theorem Registry.setListed_setPort {l : List PortId} :
    (s.setPort p P).setListed l = (s.setListed l).setPort p P := rfl

@[simp] theorem Registry.log_chans {e : Event} : (s.log e).chans = s.chans := rfl
@[simp] theorem Registry.log_ports {e : Event} : (s.log e).ports = s.ports := rfl
@[simp] theorem Registry.log_trace {e : Event} : (s.log e).trace = s.trace ++ [e] := rfl
@[simp] theorem Registry.setChan_log {e : Event} :
    (s.log e).setChan c C = (s.setChan c C).log e := rfl

@[simp] theorem Registry.setChan_setChan : (s.setChan c C).setChan c D = s.setChan c D := by
  simp [setChan]

@[simp] theorem Registry.freeChan_setChan : (s.setChan c C).freeChan c = s.freeChan c := by
  simp [setChan, freeChan]

theorem Registry.setChan_self (h : s.chans c = some C) : s.setChan c C = s := by
  rw [setChan, ← h, Function.update_eq_self]

theorem Registry.freeChan_self (h : s.chans c = none) : s.freeChan c = s := by
  rw [freeChan, ← h, Function.update_eq_self]

theorem Registry.setChan_comm (h : c ≠ d) :
    (s.setChan c C).setChan d D = (s.setChan d D).setChan c C := by
  simp [setChan, Function.update_comm h]

theorem Registry.freeChan_setChan_comm (h : c ≠ d) :
    (s.freeChan c).setChan d D = (s.setChan d D).freeChan c := by
  simp [setChan, freeChan, Function.update_comm h]

@[simp] theorem Registry.setPort_setPort : (s.setPort p P).setPort p P' = s.setPort p P' := by
  simp [setPort]

@[simp] theorem Registry.setChan_setPort :
    (s.setChan c C).setPort p P = (s.setPort p P).setChan c C := rfl

@[simp] theorem wp_getChan {Q : Chan → Registry → Prop} :
    wp (getChan c) Q E s ↔ (s.chans c).elim (E .useAfterFree s) fun C => Q C s := by
  simp only [getChan, wp_bind, wp_get]
  cases s.chans c <;> rfl

@[simp] theorem wp_modifyChan {f : Chan → Chan} {Q : PUnit → Registry → Prop} :
    wp (modifyChan c f) Q E s ↔
      (s.chans c).elim (E .useAfterFree s) fun C => Q ⟨⟩ (s.setChan c (f C)) := by
  simp only [modifyChan, wp_bind, wp_getChan, wp_modify]

@[simp] theorem wp_getPort {Q : Port → Registry → Prop} :
    wp (getPort p) Q E s ↔ (s.ports p).elim (E .useAfterFree s) fun P => Q P s := by
  simp only [getPort, wp_bind, wp_get]
  cases s.ports p <;> rfl

@[simp] theorem wp_modifyPort {f : Port → Port} {Q : PUnit → Registry → Prop} :
    wp (modifyPort p f) Q E s ↔
      (s.ports p).elim (E .useAfterFree s) fun P => Q ⟨⟩ (s.setPort p (f P)) := by
  simp only [modifyPort, wp_bind, wp_getPort, wp_modify]

@[simp] theorem wp_handleNotify_chan {Q : PUnit → Registry → Prop} :
    wp (handleNotify (.chan c)) Q E s ↔ (s.chans c).elim (E .useAfterFree s) fun _ => Q ⟨⟩ s := by
  simp only [handleNotify, wp_bind, wp_getChan, wp_pure]

@[simp] theorem wp_handleNotify_port {Q : PUnit → Registry → Prop} :
    wp (handleNotify (.port p)) Q E s ↔ (s.ports p).elim (E .useAfterFree s) fun _ => Q ⟨⟩ s := by
  simp only [handleNotify, wp_bind, wp_getPort, wp_pure]

@[simp] theorem wp_chanAddRef {r : ObjRef} {Q : PUnit → Registry → Prop} :
    wp (chanAddRef c r) Q E s ↔ (s.chans c).elim (E .useAfterFree s) fun C =>
      if r ∈ C.refobj then E .doubleLink s
      else Q ⟨⟩ (s.setChan c { C with refobj := insert r C.refobj }) := by
  simp only [chanAddRef, wp_bind, wp_getChan, wp_ite, wp_throw, wp_modifyChan]
  cases s.chans c <;> rfl

@[simp] theorem wp_chanDestroyRefobj {Q : PUnit → Registry → Prop} :
    wp (chanDestroyRefobj c) Q E s ↔ (s.chans c).elim (E .useAfterFree s) fun C =>
      if C.peer.isSome then E (.assertFailed .noPeer) s
      else if C.node.isSome then E (.assertFailed .notInList) s
      else Q ⟨⟩ (s.freeChan c) := by
  simp only [chanDestroyRefobj, wp_bind, wp_getChan, wp_ite, wp_throw, wp_modify]

theorem wp_chanDelRef {r : ObjRef} {Q : PUnit → Registry → Prop} :
    wp (chanDelRef c r) Q E s ↔ (s.chans c).elim (E .useAfterFree s) fun C =>
      if r ∉ C.refobj then E .nullDeref s
      else if C.refobj.erase r = ∅ then
        if C.peer.isSome then
          E (.assertFailed .noPeer) (s.setChan c { C with refobj := C.refobj.erase r })
        else if C.node.isSome then
          E (.assertFailed .notInList) (s.setChan c { C with refobj := C.refobj.erase r })
        else Q ⟨⟩ ((s.setChan c { C with refobj := C.refobj.erase r }).freeChan c)
      else Q ⟨⟩ (s.setChan c { C with refobj := C.refobj.erase r }) := by
  simp only [chanDelRef, wp_bind, wp_getChan, wp_ite, wp_throw, wp_pure, wp_modifyChan,
    wp_chanDestroyRefobj]
  cases s.chans c <;> simp

theorem wp_listDelete {Q : PUnit → Registry → Prop} :
    wp (listDelete c) Q E s ↔ (s.chans c).elim (E .useAfterFree s) fun C =>
      match C.node with
      | none => E .nullDeref s
      | some .waitingForPort => Q ⟨⟩
          ((s.setWaiting (s.waitingForPortChanList.erase c)).setChan c { C with node := none })
      | some (.pending p) => (s.ports p).elim (E .useAfterFree s) fun P =>
          Q ⟨⟩ ((s.setPort p { P with pendingList := P.pendingList.erase c }).setChan c
            { C with node := none }) := by
  simp only [listDelete, wp_bind, wp_getChan]
  cases hC : s.chans c with
  | none => rfl
  | some C =>
      cases hn : C.node with
      | none => simp [hn]
      | some l =>
          cases l with
          | waitingForPort => simp [hn, hC]
          | pending p => cases hP : s.ports p <;> simp [hn, hC, hP]

theorem wp_handleDecref_port {Q : PUnit → Registry → Prop} :
    wp (handleDecref (.port p)) Q E s ↔ (s.ports p).elim (E .useAfterFree s) fun P =>
      if P.handle.refcnt = 1 then
        Q ⟨⟩ ((s.setPort p { P with
          handle := { P.handle with refcnt := P.handle.refcnt - 1 } }).freePort p)
      else Q ⟨⟩ (s.setPort p { P with
        handle := { P.handle with refcnt := P.handle.refcnt - 1 } }) := by
  simp only [handleDecref, portHandleDestroy, wp_bind, wp_getPort, wp_modifyPort, wp_ite, wp_pure,
    wp_modify]
  cases s.ports p <;> rfl

end

end TX2SecureUart.Ipc
