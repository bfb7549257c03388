/-
# `Hwkey.Serving` — a service and its client on one channel

The message handlers of `hwkey-agent/ipc.c` and `luks-srv/ipc.c` with the event
loop, on a channel of a port with one buffer.  The client makes its calls in
turns, one before every call of the service that enters the kernel and one
between `chan_poll` and `chan_finalize_event`; a turn can be empty.  Events of
other handles of the application take time and leave the channel alone, so they
are turns of the client.

`log` is no part of the program: the requests that were sent, the replies, and
what `wait_to_send` returned.
-/
import TX2SecureUart.Service.Flow
import TX2SecureUart.Service.Channel
import TX2SecureUart.Hwkey.Determined

namespace TX2SecureUart.Hwkey

open Prog Ipc Service

/-! ## The services -/

/-- `msg_num` -/
def msgNum : Nat := 1

/-- `MAX_PORT_BUF_SIZE` -/
def maxPortBufSize : Nat := 4096

/-- What one message handler does that the others do differently: the entries
of `msg.iov`, the allocation between `get_msg` and `read_msg`, and the reply,
with the variables of the service; no reply where memory outside the buffers is
written. -/
structure Srv (ε σ : Type) where
  lens : List Nat
  malloc : ε → Bool
  reply : ε → σ → List UInt8 → Option (List UInt8 × σ)
  fits : lens.sum ≤ maxPortBufSize
  length_reply : ∀ {env v m r v'}, reply env v m = some (r, v') → r.length = lens.sum

theorem length_cryptoReply {aes : Aes} {env : CryptoEnv} {m r : List UInt8}
    (h : cryptoReply aes env m = some (some r)) :
    r.length = sizeofCryptoSrvMsg + cryptoSrvPayloadSize := by
  rw [cryptoReply] at h
  cases ht : cryptoSrvHandleMsg aes env m with
  | none => simp [ht] at h
  | some t =>
      simp only [ht] at h
      split at h
      · cases h
        simp [CryptoReq.reply]
      · cases h

/-- `crypto_srv_handle_msg` -/
def cryptoSrv (aes : Aes) : Srv CryptoEnv Unit where
  lens := [sizeofCryptoSrvMsg, cryptoSrvPayloadSize]
  malloc env := env.mallocBuf
  reply env _ m := (cryptoReply aes env m).join.map fun r => (r, ())
  fits := by decide
  length_reply := by
    intro env v m r v' h
    rw [Option.map_eq_some_iff] at h
    obtain ⟨r', hr', heq⟩ := h
    cases heq
    rw [length_cryptoReply (Option.join_eq_some_iff.mp hr')]
    rfl

/-- `get_key_srv_handle_msg`, with what `ekb_get_key` and
`fuse_get_queried_ecid` return. -/
def getKeySrv (key : Option Block) (ecid : Block) : Srv (Nat → UInt8) Unit where
  lens := [sizeofGetKeySrvCmdMsg]
  malloc _ := true
  reply stack _ m := some (getKeySrvHandleMsg key ecid stack m, ())
  fits := by decide
  length_reply := by
    intro stack v m r v' h
    cases h
    simp [getKeySrvHandleMsg]

/-- `luks_srv_handle_msg`; the variable is `no_pass_response`. -/
def luksSrv (cmac : Block → List UInt8 → Block) (keys : LuksKeys) :
    Srv (KdfEnv × (Nat → UInt8)) Bool where
  lens := [sizeofLuksSrvCmdMsg]
  malloc _ := true
  reply env noPass m :=
    (luksSrvHandleMsg cmac env.1 keys noPass env.2 m).1.map fun r =>
      (r, (luksSrvHandleMsg cmac env.1 keys noPass env.2 m).2)
  fits := by decide
  length_reply := by
    intro env v m r v' h
    rw [Option.map_eq_some_iff] at h
    obtain ⟨r', hr', heq⟩ := h
    cases heq
    simp only [luksSrvHandleMsg, Option.map_eq_some_iff] at hr'
    obtain ⟨mem, _, rfl⟩ := hr'
    simp

/-! ## The client -/

inductive ClientStep where
  | call (call : MsgCall)
  /-- the end of a `wait` -/
  | finalize (event : UInt32)

/-- A request is no longer than the buffer of the port. -/
def ClientStep.Fits : ClientStep → Prop
  | .call k => ∀ msg, k.sends = some (some msg) → (payload msg).length ≤ maxPortBufSize
  | .finalize _ => True

abbrev ClientTurn := List {step : ClientStep // step.Fits}

/-! ## The program -/

inductive Entry where
  | request (m : List UInt8)
  | reply (r : List UInt8)
  /-- `wait_to_send` returned, having sent so many replies -/
  | waited (rc : Int) (sent : Nat)

inductive Stop where
  /-- the service waits, and the client does nothing more -/
  | waiting
  /-- `close(evt->handle)` -/
  | closed
  /-- memory outside the buffers of the handler was written -/
  | overwritten
  | ipc (f : Fault)
deriving DecidableEq

structure Serving (σ : Type) where
  reg : Registry
  /-- what the client still does -/
  turns : List ClientTurn
  vars : σ
  /-- requests that were obtained -/
  served : Nat
  log : List Entry

abbrev ServM (σ : Type) := EStateM Stop (Serving σ)

section

variable {ε σ α : Type}

def onReg (m : IpcM α) : ServM σ α :=
  embed Serving.reg (fun reg s => { s with reg := reg }) .ipc m

def record (es : List Entry) : ServM σ Unit := modify fun s => { s with log := s.log ++ es }

def repliesIn : List Entry → List (List UInt8)
  | [] => []
  | .reply r :: es => r :: repliesIn es
  | _ :: es => repliesIn es

/-- The request that a call of the client has sent. -/
def accepted (call : MsgCall) (r : MsgResult) : List Entry :=
  match call.sends, r with
  | some (some msg), .ret n => if 0 ≤ n then [.request (payload msg)] else []
  | _, _ => []

def clientStep (d : ChanId) : ClientStep → ServM σ Unit
  | .call call => do
      let r ← onReg (call.run (some (.chan d)))
      record (accepted call r)
  | .finalize event => onReg (Ql.chanFinalizeEvent d event)

def clientSteps (d : ChanId) : ClientTurn → ServM σ Unit
  | [] => pure ()
  | step :: rest => do
      clientStep d step.val
      clientSteps d rest

def clientTurn (d : ChanId) : ServM σ Unit := do
  match (← get).turns with
  | [] => pure ()
  | turn :: rest =>
      modify fun s => { s with turns := rest }
      clientSteps d turn

/-- The loop of `handle_wait`: it polls again when the client has done
something. -/
def pollLoop (c d : ChanId) : List ClientTurn → ServM σ UInt32
  | [] => do
      let event ← onReg (chanPoll c)
      if event ≠ 0 then return event else throw .waiting
  | turn :: rest => do
      let event ← onReg (chanPoll c)
      if event ≠ 0 then return event
      else
        modify fun s => { s with turns := rest }
        clientSteps d turn
        pollLoop c d rest

/-- `wait` with `INFINITE_TIME`, and `wait_any` as far as the channel goes. -/
def wait (c d : ChanId) : ServM σ UInt32 := do
  clientTurn d
  let event ← pollLoop c d (← get).turns
  clientTurn d
  onReg (Ql.chanFinalizeEvent c event)
  return event

/-- The entries of `msg.iov`, over these bytes. -/
def iovOf : List Nat → List UInt8 → List UserIov
  | [], _ => []
  | n :: lens, bytes => .mapped n (bytes.take n) :: iovOf lens (bytes.drop n)

/-- `send_msg` -/
def sendMsg (c d : ChanId) (lens : List Nat) (bytes : List UInt8) : ServM σ Int := do
  clientTurn d
  let rc ← onReg (sysSendMsg (some (.chan c)) (some (.user (iovOf lens bytes) 0)))
  if 0 ≤ rc then
    record [.reply bytes]
    return rc
  else return rc

/-- `wait_to_send` -/
def waitToSend (c d : ChanId) (lens : List Nat) (bytes : List UInt8) : ServM σ Int := do
  let before := (repliesIn (← get).log).length
  let event ← wait c d
  let rc ← if polled event ipcHandlePollSendUnblocked then sendMsg c d lens bytes
    else if polled event ipcHandlePollMsg then pure errBusy
    else if polled event ipcHandlePollHup then pure errChannelClosed
    else pure noError
  record [.waited rc ((repliesIn (← get).log).length - before)]
  return rc

/-- The end of a handler: the reply is sent, and the request is retired. -/
def replyTo (c d : ChanId) (msgId : UInt32) (lens : List Nat) (bytes : List UInt8) :
    ServM σ Int := do
  let rc ← sendMsg c d lens bytes
  let rc ← if rc = errNotEnoughBuffer then waitToSend c d lens bytes else pure rc
  if rc < 0 then return rc
  else
    clientTurn d
    let rc ← onReg (ipcPutMsg (some (.chan c)) msgId)
    if rc ≠ noError then return rc else return noError

/-- `crypto_srv_handle_msg`, `get_key_srv_handle_msg` and `luks_srv_handle_msg`. -/
def handleMsg (srv : Srv ε σ) (envs : Nat → ε) (c d : ChanId) : ServM σ Int := do
  clientTurn d
  let (rc, info) ← onReg (sysGetMsg (some (.chan c)) true)
  if rc ≠ noError then return rc
  else
    match info with
    | none => throw (.ipc .nullDeref)
    | some msgInfo =>
        let s ← get
        let env := envs s.served
        modify fun s => { s with served := s.served + 1 }
        if !srv.malloc env then return errNoMemory
        else
          clientTurn d
          let (rc, stored) ← onReg (sysReadMsg (some (.chan c)) msgInfo.id 0
            (some (.user (iovOf srv.lens (List.replicate srv.lens.sum 0)) 0)))
          if rc < 0 then return rc
          else
            match srv.reply env s.vars stored with
            | none => throw .overwritten
            | some (bytes, vars) =>
                modify fun s => { s with vars := vars }
                replyTo c d msgInfo.id srv.lens bytes

/-- `crypto_srv_chan_handler`, `get_key_srv_chan_handler` and
`luks_srv_chan_handler`. -/
def chanHandler (srv : Srv ε σ) (envs : Nat → ε) (c d : ChanId) (event : UInt32) :
    ServM σ Unit := do
  if polled event ipcHandlePollError || polled event ipcHandlePollHup then throw .closed
  else if polled event ipcHandlePollMsg then
    let rc ← handleMsg srv envs c d
    if rc ≠ 0 then throw .closed else return
  else return

/-- So many passes of the event loop. -/
def serve (srv : Srv ε σ) (envs : Nat → ε) (c d : ChanId) : Nat → ServM σ Unit
  | 0 => pure ()
  | n + 1 => do
      let event ← wait c d
      chanHandler srv envs c d event
      serve srv envs c d n

end

end TX2SecureUart.Hwkey
