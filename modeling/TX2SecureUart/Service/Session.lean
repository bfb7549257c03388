/-
# `Service.Session` — the event loops of the UART service

`main.c` and the event handlers of `trusty_ipc_setup.c`, over the handle table
of the application.  What the kernel answers to the `i`-th `wait` of a loop,
and what `handle_msg` makes of the message, is given from outside: a script.
A script that ends leaves the service waiting.

`calls` is no part of the program: it records the system calls that returned,
with the table as they left it.
-/
import TX2SecureUart.Ipc.Uctx

namespace TX2SecureUart.Service

open Prog Ipc

/-! ## Events -/

/-- `uevent_t`, without the cookie. -/
structure Uevent where
  handle : UInt32
  event : UInt32

/-- `INVALID_IPC_HANDLE` -/
def invalidIpcHandle : UInt32 := 0xFFFFFFFF

/-- `IPC_HANDLE_POLL_READY` -/
def ipcHandlePollReady : UInt32 := 0x1

/-- `IPC_HANDLE_POLL_ERROR` -/
def ipcHandlePollError : UInt32 := 0x2

/-- `IPC_HANDLE_POLL_HUP` -/
def ipcHandlePollHup : UInt32 := 0x4

/-- `IPC_HANDLE_POLL_MSG` -/
def ipcHandlePollMsg : UInt32 := 0x8

/-- `IPC_HANDLE_POLL_SEND_UNBLOCKED` -/
def ipcHandlePollSendUnblocked : UInt32 := 0x10

/-- `ev & bit` -/
def polled (event bit : UInt32) : Bool := event &&& bit ≠ 0

/-! ## Scripts -/

/-- One pass of the loop over a channel: what `wait` brings, and what
`handle_msg` returns if it is called. -/
structure Turn where
  wait : Except ErrCode UInt32
  handleMsg : Int

/-- What `ipc_port_accept` fails with. -/
inductive AcceptError where
  | invalidArgs
  | channelClosed
  | noMsg

def AcceptError.code : AcceptError → Int
  | .invalidArgs => errInvalidArgs
  | .channelClosed => errChannelClosed
  | .noMsg => errNoMsg

/-- What becomes of an event on the port: the outcome of `ipc_port_accept`,
whether the peer's uuid can be copied out, and the events on the channel. -/
structure Connection where
  accept : Except AcceptError ChanId
  copied : Bool
  turns : List Turn

/-- One pass of the loop of `main`. -/
structure PortTurn where
  wait : Except ErrCode UInt32
  connection : Connection

/-! ## System calls -/

inductive SysCall where
  | portCreate
  | wait
  | accept
  | close
deriving DecidableEq

/-- A system call that returned `ret`, and left the table `ctx`. -/
structure Call where
  call : SysCall
  ret : Int
  ctx : Uctx

structure App where
  ctx : Uctx
  /-- `ports[0].port_handle` -/
  portHandle : UInt32
  calls : List Call

/-- The application before `main`. -/
def App.start : App := ⟨.empty, 0, []⟩

inductive Stop where
  /-- the kernel has not answered yet -/
  | blocked
deriving DecidableEq

abbrev AppM := EStateM Stop App

def App.setCtx (s : App) (ctx : Uctx) : App := { s with ctx := ctx }

def App.record (s : App) (call : SysCall) (ret : Int) : App :=
  { s with calls := s.calls ++ [⟨call, ret, s.ctx⟩] }

def record (call : SysCall) (ret : Int) : AppM Int := do
  modify (·.record call ret)
  return ret

/-- `port_create` -/
def portCreate (port : Except ErrCode PortId) : AppM Int := do
  match port with
  | .error e => record .portCreate e
  | .ok p =>
      match Uctx.bitmapFfz (← get).ctx.inuse with
      | none => record .portCreate errNoResources
      | some id =>
          modify fun s => s.setCtx (s.ctx.set id (some (.port p)))
          record .portCreate id.val

/-- `accept`; the handle of the new channel goes into the table before the uuid
of its client is copied out. -/
def accept (port : UInt32) (k : Connection) : AppM Int := do
  match (← get).ctx.checkHandleId port with
  | .error e => record .accept e
  | .ok _ =>
      match k.accept with
      | .error e => record .accept e.code
      | .ok c =>
          match Uctx.bitmapFfz (← get).ctx.inuse with
          | none => record .accept errNoResources
          | some id =>
              modify fun s => s.setCtx (s.ctx.set id (some (.chan c)))
              if !k.copied then
                modify fun s => s.setCtx (s.ctx.set id none)
                record .accept errFault
              else record .accept id.val

/-- `wait`: the error it returns, or the event it stores. -/
def wait (handle : UInt32) (answer : Except ErrCode UInt32) : AppM (Except ErrCode Uevent) := do
  match (← get).ctx.checkHandleId handle with
  | .error e =>
      let _ ← record .wait e
      return .error e
  | .ok _ =>
      match answer with
      | .error e =>
          let _ ← record .wait e
          return .error e
      | .ok event =>
          let _ ← record .wait noError
          return .ok ⟨handle, event⟩

/-- `close` -/
def close (handle : UInt32) : AppM Int := do
  match (← get).ctx.checkHandleId handle with
  | .error e => record .close e
  | .ok id =>
      modify fun s => s.setCtx (s.ctx.set id none)
      record .close noError

/-! ## The service -/

/-- `handle_channel_event`, when `handle_msg` returns `rc`. -/
def handleChannelEvent (ev : Uevent) (rc : Int) : AppM Unit := do
  if polled ev.event ipcHandlePollMsg then
    if rc ≠ noError then
      let _ ← close ev.handle
    return
  if polled ev.event ipcHandlePollHup then
    let _ ← close ev.handle
    return

/-- The loop of `handle_port_event`. -/
def serve (chan : UInt32) : List Turn → AppM Unit
  | [] => throw .blocked
  | turn :: rest => do
      match ← wait chan turn.wait with
      | .error _ => return
      | .ok cev =>
          handleChannelEvent cev turn.handleMsg
          if polled cev.event ipcHandlePollHup then return
          serve chan rest

/-- `handle_port_event` -/
def handlePortEvent (ev : Uevent) (k : Connection) : AppM Unit := do
  if polled ev.event ipcHandlePollError || polled ev.event ipcHandlePollHup ||
      polled ev.event ipcHandlePollMsg || polled ev.event ipcHandlePollSendUnblocked then
    return
  if polled ev.event ipcHandlePollReady then
    let rc ← accept ev.handle k
    if rc < 0 then return
    serve (UInt32.ofInt rc) k.turns

/-- `init_secure_port` -/
def initSecurePort (port : Except ErrCode PortId) : AppM Int := do
  let rc ← portCreate port
  modify fun s => { s with portHandle := UInt32.ofInt rc }
  return rc

/-- `kill_secure_port` -/
def killSecurePort : AppM Unit := do
  if (← get).portHandle ≠ invalidIpcHandle then
    let _ ← close (← get).portHandle
    modify fun s => { s with portHandle := invalidIpcHandle }

/-- The loop of `main`.  The test of `rc` that would end it follows a
successful `wait`, whose `rc` is `NO_ERROR`. -/
def eventLoop (port : UInt32) : List PortTurn → AppM Int
  | [] => throw .blocked
  | turn :: rest => do
      match ← wait port turn.wait with
      | .error _ => eventLoop port rest
      | .ok ev =>
          handlePortEvent ev turn.connection
          eventLoop port rest

/-- `main` -/
def main (port : Except ErrCode PortId) (turns : List PortTurn) : AppM Int := do
  let rc ← initSecurePort port
  if rc < 0 then
    killSecurePort
    return -1
  eventLoop (UInt32.ofInt rc) turns

/-! ## How a session ends -/

/-- The loop over a channel ends with this pass, or with the next `wait`, which
finds the channel closed. -/
def Turn.ends (turn : Turn) : Bool :=
  match turn.wait with
  | .error _ => true
  | .ok event => polled event ipcHandlePollHup ||
      (polled event ipcHandlePollMsg && turn.handleMsg ≠ noError)

/-- The wait fails, or a message and a hang-up come together and the message is
handled. -/
def Turn.leaks (turn : Turn) : Bool :=
  match turn.wait with
  | .error _ => true
  | .ok event => polled event ipcHandlePollHup && polled event ipcHandlePollMsg &&
      turn.handleMsg = noError

/-- The pass with which the session ends is one that leaks. -/
def endsBadly (turns : List Turn) : Bool := (turns.find? Turn.ends).any Turn.leaks

section

variable {E : Stop → App → Prop} {s : App} {ctx : Uctx} {id : HandleId} {h : HandlePtr}
  {c : ChanId} {P : Call → Prop}

@[simp] theorem App.setCtx_ctx : (s.setCtx ctx).ctx = ctx := rfl
@[simp] theorem App.setCtx_calls : (s.setCtx ctx).calls = s.calls := rfl
@[simp] theorem App.setCtx_portHandle : (s.setCtx ctx).portHandle = s.portHandle := rfl
@[simp] theorem App.record_ctx {call : SysCall} {ret : Int} : (s.record call ret).ctx = s.ctx := rfl

@[simp] theorem wp_record {call : SysCall} {ret : Int} {Q : Int → App → Prop} :
    wp (record call ret) Q E s ↔ Q ret (s.record call ret) := by
  simp only [record, wp_bind, wp_modify, wp_pure]

/-- All calls so far are as `P` says. -/
def App.All (P : Call → Prop) (s : App) : Prop := ∀ c ∈ s.calls, P c

theorem App.All.setCtx (hs : s.All P) : (s.setCtx ctx).All P := hs

theorem App.All.record (hs : s.All P) {call : SysCall} {ret : Int} (hP : P ⟨call, ret, s.ctx⟩) :
    (s.record call ret).All P := by
  intro c hc
  rcases List.mem_append.mp hc with hc | hc
  · exact hs c hc
  · exact List.mem_singleton.mp hc ▸ hP

/-! ## A channel handle -/

/-- `P` holds of all calls with these tables, if `accept` fails for lack of
handles only with a full table. -/
structure Records (P : Call → Prop) (ctx : Uctx) : Prop where
  base : ∀ {call ret}, (call = .accept → ret = errNoResources → ∀ id, ctx.inuse id = true) →
    P ⟨call, ret, ctx⟩
  installed : ∀ {call ret id c}, ctx.handles id = none →
    (call = .accept → ret ≠ errNoResources) → P ⟨call, ret, ctx.set id (some (.chan c))⟩

theorem checkHandleId_set :
    (ctx.set id (some h)).checkHandleId (UInt32.ofInt id.val) = .ok id := by
  rw [Uctx.checkHandleId_ofInt, if_pos]
  rw [Uctx.inuse_iff]
  simp

theorem checkHandleId_free (hid : ctx.handles id = none) :
    ctx.checkHandleId (UInt32.ofInt id.val) = .error ⟨errNotFound, by decide⟩ := by
  rw [Uctx.checkHandleId_ofInt, if_neg]
  rw [Uctx.inuse_iff]
  simp [hid]

/-- Closing the channel takes its handle out of the table. -/
theorem wp_close (hid : ctx.handles id = none) (hr : Records P ctx)
    (hctx : s.ctx = ctx.set id (some (.chan c))) (hs : s.All P) :
    wp (close (UInt32.ofInt id.val)) (fun _ t => t.All P ∧ t.ctx = ctx) E s := by
  simp only [close, wp_bind, wp_get, hctx, checkHandleId_set, wp_modify, wp_record,
    Uctx.set_set_none hid]
  exact ⟨hs.setCtx.record (hr.base (by simp)), rfl⟩

/-- The events that make `handle_channel_event` close the channel. -/
def closesChannel (event : UInt32) (rc : Int) : Bool :=
  if polled event ipcHandlePollMsg then rc ≠ noError else polled event ipcHandlePollHup

theorem wp_handleChannelEvent (hid : ctx.handles id = none) (hr : Records P ctx)
    (hctx : s.ctx = ctx.set id (some (.chan c))) (hs : s.All P) (event : UInt32) (rc : Int) :
    wp (handleChannelEvent ⟨UInt32.ofInt id.val, event⟩ rc)
      (fun _ t => t.All P ∧
        t.ctx = if closesChannel event rc then ctx else ctx.set id (some (.chan c))) E s := by
  have hclose := wp_close (E := E) hid hr hctx hs
  simp only [handleChannelEvent, closesChannel, wp_ite, wp_bind, wp_pure]
  by_cases hmsg : polled event ipcHandlePollMsg
  · by_cases hrc : rc = noError
    · simpa [hmsg, hrc] using ⟨hs, hctx⟩
    · simp only [hmsg, hrc, ne_eq, not_false_eq_true, decide_true, if_true]
      exact hclose
  · by_cases hhup : polled event ipcHandlePollHup
    · simp only [hmsg, hhup, Bool.false_eq_true, if_false, if_true]
      exact hclose
    · simpa [hmsg, hhup] using ⟨hs, hctx⟩

/-- The loop, once the channel is closed. -/
theorem wp_serve_closed (hid : ctx.handles id = none) (hr : Records P ctx)
    (hctx : s.ctx = ctx) (hs : s.All P) : ∀ turns,
    wp (serve (UInt32.ofInt id.val) turns) (fun _ t => t.All P ∧ t.ctx = ctx) (fun _ t => t.All P) s
  | [] => hs
  | turn :: rest => by
      simp only [serve, wait, wp_bind, wp_get, hctx, checkHandleId_free hid, wp_record, wp_pure]
      exact ⟨hs.record (hctx ▸ hr.base (by simp)), hctx⟩

/-- The loop over an open channel, by the passes to come: the handle stays in
the table exactly if the session ends badly. -/
theorem wp_serve (hid : ctx.handles id = none) (hr : Records P ctx) :
    ∀ (turns : List Turn) {s : App}, s.ctx = ctx.set id (some (.chan c)) → s.All P →
      wp (serve (UInt32.ofInt id.val) turns)
        (fun _ t => t.All P ∧ t.ctx = if endsBadly turns then ctx.set id (some (.chan c)) else ctx)
        (fun _ t => t.All P) s
  | [], _, _, hs => hs
  | turn :: rest, s, hctx, hs => by
      simp only [serve, wait, wp_bind, wp_get, hctx, checkHandleId_set]
      cases hwait : turn.wait with
      | error e =>
          have hends : endsBadly (turn :: rest) = true := by
            simp [endsBadly, Turn.ends, Turn.leaks, hwait]
          simp only [wp_bind, wp_record, wp_pure, hends, if_true]
          exact ⟨hs.record (hctx ▸ hr.installed hid (by simp)), hctx⟩
      | ok event =>
          simp only [wp_bind, wp_record, wp_pure]
          refine wp_mono (wp_handleChannelEvent hid hr (s := s.record .wait noError) hctx
            (hs.record (hctx ▸ hr.installed hid (by simp))) event turn.handleMsg) (fun _ t ht => ?_)
            fun _ _ he => he
          obtain ⟨ht, hctx'⟩ := ht
          simp only [wp_ite, wp_pure]
          by_cases hends : turn.ends
          · have hbad : endsBadly (turn :: rest) = turn.leaks := by
              simp [endsBadly, hends]
            have hclosed : closesChannel event turn.handleMsg = !turn.leaks := by
              simp only [Turn.ends, Turn.leaks, closesChannel, hwait] at hends ⊢
              grind
            rw [hclosed] at hctx'
            by_cases hhup : polled event ipcHandlePollHup
            · rw [if_pos hhup, hbad]
              refine ⟨ht, hctx'.trans ?_⟩
              cases turn.leaks <;> rfl
            · -- the message was not handled, and the next wait fails
              have hleaks : turn.leaks = false := by
                simp [Turn.leaks, hwait, hhup]
              rw [if_neg hhup, hbad, hleaks]
              rw [hleaks] at hctx'
              exact wp_serve_closed hid hr hctx' ht rest
          · have hbad : endsBadly (turn :: rest) = endsBadly rest := by
              simp [endsBadly, hends]
            have hgo : polled event ipcHandlePollHup = false ∧
                closesChannel event turn.handleMsg = false := by
              simp only [Turn.ends, closesChannel, hwait] at hends ⊢
              grind
            rw [hgo.2] at hctx'
            rw [hgo.1, hbad]
            exact wp_serve hid hr rest hctx' ht

/-! ## A port event -/

/-- `accept` returns a handle. -/
structure Accepts (ctx : Uctx) (port : UInt32) (k : Connection) : Prop where
  port : ∃ id, ctx.checkHandleId port = .ok id
  accept : ∃ c, k.accept = .ok c
  slot : ∃ id, ctx.inuse id = false
  copied : k.copied = true

theorem wp_accept (hr : Records P s.ctx) (hs : s.All P) (port : UInt32) (k : Connection) :
    wp (accept port k) (fun rc t => t.All P ∧
      ((¬ Accepts s.ctx port k ∧ rc < 0 ∧ t.ctx = s.ctx) ∨
        Accepts s.ctx port k ∧ ∃ id c, s.ctx.handles id = none ∧ rc = (id.val : Int) ∧
          t.ctx = s.ctx.set id (some (.chan c)))) E s := by
  have hcodes : errNotFound ≠ errNoResources ∧ errBadHandle ≠ errNoResources ∧
      errFault ≠ errNoResources ∧ ∀ e : AcceptError, e.code < 0 ∧ e.code ≠ errNoResources := by
    refine ⟨by decide, by decide, by decide, fun e => ?_⟩
    cases e <;> decide
  obtain ⟨hnotFound, hbadHandle, hfault, haccept⟩ := hcodes
  simp only [accept, wp_bind, wp_get]
  cases hport : s.ctx.checkHandleId port with
  | error e =>
      have he : e.val ≠ errNoResources := by
        rcases Uctx.checkHandleId_error hport with he | he <;> rw [he] <;> assumption
      rw [wp_record]
      refine ⟨hs.record (hr.base fun _ hret => absurd hret he), Or.inl ⟨fun ha => ?_, e.2, rfl⟩⟩
      obtain ⟨id, hid⟩ := ha.port
      rw [hport] at hid
      cases hid
  | ok portId =>
      cases hk : k.accept with
      | error e =>
          simp only [wp_record]
          refine ⟨hs.record (hr.base fun _ hret => absurd hret (haccept e).2),
            Or.inl ⟨fun ha => ?_, (haccept e).1, rfl⟩⟩
          obtain ⟨c, hc⟩ := ha.accept
          rw [hk] at hc
          cases hc
      | ok c =>
          cases hslot : Uctx.bitmapFfz s.ctx.inuse with
          | none =>
              have hfull := Uctx.bitmapFfz_none.mp hslot
              simp only [wp_bind, wp_get, hslot, wp_record]
              refine ⟨hs.record (hr.base fun _ _ => hfull), Or.inl ⟨fun ha => ?_, by decide, rfl⟩⟩
              obtain ⟨id, hid⟩ := ha.slot
              rw [hfull id] at hid
              cases hid
          | some id =>
              have hfree := Uctx.bitmapFfz_some hslot
              simp only [wp_bind, wp_get, hslot, wp_modify, wp_ite, wp_record]
              by_cases hcopied : k.copied
              · rw [if_neg (by simp [hcopied])]
                refine ⟨hs.setCtx.record (hr.installed hfree fun _ => ?_),
                  Or.inr ⟨⟨⟨_, hport⟩, ⟨_, hk⟩, ⟨id, ?_⟩, hcopied⟩, id, c, hfree, rfl, rfl⟩⟩
                · show (id.val : Int) ≠ errNoResources
                  have : errNoResources < 0 := by decide
                  omega
                · exact (Uctx.handles_eq_none _ _).mp hfree
              · rw [if_pos (by simp [hcopied])]
                have hundo : (s.ctx.set id (some (.chan c))).set id none = s.ctx :=
                  Uctx.set_set_none hfree
                refine ⟨hs.setCtx.setCtx.record ?_, Or.inl ⟨fun ha => hcopied ha.copied,
                  by decide, hundo⟩⟩
                simp only [App.setCtx_ctx, hundo]
                exact hr.base fun _ hret => absurd hret hfault

/-- The event opens a channel. -/
structure Opens (ctx : Uctx) (ev : Uevent) (k : Connection) : Prop where
  ready : polled ev.event ipcHandlePollReady = true
  others : (polled ev.event ipcHandlePollError || polled ev.event ipcHandlePollHup ||
    polled ev.event ipcHandlePollMsg || polled ev.event ipcHandlePollSendUnblocked) = false
  accepts : Accepts ctx ev.handle k

theorem wp_handlePortEvent (hr : Records P s.ctx) (hs : s.All P) (ev : Uevent) (k : Connection) :
    wp (handlePortEvent ev k) (fun _ t => t.All P ∧
      ((¬ (Opens s.ctx ev k ∧ endsBadly k.turns = true) ∧ t.ctx = s.ctx) ∨
        (Opens s.ctx ev k ∧ endsBadly k.turns = true) ∧ ∃ id c, s.ctx.handles id = none ∧
          t.ctx = s.ctx.set id (some (.chan c))))
      (fun _ t => t.All P) s := by
  simp only [handlePortEvent, wp_ite, wp_bind, wp_pure]
  split
  · rename_i hothers
    exact ⟨hs, Or.inl ⟨fun ho => absurd hothers (by simp [ho.1.others]), trivial⟩⟩
  rename_i hothers
  split
  · rename_i hready
    refine wp_conseq (wp_accept hr hs ev.handle k) fun rc t ht => ?_
    obtain ⟨ht, ⟨hnot, hneg, hctx⟩ | ⟨haccepts, id, c, hfree, rfl, hctx⟩⟩ := ht
    · rw [if_pos hneg]
      exact ⟨ht, Or.inl ⟨fun ho => hnot ho.1.accepts, hctx⟩⟩
    · rw [if_neg (by omega)]
      refine wp_conseq (wp_serve hfree hr k.turns hctx ht) fun _ u hu => ⟨hu.1, ?_⟩
      have hopens : Opens s.ctx ev k := ⟨hready, by simpa using hothers, haccepts⟩
      cases hbad : endsBadly k.turns with
      | false => exact Or.inl ⟨by simp, by simpa [hbad] using hu.2⟩
      | true => exact Or.inr ⟨⟨hopens, rfl⟩, id, c, hfree, by simpa [hbad] using hu.2⟩
  · rename_i hready
    exact ⟨hs, Or.inl ⟨fun ho => hready ho.1.ready, trivial⟩⟩

/-! ## `main` -/

/-- The table holds at most a port and one channel. -/
def PortAndChannel (ctx : Uctx) : Prop :=
  ∃ port chan, ∀ id h, ctx.handles id = some h →
    (id = port ∧ ∃ p, h = .port p) ∨ (id = chan ∧ ∃ c, h = .chan c)

/-- The table is small, and the call was no `accept` that found it full. -/
def Bounded (call : Call) : Prop :=
  PortAndChannel call.ctx ∧ ¬ (call.call = .accept ∧ call.ret = errNoResources)

/-- The table with the port. -/
def portTable (port : HandleId) (p : PortId) : Uctx := Uctx.empty.set port (some (.port p))

theorem portTable_handles {port : HandleId} {p : PortId}
    (hid : (portTable port p).handles id = some h) : id = port ∧ h = .port p := by
  simp only [portTable, Uctx.set_handles] at hid
  split at hid
  · rename_i heq
    exact ⟨heq, (Option.some.inj hid).symm⟩
  · exact nomatch hid

theorem records_portTable (port : HandleId) (p : PortId) : Records Bounded (portTable port p) where
  base := fun {call ret} hfull => by
    refine ⟨⟨port, port, fun id h hid => ?_⟩, fun ⟨hcall, hret⟩ => ?_⟩
    · obtain ⟨rfl, rfl⟩ := portTable_handles hid
      exact Or.inl ⟨rfl, p, rfl⟩
    · -- two slots cannot both be the port's
      have hall : ∀ id, id = port := fun id => by
        have huse := hfull hcall hret id
        rw [Uctx.inuse_iff, Option.isSome_iff_exists] at huse
        obtain ⟨h, hh⟩ := huse
        exact (portTable_handles hh).1
      have h01 : (0 : HandleId) = 1 := (hall 0).trans (hall 1).symm
      exact absurd h01 (by decide)
  installed := fun {call ret id c} hfree hret => by
    refine ⟨⟨port, id, fun i h hi => ?_⟩, fun ⟨hcall, hno⟩ => hret hcall hno⟩
    rw [Uctx.set_handles] at hi
    split at hi
    · rename_i heq
      exact Or.inr ⟨heq, c, (Option.some.inj hi).symm⟩
    · obtain ⟨rfl, rfl⟩ := portTable_handles hi
      exact Or.inl ⟨rfl, p, rfl⟩

/-- The loop of `main`, as long as no session ends badly. -/
theorem wp_eventLoop (hr : Records P ctx) (port : HandleId) :
    ∀ (turns : List PortTurn) {s : App}, s.ctx = ctx → s.All P →
      (∀ turn ∈ turns, endsBadly turn.connection.turns = false) →
      wp (eventLoop (UInt32.ofInt port.val) turns) (fun _ t => t.All P) (fun _ t => t.All P) s
  | [], _, _, hs, _ => hs
  | turn :: rest, s, hctx, hs, hgood => by
      have hwait : ∀ ret, (s.record .wait ret).All P := fun ret =>
        hs.record (hctx ▸ hr.base nofun)
      have hrest : ∀ t : App, t.All P ∧ t.ctx = ctx →
          wp (eventLoop (UInt32.ofInt port.val) rest) (fun _ t => t.All P) (fun _ t => t.All P) t :=
        fun t ht => wp_eventLoop hr port rest ht.2 ht.1 fun turn hturn =>
          hgood turn (List.mem_cons_of_mem _ hturn)
      simp only [eventLoop, wait, wp_bind, wp_get]
      cases s.ctx.checkHandleId (UInt32.ofInt port.val) with
      | error e =>
          simp only [wp_bind, wp_record, wp_pure]
          exact hrest _ ⟨hwait _, hctx⟩
      | ok id =>
          cases turn.wait with
          | error e =>
              simp only [wp_bind, wp_record, wp_pure]
              exact hrest _ ⟨hwait _, hctx⟩
          | ok event =>
              simp only [wp_bind, wp_record, wp_pure]
              refine wp_conseq (wp_handlePortEvent (s := s.record .wait noError) (hctx ▸ hr)
                (hwait _) ⟨UInt32.ofInt port.val, event⟩ turn.connection) fun _ t ht => ?_
              obtain ⟨ht, ⟨-, hctx'⟩ | ⟨⟨-, hbad⟩, -⟩⟩ := ht
              · exact hrest t ⟨ht, hctx'.trans hctx⟩
              · exact absurd hbad (by simp [hgood turn (List.mem_cons_self ..)])

/-- Closing the port when there is none. -/
theorem wp_killSecurePort_empty (hctx : s.ctx = .empty) (hs : s.All P)
    (hP : ∀ ret, P ⟨.close, ret, .empty⟩) : wp killSecurePort (fun _ t => t.All P) E s := by
  have hclosed : ∀ i, ∃ e, Uctx.empty.checkHandleId i = .error e := fun i => by
    unfold Uctx.checkHandleId
    split
    · exact ⟨_, rfl⟩
    · exact ⟨_, rfl⟩
  simp only [killSecurePort, wp_bind, wp_get, wp_ite, wp_pure, close, hctx]
  split
  · obtain ⟨e, he⟩ := hclosed s.portHandle
    rw [he, wp_record]
    exact hs.record (hctx ▸ hP e)
  · exact hs

theorem wp_main (port : Except ErrCode PortId) (turns : List PortTurn)
    (hgood : ∀ turn ∈ turns, endsBadly turn.connection.turns = false) :
    wp (main port turns) (fun _ t => t.All Bounded) (fun _ t => t.All Bounded) .start := by
  have hempty : ∀ call ret, call ≠ .accept → Bounded ⟨call, ret, .empty⟩ := fun call ret hcall =>
    ⟨⟨0, 0, fun _ _ hid => by cases hid⟩, fun h => hcall h.1⟩
  have hstart : App.start.All Bounded := fun c hc => by cases hc
  simp only [main, initSecurePort, portCreate, wp_bind]
  cases port with
  | error e =>
      have hcreate := hstart.record (hempty .portCreate e (by decide))
      rw [wp_record]
      simp only [wp_bind, wp_modify, wp_pure, wp_ite]
      rw [if_pos e.2]
      exact wp_killSecurePort_empty rfl hcreate fun ret => hempty .close ret (by decide)
  | ok p =>
      have hslot : Uctx.bitmapFfz App.start.ctx.inuse = some 0 := by decide
      have hr := records_portTable 0 p
      have hcreate : ((App.start.setCtx (portTable 0 p)).record .portCreate
          ((0 : HandleId).val : Int)).All Bounded := hstart.setCtx.record (hr.base (by simp))
      simp only [wp_bind, wp_get, hslot, wp_modify, wp_record]
      rw [wp_pure, if_neg (by decide)]
      exact wp_eventLoop hr 0 turns rfl hcreate hgood

/-- No handle is left behind: every slot that was free is free again.  `accept`
puts the handle of the channel into a free slot. -/
def ChannelClosed (s t : App) : Prop := ∀ id, s.ctx.handles id = none → t.ctx.handles id = none

/-- A port event leaves no handle behind, whatever happens on the channel,
unless the session ends badly; and in every run of `main` in which no session
does, the table never holds more than the port and one channel, and `accept`
never finds it full. -/
theorem handlePortEvent_closes (ev : Uevent) (k : Connection) (s t : App)
    (port : Except ErrCode PortId) (turns : List PortTurn) :
    (handlePortEvent ev k s = .ok ⟨⟩ t →
      (ChannelClosed s t ↔ ¬ (Opens s.ctx ev k ∧ endsBadly k.turns = true))) ∧
    ((∀ turn ∈ turns, endsBadly turn.connection.turns = false) →
      ∀ call ∈ (stateOf (main port turns .start)).calls, Bounded call) := by
  refine ⟨fun hrun => ?_, fun hgood => ?_⟩
  · have hany : Records (fun _ => True) s.ctx := ⟨fun _ => trivial, fun _ _ => trivial⟩
    obtain ⟨-, ⟨hnot, hctx⟩ | ⟨hbad, id, c, hfree, hctx⟩⟩ :=
      wp_ok (wp_handlePortEvent hany (fun _ _ => trivial) ev k) hrun
    · exact iff_of_true (fun id hid => hctx ▸ hid) hnot
    · refine iff_of_false (fun hclosed => ?_) (not_not.mpr hbad)
      have hleft := hclosed id hfree
      rw [hctx, Uctx.set_self] at hleft
      exact nomatch hleft
  · have hall := wp_main port turns hgood
    cases hrun : main port turns .start with
    | ok a t => exact wp_ok hall hrun
    | error e t => exact wp_error hall hrun

end

/-! ## Sessions that end well, and badly -/

/-- A client connects, and this happens on the channel. -/
def connects (turns : List Turn) : Connection := ⟨.ok 0, true, turns⟩

/-- A message is handled, and then the client hangs up. -/
def politeClient : List Turn := [⟨.ok ipcHandlePollMsg, 0⟩, ⟨.ok ipcHandlePollHup, 0⟩]

/-- The service with its port. -/
def serving : App := App.start.setCtx (portTable 0 0)

def session (turns : List Turn) : EStateM.Result Stop App Unit :=
  handlePortEvent ⟨0, ipcHandlePollReady⟩ (connects turns) serving

theorem handlePortEvent_closes_polite :
    (ChannelClosed serving (stateOf (session politeClient)) ↔
      ¬ (Opens serving.ctx ⟨0, ipcHandlePollReady⟩ (connects politeClient) ∧
        endsBadly politeClient = true)) ∧
    ∀ call ∈ (stateOf (main (.ok 0) [⟨.ok ipcHandlePollReady, connects politeClient⟩] .start)).calls,
      Bounded call :=
  have h := handlePortEvent_closes ⟨0, ipcHandlePollReady⟩ (connects politeClient) serving
    (stateOf (session politeClient)) (.ok 0) [⟨.ok ipcHandlePollReady, connects politeClient⟩]
  ⟨h.1 (eq_ok_of_valueOf (by decide +kernel)), h.2 (by decide)⟩

/-- A message and a hang-up together. -/
def hastyClient : List Turn := [⟨.ok (ipcHandlePollMsg ||| ipcHandlePollHup), 0⟩]

/-- The `wait` for the channel fails. -/
def failingWait : List Turn := [⟨.error ⟨errFault, by decide⟩, 0⟩]

/-- `handle_port_event` returns, and the handle of the channel stays in the
table. -/
def Leaks (turns : List Turn) : Prop :=
  session turns = .ok ⟨⟩ (stateOf (session turns)) ∧
    serving.ctx.handles 1 = none ∧
    (stateOf (session turns)).ctx.handles 1 = some (.chan 0) ∧
    ¬ ChannelClosed serving (stateOf (session turns))

theorem leaks_of_held {turns : List Turn} (hrun : valueOf (session turns) = some ⟨⟩)
    (hheld : (stateOf (session turns)).ctx.handles 1 = some (.chan 0)) : Leaks turns := by
  have hfree : serving.ctx.handles 1 = none := by decide +kernel
  refine ⟨eq_ok_of_valueOf hrun, hfree, hheld, fun hclosed => ?_⟩
  rw [hclosed 1 hfree] at hheld
  exact nomatch hheld

theorem handlePortEvent_leaks : Leaks hastyClient ∧ Leaks failingWait :=
  ⟨leaks_of_held (by decide +kernel) (by decide +kernel),
    leaks_of_held (by decide +kernel) (by decide +kernel)⟩

end TX2SecureUart.Service
