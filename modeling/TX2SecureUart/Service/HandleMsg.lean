/-
# `Service.HandleMsg` — a request and its replies

`handle_msg` obtains a request, reads it, sends the reply twice, and retires
the request.  Between its calls the client makes calls of its own, and may
close its end.  What the camera answers only shows in the bytes of the reply.
-/
import TX2SecureUart.Service.Channel

namespace TX2SecureUart.Service

open Prog Ipc

/-! ## The exchange -/

/-- `sizeof(msg_buf)` -/
def sizeofMsgBuf : Nat := 4 + 4 + 1018 * 4

/-- The contents of `msg_buf`. -/
abbrev MsgBuf := {bytes : List UInt8 // bytes.length = sizeofMsgBuf}

/-- What the client does between two calls of the service: it gets, reads and
retires messages, and then it may close its handle. -/
structure ClientTurn where
  calls : List {call : MsgCall // call.sends = none}
  closes : Bool

/-- What happens around `handle_msg`: the client's turns, and `msg_buf` when a
request is read into it and when the camera's answer has been put there. -/
structure Surroundings where
  afterGet : ClientTurn
  afterRead : ClientTurn
  betweenSends : ClientTurn
  beforePut : ClientTurn
  request : MsgBuf
  response : MsgBuf

/-- `client` says whether the client still has its handle; the calls of the
service are recorded with their results. -/
structure Exchange where
  reg : Registry
  client : Bool
  log : List (MsgCall × MsgResult)

abbrev ExchangeM := EStateM Fault Exchange

def inExchange {α : Type} (m : IpcM α) : ExchangeM α :=
  zoom Exchange.reg (fun reg t => { t with reg := reg }) m

def Exchange.record (s : Exchange) (call : MsgCall) (r : MsgResult) : Exchange :=
  { s with log := s.log ++ [(call, r)] }

/-- A call of the service. -/
def logged {α : Type} (call : MsgCall) (result : α → MsgResult) (m : IpcM α) : ExchangeM α := do
  let a ← inExchange m
  modify (·.record call (result a))
  return a

def clientCalls (d : ChanId) : List {call : MsgCall // call.sends = none} → ExchangeM Unit
  | [] => pure ()
  | call :: rest => do
      let _ ← inExchange (call.val.run (some (.chan d)))
      clientCalls d rest

def clientTurn (d : ChanId) (k : ClientTurn) : ExchangeM Unit := do
  if (← get).client then
    clientCalls d k.calls
    if k.closes then
      inExchange (handleClose (.chan d))
      modify fun s => { s with client := false }

/-- `send_msg` -/
def sendMsg (c : ChanId) (msg : MsgDesc) : ExchangeM Int :=
  logged (.sysSend (some msg)) .ret (sysSendMsg (some (.chan c)) (some msg))

/-- The end of `handle_msg`: `rc` bytes of a request were read, and the camera
has been asked. -/
def replyTo (c d : ChanId) (k : Surroundings) (msgInf : MsgInfo) (rc : Int) : ExchangeM Int := do
  let msg : MsgDesc := .user [.mapped rc.toNat k.response.val] 0
  let rc ← sendMsg c msg
  if rc < 0 then return rc
  clientTurn d k.betweenSends
  let rc ← sendMsg c msg
  if rc < 0 then return rc
  clientTurn d k.beforePut
  let rc ← logged (.put msgInf.id) .ret (ipcPutMsg (some (.chan c)) msgInf.id)
  if rc ≠ noError then return rc
  return noError

/-- `handle_msg`, on the channel `c` of the client `d`. -/
def handleMsg (c d : ChanId) (k : Surroundings) : ExchangeM Int := do
  let (rc, info) ← logged (.sysGet true) (fun r => .info r.1 r.2)
    (sysGetMsg (some (.chan c)) true)
  if rc = errNoMsg then return noError
  if rc ≠ noError then return rc
  match info with
  | none => throw .nullDeref
  | some msgInf =>
      clientTurn d k.afterGet
      let msg : MsgDesc := .user [.mapped sizeofMsgBuf k.request.val] 0
      let (rc, _) ← logged (.sysRead msgInf.id 0 (some msg)) (fun r => .bytes r.1 r.2)
        (sysReadMsg (some (.chan c)) msgInf.id 0 (some msg))
      if rc < 0 then return rc
      clientTurn d k.afterRead
      replyTo c d k msgInf rc

/-! ## One reply for one request -/

/-- The replies that were enqueued: a send that does not fail enqueues one
message. -/
def repliesIn (log : List (MsgCall × MsgResult)) : Nat :=
  log.countP fun e => e.1.sends.isSome && match e.2 with
    | .ret n => 0 ≤ n
    | _ => false

/-- A request was retired. -/
def retiredIn (log : List (MsgCall × MsgResult)) : Prop :=
  ∃ msgId, (MsgCall.put msgId, MsgResult.ret noError) ∈ log

/-- `own` and `reply` are the two items when `handle_msg` is called.  A client
that has room then has retired whatever it was sent before. -/
structure Served (own reply : MsgItemState) (rc : Int) (log : List (MsgCall × MsgResult)) :
    Prop where
  /-- if there was a request, success means one reply, and the request retired -/
  once : own = .filled → rc = noError → repliesIn log = 1 ∧ retiredIn log
  /-- `handle_channel_event` does not close the channel for a full queue -/
  kept : reply = .free → rc ≠ errNotEnoughBuffer

/-- Whether the client is there after its turn, and the state of its item. -/
def ClientTurn.after (k : ClientTurn) : Bool × MsgItemState → Bool × MsgItemState
  | (true, st) => (!k.closes, k.calls.foldl (fun st call => slotAfter st call.val) st)
  | (false, st) => (false, st)

/-- The second reply makes a difference: there is a request, the client is
there with room for a first reply, and it still is there when the second is
sent, with room for it, or having had room for one from the beginning. -/
structure SendsTwice (client : Bool) (own reply : MsgItemState) (k : Surroundings) : Prop where
  request : own = .filled
  first : k.afterRead.after (k.afterGet.after (client, reply)) = (true, .free)
  second : (k.betweenSends.after (true, .filled)).1 = true
  room : (k.betweenSends.after (true, .filled)).2 = .free ∨ reply = .free

section

variable {E : Fault → Exchange → Prop} {c d : ChanId} {s : Exchange}
  {own reply : MsgItemState} {client : Bool}

@[simp] theorem wp_inExchange {α : Type} {m : IpcM α} {Q : α → Exchange → Prop} :
    wp (inExchange m) Q E s ↔ wp m (fun a reg => Q a { s with reg := reg })
      (fun e reg => E e { s with reg := reg }) s.reg := wp_zoom

@[simp] theorem wp_logged {α : Type} {call : MsgCall} {result : α → MsgResult} {m : IpcM α}
    {Q : α → Exchange → Prop} :
    wp (logged call result m) Q E s ↔
      wp m (fun a reg => Q a (Exchange.record { s with reg := reg } call (result a)))
        (fun e reg => E e { s with reg := reg }) s.reg := by
  simp only [logged, wp_bind, wp_inExchange, wp_modify, wp_pure]

/-- The exchange stands at `p`: whether the client is there, and its item. -/
structure At (c d : ChanId) (log : List (MsgCall × MsgResult)) (own : MsgItemState)
    (p : Bool × MsgItemState) (s : Exchange) : Prop where
  log : s.log = log
  client : s.client = p.1
  stands : Stands c d s.reg p.1 own p.2

/-- An item that is free stays free: the client sends nothing to itself. -/
theorem ClientTurn.after_free (k : ClientTurn) (b : Bool) : (k.after (b, .free)).2 = .free := by
  cases b with
  | false => rfl
  | true =>
      have hfold : ∀ l : List {call : MsgCall // call.sends = none},
          l.foldl (fun st call => slotAfter st call.val) MsgItemState.free = .free := fun l => by
        induction l with
        | nil => rfl
        | cons call l ih => simpa [slotAfter] using ih
      exact hfold k.calls

theorem wp_clientCalls {log : List (MsgCall × MsgResult)} :
    ∀ (l : List {call : MsgCall // call.sends = none}) {s : Exchange} {st : MsgItemState},
      At c d log own (true, st) s →
      wp (clientCalls d l)
        (fun _ => At c d log own (true, l.foldl (fun st call => slotAfter st call.val) st))
        (fun _ _ => False) s
  | [], _, _, h => h
  | call :: rest, s, st, h => by
      simp only [clientCalls, wp_bind, wp_inExchange]
      exact wp_conseq (h.stands.wp_clientCall call.property) fun _ t ht =>
        wp_clientCalls rest ⟨h.log, h.client, ht⟩

theorem wp_clientTurn {log : List (MsgCall × MsgResult)} {p : Bool × MsgItemState}
    (k : ClientTurn) (h : At c d log own p s) :
    wp (clientTurn d k) (fun _ => At c d log own (k.after p)) (fun _ _ => False) s := by
  obtain ⟨b, st⟩ := p
  have hclient : s.client = b := h.client
  simp only [clientTurn, wp_bind, wp_get, wp_ite, wp_pure, hclient]
  cases b with
  | false => exact h
  | true =>
      rw [if_pos rfl]
      refine wp_conseq (wp_clientCalls k.calls h) fun _ t ht => ?_
      simp only [ClientTurn.after]
      cases hcloses : k.closes with
      | false => exact ht
      | true =>
          simp only [if_true, wp_bind, wp_inExchange, wp_modify]
          exact wp_conseq ht.stands.wp_handleClose fun _ u hu => ⟨ht.log, rfl, hu⟩

theorem wp_sendMsg {log : List (MsgCall × MsgResult)} {p : Bool × MsgItemState} {n : Nat}
    {bytes : List UInt8} (hn : n ≤ bytes.length) (h : At c d log own p s) :
    wp (sendMsg c (.user [.mapped n bytes] 0))
      (fun rc t => (p.1 = false → rc = errChannelClosed) ∧
        (p.1 = true → p.2 ≠ .free → rc = errNotEnoughBuffer) ∧
        (p = (true, .free) → 0 ≤ rc ∧
          At c d (log ++ [(.sysSend (some (.user [.mapped n bytes] 0)), .ret rc)]) own
            (true, .filled) t))
      (fun _ _ => False) s := by
  simp only [sendMsg, wp_logged]
  refine wp_conseq (h.stands.wp_sendMsg hn) fun rc t ht => ?_
  obtain ⟨hgone, hfull, hroom⟩ := ht
  refine ⟨fun hp => (hgone hp).1, fun hp hst => (hfull hp hst).1, ?_⟩
  rintro rfl
  obtain ⟨hrc, hstands⟩ := hroom rfl rfl
  exact ⟨hrc, by rw [Exchange.record, h.log], h.client, hstands⟩

/-- Two replies are one too many. -/
theorem repliesIn_two {msg : Option MsgDesc} {r r' : Int} {a b e : MsgCall × MsgResult}
    (hr : 0 ≤ r) (hr' : 0 ≤ r') (ha : a.1.sends = none) (hb : b.1.sends = none)
    (he : e.1.sends = none) :
    repliesIn ([a, b] ++ [(.sysSend msg, .ret r)] ++ [(.sysSend msg, .ret r')] ++ [e]) = 2 := by
  have hsend : (MsgCall.sysSend msg).sends.isSome = true := rfl
  simp [repliesIn, ha, hb, he, hr, hr', hsend]

/-- An error that is not the one for a full queue. -/
theorem Served.of_error {rc : Int} {log : List (MsgCall × MsgResult)} (hrc : rc < 0)
    (hne : reply = .free → rc ≠ errNotEnoughBuffer) : Served own reply rc log :=
  ⟨fun _ h => by simp [h] at hrc, hne⟩

/-- The replies: `p` is where the client is when the first one is sent. -/
theorem wp_replyTo (k : Surroundings) {p : Bool × MsgItemState} {a b : MsgCall × MsgResult}
    {msgInf : MsgInfo} {rc : Int} (h : At c d [a, b] .read p s) (ha : a.1.sends = none)
    (hb : b.1.sends = none) (hid : msgInf.id = 0) (hrc : 0 ≤ rc ∧ rc ≤ sizeofMsgBuf)
    (hfree : reply = .free → p.2 = .free) :
    wp (replyTo c d k msgInf rc)
      (fun rc t => Served .filled reply rc t.log ↔ ¬ (p = (true, .free) ∧
        (k.betweenSends.after (true, .filled)).1 = true ∧
        ((k.betweenSends.after (true, .filled)).2 = .free ∨ reply = .free)))
      (fun _ _ => False) s := by
  have hn : rc.toNat ≤ k.response.val.length := by
    rw [k.response.property]
    omega
  simp only [replyTo, wp_bind]
  refine wp_conseq (wp_sendMsg hn h) fun r t ht => ?_
  obtain ⟨hgone, hfull, hsent⟩ := ht
  by_cases hp : p = (true, .free)
  · obtain ⟨hr, h'⟩ := hsent hp
    rw [if_neg (Int.not_lt.mpr hr)]
    simp only [wp_bind]
    refine wp_conseq (wp_clientTurn k.betweenSends h') fun _ u hu => ?_
    generalize k.betweenSends.after (true, .filled) = q at hu ⊢
    simp only [wp_bind]
    refine wp_conseq (wp_sendMsg hn hu) fun r' v hv => ?_
    obtain ⟨hgone', hfull', hsent'⟩ := hv
    by_cases hq : q = (true, .free)
    · -- both replies are sent
      obtain ⟨hr', h''⟩ := hsent' hq
      rw [if_neg (Int.not_lt.mpr hr')]
      simp only [wp_bind]
      refine wp_conseq (wp_clientTurn k.beforePut h'') fun _ w hw => ?_
      simp only [wp_bind, wp_logged, hid]
      refine wp_conseq hw.stands.wp_putMsg fun r'' x hx => ?_
      obtain ⟨rfl, -⟩ := hx
      rw [if_neg (not_not.mpr rfl), wp_pure]
      refine iff_of_false (fun hserved => ?_) (not_not.mpr ⟨hp, by simp [hq], by simp [hq]⟩)
      have hone := (hserved.once rfl rfl).1
      simp only [Exchange.record, hw.log] at hone
      rw [repliesIn_two hr hr' ha hb rfl] at hone
      exact absurd hone (by decide)
    · obtain ⟨b', st⟩ := q
      cases b' with
      | false =>
          -- the client is gone
          obtain rfl := hgone' rfl
          rw [if_pos (by decide), wp_pure]
          exact iff_of_true (.of_error (by decide) fun _ => by decide) fun hs => absurd hs.2.1 (by simp)
      | true =>
          -- there is no room for the second reply
          have hst : st ≠ .free := fun hst => hq (by rw [hst])
          obtain rfl := hfull' rfl hst
          rw [if_pos (by decide), wp_pure]
          by_cases hreply : reply = .free
          · exact iff_of_false (fun hserved => hserved.kept hreply rfl)
              (not_not.mpr ⟨hp, rfl, Or.inr hreply⟩)
          · exact iff_of_true (.of_error (by decide) fun hf => absurd hf hreply)
              fun hs => hs.2.2.elim hst hreply
  · obtain ⟨b', st⟩ := p
    cases b' with
    | false =>
        obtain rfl := hgone rfl
        rw [if_pos (by decide), wp_pure]
        exact iff_of_true (.of_error (by decide) fun _ => by decide) fun hs => hp hs.1
    | true =>
        have hst : st ≠ .free := fun hst => hp (by rw [hst])
        obtain rfl := hfull rfl hst
        rw [if_pos (by decide), wp_pure]
        exact iff_of_true (.of_error (by decide) fun hf => absurd (hfree hf) hst)
          fun hs => hp hs.1

/-- What `handle_msg` does, whatever is in the buffer and whatever the client
does: it returns, and it serves the request as it should unless the second
reply makes a difference. -/
theorem wp_handleMsg (k : Surroundings) (h : At c d [] own (client, reply) s) :
    wp (handleMsg c d k)
      (fun rc t => Served own reply rc t.log ↔ ¬ SendsTwice client own reply k)
      (fun _ _ => False) s := by
  simp only [handleMsg, wp_bind, wp_logged]
  refine wp_conseq h.stands.wp_getMsg fun r t ht => ?_
  obtain ⟨rc, info⟩ := r
  obtain ⟨hfilled, hnone⟩ := ht
  by_cases hown : own = .filled
  · subst hown
    obtain ⟨msgInf, hr, hid, hstands⟩ := hfilled rfl
    obtain ⟨rfl, rfl⟩ := Prod.ext_iff.mp hr
    simp only
    rw [if_neg (by decide), if_neg (not_not.mpr rfl)]
    simp only [wp_bind]
    have hget : At c d [(.sysGet true, .info noError (some msgInf))] .read (client, reply)
        (Exchange.record { s with reg := t } (.sysGet true) (.info noError (some msgInf))) :=
      ⟨by simp [Exchange.record, h.log], h.client, hstands⟩
    refine wp_conseq (wp_clientTurn k.afterGet hget) fun _ t₁ h₁ => ?_
    have hrequest : sizeofMsgBuf ≤ k.request.val.length := Nat.le_of_eq k.request.property.symm
    simp only [wp_bind, wp_logged]
    rw [hid]
    refine wp_conseq (h₁.stands.wp_readMsg hrequest) fun r t₂ h₂ => ?_
    obtain ⟨rc, stored⟩ := r
    obtain ⟨hrc, rfl⟩ := h₂
    simp only
    rw [if_neg (Int.not_lt.mpr hrc.1)]
    simp only [wp_bind]
    have hread : At c d [(.sysGet true, .info noError (some msgInf)),
        (.sysRead 0 0 (some (.user [.mapped sizeofMsgBuf k.request.val] 0)), .bytes rc stored)]
        .read (k.afterGet.after (client, reply))
        (t₁.record (.sysRead 0 0 (some (.user [.mapped sizeofMsgBuf k.request.val] 0)))
          (.bytes rc stored)) :=
      ⟨by simp [Exchange.record, h₁.log], h₁.client, h₁.stands⟩
    refine wp_conseq (wp_clientTurn k.afterRead hread) fun _ t₃ h₃ => ?_
    refine wp_conseq (wp_replyTo k h₃ rfl rfl hid hrc fun hf => ?_) fun r u hu => hu.trans ?_
    · rw [hf, ← Prod.mk.eta (p := k.afterGet.after (client, .free)), k.afterGet.after_free,
        k.afterRead.after_free]
    · exact not_congr ⟨fun hs => ⟨rfl, hs.1, hs.2.1, hs.2.2⟩,
        fun hs => ⟨hs.first, hs.second, hs.room⟩⟩
  · obtain ⟨hr, -⟩ := hnone hown
    obtain ⟨rfl, rfl⟩ := Prod.ext_iff.mp hr
    simp only [wp_pure, if_true]
    exact iff_of_true ⟨fun ho => absurd ho hown, fun _ => by decide⟩ fun hs => hown hs.request

/-- `handle_msg` on a channel of the service, wherever it stands: it returns,
and it enqueues one reply and retires the request, without closing the channel
on a client that has room for a reply, exactly unless the second reply makes a
difference. -/
theorem handleMsg_serves_iff {reg : Registry} (h : Stands c d reg client own reply)
    (k : Surroundings) :
    ∃ rc t, handleMsg c d k ⟨reg, client, []⟩ = .ok rc t ∧
      (Served own reply rc t.log ↔ ¬ SendsTwice client own reply k) :=
  wp_total (wp_handleMsg k ⟨rfl, rfl, h⟩)

end

/-! ## A request -/

/-- `V`, terminated: a request of the client `0`. -/
def request : MsgDesc := .user [.mapped 2 [0x56, 0x00]] 0

/-- The client `0` has connected to the server `1`, and sent a request. -/
def afterRequest : Registry := stateOf (sysSendMsg (some (.chan 0)) (some request) afterAccept)

theorem exists_connected {s : Registry} {c d : ChanId} {mq : MsgQueue}
    (hst : (s.chans c).map (·.state) = some .connected) (hpeer : (s.chans c).bind (·.peer) = some d)
    (hq : (s.chans c).bind (·.msgQueue) = some mq) : ∃ C, Connected s c d mq C := by
  obtain ⟨C, hC, hst⟩ := Option.map_eq_some_iff.mp hst
  rw [hC] at hpeer hq
  exact ⟨C, hC, hst, hpeer, hq⟩

theorem stands_afterRequest : Stands 1 0 afterRequest true .filled .free := by
  have haccepted : Stands 1 0 afterAccept true .free .free :=
    stands_of_create reachable_afterAccept (by decide)
      (exists_connected (by decide +kernel) (by decide +kernel) rfl)
      (exists_connected (by decide +kernel) (by decide +kernel) rfl)
  obtain ⟨r, t, hrun, -, -, hsent⟩ := wp_total (haccepted.symm.wp_sendMsg
    (show 2 ≤ ([0x56, 0x00] : List UInt8).length by decide))
  have ht : afterRequest = t := by
    rw [afterRequest, request, hrun]
    rfl
  exact ht ▸ (hsent rfl rfl).2.symm

/-- The client makes these calls while a reply is in its queue, and closes its
handle or not. -/
def between (calls : List {call : MsgCall // call.sends = none}) (closes : Bool) :
    Surroundings where
  afterGet := ⟨[], false⟩
  afterRead := ⟨[], false⟩
  betweenSends := ⟨calls, closes⟩
  beforePut := ⟨[], false⟩
  request := ⟨List.replicate sizeofMsgBuf 0, List.length_replicate⟩
  response := ⟨List.replicate sizeofMsgBuf 0, List.length_replicate⟩

/-- The service handles the request of `afterRequest`. -/
def handled (k : Surroundings) : EStateM.Result Fault Exchange Int :=
  handleMsg 1 0 k ⟨afterRequest, true, []⟩

/-- The client hangs up when it sees a reply. -/
theorem handleMsg_serves_iff_closed :
    ∃ rc t, handleMsg 1 0 (between [] true) ⟨afterRequest, true, []⟩ = .ok rc t ∧
      (Served .filled .free rc t.log ↔ ¬ SendsTwice true .filled .free (between [] true)) :=
  handleMsg_serves_iff stands_afterRequest (between [] true)

/-- A client that gets and retires a reply. -/
def getAndPut : List {call : MsgCall // call.sends = none} := [⟨.sysGet true, rfl⟩, ⟨.put 0, rfl⟩]

/-- A client that takes its time is disconnected for a full queue; and one that
gets and retires the first reply at once gets a second. -/
theorem handleMsg_two_replies :
    Stands 1 0 afterRequest true .filled .free ∧
    (∃ t, handled (between [] false) = .ok errNotEnoughBuffer t ∧
      ¬ Served .filled .free errNotEnoughBuffer t.log) ∧
    ∃ t, handled (between getAndPut false) = .ok noError t ∧ repliesIn t.log = 2 ∧
      ¬ Served .filled .free noError t.log := by
  have htwo : repliesIn (stateOf (handled (between getAndPut false))).log = 2 := by
    decide +kernel
  refine ⟨stands_afterRequest, ⟨_, eq_ok_of_valueOf (by decide +kernel), ?_⟩,
    _, eq_ok_of_valueOf (by decide +kernel), htwo, ?_⟩
  · exact fun hserved => hserved.kept rfl rfl
  · intro hserved
    have hone := (hserved.once rfl rfl).1
    rw [htwo] at hone
    exact absurd hone (by decide)

end TX2SecureUart.Service
