/-
# `Service.Wakeup` — a blocked sender is woken

The owner of a channel makes its calls and its waits one after the other; the
peer makes calls at any moment, also between `chan_poll` and
`chan_finalize_event`.  `SEND_BLOCKED` means that the peer's queue has no free
item, in every state of every run; and a wake-up that the owner is owed is
reported by its next wait.
-/
import TX2SecureUart.Service.Flow

namespace TX2SecureUart.Service

open Prog Ipc

/-! ## The two parties -/

inductive FlowAction where
  /-- the owner makes a call, unless it is waiting -/
  | owner (call : MsgCall)
  | peer (call : MsgCall)
  /-- the owner polls; it waits on while there is no event -/
  | poll
  /-- the wait returns -/
  | finalize
  /-- a wait of the peer returns -/
  | peerFinalize (event : UInt32)

inductive FlowEvent where
  | owner (call : MsgCall) (r : MsgResult)
  | peer (call : MsgCall) (r : MsgResult)
  | reported (event : UInt32)

structure FlowState where
  reg : Registry
  /-- what the wait that is about to return has polled -/
  polled : Option UInt32
  log : List FlowEvent

abbrev FlowM := EStateM Fault FlowState

def onFlow {α : Type} (m : IpcM α) : FlowM α :=
  zoom FlowState.reg (fun reg s => { s with reg := reg }) m

def logEvent (e : FlowEvent) : FlowM Unit := modify fun s => { s with log := s.log ++ [e] }

def FlowAction.run (c d : ChanId) : FlowAction → FlowM Unit
  | .owner call => do
      match (← get).polled with
      | some _ => pure ()
      | none =>
          let r ← onFlow (call.run (some (.chan c)))
          logEvent (.owner call r)
  | .peer call => do
      let r ← onFlow (call.run (some (.chan d)))
      logEvent (.peer call r)
  | .poll => do
      match (← get).polled with
      | some _ => pure ()
      | none =>
          let event ← onFlow (chanPoll c)
          if event ≠ 0 then modify fun s => { s with polled := some event } else pure ()
  | .finalize => do
      match (← get).polled with
      | none => pure ()
      | some event =>
          onFlow (Ql.chanFinalizeEvent c event)
          modify fun s => { s with polled := none }
          logEvent (.reported event)
  | .peerFinalize event => onFlow (Ql.chanFinalizeEvent d event)

def runActions (c d : ChanId) : List FlowAction → FlowM Unit
  | [] => pure ()
  | action :: rest => do
      action.run c d
      runActions c d rest

/-! ## The wake-up that is owed -/

structure Owing where
  /-- a send has failed, and since then nothing was retired -/
  failed : Bool
  /-- a message was retired after a send that failed, and since then no wait has
  reported it -/
  owed : Bool

def Owing.after (o : Owing) : FlowEvent → Owing
  | .owner call r => { o with failed := o.failed || failsSend call r }
  | .peer call r => if retires call r then ⟨false, o.owed || o.failed⟩ else o
  | .reported event =>
      { o with owed := o.owed && !Service.polled event ipcHandlePollSendUnblocked }

def owing (log : List FlowEvent) : Owing := log.foldl Owing.after ⟨false, false⟩

/-- What flow control promises in one state. -/
structure FlowKept (c d : ChanId) (s : FlowState) : Prop where
  /-- a blocked channel has a peer without a free item -/
  blocked : ∀ C D mq', s.reg.chans c = some C → s.reg.chans d = some D → D.msgQueue = some mq' →
    C.auxState.sendBlocked = true → mq'.freeList = []
  /-- the next wait polls at once, and reports the wake-up -/
  next : (owing s.log).owed = true → s.polled = none →
    ∃ event, chanPoll c s.reg = .ok event s.reg ∧
      Service.polled event ipcHandlePollSendUnblocked = true
  /-- or the wait that is about to return does, or leaves it to the next one -/
  current : (owing s.log).owed = true → ∀ event, s.polled = some event →
    Service.polled event ipcHandlePollSendUnblocked = true ∨
      ∃ C, s.reg.chans c = some C ∧ C.auxState.sendUnblocked = true

/-! ## The invariant -/

/-- The flags of the owner, the free items of the peer and the log agree. -/
structure Flowing (num sz : Nat) (c d : ChanId) (s : FlowState) : Prop where
  view : ∃ mq mq' aux, Pair s.reg num sz c d mq mq' ∧ auxOf s.reg c = some aux ∧
    (aux.sendBlocked = true → mq'.freeList = []) ∧
    ((owing s.log).failed = true → aux.sendBlocked = true) ∧
    ((owing s.log).owed = true → aux.sendUnblocked = true ∨
      ∃ event, s.polled = some event ∧ Service.polled event ipcHandlePollSendUnblocked = true)

section

variable {num sz : Nat} {c d : ChanId} {s : FlowState} {reg : Registry} {mq mq' nq : MsgQueue}
  {aux : AuxState} {call : MsgCall} {E : Fault → FlowState → Prop}

theorem owing_append (log : List FlowEvent) (e : FlowEvent) :
    owing (log ++ [e]) = (owing log).after e := by
  rw [owing, List.foldl_append]
  rfl

/-- Without a `put_msg`, no item becomes free. -/
theorem freeList_of_run {ls : List BoxLabel} (hinv : mq.Inv) (hinv' : nq.Inv)
    (hrun : Mailbox.Run mq.mailbox ls nq.mailbox)
    (hput : ∀ i, Mailbox.Label.put i ∉ ls) (hfree : mq.freeList = []) : nq.freeList = [] := by
  have hgrows : ∀ {b b' : Box} {ls : List BoxLabel}, Mailbox.Run b ls b' →
      (∀ i, Mailbox.Label.put i ∉ ls) → b.unretired ≤ b'.unretired := by
    intro b b' ls hrun hput
    induction hrun with
    | nil => exact Nat.le_refl _
    | cons hstep _ ih =>
        refine Nat.le_trans ?_ (ih fun i hi => hput i (List.mem_cons_of_mem _ hi))
        cases hstep with
        | send _ =>
            simp only [Mailbox.unretired, List.length_append, List.length_singleton]
            omega
        | get hw _ =>
            simp only [Mailbox.unretired, hw, List.length_append, List.length_cons, List.length_nil]
            omega
        | put _ => exact absurd (List.mem_cons_self ..) (hput _)
  have hroom := hinv.unretired
  have hroom' := hinv'.unretired
  have hle := hgrows hrun hput
  have hcap : nq.mailbox.capacity = mq.mailbox.capacity := hrun.capacity
  rw [hfree, List.length_nil] at hroom
  exact List.length_eq_zero_iff.mp (by omega)

/-- Only a `put_msg` retires. -/
theorem CallSpec.not_put {own peer : Box} {r : MsgResult} {ls ls' : List BoxLabel}
    (h : CallSpec sz own peer call r ls ls') : (∀ i, Mailbox.Label.put i ∉ ls') ∧
      (retires call r = false → ∀ i, Mailbox.Label.put i ∉ ls) := by
  cases h with
  | sent _ _ => exact ⟨by simp, by simp⟩
  | got _ _ _ => exact ⟨by simp, by simp⟩
  | retired _ =>
      refine ⟨by simp, ?_⟩
      intro hno
      cases hno
  | _ => exact ⟨by simp, by simp⟩

theorem wp_onFlow_of {α : Type} {m : IpcM α} {Q : α → FlowState → Prop} {R : α → Registry → Prop}
    (h : wp m R (fun _ _ => False) s.reg) (hQ : ∀ a reg, R a reg → Q a { s with reg := reg }) :
    wp (onFlow m) Q E s := by
  refine wp_zoom.mpr (wp_mono h hQ ?_)
  intro e t hfalse
  exact hfalse.elim

/-- A call of the owner. -/
theorem Flowing.wp_owner (h : Flowing num sz c d s) (hsz : sz ≤ ipcChanMaxBufSize)
    (call : MsgCall) : wp ((FlowAction.owner call).run c d) (fun _ => Flowing num sz c d) E s := by
  obtain ⟨mq, mq', aux, hpair, haux, hblocked, hfailed, howed⟩ := h.view
  rw [FlowAction.run, wp_bind, wp_get]
  cases hpolled : s.polled with
  | some event => exact h
  | none =>
      dsimp only
      rw [wp_bind]
      refine wp_onFlow_of (wp_mono (wp_and (wp_and (wp_msgCall hpair hsz call)
        (wp_msgCall_aux hpair call)) (wp_msgCall_full hpair call)) (fun _ _ ht => ht) ?_) ?_
      · intro e t he
        exact he.1.1
      · rintro r reg ⟨⟨⟨nq, nq', ls, ls', hpair', hspec, hrun, hrun'⟩, haux', _⟩, hfull⟩
        rw [haux, Option.map_some] at haux'
        have hkeeps : mq'.freeList = [] → nq'.freeList = [] :=
          freeList_of_run hpair.inv' hpair'.inv' hrun' (CallSpec.not_put hspec).1
        rw [logEvent, wp_modify]
        refine ⟨nq, nq', _, hpair', haux', ?_, ?_, ?_⟩
        · intro hb
          cases hblocks : blocks call mq' with
          | true =>
              rw [blocks] at hblocks
              split at hblocks
              · exact hkeeps (List.isEmpty_iff.mp hblocks)
              · cases hblocks
          | false =>
              rw [hblocks] at hb
              exact hkeeps (hblocked hb)
        · rw [owing_append, Owing.after]
          intro hf
          cases hblocks : blocks call mq' with
          | true => rfl
          | false =>
              have hno : failsSend call r = false := by
                refine Bool.eq_false_iff.mpr ?_
                intro hfails
                rw [hfull hfails] at hblocks
                cases hblocks
              rw [hno, Bool.or_false] at hf
              exact hfailed hf
        · rw [owing_append, Owing.after]
          intro ho
          rcases howed ho with hset | ⟨event, hevent, _⟩
          · refine .inl ?_
            split
            · exact hset
            · exact hset
          · rw [hpolled] at hevent
            cases hevent

/-- A call of the peer. -/
theorem Flowing.wp_peer (h : Flowing num sz c d s) (hsz : sz ≤ ipcChanMaxBufSize)
    (call : MsgCall) : wp ((FlowAction.peer call).run c d) (fun _ => Flowing num sz c d) E s := by
  obtain ⟨mq, mq', aux, hpair, haux, hblocked, hfailed, howed⟩ := h.view
  rw [FlowAction.run, wp_bind]
  refine wp_onFlow_of (wp_mono (wp_and (wp_msgCall hpair.symm hsz call)
    (wp_msgCall_aux hpair.symm call)) (fun _ _ ht => ht) ?_) ?_
  · intro e t he
    exact he.1
  · rintro r reg ⟨⟨nq', nq, ls', ls, hpair', hspec, hrun', hrun⟩, _, haux'⟩
    rw [haux, Option.map_some] at haux'
    rw [logEvent, wp_modify]
    refine ⟨nq, nq', _, hpair'.symm, haux', ?_⟩
    rw [owing_append, Owing.after]
    cases hret : retires call r with
    | false =>
        have hkeeps : mq'.freeList = [] → nq'.freeList = [] :=
          freeList_of_run hpair.inv' hpair'.inv hrun' ((CallSpec.not_put hspec).2 hret)
        exact ⟨fun hb => hkeeps (hblocked hb), hfailed, howed⟩
    | true =>
        -- the peer has made room, and has seen whether the owner was blocked
        cases hb : aux.sendBlocked with
        | true =>
            simp only [if_true, unblockSend, hb]
            exact ⟨fun hno => absurd hno Bool.false_ne_true,
              fun hno => absurd hno Bool.false_ne_true, fun _ => .inl trivial⟩
        | false =>
            simp only [if_true, unblockSend, hb, Bool.false_eq_true, if_false]
            have hnot : (owing s.log).failed = false := by
              refine Bool.eq_false_iff.mpr ?_
              intro hf
              rw [hfailed hf] at hb
              cases hb
            rw [hnot, Bool.or_false]
            exact ⟨False.elim, False.elim, howed⟩

theorem Flowing.wp_poll (h : Flowing num sz c d s) :
    wp (FlowAction.poll.run c d) (fun _ => Flowing num sz c d) E s := by
  obtain ⟨mq, mq', aux, hpair, haux, hblocked, hfailed, howed⟩ := h.view
  rw [FlowAction.run, wp_bind, wp_get]
  cases hpolled : s.polled with
  | some event => exact h
  | none =>
      obtain ⟨C, hC⟩ := hpair.own
      dsimp only
      rw [wp_bind]
      refine wp_zoom.mpr ((wp_chanPoll hC.live).mpr ?_)
      split
      · rw [wp_modify]
        refine ⟨mq, mq', aux, hpair, haux, hblocked, hfailed, ?_⟩
        intro ho
        rcases howed ho with hset | ⟨event, hevent, _⟩
        · exact .inl hset
        · rw [hpolled] at hevent
          cases hevent
      · exact h

/-- The event that is cleared is the one that is reported. -/
theorem Flowing.wp_finalize (h : Flowing num sz c d s) :
    wp (FlowAction.finalize.run c d) (fun _ => Flowing num sz c d) E s := by
  obtain ⟨mq, mq', aux, hpair, haux, hblocked, hfailed, howed⟩ := h.view
  rw [FlowAction.run, wp_bind, wp_get]
  cases hpolled : s.polled with
  | none => exact h
  | some event =>
      obtain ⟨C, hC⟩ := hpair.own
      have hauxC : C.auxState = aux := Option.some.inj ((auxOf_eq hC.live).symm.trans haux)
      dsimp only
      rw [wp_bind]
      refine wp_zoom.mpr (wp_conseq (wp_finalize_aux hC.live) ?_)
      rintro _ reg rfl
      rw [wp_bind, wp_modify, logEvent, wp_modify]
      refine ⟨mq, mq', finalizeAux aux event, hpair.setAux hC.live _, ?_, hblocked, ?_, ?_⟩
      · rw [auxOf_setChan_self, hauxC]
      · rw [owing_append, Owing.after]
        exact hfailed
      · rw [owing_append, Owing.after]
        intro ho
        rw [Bool.and_eq_true, Bool.not_eq_true'] at ho
        rcases howed ho.1 with hset | ⟨event', hevent, hbit⟩
        · refine .inl ?_
          rw [finalizeAux, ho.2]
          exact hset
        · rw [hpolled] at hevent
          cases hevent
          rw [hbit] at ho
          cases ho.2

theorem Flowing.wp_peerFinalize (h : Flowing num sz c d s) (event : UInt32) :
    wp ((FlowAction.peerFinalize event).run c d) (fun _ => Flowing num sz c d) E s := by
  obtain ⟨mq, mq', aux, hpair, haux, hblocked, hfailed, howed⟩ := h.view
  obtain ⟨D, hD⟩ := hpair.other
  rw [FlowAction.run]
  refine wp_zoom.mpr (wp_conseq (wp_finalize_aux hD.live) ?_)
  rintro _ reg rfl
  refine ⟨mq, mq', aux, (hpair.symm.setAux hD.live _).symm, ?_, hblocked, hfailed, howed⟩
  rw [auxOf_setChan_ne hpair.ne, haux]

theorem Flowing.wp_action (h : Flowing num sz c d s) (hsz : sz ≤ ipcChanMaxBufSize)
    (action : FlowAction) : wp (action.run c d) (fun _ => Flowing num sz c d) E s := by
  cases action with
  | owner call => exact h.wp_owner hsz call
  | peer call => exact h.wp_peer hsz call
  | poll => exact h.wp_poll
  | finalize => exact h.wp_finalize
  | peerFinalize event => exact h.wp_peerFinalize event

/-- Any run. -/
theorem Flowing.wp_runActions (h : Flowing num sz c d s) (hsz : sz ≤ ipcChanMaxBufSize)
    (actions : List FlowAction) : wp (runActions c d actions) (fun _ => Flowing num sz c d) E s := by
  induction actions generalizing s with
  | nil => exact h
  | cons action rest ih =>
      refine wp_seq (h.wp_action hsz action) ?_
      intro _ t ht
      exact ih ht

theorem Flowing.kept (h : Flowing num sz c d s) : FlowKept c d s := by
  obtain ⟨mq, mq', aux, hpair, haux, hblocked, _, howed⟩ := h.view
  obtain ⟨C, hC⟩ := hpair.own
  obtain ⟨D, hD⟩ := hpair.other
  have hauxC : C.auxState = aux := Option.some.inj ((auxOf_eq hC.live).symm.trans haux)
  refine ⟨?_, ?_, ?_⟩
  · intro C' D' nq hC' hD' hq hb
    obtain rfl : C' = C := Option.some.inj (hC'.symm.trans hC.live)
    obtain rfl : D' = D := Option.some.inj (hD'.symm.trans hD.live)
    obtain rfl : nq = mq' := Option.some.inj (hq.symm.trans hD.queue)
    rw [hauxC] at hb
    exact hblocked hb
  · intro ho hpolled
    have hset : C.auxState.sendUnblocked = true := by
      rcases howed ho with hset | ⟨event, hevent, _⟩
      · rw [hauxC, hset]
      · rw [hpolled] at hevent
        cases hevent
    have hpoll : wp (chanPoll c) (fun event t => t = s.reg ∧
        Service.polled event ipcHandlePollSendUnblocked = true) (fun _ _ => False) s.reg := by
      obtain ⟨_, _, _, _, hunblocked⟩ := polled_pollEvents hC.state
      rw [wp_chanPoll hC.live, hunblocked, hset]
      exact ⟨rfl, rfl⟩
    obtain ⟨event, t, hrun, rfl, hbit⟩ := wp_total hpoll
    exact ⟨event, hrun, hbit⟩
  · intro ho event hpolled
    rcases howed ho with hset | ⟨event', hevent, hbit⟩
    · exact .inr ⟨C, hC.live, by rw [hauxC, hset]⟩
    · rw [hpolled] at hevent
      cases hevent
      exact .inl hbit

/-- On a newly connected channel, every run of the two parties keeps what flow
control promises. -/
theorem flow_wakes {buf buf' : Nat → UInt8} {C D : Chan} (hnum : num ≤ ipcChanMaxBufs)
    (hsz : sz ≤ ipcChanMaxBufSize) (hne : c ≠ d)
    (hc : Connected reg c d (MsgQueue.create num sz buf) C)
    (hd : Connected reg d c (MsgQueue.create num sz buf') D) (hflags : C.auxState.sendBlocked = false)
    (actions : List FlowAction) :
    ∃ t, runActions c d actions ⟨reg, none, []⟩ = .ok ⟨⟩ t ∧ FlowKept c d t := by
  have hnum' : num ≤ 256 := Nat.le_trans hnum (by decide)
  obtain ⟨_, _, _, hnumC, hszC, _⟩ := MsgQueue.create_lists num sz buf num
  obtain ⟨_, _, _, hnumD, hszD, _⟩ := MsgQueue.create_lists num sz buf' num
  have hpair : Pair reg num sz c d (MsgQueue.create num sz buf) (MsgQueue.create num sz buf') :=
    ⟨hne, ⟨C, hc⟩, ⟨D, hd⟩, MsgQueue.inv_create hnum' sz buf, MsgQueue.inv_create hnum' sz buf',
      hnumC, hnumD, hszC, hszD⟩
  have hstart : Flowing num sz c d ⟨reg, none, []⟩ := by
    refine ⟨_, _, C.auxState, hpair, auxOf_eq hc.live, ?_, ?_, ?_⟩
    · intro hb
      rw [hflags] at hb
      cases hb
    · intro hno
      cases hno
    · intro hno
      cases hno
  obtain ⟨⟨⟩, t, hrun, ht⟩ := wp_total (hstart.wp_runActions hsz actions)
  exact ⟨t, hrun, ht.kept⟩

end

/-- The owner fills the peer's queue and is blocked; while it waits, the peer
obtains and retires the message. -/
def blockedSend : List FlowAction :=
  [.owner (.ipcSend (some (.kern false [.mem [0x11]] 0))),
    .owner (.ipcSend (some (.kern false [.mem [0x12]] 0))), .poll, .peer .ipcGet, .peer (.put 0),
    .poll, .finalize]

theorem flow_wakes_blockedSend :
    ∃ t, runActions 0 1 blockedSend ⟨connectedPair, none, []⟩ = .ok ⟨⟩ t ∧ FlowKept 0 1 t :=
  flow_wakes (C := connectedChan 1 0) (D := connectedChan 0 ipcChanFlagServer)
    (show 1 ≤ ipcChanMaxBufs by decide) (show 4096 ≤ ipcChanMaxBufSize by decide) (by decide)
    ⟨rfl, rfl, rfl, rfl⟩ ⟨rfl, rfl, rfl, rfl⟩ rfl blockedSend

end TX2SecureUart.Service
