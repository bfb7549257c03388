/-
# `Ipc.Runs` — what holds in every state of every run

A channel waits for a port exactly while it is in the list, as long as
publishing a port attaches every client that waits for it; message calls are
safe on every channel that was attached; and a connected pair was let in by
the hook and by the port it was attached to.
-/
import TX2SecureUart.Ipc.System

namespace TX2SecureUart.Ipc

open Prog

variable {ok : Registry → Action → Prop} {s : Registry} {c : ChanId} {C : Chan}

/-! ## Waiting channels -/

/-- Publishing a port attaches every client that waits for it: the hook lets
each of them in, the port's flags allow them, and the allocations succeed. -/
def PublishAttaches (s : Registry) : Action → Prop
  | .publish env p => ∀ P c, Publishes s p P c →
      s.answer env P c = 0 ∧ s.attachable env { P with state := .listening } c
  | _ => True

/-- In such runs nobody is orphaned. -/
theorem inv_of_publishAttaches (h : ipc.Reachable PublishAttaches s) : Inv nobody nobody s :=
  Machine.invariant (E := fun s a e _ => Stops nobody s a e) (inv_empty nobody)
    (fun _ _ hinv hen hok => wp_mono (hinv.wp_run hen fun env p P c ha hp hans => by
      subst ha
      exact (hans (hok P c hp).1).elim) (fun _ _ ht => ht) fun _ _ he => he.1) h

/-- As long as every port that is published gets all its clients: a channel is
in the state `waitingForPort` exactly while its node is in the waiting list,
and no operation stops the kernel, with the exception of message calls on a
channel that was not attached. -/
theorem waiting_iff_linked (h : ipc.Reachable PublishAttaches s) :
    (∀ c C, s.chans c = some C →
      (C.state = .waitingForPort ↔ C.node = some .waitingForPort) ∧
      (C.node = some .waitingForPort ↔ c ∈ s.waitingForPortChanList)) ∧
    (∀ c ∈ s.waitingForPortChanList, (s.chans c).isSome) ∧
    ∀ a : Action, a.Enabled s → PublishAttaches s a → ∀ e t, a.run s = .error e t →
      e = .nullDeref ∧ ∃ handle call, a = .message handle call := by
  have hinv := inv_of_publishAttaches h
  refine ⟨fun c C hC => ?_, fun c hc => hinv.lists.waitingLive hc, fun a hen hok e t hrun => ?_⟩
  · have hc := hinv.chan hC
    exact ⟨⟨fun hs => (hc.linked hs).resolve_right id, fun hn => (hc.waits hn).1⟩, hc.inWaiting⟩
  · obtain ⟨hstop, -⟩ := wp_error (hinv.wp_run hen fun env p P c ha hp hans => by
      subst ha
      exact (hans (hok P c hp).1).elim) hrun
    cases a with
    | publish env p =>
        obtain ⟨P, c, hp, -, hatt⟩ := hstop
        exact absurd (hok P c hp).2 hatt
    | shutdown handle =>
        cases handle with
        | chan c =>
            obtain ⟨C, -, -, ho⟩ := hstop
            exact ho.elim
        | port p => exact hstop.elim
    | message handle call =>
        rcases handle with _ | c | p
        · exact hstop.elim
        · exact ⟨hstop.1, _, _, rfl⟩
        · exact hstop.elim
    | _ => exact hstop.elim

/-- A behaviour of the outside: every allocation succeeds, and the hook answers
`answer`. -/
def answering (answer : Int) : Env where
  hypCheck := fun _ _ _ => answer
  allocPort := true
  allocChan := true
  allocPath := true
  allocServer := fun _ => true
  allocClientQueue := fun _ => true
  allocServerQueue := fun _ => true
  fresh := fun _ _ => 0

/-- A client of guest 7 waits for the port `p`. -/
def clientWaits : Action :=
  .connect (answering 0) 7 (some (.app 0)) [0x70] 64 ipcConnectWaitForPort

/-- The port `p` is created, for all clients. -/
def portCreated : Action := .create (answering 0) (some (.app 1)) [0x70] 1 4096 0x3

def afterWait : Registry := stateOf (clientWaits.run .empty)

def afterCreate : Registry := stateOf (portCreated.run afterWait)

/-- The port is published while the hook answers `answer`. -/
def afterPublish (answer : Int) : Registry :=
  stateOf ((Action.publish (answering answer) 0).run afterCreate)

/-- The port, before it is published. -/
def portP : Port := newPort (some (.app 1)) [0x70] 1 4096 0x3

theorem reachable_afterWait (hok : ok .empty clientWaits) : ipc.Reachable ok afterWait :=
  Machine.Reachable.init.step (M := ipc) (a := clientWaits) trivial hok (by decide +kernel)

theorem reachable_afterCreate (hok : ok .empty clientWaits) (hok' : ok afterWait portCreated) :
    ipc.Reachable ok afterCreate :=
  (reachable_afterWait hok).step (a := portCreated) trivial hok' (by decide +kernel)

theorem publishAttaches_afterCreate :
    PublishAttaches afterCreate (.publish (answering 0) 0) := by
  intro P c ⟨hP, _, hc⟩
  have hport : afterCreate.ports 0 = some portP := by decide +kernel
  obtain rfl : portP = P := Option.some.inj (hport.symm.trans hP)
  have hclients : afterCreate.clientsOf portP = [0] := by decide +kernel
  obtain rfl : c = 0 := List.mem_singleton.mp (hclients ▸ hc)
  decide +kernel

theorem reachable_afterPublish (answer : Int) (hans : answer = 0 ∨ answer = errAccessDenied)
    (hok : ok .empty clientWaits) (hok' : ok afterWait portCreated)
    (hok'' : ok afterCreate (.publish (answering answer) 0)) :
    ipc.Reachable ok (afterPublish answer) := by
  refine (reachable_afterCreate hok hok').step (a := .publish (answering answer) 0) ?_ hok'' ?_
  · exact (by decide +kernel : Held afterCreate (.port 0))
  · rcases hans with rfl | rfl <;> decide +kernel

/-- A client that waits and is attached when its port is published. -/
theorem waiting_iff_linked_attached :
    (∀ c C, (afterPublish 0).chans c = some C →
      (C.state = .waitingForPort ↔ C.node = some .waitingForPort) ∧
      (C.node = some .waitingForPort ↔ c ∈ (afterPublish 0).waitingForPortChanList)) ∧
    (∀ c ∈ (afterPublish 0).waitingForPortChanList, ((afterPublish 0).chans c).isSome) ∧
    ∀ a : Action, a.Enabled (afterPublish 0) → PublishAttaches (afterPublish 0) a →
      ∀ e t, a.run (afterPublish 0) = .error e t →
        e = .nullDeref ∧ ∃ handle call, a = .message handle call :=
  waiting_iff_linked (reachable_afterPublish 0 (Or.inl rfl) trivial trivial
    publishAttaches_afterCreate)

/-- The hook refuses the client: it still is in the state `waitingForPort`, but
in no list, and closing its handle fails the first of the assertions. -/
theorem waiting_not_linked :
    ∃ s, ipc.Reachable anyStep s ∧
      (∃ C, s.chans 0 = some C ∧ C.state = .waitingForPort ∧ C.node = none) ∧
      0 ∉ s.waitingForPortChanList ∧ (Action.shutdown (.chan 0)).Enabled s ∧
      ∃ t, (Action.shutdown (.chan 0)).run s = .error (.assertFailed .waitingInList) t := by
  refine ⟨afterPublish errAccessDenied,
    reachable_afterPublish errAccessDenied (Or.inr rfl) trivial trivial trivial, ?_, ?_, ?_, ?_⟩
  · have : ((afterPublish errAccessDenied).chans 0).any (fun C =>
        decide (C.state = .waitingForPort ∧ C.node = none)) = true := by decide +kernel
    simpa [Option.any_eq_true] using this
  · decide +kernel
  · exact (by decide +kernel : Held (afterPublish errAccessDenied) (.chan 0))
  · exact ⟨_, eq_error_of_faultOf (by decide +kernel)⟩

/-! ## Message calls -/

/-- The invariant in every run; anybody may be an orphan. -/
theorem inv_of_reachable (h : ipc.Reachable anyStep s) : Inv nobody (fun _ => True) s :=
  Machine.invariant (E := fun s a e _ => Stops (fun _ => True) s a e) (inv_empty _)
    (fun _ _ hinv hen _ => wp_mono (hinv.wp_run hen fun _ _ _ _ _ _ _ => trivial)
      (fun _ _ ht => ht) fun _ _ he => he.1) h

/-- In every state of every run, a message call on a channel somebody holds
returns, with exactly one exception: it needs the channel's own queue, and the
channel waits for a port or was closed while it did. -/
theorem msgCall_returns_iff (h : ipc.Reachable anyStep s) (hC : s.chans c = some C)
    (hpos : 0 < C.handle.refcnt) (call : MsgCall) :
    (∃ r t, call.run (some (.chan c)) s = .ok r t) ↔
      ¬ (call.needsQueue = true ∧ C.unattached) := by
  have hinv := inv_of_reachable h
  have hspec := hinv.wp_msgCall hC hpos call
  constructor
  · rintro ⟨r, t, hrun⟩ ⟨hneeds, hun⟩
    have hq := (hinv.msgQueue_eq_none hC hpos).mpr hun
    -- the queue is looked at first
    have hstop : wp (call.run (some (.chan c))) (fun _ _ => False) (fun _ _ => True) s := by
      cases call with
      | ipcSend msg | sysSend msg => cases hneeds
      | ipcRead msgId offset msg | sysRead msgId offset msg =>
          cases msg with
          | none => cases hneeds
          | some msg =>
              simp [MsgCall.run, ipcReadMsg, sysReadMsg, readMsgLocked, checkChannelLocked,
                wp_getQueue, hC, hq]
      | ipcGet | sysGet copied =>
          simp [MsgCall.run, ipcGetMsg, sysGetMsg, checkChannelLocked, wp_getQueue, hC, hq]
      | put msgId => simp [MsgCall.run, ipcPutMsg, checkChannelLocked, wp_getQueue, hC, hq]
    exact wp_ok hstop hrun
  · intro hnot
    obtain ⟨r, t, hrun, -⟩ := wp_total (wp_mono hspec (fun _ _ ht => ht) fun _ _ he => hnot he.2)
    exact ⟨r, t, hrun⟩

/-- A client that was attached can look for messages. -/
theorem msgCall_returns_iff_attached :
    ∃ C, (afterPublish 0).chans 0 = some C ∧ 0 < C.handle.refcnt ∧
      ((∃ r t, (MsgCall.sysGet true).run (some (.chan 0)) (afterPublish 0) = .ok r t) ↔
        ¬ ((MsgCall.sysGet true).needsQueue = true ∧ C.unattached)) := by
  obtain ⟨C, hC, hpos⟩ := (by decide +kernel : Held (afterPublish 0) (.chan 0))
  exact ⟨C, hC, hpos, msgCall_returns_iff
    (reachable_afterPublish 0 (Or.inl rfl) trivial trivial trivial) hC hpos (.sysGet true)⟩

/-- A client that waits for its port asks for a message. -/
theorem msgCall_waiting_nullDeref :
    ipc.Reachable anyStep afterWait ∧ Held afterWait (.chan 0) ∧
      ∃ t, (MsgCall.sysGet true).run (some (.chan 0)) afterWait = .error .nullDeref t :=
  ⟨reachable_afterWait trivial, by decide +kernel, _, eq_error_of_faultOf (by decide +kernel)⟩

/-! ## Connected pairs -/

/-- `client` is connected to `server`: when they were attached to each other, the
hook had just let in the client's guest, and the port was listening and allowed
the client's world; and both handles carry that guest. -/
structure Admitted (s : Registry) (client server : ChanId) (C S : Chan) : Prop where
  role : C.flags ≠ ipcChanFlagServer ∧ S.flags = ipcChanFlagServer
  granted : Granted s.trace client server C.uuid C.handle.guestId
  guest : S.handle.guestId = C.handle.guestId

/-- Every connected channel has a connected peer, and one of the two was admitted
as the client of the other. -/
theorem connected_admitted (h : ipc.Reachable anyStep s) (hC : s.chans c = some C)
    (hst : C.state = .connected) :
    ∃ d D, C.peer = some d ∧ s.chans d = some D ∧ D.peer = some c ∧ D.state = .connected ∧
      (Admitted s c d C D ∨ Admitted s d c D C) := by
  have hinv := inv_of_reachable h
  have hc := hinv.chan hC
  obtain ⟨d, hd⟩ := Option.isSome_iff_exists.mp (hc.paired (Or.inr (Or.inr hst)))
  obtain ⟨D, hD, -, hcompat⟩ := hinv.peers.peer hC hd
  obtain ⟨hDst, hDpeer, hguest⟩ := hcompat.connected hst
  refine ⟨d, D, hd, hD, hDpeer, hDst, ?_⟩
  -- a client has a handle for as long as it is connected
  have hadmitted : ∀ {x y X Y}, s.chans x = some X → X.state = .connected → X.peer = some y →
      X.flags ≠ ipcChanFlagServer → Y.flags = ipcChanFlagServer →
      Y.handle.guestId = X.handle.guestId → Admitted s x y X Y := by
    intro x y X Y hX hXst hpeer hclient hserver hg
    have hx := hinv.chan hX
    obtain ⟨g, hguestX, hgranted⟩ := hx.granted (Or.inr hXst) hclient y hpeer
    have hpos := (hx.held (Or.inr (Or.inr hXst))).resolve_left id
    exact ⟨⟨hclient, hserver⟩, hguestX hpos ▸ hgranted, hg⟩
  by_cases hflags : C.flags = ipcChanFlagServer
  · exact Or.inr (hadmitted hD hDst hDpeer (hcompat.roles.mp hflags) hflags hguest)
  · have hserver : D.flags = ipcChanFlagServer := by
      by_contra hne
      exact hflags (hcompat.roles.mpr hne)
    exact Or.inl (hadmitted hC hst hd hflags hserver hguest.symm)

/-- The server accepts the client that was attached. -/
def afterAccept : Registry := stateOf ((Action.accept (some (.port 0))).run (afterPublish 0))

theorem reachable_afterAccept : ipc.Reachable anyStep afterAccept := by
  have henabled : (Action.accept (some (.port 0))).Enabled (afterPublish 0) := by
    intro x hx
    cases hx
    exact (by decide +kernel : Held (afterPublish 0) (.port 0))
  exact (reachable_afterPublish 0 (Or.inl rfl) trivial trivial trivial).step
    (a := Action.accept (some (.port 0))) henabled trivial (by decide +kernel)

theorem connected_admitted_accepted :
    ∃ C, afterAccept.chans 0 = some C ∧ C.state = .connected ∧
      ∃ d D, C.peer = some d ∧ afterAccept.chans d = some D ∧ D.peer = some 0 ∧
        D.state = .connected ∧
        (Admitted afterAccept 0 d C D ∨ Admitted afterAccept d 0 D C) := by
  have hconn : (afterAccept.chans 0).any (fun C => decide (C.state = .connected)) = true := by
    decide +kernel
  obtain ⟨C, hC, hst⟩ := (Option.any_eq_true _ _).mp hconn
  have hst := of_decide_eq_true hst
  exact ⟨C, hC, hst, connected_admitted reachable_afterAccept hC hst⟩

end TX2SecureUart.Ipc
