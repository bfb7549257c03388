/-
# `Ipc.System` — every operation keeps the invariant

The operations of the registry as the steps of one system, with any arguments
and any behaviour of the hook and the allocator.  What a step needs is a
reference to the object it works on; the last reference to a channel is
dropped by closing it, which shuts it down first.

`Inv.wp_run` is the step lemma: an operation keeps the invariant, or stops in
one of the ways `Stops` lists.
-/
import TX2SecureUart.Lib.Machine
import TX2SecureUart.Ipc.Connect
import TX2SecureUart.Ipc.Msg

namespace TX2SecureUart.Ipc

open Prog

/-! ## Steps -/

inductive Action where
  | create (env : Env) (sid : Option Uuid) (path : Path) (numRecvBufs recvBufSize : Nat)
      (flags : UInt32)
  | publish (env : Env) (p : PortId)
  | connect (env : Env) (guest : UInt32) (cid : Option Uuid) (path : Path) (maxPath : Nat)
      (flags : UInt32)
  | accept (handle : Option HandlePtr)
  | incref (handle : HandlePtr)
  | shutdown (handle : HandlePtr)
  | decref (handle : HandlePtr)
  | message (handle : Option HandlePtr) (call : MsgCall)

def Action.run : Action → IpcM Unit
  | .create env sid path numRecvBufs recvBufSize flags =>
      (fun _ => ()) <$> ipcPortCreate env sid path numRecvBufs recvBufSize flags
  | .publish env p => (fun _ => ()) <$> ipcPortPublish env p
  | .connect env guest cid path maxPath flags =>
      (fun _ => ()) <$> ipcPortConnectAsync env guest cid path maxPath flags
  | .accept handle => (fun _ => ()) <$> ipcPortAccept handle
  | .incref handle => handleIncref handle
  | .shutdown handle => handleShutdown handle
  | .decref handle => handleDecref handle
  | .message handle call => (fun _ => ()) <$> call.run handle

/-- Somebody has a reference to the handle: the registry's own references to a
port do not count. -/
def Held (s : Registry) : HandlePtr → Prop
  | .chan c => ∃ C, s.chans c = some C ∧ 0 < C.handle.refcnt
  | .port p => ∃ P, s.ports p = some P ∧ P.ownRefs < P.handle.refcnt

instance (s : Registry) : (handle : HandlePtr) → Decidable (Held s handle)
  | .chan c => decidable_of_iff ((s.chans c).any fun C => decide (0 < C.handle.refcnt)) (by
      simp [Held, Option.any_eq_true])
  | .port p => decidable_of_iff ((s.ports p).any fun P => decide (P.ownRefs < P.handle.refcnt)) (by
      simp [Held, Option.any_eq_true])

/-- Dropping the last reference to a channel comes after shutting it down. -/
def Closed (s : Registry) : HandlePtr → Prop
  | .chan c => ∀ C, s.chans c = some C → C.handle.refcnt = 1 →
      C.state = .disconnecting ∧ C.peer = none
  | .port _ => True

def Action.Enabled (s : Registry) : Action → Prop
  | .create .. | .connect .. => True
  | .publish _ p => Held s (.port p)
  | .accept handle | .message handle _ => ∀ h, handle = some h → Held s h
  | .incref handle | .shutdown handle => Held s handle
  | .decref handle => Held s handle ∧ Closed s handle

def ipc : Machine Fault Registry Action where
  init := .empty
  run := Action.run
  Enabled s a := a.Enabled s

/-- Any step. -/
def anyStep : Registry → Action → Prop := fun _ _ => True

/-! ## Where a step can stop -/

/-- The call needs a message queue. -/
def MsgCall.needsQueue : MsgCall → Bool
  | .ipcSend _ | .sysSend _ => false
  | .ipcRead _ _ msg | .sysRead _ _ msg => msg.isSome
  | .ipcGet | .sysGet _ | .put _ => true

/-- The channel waits for a port, or was closed while it did: a client that has
not been attached. -/
def Chan.unattached (C : Chan) : Prop := C.state = .waitingForPort ∨ C.path.isSome

instance (C : Chan) : Decidable C.unattached := inferInstanceAs (Decidable (_ ∨ _))

/-- Publishing the port lists it, and `c` waits for it. -/
def Publishes (s : Registry) (p : PortId) (P : Port) (c : ChanId) : Prop :=
  s.ports p = some P ∧ s.findPort P.path = none ∧ c ∈ s.clientsOf P

/-- The ways in which a step can stop, when the orphans are among `O`. -/
def Stops (O : ChanId → Prop) (s : Registry) : Action → Fault → Prop
  | .publish env p, _ => ∃ P c, Publishes s p P c ∧ s.answer env P c = 0 ∧
      ¬ s.attachable env { P with state := .listening } c
  | .shutdown (.chan c), _ => ∃ C, s.chans c = some C ∧ C.state = .waitingForPort ∧ O c
  | .message (some (.chan c)) call, e => e = .nullDeref ∧ call.needsQueue = true ∧
      ∃ C, s.chans c = some C ∧ C.unattached
  | _, _ => False

section

variable {T O : ChanId → Prop} {E : Fault → Registry → Prop} {s : Registry} {c : ChanId} {C : Chan}

/-! ## The remaining operations -/

/-- The arguments and allocations with which a port is created. -/
def Creates (env : Env) (sid : Option Uuid) (path : Path) (numRecvBufs recvBufSize : Nat) : Prop :=
  sid.isSome ∧ (numRecvBufs ≠ 0 ∧ numRecvBufs ≤ ipcChanMaxBufs) ∧
    (recvBufSize ≠ 0 ∧ recvBufSize ≤ ipcChanMaxBufSize) ∧ env.allocPort = true ∧
    path.length ≠ 0 ∧ path.length < ipcPortPathMax

theorem Inv.wp_ipcPortCreate (h : Inv T O s) (env : Env) (sid : Option Uuid) (path : Path)
    (numRecvBufs recvBufSize : Nat) (flags : UInt32) :
    wp (ipcPortCreate env sid path numRecvBufs recvBufSize flags)
      (fun r t => Inv T O t ∧
        ((¬ Creates env sid path numRecvBufs recvBufSize ∧ r.1 < 0 ∧ t = s) ∨
        Creates env sid path numRecvBufs recvBufSize ∧ r = (noError, some s.nextPort) ∧
          t = Registry.setPort { s with nextPort := s.nextPort + 1 } s.nextPort
            (newPort sid path numRecvBufs recvBufSize flags)))
      E s := by
  simp only [ipcPortCreate, wp_ite, wp_pure, wp_bind, wp_get, wp_set]
  split
  · rename_i hsid
    exact ⟨h, Or.inl ⟨fun hc => absurd hc.1 (by simpa using hsid), by decide, trivial⟩⟩
  rename_i hsid
  split
  · exact ⟨h, Or.inl ⟨fun hc => (by unfold Creates at hc; omega), by decide, trivial⟩⟩
  rename_i hargs
  split
  · rename_i halloc
    exact ⟨h, Or.inl ⟨fun hc => absurd hc.2.2.2.1 (by simpa using halloc), by decide, trivial⟩⟩
  rename_i halloc
  split
  · exact ⟨h, Or.inl ⟨fun hc => (by unfold Creates at hc; omega), by decide, trivial⟩⟩
  rename_i hpath
  split
  · exact ⟨h, Or.inl ⟨fun hc => (by unfold Creates at hc; omega), by decide, trivial⟩⟩
  rename_i hlen
  have hcreates : Creates env sid path numRecvBufs recvBufSize :=
    ⟨by simpa [Option.isSome_iff_ne_none] using hsid, by omega, by omega, by simpa using halloc,
      hpath, by omega⟩
  refine ⟨?_, Or.inr ⟨hcreates, trivial, trivial⟩⟩
  have hfresh := h.lists.freshPort (p := s.nextPort) (Nat.le_refl _)
  have hsplit : ∀ {q Q}, (Registry.setPort { s with nextPort := s.nextPort + 1 } s.nextPort
      (newPort sid path numRecvBufs recvBufSize flags)).ports q = some Q →
      (q = s.nextPort ∧ Q = newPort sid path numRecvBufs recvBufSize flags) ∨
        (q ≠ s.nextPort ∧ s.ports q = some Q) := by
    intro q Q hQ
    by_cases hq : q = s.nextPort
    · exact Or.inl ⟨hq, by simpa [hq] using hQ.symm⟩
    · exact Or.inr ⟨hq, by simpa [hq] using hQ⟩
  refine h.sameChans rfl rfl (fun d q => ?_) ⟨[], (List.append_nil _).symm⟩
    { h.lists with
      listed := fun q => (h.lists.listed q).trans ?_
      pendingLive := fun {q Q d} hQ hd => ?_
      pendingNodup := fun {q Q} hQ => ?_
      refcnt := fun {q Q} hQ => ?_
      freshPort := fun {q} hq => ?_ }
  · by_cases hq : q = s.nextPort
    · simp [hq, hfresh, newPort]
    · simp [hq]
  · by_cases hq : q = s.nextPort
    · simp [hq, hfresh, newPort]
    · simp [hq]
  · rcases hsplit hQ with ⟨rfl, rfl⟩ | ⟨-, hQ⟩
    · cases hd
    · exact h.lists.pendingLive hQ hd
  · rcases hsplit hQ with ⟨rfl, rfl⟩ | ⟨-, hQ⟩
    · exact List.nodup_nil
    · exact h.lists.pendingNodup hQ
  · rcases hsplit hQ with ⟨rfl, rfl⟩ | ⟨-, hQ⟩
    · exact ⟨Int.le_refl 1, (by decide : (0 : Int) ≤ 1)⟩
    · exact h.lists.refcnt hQ
  · have hq : s.nextPort + 1 ≤ q := hq
    rw [Registry.setPort_ports, if_neg (Nat.ne_of_gt hq)]
    exact h.lists.freshPort (Nat.le_of_succ_le hq)

theorem Inv.wp_handleIncref (h : Inv T O s) {handle : HandlePtr} (hheld : Held s handle) :
    wp (handleIncref handle) (fun _ t => Inv T O t) E s := by
  cases handle with
  | chan c =>
      obtain ⟨C, hC, hpos⟩ := hheld
      have hc := h.chan hC
      have hpos' : 0 < C.handle.refcnt + 1 := by omega
      simp only [handleIncref, wp_modifyChan, hC, Option.elim_some]
      refine h.setChan hC ⟨rfl, fun _ => Iff.rfl, rfl, Or.inl rfl, fun _ => rfl⟩ ?_
        (fun _ _ => Iff.rfl) (fun _ _ => id)
      exact { hc with
        refcnt_nonneg := Int.le_of_lt hpos'
        handleRef := ⟨fun _ => hpos', fun _ => hc.handleRef.mpr hpos⟩
        held := fun _ => Or.inr hpos'
        valid := fun _ => hc.valid hpos
        unaccepted := fun hs => absurd (hc.unaccepted hs) (by omega)
        granted := fun hs hf d hd => by
          obtain ⟨g, hg, hgr⟩ := hc.granted hs hf d hd
          exact ⟨g, fun _ => hg hpos, hgr⟩ }
  | port p =>
      obtain ⟨P, hP, hlt⟩ := hheld
      have hlisted := h.lists.listedAs hP
      have hrefs := h.lists.refcnt hP
      simp only [handleIncref, wp_modifyPort, hP, Option.elim_some]
      refine h.setPort hP rfl hlisted ⟨?_, ?_⟩
      · show 1 ≤ P.handle.refcnt + 1
        omega
      · show P.ownRefs ≤ P.handle.refcnt + 1
        omega

/-- A change that nothing but the messages depends on. -/
theorem Inv.setMsg (h : Inv T O s) (hC : s.chans c = some C) (aux : AuxState)
    {mq : Option MsgQueue} (hmq : mq = none ↔ C.msgQueue = none) :
    Inv T O (s.setChan c { C with auxState := aux, msgQueue := mq }) := by
  have hc := h.chan hC
  refine h.setChan hC ⟨rfl, fun _ => Iff.rfl, rfl, Or.inl rfl, fun _ => rfl⟩ ?_
    (fun _ _ => Iff.rfl) (fun _ _ => id)
  exact { hc with
    queue := fun hp => by
      have := hc.queue hp
      rw [Option.isSome_iff_ne_none] at this ⊢
      exact fun hn => this (hmq.mp hn)
    queued := fun hs => hmq.trans (hc.queued hs) }

/-! ## Message calls -/

theorem wp_getQueue {Q : MsgQueue → Registry → Prop} :
    wp (getQueue c) Q E s ↔ (s.chans c).elim (E .useAfterFree s) fun C =>
      C.msgQueue.elim (E .nullDeref s) fun mq => Q mq s := by
  simp only [getQueue, wp_bind, wp_getChan]
  cases s.chans c with
  | none => rfl
  | some C => cases h : C.msgQueue <;> simp [h]

theorem wp_setQueue {mq : MsgQueue} {Q : PUnit → Registry → Prop} :
    wp (setQueue c mq) Q E s ↔ (s.chans c).elim (E .useAfterFree s) fun C =>
      Q ⟨⟩ (s.setChan c { C with msgQueue := some mq }) := wp_modifyChan

/-- A channel with a handle has a queue once it was attached. -/
theorem Inv.msgQueue_eq_none (h : Inv T O s) (hC : s.chans c = some C) (hpos : 0 < C.handle.refcnt) :
    C.msgQueue = none ↔ C.unattached :=
  (h.chan hC).queued ((h.chan hC).valid hpos)

theorem Inv.setQueue (h : Inv T O s) (hC : s.chans c = some C) (hq : C.msgQueue.isSome)
    (mq : MsgQueue) : Inv T O (s.setChan c { C with msgQueue := some mq }) :=
  h.setMsg hC C.auxState (by simpa [Option.isSome_iff_ne_none] using hq)

theorem Inv.wp_sendMsgLocked (h : Inv nobody O s) (hC : s.chans c = some C) (msg : MsgDesc) :
    wp (sendMsgLocked (some (.chan c)) msg) (fun _ t => Inv nobody O t) (fun _ _ => False) s := by
  have hc := h.chan hC
  simp only [sendMsgLocked, checkChannelLocked, wp_bind, wp_getChan, hC, Option.elim_some]
  cases hst : C.state with
  | connected =>
      obtain ⟨d, hd⟩ := Option.isSome_iff_exists.mp (hc.paired (Or.inr (Or.inr hst)))
      obtain ⟨D, hD, -, hcompat⟩ := h.peers.peer hC hd
      have hDpeer : D.peer = some c := (hcompat.connected hst).2.1
      have hDq : D.msgQueue.isSome := (h.chan hD).queue (by simp [hDpeer])
      obtain ⟨mq, hmq⟩ := Option.isSome_iff_exists.mp hDq
      have hne : c ≠ d := by
        rintro rfl
        obtain rfl : C = D := Option.some.inj (hC.symm.trans hD)
        have := hcompat.roles
        tauto
      simp only [msgWriteLocked, wp_bind, wp_getChan, hC, Option.elim_some, hd, wp_getQueue, hD, hmq]
      cases hfree : mq.freeList with
      | nil =>
          simp only [wp_bind, wp_modifyChan, hC, Option.elim_some, wp_pure, wp_ite]
          rw [if_neg (by decide)]
          exact h.setMsg hC _ Iff.rfl
      | cons item rest =>
          simp only [wp_bind, wp_setQueue, hD, Option.elim_some, wp_pure, wp_ite, wp_getChan,
            Registry.setChan_chans, hne, if_false, hC, hd, wp_handleNotify_chan, if_true, ite_self]
          exact h.setQueue hD hDq _
  | _ => exact h

/-- The calls that begin by looking into the channel's own queue. -/
theorem Inv.wp_getQueue_bind (h : Inv nobody O s) (hC : s.chans c = some C)
    (hpos : 0 < C.handle.refcnt) {α : Type} {f : MsgQueue → IpcM α}
    (hf : ∀ mq, C.msgQueue = some mq →
      wp (f mq) (fun _ t => Inv nobody O t) (fun _ _ => False) s) :
    wp (getQueue c >>= f) (fun _ t => Inv nobody O t)
      (fun e _ => e = .nullDeref ∧ C.unattached) s := by
  simp only [wp_bind, wp_getQueue, hC, Option.elim_some]
  cases hq : C.msgQueue with
  | none => exact ⟨trivial, (h.msgQueue_eq_none hC hpos).mp hq⟩
  | some mq => exact wp_mono (hf mq hq) (fun _ _ ht => ht) fun _ _ he => he.elim

theorem Inv.wp_sysGetMsg (h : Inv nobody O s) (hC : s.chans c = some C)
    (hpos : 0 < C.handle.refcnt) (copied : Bool) :
    wp (sysGetMsg (some (.chan c)) copied) (fun _ t => Inv nobody O t)
      (fun e _ => e = .nullDeref ∧ C.unattached) s := by
  refine h.wp_getQueue_bind hC hpos fun mq hq => ?_
  cases hf : mq.filledList with
  | nil =>
      have hpeek : mq.peekNextFilled = none := by simp [MsgQueue.peekNextFilled, hf]
      rw [hpeek]
      exact h
  | cons item rest =>
      simp only [MsgQueue.peekNextFilled, hf, MsgQueue.getFilled]
      cases copied with
      | false => exact h
      | true =>
          simp only [Bool.not_true, Bool.false_eq_true, if_false, wp_bind, wp_setQueue, hC,
            Option.elim_some, wp_pure]
          exact h.setQueue hC (by simp [hq]) _

theorem Inv.wp_ipcPutMsg (h : Inv nobody O s) (hC : s.chans c = some C)
    (hpos : 0 < C.handle.refcnt) (msgId : UInt32) :
    wp (ipcPutMsg (some (.chan c)) msgId) (fun _ t => Inv nobody O t)
      (fun e _ => e = .nullDeref ∧ C.unattached) s := by
  refine h.wp_getQueue_bind hC hpos fun mq hq => ?_
  cases hput : mq.putRead msgId with
  | none => exact h
  | some nq =>
      simp only [wp_bind, wp_setQueue, hC, Option.elim_some]
      have hset := h.setQueue hC (by simp [hq]) nq
      have hlive : (s.setChan c { C with msgQueue := some nq }).chans c =
          some { C with msgQueue := some nq } := by simp
      generalize s.setChan c { C with msgQueue := some nq } = t at hset hlive ⊢
      simp only [wp_getChan, hlive, Option.elim_some]
      cases hpeer : C.peer with
      | none => exact hset
      | some d =>
          obtain ⟨D, hD, -, -⟩ := hset.peers.peer hlive hpeer
          simp only [wp_bind, wp_getChan, hD, Option.elim_some, wp_ite, wp_modifyChan,
            wp_handleNotify_chan, Registry.setChan_chans, if_true, wp_pure]
          split
          · exact hset.setMsg hD _ Iff.rfl
          · exact hset

/-- A message call stops only where it needs a queue and the channel has none. -/
theorem Inv.wp_msgCall (h : Inv nobody O s) (hC : s.chans c = some C) (hpos : 0 < C.handle.refcnt)
    (call : MsgCall) :
    wp (call.run (some (.chan c))) (fun _ t => Inv nobody O t)
      (fun e _ => e = .nullDeref ∧ call.needsQueue = true ∧ C.unattached) s := by
  cases call with
  | ipcSend msg | sysSend msg =>
      cases msg with
      | none => exact h
      | some msg =>
          exact (wp_map _ _).mpr (wp_mono (h.wp_sendMsgLocked hC msg) (fun _ _ ht => ht)
            fun _ _ he => he.elim)
  | ipcGet =>
      exact (wp_map _ _).mpr (wp_mono (h.wp_sysGetMsg hC hpos true) (fun _ _ ht => ht)
        fun _ _ he => ⟨he.1, rfl, he.2⟩)
  | sysGet copied =>
      exact (wp_map _ _).mpr (wp_mono (h.wp_sysGetMsg hC hpos copied) (fun _ _ ht => ht)
        fun _ _ he => ⟨he.1, rfl, he.2⟩)
  | ipcRead msgId offset msg | sysRead msgId offset msg =>
      cases msg with
      | none => exact h
      | some msg =>
          exact (wp_map _ _).mpr (wp_mono (h.wp_getQueue_bind hC hpos fun _ _ => h)
            (fun _ _ ht => ht) fun _ _ he => ⟨he.1, rfl, he.2⟩)
  | put msgId =>
      exact (wp_map _ _).mpr (wp_mono (h.wp_ipcPutMsg hC hpos msgId) (fun _ _ ht => ht)
        fun _ _ he => ⟨he.1, rfl, he.2⟩)

/-! ## The step lemma -/

/-- Without a channel a call changes nothing. -/
theorem MsgCall.wp_run_no_chan (call : MsgCall) {handle : Option HandlePtr}
    (h : checkChannelLocked handle = none) : wp (call.run handle) (fun _ t => t = s) E s := by
  rcases handle with _ | c | p
  · cases call with
    | ipcSend msg | sysSend msg | ipcRead _ _ msg | sysRead _ _ msg => cases msg <;> rfl
    | _ => rfl
  · cases h
  · cases call with
    | ipcSend msg | sysSend msg | ipcRead _ _ msg | sysRead _ _ msg => cases msg <;> rfl
    | _ => rfl

/-- A stop that is not for touching a freed object or for linking a node twice. -/
def Fault.Clean (e : Fault) : Prop := e ≠ .useAfterFree ∧ e ≠ .doubleLink

theorem Inv.wp_run (h : Inv nobody O s) {a : Action} (hen : a.Enabled s)
    (hO : ∀ env p P c, a = .publish env p → Publishes s p P c → s.answer env P c ≠ 0 → O c) :
    wp a.run (fun _ t => Inv nobody O t) (fun e _ => Stops O s a e ∧ e.Clean) s := by
  cases a with
  | create env sid path numRecvBufs recvBufSize flags =>
      exact (wp_map _ _).mpr (wp_conseq (h.wp_ipcPortCreate env sid path numRecvBufs recvBufSize
        flags) fun _ _ ht => ht.1)
  | publish env p =>
      obtain ⟨P, hP, -⟩ := hen
      refine (wp_map _ _).mpr (wp_mono (h.wp_ipcPortPublish hP fun hfind c hc ha =>
        hO env p P c rfl ⟨hP, hfind, hc⟩ ha) (fun _ _ ht => ht.1) fun _ _ he => ?_)
      obtain ⟨rfl, hfind, c, hc, ha, hatt⟩ := he
      exact ⟨⟨P, c, ⟨hP, hfind, hc⟩, ha, hatt⟩, by simp [Fault.Clean]⟩
  | connect env guest cid path maxPath flags =>
      exact (wp_map _ _).mpr (wp_mono (h.wp_ipcPortConnectAsync maxPath) (fun _ _ ht => ht)
        fun _ _ he => he.elim)
  | accept handle =>
      exact (wp_map _ _).mpr (wp_mono (h.wp_ipcPortAccept fun p hp => hen _ hp) (fun _ _ ht => ht)
        fun _ _ he => he.elim)
  | incref handle => exact h.wp_handleIncref hen
  | shutdown handle =>
      cases handle with
      | chan c =>
          obtain ⟨C, hC, -⟩ := hen
          refine wp_mono (h.wp_chanShutdownLocked hC) (fun _ _ ht => ht.1) ?_
          rintro _ _ ⟨rfl, he⟩
          exact ⟨⟨C, hC, he⟩, by simp [Fault.Clean]⟩
      | port p =>
          obtain ⟨P, hP, hheld⟩ := hen
          exact wp_mono (h.wp_portShutdown hP hheld) (fun _ _ ht => ht) fun _ _ he => he.elim
  | decref handle =>
      cases handle with
      | chan c =>
          obtain ⟨⟨C, hC, hpos⟩, hclosed⟩ := hen
          exact h.wp_handleDecref_chan hC hpos (hclosed C hC)
      | port p =>
          obtain ⟨⟨P, hP, hheld⟩, -⟩ := hen
          exact wp_conseq (h.wp_handleDecref_port hP hheld) fun _ _ ht => ht.1
  | message handle call =>
      rcases handle with _ | c | p
      · exact (wp_map _ _).mpr (wp_conseq (call.wp_run_no_chan rfl) fun _ _ ht => ht ▸ h)
      · obtain ⟨C, hC, hpos⟩ := hen _ rfl
        refine (wp_map _ _).mpr (wp_mono (h.wp_msgCall hC hpos call) (fun _ _ ht => ht) ?_)
        rintro _ _ ⟨rfl, hneeds, hun⟩
        exact ⟨⟨rfl, hneeds, C, hC, hun⟩, by simp [Fault.Clean]⟩
      · exact (wp_map _ _).mpr (wp_conseq (call.wp_run_no_chan rfl) fun _ _ ht => ht ▸ h)

end

end TX2SecureUart.Ipc
