/-
# `Ipc.Pending` — a pending connection has no handle

A server channel becomes pending when it is made, and gets its handle when it is
taken from the list.  So no channel is pending that anybody has a handle of.
-/
import TX2SecureUart.Ipc.Meanwhile
import TX2SecureUart.Lib.Preserves

namespace TX2SecureUart.Ipc

open Prog

/-- The channel is in a pending list. -/
def Registry.Pending (s : Registry) (c : ChanId) : Prop :=
  ∃ C p, s.chans c = some C ∧ C.node = some (.pending p)

/-- Whatever is pending was pending in `s`, or has been made since. -/
structure PendingSince (s t : Registry) : Prop where
  next : s.nextChan ≤ t.nextChan
  pending : ∀ c, t.Pending c → s.Pending c ∨ s.nextChan ≤ c

section

variable {s t : Registry} {c d : ChanId} {C N : Chan} {p : PortId} {env : Env} {x : HandlePtr}

theorem PendingSince.refl (s : Registry) : PendingSince s s :=
  ⟨Nat.le_refl _, fun _ hc => Or.inl hc⟩

/-- A channel changes, and its place in the lists with it. -/
theorem PendingSince.setChan (h : PendingSince s t)
    (hN : ∀ p, N.node = some (.pending p) → t.Pending c ∨ s.nextChan ≤ c) :
    PendingSince s (t.setChan c N) := by
  refine ⟨h.next, ?_⟩
  rintro d ⟨D, p, hD, hnode⟩
  by_cases hd : d = c
  · subst hd
    obtain rfl : N = D := by simpa using hD
    rcases hN p hnode with hold | hnew
    · exact h.pending d hold
    · exact Or.inr hnew
  · exact h.pending d ⟨D, p, by simpa [hd] using hD, hnode⟩

theorem PendingSince.freeChan (h : PendingSince s t) (c : ChanId) :
    PendingSince s (t.freeChan c) := by
  refine ⟨h.next, ?_⟩
  rintro d ⟨D, p, hD, hnode⟩
  by_cases hd : d = c
  · simp [hd] at hD
  · exact h.pending d ⟨D, p, by simpa [hd] using hD, hnode⟩

/-! ## The primitives -/

theorem pending_getChan : Preserves (PendingSince s) (getChan c) := by
  intro t ht
  rw [wp_getChan]
  cases t.chans c with
  | none => trivial
  | some C => exact ht

theorem pending_getPort : Preserves (PendingSince s) (getPort p) := by
  intro t ht
  rw [wp_getPort]
  cases t.ports p with
  | none => trivial
  | some P => exact ht

theorem pending_modifyChan {f : Chan → Chan}
    (hf : ∀ C, (f C).node = C.node ∨ s.nextChan ≤ c ∨ ∀ p, (f C).node ≠ some (.pending p)) :
    Preserves (PendingSince s) (modifyChan c f) := by
  intro t ht
  rw [wp_modifyChan]
  cases hC : t.chans c with
  | none => trivial
  | some C =>
      refine ht.setChan ?_
      intro p hp
      rcases hf C with hnode | hnew | hnot
      · exact Or.inl ⟨C, p, hC, hnode ▸ hp⟩
      · exact Or.inr hnew
      · exact absurd hp (hnot p)

/-- The place of the channel in the lists stays as it is. -/
theorem pending_modifyChan_same {f : Chan → Chan} (hf : ∀ C, (f C).node = C.node) :
    Preserves (PendingSince s) (modifyChan c f) :=
  pending_modifyChan fun C => Or.inl (hf C)

theorem pending_modify {f : Registry → Registry}
    (hf : ∀ t, (f t).chans = t.chans ∧ (f t).nextChan = t.nextChan) :
    Preserves (PendingSince s) (modify f : IpcM PUnit) := by
  refine Preserves.modify ?_
  intro t ht
  obtain ⟨hchans, hnext⟩ := hf t
  refine ⟨hnext ▸ ht.next, ?_⟩
  rintro d ⟨D, p, hD, hnode⟩
  exact ht.pending d ⟨D, p, hchans ▸ hD, hnode⟩

theorem pending_modifyPort {f : Port → Port} : Preserves (PendingSince s) (modifyPort p f) :=
  Preserves.bind pending_getPort fun _ => pending_modify fun _ => ⟨rfl, rfl⟩

theorem pending_chanAddRef {ref : ObjRef} : Preserves (PendingSince s) (chanAddRef c ref) := by
  refine Preserves.bind pending_getChan fun C => ?_
  split
  · exact Preserves.bind (Preserves.throw _) fun _ => pending_modifyChan_same fun _ => rfl
  · exact pending_modifyChan_same fun _ => rfl

theorem pending_chanDelRef {ref : ObjRef} : Preserves (PendingSince s) (chanDelRef c ref) := by
  intro t ht
  rw [wp_chanDelRef]
  cases hC : t.chans c with
  | none => trivial
  | some C =>
      have hset : PendingSince s (t.setChan c { C with refobj := C.refobj.erase ref }) :=
        ht.setChan fun p hp => Or.inl ⟨C, p, hC, hp⟩
      rw [Option.elim_some]
      split
      · trivial
      split
      · split
        · trivial
        split
        · trivial
        · exact hset.freeChan c
      · exact hset

theorem pending_listDelete : Preserves (PendingSince s) (listDelete c) := by
  have hlast : Preserves (PendingSince s) (modifyChan c fun C => { C with node := none }) :=
    pending_modifyChan fun _ => Or.inr (Or.inr (by simp))
  refine Preserves.bind pending_getChan fun C => ?_
  split
  · exact Preserves.bind (Preserves.throw _) fun _ => hlast
  · exact Preserves.bind (pending_modify fun _ => ⟨rfl, rfl⟩) fun _ => hlast
  · exact Preserves.bind pending_modifyPort fun _ => hlast

theorem pending_listAddTail {l : ListId} (hl : l = .waitingForPort ∨ s.nextChan ≤ c) :
    Preserves (PendingSince s) (listAddTail l c) := by
  have hnode : Preserves (PendingSince s) (modifyChan c fun C => { C with node := some l }) := by
    refine pending_modifyChan ?_
    intro C
    rcases hl with rfl | hnew
    · exact Or.inr (Or.inr (by simp))
    · exact Or.inr (Or.inl hnew)
  have hlink : ∀ {link : IpcM Unit}, Preserves (PendingSince s) link →
      Preserves (PendingSince s) (modifyChan c (fun C => { C with node := some l }) >>= fun _ => link) :=
    fun h => hnode.bind fun _ => h
  refine Preserves.bind pending_getChan fun C => ?_
  show Preserves _ (ite _ _ _)
  cases l with
  | waitingForPort =>
    have hlist : Preserves (PendingSince s)
        (modify fun (s : Registry) => s.setWaiting (s.waitingForPortChanList ++ [c]) : IpcM Unit) :=
      pending_modify fun _ => ⟨rfl, rfl⟩
    have h := hlink hlist
    exact Preserves.ite (Preserves.bind (Preserves.throw _) fun _ => h) h
  | pending p =>
    have hlist : Preserves (PendingSince s)
        (modifyPort p fun P => { P with pendingList := P.pendingList ++ [c] }) := pending_modifyPort
    have h := hlink hlist
    exact Preserves.ite (Preserves.bind (Preserves.throw _) fun _ => h) h

theorem pending_handleIncref : Preserves (PendingSince s) (handleIncref x) := by
  cases x with
  | chan c => exact pending_modifyChan_same fun _ => rfl
  | port p => exact pending_modifyPort

theorem pending_handleDecref : Preserves (PendingSince s) (handleDecref x) := by
  cases x with
  | chan c =>
      refine Preserves.bind pending_getChan fun C => ?_
      refine Preserves.bind (pending_modifyChan_same fun _ => rfl) fun _ => ?_
      exact Preserves.ite pending_chanDelRef (Preserves.pure _)
  | port p =>
      refine Preserves.bind pending_getPort fun P => Preserves.bind pending_modifyPort fun _ => ?_
      exact Preserves.ite (pending_modify fun _ => ⟨rfl, rfl⟩) (Preserves.pure _)

theorem pending_handleNotify : Preserves (PendingSince s) (handleNotify x) := by
  cases x with
  | chan c => exact Preserves.bind pending_getChan fun _ => Preserves.pure _
  | port p => exact Preserves.bind pending_getPort fun _ => Preserves.pure _

theorem pending_chanHandleInit : Preserves (PendingSince s) (chanHandleInit c) :=
  Preserves.bind (pending_modifyChan_same fun _ => rfl) fun _ => pending_chanAddRef

/-- A channel that is allocated is a new one. -/
theorem wp_chanAlloc_pending {flags : UInt32} {uuid : Option Uuid} {alloc : Bool}
    (ht : PendingSince s t) :
    wp (chanAlloc flags uuid alloc)
      (fun o u => PendingSince s u ∧ ∀ c, o = some c → s.nextChan ≤ c) anyStop t := by
  simp only [chanAlloc, wp_ite, wp_pure, wp_bind, wp_get, wp_set]
  split
  · exact ⟨ht, by simp⟩
  · refine ⟨?_, fun c hc => Option.some.inj hc ▸ ht.next⟩
    have hnext : PendingSince s { t with nextChan := t.nextChan + 1 } :=
      ⟨Nat.le_succ_of_le ht.next, ht.pending⟩
    exact hnext.setChan fun p hp => by simp [newChan] at hp

/-! ## Shutting down -/

theorem pending_chanShutdownOneLocked : Preserves (PendingSince s) (chanShutdownOneLocked c) := by
  have hdown : Preserves (PendingSince s)
      (modifyChan c fun C => { C with state := .disconnecting }) :=
    pending_modifyChan_same fun _ => rfl
  refine Preserves.bind pending_getChan fun C => ?_
  cases C.state with
  | invalid | disconnecting => exact Preserves.pure _
  | accepting => exact hdown
  | connected | connecting => exact hdown.bind fun _ => pending_handleNotify
  | waitingForPort =>
      have hunlink : Preserves (PendingSince s) (do
          listDelete c
          chanDelRef c .node
          modifyChan c fun C => { C with state := .disconnecting }) :=
        Preserves.bind pending_listDelete fun _ => Preserves.bind pending_chanDelRef fun _ => hdown
      show Preserves _ (ite _ _ _)
      exact Preserves.ite (Preserves.bind (Preserves.throw _) fun _ => hunlink) hunlink

theorem pending_chanShutdownLocked : Preserves (PendingSince s) (chanShutdownLocked c) := by
  refine Preserves.bind pending_chanShutdownOneLocked fun _ => Preserves.bind pending_getChan fun C => ?_
  cases C.peer with
  | none => exact Preserves.pure _
  | some peer =>
      refine Preserves.bind pending_chanShutdownOneLocked fun _ => Preserves.bind pending_chanDelRef fun _ => ?_
      exact pending_modifyChan_same fun _ => rfl

theorem pending_tearDownPending {l : List ChanId} :
    Preserves (PendingSince s) (tearDownPending p l) := by
  induction l with
  | nil => exact Preserves.pure _
  | cons server rest ih =>
      refine Preserves.bind pending_chanShutdownLocked fun _ => Preserves.bind pending_listDelete fun _ => ?_
      exact Preserves.bind pending_chanDelRef fun _ => Preserves.bind pending_handleDecref fun _ => ih

theorem pending_portShutdown : Preserves (PendingSince s) (portShutdown p) := by
  have htear : Preserves (PendingSince s) (do
      tearDownPending p (← getPort p).pendingList) :=
    Preserves.bind pending_getPort fun _ => pending_tearDownPending
  refine Preserves.bind pending_modifyPort fun _ => Preserves.bind pending_getPort fun P => ?_
  show Preserves _ (ite _ _ _)
  refine Preserves.ite ?_ htear
  refine Preserves.bind (pending_modify fun _ => ⟨rfl, rfl⟩) fun _ => Preserves.bind pending_modifyPort fun _ => ?_
  exact Preserves.bind pending_handleDecref fun _ => htear

/-! ## Attaching -/

theorem pending_portFind {path : Path} {l : List PortId} :
    Preserves (PendingSince s) (portFind path l) := by
  induction l with
  | nil => exact Preserves.pure _
  | cons p rest ih => exact Preserves.bind pending_getPort fun P => (Preserves.pure _).ite ih

theorem pending_portFindLocked {path : Path} : Preserves (PendingSince s) (portFindLocked path) :=
  Preserves.bind Preserves.get fun _ => pending_portFind

/-- The server that becomes pending is new. -/
theorem pending_portLink {client server : ChanId} (hnew : s.nextChan ≤ server) :
    Preserves (PendingSince s) (portLink p client server) := by
  refine Preserves.bind (pending_modifyChan_same fun _ => rfl) fun _ => ?_
  refine Preserves.bind (pending_modifyChan_same fun _ => rfl) fun _ => ?_
  refine Preserves.bind pending_chanAddRef fun _ => Preserves.bind (pending_modifyChan_same fun _ => rfl) fun _ => ?_
  refine Preserves.bind pending_chanAddRef fun _ => Preserves.bind (pending_modifyChan_same fun _ => rfl) fun _ => ?_
  refine Preserves.bind pending_chanAddRef fun _ => Preserves.bind (pending_listAddTail (Or.inr hnew)) fun _ => ?_
  refine Preserves.bind pending_handleIncref fun _ => Preserves.bind pending_handleNotify fun _ => ?_
  refine Preserves.bind pending_getChan fun _ => Preserves.bind pending_getPort fun _ => ?_
  exact pending_modify fun _ => ⟨rfl, rfl⟩

theorem pending_portAttachClient {client : ChanId} :
    Preserves (PendingSince s) (portAttachClient env p client) := by
  refine Preserves.bind pending_getPort fun P => ?_
  refine (Preserves.pure _).ite (Preserves.bind pending_getChan fun C => (Preserves.pure _).ite ?_)
  refine Preserves.bind_of (fun t ht => wp_chanAlloc_pending ht) ?_
  intro o hnew
  cases o with
  | none => exact Preserves.pure _
  | some server =>
      have hdrop : Preserves (PendingSince s) (do chanDelRef server .tmp; return errNoMemory) :=
        Preserves.bind pending_chanDelRef fun _ => Preserves.pure _
      refine Preserves.ite ?_ hdrop
      refine Preserves.bind (pending_modifyChan_same fun _ => rfl) fun _ => Preserves.ite ?_ ?_
      · refine Preserves.bind (pending_modifyChan_same fun _ => rfl) fun _ => ?_
        refine Preserves.bind (pending_portLink (hnew server rfl)) fun _ => ?_
        exact Preserves.bind pending_chanDelRef fun _ => Preserves.pure _
      · exact Preserves.bind (pending_modifyChan_same fun _ => rfl) fun _ => hdrop

theorem pending_hook {guest : UInt32} {peer : Option Uuid} :
    Preserves (PendingSince s) (trustyHypCheckGuestAccess env c guest peer) :=
  Preserves.bind (pending_modify fun _ => ⟨rfl, rfl⟩) fun _ => Preserves.pure _

/-! ## Publishing -/

theorem pending_publishTo {client : ChanId} :
    Preserves (PendingSince s) (publishTo env p client) := by
  have hlast : ∀ ret : Int, Preserves (PendingSince s) (do chanDelRef client .tmp; return ret) :=
    fun ret => Preserves.bind pending_chanDelRef fun _ => Preserves.pure _
  refine Preserves.bind (pending_modifyChan_same fun _ => rfl) fun _ => Preserves.bind pending_chanAddRef fun _ => ?_
  refine Preserves.bind pending_listDelete fun _ => Preserves.bind pending_chanDelRef fun _ => ?_
  refine Preserves.bind pending_getChan fun _ => Preserves.bind pending_getPort fun _ => Preserves.bind pending_hook fun ret => ?_
  show Preserves _ (ite _ _ _)
  refine Preserves.ite ?_ (hlast ret)
  refine Preserves.bind pending_portAttachClient fun err => ?_
  show Preserves _ (ite _ _ _)
  exact Preserves.ite (Preserves.bind pending_chanShutdownLocked fun _ => hlast ret) (hlast ret)

theorem pending_publishLoop {l : List ChanId} :
    ∀ {ret : Int}, Preserves (PendingSince s) (publishLoop env p ret l) := by
  induction l with
  | nil =>
      intro ret
      exact Preserves.pure _
  | cons client rest ih =>
      intro ret
      refine Preserves.bind pending_getChan fun C => ?_
      cases C.path with
      | none => exact Preserves.throw _
      | some path =>
          refine Preserves.bind pending_getPort fun _ => Preserves.ite ?_ ih
          exact Preserves.bind pending_publishTo fun _ => ih

theorem pending_ipcPortPublish : Preserves (PendingSince s) (ipcPortPublish env p) := by
  refine Preserves.bind pending_getPort fun P => Preserves.bind pending_portFindLocked fun o => ?_
  cases o with
  | some q => exact Preserves.pure _
  | none =>
      refine Preserves.bind pending_modifyPort fun _ => Preserves.bind (pending_modify fun _ => ⟨rfl, rfl⟩) fun _ => ?_
      refine Preserves.bind pending_modifyPort fun _ => Preserves.bind pending_handleIncref fun _ => ?_
      exact Preserves.bind Preserves.get fun _ => pending_publishLoop

/-! ## Connecting -/

theorem PendingSince.trans {u : Registry} (h : PendingSince s t) (h' : PendingSince t u) :
    PendingSince s u := by
  refine ⟨Nat.le_trans h.next h'.next, ?_⟩
  intro c hc
  rcases h'.pending c hc with hold | hnew
  · exact h.pending c hold
  · exact Or.inr (Nat.le_trans h.next hnew)

theorem pending_attachOrWait {guest : UInt32} {path : Path} {flags : UInt32} {client : ChanId} :
    Preserves (PendingSince s) (attachOrWait env guest path flags client) := by
  refine Preserves.bind pending_portFindLocked fun o => ?_
  cases o with
  | some p =>
      refine Preserves.bind pending_getPort fun _ => Preserves.bind pending_hook fun ret => ?_
      refine Preserves.ite (Preserves.pure _) ?_
      exact Preserves.bind pending_modifyPort fun _ => pending_portAttachClient
  | none =>
      refine Preserves.ite (Preserves.pure _) (Preserves.ite (Preserves.pure _) ?_)
      refine Preserves.bind (pending_modifyChan_same fun _ => rfl) fun _ => ?_
      refine Preserves.bind (pending_modifyChan_same fun _ => rfl) fun _ => ?_
      refine Preserves.bind (pending_listAddTail (Or.inl rfl)) fun _ => ?_
      exact Preserves.bind pending_chanAddRef fun _ => Preserves.pure _

/-- The client is not what becomes pending. -/
theorem wp_ipcPortConnectAsync_pending {guest : UInt32} {cid : Option Uuid} {path : Path}
    {maxPath : Nat} {flags : UInt32} :
    wp (ipcPortConnectAsync env guest cid path maxPath flags)
      (fun _ t => PendingSince s t ∧ ∀ c, t.Pending c → s.Pending c ∨ s.nextChan < c) anyStop s := by
  have hnone : PendingSince s s ∧ ∀ c, s.Pending c → s.Pending c ∨ s.nextChan < c :=
    ⟨.refl s, fun _ hc => Or.inl hc⟩
  simp only [ipcPortConnectAsync, wp_ite, wp_pure, wp_bind]
  split
  · exact hnone
  split
  · exact hnone
  simp only [chanAlloc, wp_ite, wp_pure, wp_bind, wp_get, wp_set]
  split
  · exact hnone
  generalize ht : Registry.setChan { s with nextChan := s.nextChan + 1 } s.nextChan
    (newChan 0 cid) = t
  have hnext : t.nextChan = s.nextChan + 1 := by
    rw [← ht]
    rfl
  have hold : ∀ c, t.Pending c → s.Pending c := by
    rintro c ⟨C, p, hC, hnode⟩
    rw [← ht, Registry.setChan_chans] at hC
    split at hC
    · obtain rfl := Option.some.inj hC
      simp [newChan] at hnode
    · exact ⟨C, p, hC, hnode⟩
  have hlast : ∀ u, PendingSince t u →
      PendingSince s u ∧ ∀ c, u.Pending c → s.Pending c ∨ s.nextChan < c := by
    intro u hu
    have hlt : ∀ c, u.Pending c → s.Pending c ∨ s.nextChan < c := by
      intro c hc
      rcases hu.pending c hc with hc | hc
      · exact Or.inl (hold c hc)
      · exact Or.inr (Nat.lt_of_lt_of_le (hnext ▸ Nat.lt_succ_self _) hc)
    refine ⟨⟨Nat.le_trans (hnext ▸ Nat.le_succ _) hu.next, ?_⟩, hlt⟩
    intro c hc
    exact (hlt c hc).imp_right Nat.le_of_lt
  have hguest : Preserves (PendingSince t) (modifyChan s.nextChan fun C =>
      { C with handle := { C.handle with guestId := guest } }) :=
    pending_modifyChan_same fun _ => rfl
  refine wp_conseq (pending_attachOrWait t (.refl t)) ?_
  intro ret u hu
  split
  · exact wp_seq (pending_chanDelRef u hu) fun _ v hv => hlast v hv
  · refine wp_seq (pending_chanHandleInit u hu) fun _ v hv => ?_
    refine wp_seq (hguest v hv) fun _ w hw => ?_
    exact wp_seq (pending_chanDelRef w hw) fun _ z hz => hlast z hz

/-! ## Accepting -/

theorem pending_acceptConnect {client server : ChanId} :
    Preserves (PendingSince s) (acceptConnect server client) := by
  refine Preserves.bind (pending_modifyChan_same fun _ => rfl) fun _ => ?_
  refine Preserves.bind (pending_modifyChan_same fun _ => rfl) fun _ => ?_
  refine Preserves.bind pending_chanHandleInit fun _ => Preserves.bind pending_getChan fun _ => ?_
  refine Preserves.bind (pending_modifyChan_same fun _ => rfl) fun _ => ?_
  exact pending_handleNotify

/-- What was taken from the list is not pending any more. -/
theorem wp_listDelete_notPending :
    wp (listDelete c) (fun _ t => PendingSince s t ∧ t.nextChan = s.nextChan ∧ ¬ t.Pending c)
      anyStop s := by
  have hnext : wp (listDelete c) (fun _ t => t.nextChan = s.nextChan ∧ ¬ t.Pending c) anyStop s := by
    have hout : ∀ {u : Registry} {C : Chan}, u.nextChan = s.nextChan →
        (u.setChan c { C with node := none }).nextChan = s.nextChan ∧
          ¬ (u.setChan c { C with node := none }).Pending c := by
      intro u C hu
      refine ⟨hu, ?_⟩
      rintro ⟨D, p, hD, hnode⟩
      obtain rfl : ({ C with node := none } : Chan) = D := by simpa using hD
      simp at hnode
    rw [wp_listDelete]
    cases s.chans c with
    | none => trivial
    | some C =>
        rw [Option.elim_some]
        cases C.node with
        | none => trivial
        | some l =>
            cases l with
            | waitingForPort => exact hout rfl
            | pending p =>
                show (s.ports p).elim _ _
                cases s.ports p with
                | none => trivial
                | some P => exact hout rfl
  exact wp_mono (wp_and (pending_listDelete s (.refl s)) hnext) (fun _ _ ht => ht)
    fun _ _ _ => trivial

/-- A call makes nothing pending, and what it takes is not pending any more. -/
theorem wp_ipcPortAccept_pending :
    wp (ipcPortAccept (some x)) (fun _ t => PendingSince s t ∧
      ∀ c, s.nextPending x = some c → t.Pending c → s.nextChan ≤ c) anyStop s := by
  cases x with
  | chan d => exact ⟨.refl s, by simp [Registry.nextPending]⟩
  | port p =>
      simp only [ipcPortAccept, wp_bind, wp_getPort]
      cases hP : s.ports p with
      | none => trivial
      | some P =>
          simp only [Option.elim_some, wp_ite, wp_pure]
          split
          · rename_i hst
            exact ⟨.refl s, by simp [Registry.nextPending, hP, hst]⟩
          rename_i hst
          have hst := not_not.mp hst
          cases hl : P.pendingList with
          | nil => exact ⟨.refl s, by simp [Registry.nextPending, hP, hl]⟩
          | cons server rest =>
              refine wp_seq wp_listDelete_notPending ?_
              rintro _ t ⟨hsince, hnext, hnot⟩
              have hdrop : Preserves (PendingSince t) (do
                  chanShutdownLocked server
                  chanDelRef server .tmp
                  return (errChannelClosed, (none : Option (ChanId × Option Uuid)))) := by
                refine Preserves.bind pending_chanShutdownLocked fun _ => ?_
                exact Preserves.bind pending_chanDelRef fun _ => Preserves.pure _
              refine wp_conseq ((show Preserves (PendingSince t) _ from ?_) t (.refl t)) ?_
              · refine Preserves.bind pending_chanAddRef fun _ => ?_
                refine Preserves.bind pending_chanDelRef fun _ => ?_
                refine Preserves.bind pending_handleDecref fun _ => ?_
                refine Preserves.bind pending_getChan fun S => ?_
                cases S.peer with
                | none => exact hdrop
                | some client =>
                    refine Preserves.bind pending_getChan fun C => Preserves.ite hdrop ?_
                    refine Preserves.bind pending_acceptConnect fun _ => ?_
                    exact Preserves.bind pending_chanDelRef fun _ => Preserves.pure _
              · intro ret u hu
                refine ⟨hsince.trans hu, ?_⟩
                intro c hc hpending
                obtain rfl : server = c := by
                  simpa [Registry.nextPending, hP, hst, hl] using hc
                rcases hu.pending server hpending with hc | hc
                · exact absurd hc hnot
                · exact hnext ▸ hc

/-! ## Messages -/

theorem pending_getQueue : Preserves (PendingSince s) (getQueue c) := by
  refine Preserves.bind pending_getChan fun C => ?_
  cases C.msgQueue with
  | none => exact Preserves.throw _
  | some mq => exact Preserves.pure _

theorem pending_setQueue {mq : MsgQueue} : Preserves (PendingSince s) (setQueue c mq) :=
  pending_modifyChan_same fun _ => rfl

theorem pending_sendMsgLocked {handle : Option HandlePtr} {msg : MsgDesc} :
    Preserves (PendingSince s) (sendMsgLocked handle msg) := by
  rw [sendMsgLocked]
  cases checkChannelLocked handle with
  | none => exact Preserves.pure _
  | some c =>
      refine Preserves.bind pending_getChan fun C => ?_
      have hwrite : Preserves (PendingSince s) (msgWriteLocked c msg) := by
        refine Preserves.bind pending_getChan fun C => ?_
        cases C.peer with
        | none => exact Preserves.throw _
        | some peer =>
            refine Preserves.bind pending_getQueue fun mq => ?_
            cases mq.freeList with
            | nil =>
                refine Preserves.bind (pending_modifyChan_same fun _ => rfl) fun _ => ?_
                exact Preserves.pure _
            | cons item rest => exact Preserves.bind pending_setQueue fun _ => Preserves.pure _
      cases C.state with
      | connected =>
          refine Preserves.bind hwrite fun ret => ?_
          show Preserves _ (ite _ _ _)
          refine Preserves.ite (Preserves.bind pending_getChan fun D => ?_) (Preserves.pure _)
          cases D.peer with
          | none => exact Preserves.bind (Preserves.throw _) fun _ => Preserves.pure _
          | some peer => exact Preserves.bind pending_handleNotify fun _ => Preserves.pure _
      | invalid | accepting | connecting | disconnecting | waitingForPort => exact Preserves.pure _

theorem pending_sysGetMsg {handle : Option HandlePtr} {copied : Bool} :
    Preserves (PendingSince s) (sysGetMsg handle copied) := by
  rw [sysGetMsg]
  cases checkChannelLocked handle with
  | none => exact Preserves.pure _
  | some c =>
      refine Preserves.bind pending_getQueue fun mq => ?_
      cases mq.peekNextFilled with
      | none => exact Preserves.pure _
      | some info =>
          refine Preserves.ite (Preserves.pure _) ?_
          cases mq.getFilled with
          | none => exact Preserves.throw _
          | some mq => exact Preserves.bind pending_setQueue fun _ => Preserves.pure _

theorem pending_readMsgLocked {handle : Option HandlePtr} {msgId offset : UInt32} {msg : MsgDesc} :
    Preserves (PendingSince s) (readMsgLocked handle msgId offset msg) := by
  rw [readMsgLocked]
  cases checkChannelLocked handle with
  | none => exact Preserves.pure _
  | some c => exact Preserves.bind pending_getQueue fun _ => Preserves.pure _

theorem pending_ipcPutMsg {handle : Option HandlePtr} {msgId : UInt32} :
    Preserves (PendingSince s) (ipcPutMsg handle msgId) := by
  rw [ipcPutMsg]
  cases checkChannelLocked handle with
  | none => exact Preserves.pure _
  | some c =>
      refine Preserves.bind pending_getQueue fun mq => ?_
      cases mq.putRead msgId with
      | none => exact Preserves.pure _
      | some mq =>
          refine Preserves.bind pending_setQueue fun _ => Preserves.bind pending_getChan fun C => ?_
          cases C.peer with
          | none => exact Preserves.pure _
          | some peer =>
              refine Preserves.bind pending_getChan fun Y => ?_
              show Preserves _ (ite _ _ _)
              refine Preserves.ite ?_ (Preserves.pure _)
              refine Preserves.bind (pending_modifyChan_same fun _ => rfl) fun _ => ?_
              exact Preserves.bind pending_handleNotify fun _ => Preserves.pure _

theorem pending_msgCall {handle : Option HandlePtr} {call : MsgCall} :
    Preserves (PendingSince s) (call.run handle) := by
  cases call with
  | ipcSend msg | sysSend msg =>
      refine Preserves.map ?_
      cases msg with
      | none => exact Preserves.pure _
      | some msg => exact pending_sendMsgLocked
  | ipcGet | sysGet copied => exact Preserves.map pending_sysGetMsg
  | ipcRead msgId offset msg | sysRead msgId offset msg =>
      refine Preserves.map ?_
      cases msg with
      | none => exact Preserves.pure _
      | some msg => exact pending_readMsgLocked
  | put msgId => exact Preserves.map pending_ipcPutMsg

theorem pending_ipcPortCreate {sid : Option Uuid} {path : Path} {numRecvBufs recvBufSize : Nat}
    {flags : UInt32} :
    Preserves (PendingSince s) (ipcPortCreate env sid path numRecvBufs recvBufSize flags) := by
  intro t ht
  simp only [ipcPortCreate, wp_ite, wp_pure, wp_bind, wp_get, wp_set]
  split
  · exact ht
  split
  · exact ht
  split
  · exact ht
  split
  · exact ht
  split
  · exact ht
  exact ⟨ht.next, ht.pending⟩

/-! ## No handle while pending -/

/-- Nobody has a handle of a channel that is pending. -/
def Registry.Unhandled (s : Registry) : Prop :=
  ∀ c C p, s.chans c = some C → C.node = some (.pending p) → C.handle.refcnt = 0

section

variable {refs refs' : HandlePtr → Nat} {L : Ledger}

theorem Booked.refs_zero (h : Booked ⟨s, refs⟩) (hzero : s.handleRefs x = 0) : refs x = 0 := by
  have hrefs : s.handleRefs x = (refs x : Int) := h.refs x
  omega

/-- A step after which the counts of the pending channels are what they were. -/
theorem Registry.Unhandled.step (hs : s.Unhandled) (h : Booked ⟨s, refs⟩) (ht : Booked ⟨t, refs'⟩)
    (hsince : PendingSince s t) (hkeep : ∀ c, t.Pending c → refs (.chan c) = 0 →
      refs' (.chan c) = 0) : t.Unhandled := by
  intro c C p hC hnode
  have hold : refs (.chan c) = 0 := by
    refine h.refs_zero ?_
    rcases hsince.pending c ⟨C, p, hC, hnode⟩ with ⟨C₀, p₀, hC₀, hnode₀⟩ | hnew
    · simp [Registry.handleRefs, hC₀, hs c C₀ p₀ hC₀ hnode₀]
    · have hnone : s.chans c = none := h.inv.lists.freshChan hnew
      simp [Registry.handleRefs, hnone]
  have hcount : C.handle.refcnt = (refs' (.chan c) : Int) := ht.chan_refcnt hC
  rw [hcount, hkeep c ⟨C, p, hC, hnode⟩ hold]
  rfl

/-- A handle that is given out is not that of a pending channel. -/
theorem Registry.Unhandled.enter (hs : s.Unhandled) (h : Booked ⟨s, refs⟩) {o : Option HandlePtr}
    (ht : Booked ⟨t, Ipc.enter refs o⟩) (hsince : PendingSince s t)
    (ho : ∀ c, o = some (.chan c) → refs (.chan c) = 0 → ¬ t.Pending c) : t.Unhandled := by
  refine hs.step h ht hsince ?_
  intro c hc hzero
  have hne : o ≠ some (.chan c) := by
    intro heq
    exact ho c heq hzero hc
  exact (enter_of_ne hne).trans hzero

/-- What a step makes of the registry does not depend on the counts. -/
theorem Action.wp_keep_reg {a : Action} {Q : Registry → Prop} :
    wp a.keep (fun _ L => Q L.reg) anyStop ⟨s, refs⟩ ↔ wp a.run (fun _ t => Q t) anyStop s := by
  cases a with
  | create | publish | connect | accept | message =>
      rw [Action.keep, wp_keeping_iff, Action.run, wp_map]
      rfl
  | incref | shutdown | decref =>
      rw [Action.keep, wp_keeping_iff, Action.run]
      rfl

theorem Registry.Unhandled.wp_run (hs : s.Unhandled) (h : Booked ⟨s, refs⟩) {a : Action}
    (hen : a.Entered ⟨s, refs⟩) : wp a.run (fun _ t => t.Unhandled) anyStop s := by
  refine Action.wp_keep_reg.mp
    (?_ : wp a.keep (fun _ L => L.reg.Unhandled) anyStop ⟨s, refs⟩)
  -- an action that gives nothing out, or takes something back
  have hkeep : ∀ {α : Type} (m : IpcM α) (note : (HandlePtr → Nat) → HandlePtr → Nat),
      a.keep = keeping m (fun _ => note) → Preserves (PendingSince s) m →
      (∀ c, refs (.chan c) = 0 → note refs (.chan c) = 0) →
      wp a.keep (fun _ L' => L'.reg.Unhandled) anyStop ⟨s, refs⟩ := by
    intro α m note heq hpres hnote
    have hnoted := h.wp_noted hen m _ heq
    rw [heq, wp_keeping_iff]
    refine wp_mono (wp_and hnoted (hpres s (.refl s))) ?_ fun _ _ _ => trivial
    rintro _ t ⟨ht, hsince⟩
    exact hs.step h ht hsince fun c _ hzero => hnote c hzero
  cases a with
  | create env sid path numRecvBufs recvBufSize flags =>
      rw [Action.keep, wp_keeping_iff]
      refine wp_mono (wp_and (h.wp_noted hen _ (fun ret refs => Ipc.enter refs (ret.2.map .port)) rfl)
        (pending_ipcPortCreate s (.refl s))) ?_ fun _ _ _ => trivial
      rintro ret t ⟨ht, hsince⟩
      refine hs.enter h ht hsince ?_
      intro c hc
      cases hr : ret.2 with
      | none => simp [hr] at hc
      | some p => simp [hr] at hc
  | publish env p => exact hkeep _ (fun refs => refs) rfl pending_ipcPortPublish fun _ hzero => hzero
  | connect env guest cid path maxPath flags =>
      rw [Action.keep, wp_keeping_iff]
      refine wp_mono (wp_and (h.wp_connect env guest cid path maxPath flags)
        (wp_and wp_ipcPortConnectAsync_pending h.inv.wp_ipcPortConnectAsync_made)) ?_
        fun _ _ _ => trivial
      rintro ret t ⟨ht, ⟨hsince, hclient⟩, hmade⟩
      refine hs.enter h ht hsince ?_
      intro c hc _ hpending
      cases hmade with
      | fails _ hnone => simp [hnone] at hc
      | returns hret =>
          subst hret
          obtain rfl : s.nextChan = c := by simpa using hc
          have hfresh : s.chans s.nextChan = none := h.inv.lists.freshChan (Nat.le_refl _)
          rcases hclient _ hpending with ⟨C, p, hC, -⟩ | hlt
          · rw [hfresh] at hC
            cases hC
          · exact Nat.lt_irrefl _ hlt
  | accept handle =>
      rw [Action.keep, wp_keeping_iff]
      have hnoted := h.wp_noted hen (ipcPortAccept handle)
        (fun ret refs => Ipc.enter refs (ret.2.map fun x => .chan x.1)) rfl
      cases handle with
      | none => exact hs.step h hnoted (.refl s) fun _ _ hzero => hzero
      | some x =>
          refine wp_mono (wp_and hnoted (wp_and wp_ipcPortAccept_pending wp_ipcPortAccept_taken)) ?_
            fun _ _ _ => trivial
          rintro ret t ⟨ht, ⟨hsince, hserver⟩, htaken⟩
          refine hs.enter h ht hsince ?_
          intro c hc _ hpending
          cases htaken with
          | fails _ hnone => simp [hnone] at hc
          | returns d uuid D hret hnext hD =>
              subst hret
              obtain rfl : d = c := by simpa using hc
              have hnone : s.chans d = none := h.inv.lists.freshChan (hserver d hnext hpending)
              rw [hnone] at hD
              cases hD
  | incref handle =>
      refine hkeep _ (fun refs => Ipc.enter refs (some handle)) rfl pending_handleIncref ?_
      intro c hzero
      have hpos : 0 < refs handle := hen
      have hne : some handle ≠ some (.chan c) := by
        intro heq
        rw [Option.some.inj heq] at hpos
        omega
      exact (enter_of_ne hne).trans hzero
  | shutdown handle =>
      refine hkeep _ (fun refs => refs) rfl ?_ fun _ hzero => hzero
      cases handle with
      | chan c => exact pending_chanShutdownLocked
      | port p => exact pending_portShutdown
  | decref handle =>
      refine hkeep _ (fun refs => strike refs handle) rfl pending_handleDecref ?_
      intro c hzero
      by_cases hc : HandlePtr.chan c = handle
      · simp [strike, ← hc, hzero]
      · simp [strike, hc, hzero]
  | message handle call => exact hkeep _ (fun refs => refs) rfl pending_msgCall fun _ hzero => hzero

/-- In every state of every run. -/
theorem unhandled_of_reachable (h : ledger.Reachable anyEntry L) : L.reg.Unhandled := by
  have hboth : Booked L ∧ L.reg.Unhandled := by
    refine Machine.invariant (I := fun L => Booked L ∧ L.reg.Unhandled) (E := fun _ _ => anyStop)
      ⟨booked_empty, ?_⟩ ?_ h
    · intro c C p hC
      cases hC
    · rintro L a ⟨hL, hs⟩ hen -
      exact wp_mono (wp_and (hL.wp_keep hen) (Action.wp_keep_reg.mpr (hs.wp_run hL hen)))
        (fun _ _ ht => ⟨ht.1.1, ht.2⟩) fun _ _ _ => trivial
  exact hboth.2

/-- While a call is under way, others take steps. -/
theorem Registry.Unhandled.meanwhile (hs : s.Unhandled) {mine : HandlePtr → Nat}
    (h : Booked ⟨s, refs + mine⟩) (w : Meanwhile) : (w.run ⟨s, refs⟩).reg.Unhandled := by
  have hboth : Booked ⟨(w.run ⟨s, refs⟩).reg, (w.run ⟨s, refs⟩).refs + mine⟩ ∧
      (w.run ⟨s, refs⟩).reg.Unhandled := by
    refine w.induct (I := fun L => Booked ⟨L.reg, L.refs + mine⟩ ∧ L.reg.Unhandled) ⟨h, hs⟩ ?_
    rintro L a ⟨hL, hs⟩ hen
    have hall : a.Entered ⟨L.reg, L.refs + mine⟩ := hen.mono fun x => Nat.le_add_right _ _
    refine wp_mono (wp_and (hL.wp_beside hen) (Action.wp_keep_reg.mpr (hs.wp_run hL hall))) ?_
      fun _ _ _ => trivial
    rintro _ L' ⟨hbeside, hL'⟩
    exact ⟨hbeside.booked, hL'⟩
  exact hboth.2

end

end

end TX2SecureUart.Ipc
