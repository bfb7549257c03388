/-
# `Ipc.Shutdown` — closing keeps the invariant

Dropping references, `chan_shutdown_locked`, and what closing a handle is made
of.  Shutting a channel down can stop the kernel in one place: an orphaned
client is in the state `waitingForPort` but in no list.
-/
import TX2SecureUart.Ipc.Inv

namespace TX2SecureUart.Ipc

open Prog

section

variable {T O T' O' : ChanId → Prop} {E : Fault → Registry → Prop} {s : Registry} {c : ChanId}
  {C : Chan}

/-! ## Dropping a reference -/

/-- A reference is unlinked, when everything else already fits the channel
without it: the channel stays, or it is destroyed without a failing `ASSERT`. -/
theorem Inv.wp_chanDelRef {r : ObjRef} (hC : s.chans c = some C) (hr : r ∈ C.refobj)
    (h : Inv T O (s.setChan c { C with refobj := C.refobj.erase r })) :
    wp (chanDelRef c r) (fun _ t => Inv T O t ∧
        (t = s.setChan c { C with refobj := C.refobj.erase r } ∨
          t = (s.setChan c { C with refobj := C.refobj.erase r }).freeChan c)) E s := by
  rw [Ipc.wp_chanDelRef]
  simp only [hC, Option.elim_some, hr, not_true, if_false]
  by_cases hempty : C.refobj.erase r = ∅
  · obtain ⟨hpeer, hnode, hfree⟩ := h.freeChan (c := c)
      (C := { C with refobj := C.refobj.erase r }) (by simp) hempty
    simp only at hpeer hnode
    simp only [hempty, if_true, hpeer, hnode, Option.isSome_none, Bool.false_eq_true, if_false] at hfree ⊢
    exact ⟨hfree, Or.inr trivial⟩
  · simp only [hempty, if_false]
    exact ⟨h, Or.inl trivial⟩

/-- The local reference is dropped at the end of an operation. -/
theorem Inv.delTmp (h : Inv T O s) (hC : s.chans c = some C) (hT : ∀ d, d ≠ c → (T' d ↔ T d))
    (hTc : ¬ T' c)
    (hanchored : C.peer.isSome → .handle ∈ C.refobj ∨ .node ∈ C.refobj)
    (hheld : C.state = .waitingForPort ∨ C.state = .connecting ∨ C.state = .connected →
      0 < C.handle.refcnt) :
    Inv T' O (s.setChan c { C with refobj := C.refobj.erase .tmp }) := by
  have hc := h.chan hC
  refine h.setChan hC ⟨rfl, by simp, rfl, Or.inl rfl, fun _ => rfl⟩ ?_
    hT (fun _ _ => id)
  exact { hc with
    handleRef := by simpa using hc.handleRef
    nodeRef := by simpa using hc.nodeRef
    tmpRef := by simp [hTc]
    anchored := fun hp => by simpa using hanchored hp
    held := fun hs => Or.inr (hheld hs) }

/-! ## `chan_shutdown_locked` -/

/-- A channel with a peer, and its peer, were attached. -/
theorem Inv.attached_of_peer (h : Inv T O s) {y : ChanId} {Y : Chan} (hC : s.chans c = some C)
    (hy : C.peer = some y) (hY : s.chans y = some Y) :
    (C.state ≠ .waitingForPort ∧ C.state ≠ .invalid) ∧
      (Y.state ≠ .waitingForPort ∧ Y.state ≠ .invalid) := by
  have halone : ¬ (C.state = .waitingForPort ∨ C.state = .invalid) := fun hs => by
    have := (h.chan hC).alone hs
    simp [hy] at this
  have hpeer : ¬ (Y.state = .waitingForPort ∨ Y.state = .invalid) := fun hs =>
    h.no_peer_of hY hs hC hy
  exact ⟨not_or.mp halone, not_or.mp hpeer⟩

theorem ChanInv.queued_disconnecting (h : ChanInv T O s c C)
    (hst : C.state ≠ .waitingForPort ∧ C.state ≠ .invalid) :
    C.msgQueue = none ↔ ChanState.disconnecting = .waitingForPort ∨ C.path.isSome := by
  have := h.queued hst.2
  simp only [hst.1, false_or] at this
  simpa using this

/-- A channel lets go of its peer; both are disconnecting. -/
theorem Inv.unpeer (h : Inv T O s) {y : ChanId} {Y : Chan} (hC : s.chans c = some C)
    (hy : C.peer = some y) (hY : s.chans y = some Y) :
    c ≠ y ∧ Inv T O ((s.setChan c { C with state := .disconnecting, peer := none }).setChan y
      { Y with state := .disconnecting, refobj := Y.refobj.erase (.peer c) }) := by
  have hc := h.chan hC
  have hyi := h.chan hY
  obtain ⟨hst, hYst⟩ := h.attached_of_peer hC hy hY
  obtain ⟨Y', hY', href, hcompat⟩ := h.peers.peer hC hy
  obtain rfl : Y = Y' := Option.some.inj (hY.symm.trans hY')
  have hcy : c ≠ y := by
    rintro rfl
    obtain rfl : C = Y := Option.some.inj (hC.symm.trans hY)
    have := hcompat.roles
    tauto
  have hyc : y ≠ c := hcy.symm
  refine ⟨hcy, ?_⟩
  have hback : Y.peer = none ∨ Y.peer = some c := hcompat.back
  refine h.updatePair hC hY hcy ?_ ?_ ⟨Or.inr hy, nofun, fun {x X} hxc hxy hX hpX => ?_,
    fun x hx => ?_⟩ ⟨hback, fun z hz => ?_, fun {x X} hxy hxc hX hpX => ?_, fun x hx => ?_⟩
    (fun _ _ _ => Iff.rfl)
  · exact { hc with
      waits := fun hn => by
        have := (hc.alone (Or.inl (hc.waits hn).1)).symm.trans hy
        cases this
      linked := nofun, client := nofun, pends := fun _ _ => Or.inr rfl, alone := fun _ => rfl
      paired := fun hs => by simp at hs
      anchored := nofun, queue := nofun, held := fun hs => by simp at hs
      queued := fun _ => hc.queued_disconnecting hst
      valid := fun _ => nofun, unaccepted := nofun, granted := fun hs => by simp at hs }
  · exact { hyi with
      handleRef := by simpa using hyi.handleRef
      nodeRef := by simpa using hyi.nodeRef
      tmpRef := by simpa using hyi.tmpRef
      waits := fun hn => absurd (hyi.waits hn).1 hYst.1
      linked := nofun, client := nofun, pends := fun _ _ => Or.inr rfl
      alone := fun hs => by simp at hs
      paired := fun hs => by simp at hs
      anchored := fun hpeer => by simpa using hyi.anchored hpeer
      held := fun hs => by simp at hs
      queued := fun _ => hyi.queued_disconnecting hYst
      valid := fun _ => nofun, unaccepted := nofun, granted := fun hs => by simp at hs }
  · -- somebody else who holds `c` would be its peer
    obtain ⟨C', hC', -, hcx⟩ := h.peers.peer hX hpX
    obtain rfl : C = C' := Option.some.inj (hC.symm.trans hC')
    have : y = x := by simpa [hy] using hcx.back
    exact absurd this.symm hxy
  · obtain ⟨X, hX, hpX⟩ := h.peers.peerRef hC hx
    by_cases hxy : x = y
    · subst hxy
      obtain rfl : Y = X := Option.some.inj (hY.symm.trans hX)
      exact Or.inl ⟨rfl, hpX⟩
    · have hxc : x ≠ c := by
        rintro rfl
        obtain rfl : C = X := Option.some.inj (hC.symm.trans hX)
        exact hcy (Option.some.inj (hpX.symm.trans hy))
      exact Or.inr ⟨hxc, hxy, hx⟩
  · have hz : Y.peer = some z := hz
    have hzc : z = c := by simpa [hz] using hback
    obtain ⟨C', hC', hrefy, hcompat'⟩ := h.peers.peer hY hz
    subst hzc
    obtain rfl : C = C' := Option.some.inj (hC.symm.trans hC')
    exact ⟨rfl, hrefy, ⟨Or.inl rfl, nofun, nofun, nofun, fun _ => rfl, hcompat'.roles, nofun⟩⟩
  · obtain ⟨Y', hY', hrefx, hcx⟩ := h.peers.peer hX hpX
    obtain rfl : Y = Y' := Option.some.inj (hY.symm.trans hY')
    have hnot : Y.peer ≠ some x := fun hpx => by
      rcases hback with hpn | hpc
      · simp [hpx] at hpn
      · exact hxc (Option.some.inj (hpx.symm.trans hpc))
    exact ⟨by simpa [hxc] using hrefx, ⟨hcx.back, fun hs => absurd (hcx.accepting hs).2 hnot,
      fun hs => absurd (hcx.connecting hs).2 hnot, fun hs => absurd (hcx.connected hs).2.1 hnot,
      fun _ => rfl, hcx.roles, hcx.server⟩⟩
  · have hx' : x ≠ c ∧ ObjRef.peer x ∈ Y.refobj := by simpa using hx
    refine Or.inr ⟨?_, hx'.1, hx'.2⟩
    rintro rfl
    obtain ⟨X, hX, hpX⟩ := h.peers.peerRef hY hx'.2
    obtain rfl : Y = X := Option.some.inj (hY.symm.trans hX)
    have : x = c := by simpa [hpX] using hback
    exact hx'.1 this

theorem ListInv.eraseWaiting (h : ListInv s) (c : ChanId) :
    ListInv (s.setWaiting (s.waitingForPortChanList.erase c)) :=
  { h with
    waitingLive := fun hm => h.waitingLive (List.mem_of_mem_erase hm)
    waitingNodup := h.waitingNodup.erase c }

/-- The references of a channel that leaves a list. -/
structure LeavesList (C : Chan) (tmp : Prop) (refs : Finset ObjRef) : Prop where
  handle : .handle ∈ refs ↔ .handle ∈ C.refobj
  node : .node ∉ refs
  peer : ∀ x, .peer x ∈ refs ↔ .peer x ∈ C.refobj
  tmp : .tmp ∈ refs ↔ tmp

/-- A waiting client leaves the list, for good or for an attempt to attach it. -/
theorem Inv.unlinkWaiting (h : Inv T O s) (hC : s.chans c = some C)
    (hnode : C.node = some .waitingForPort) {st : ChanState}
    (hst : st = .disconnecting ∨ (st = .waitingForPort ∧ O' c)) (hO : ∀ d, O d → O' d)
    (hT : ∀ d, d ≠ c → (T' d ↔ T d)) {R : Finset ObjRef} (hrefs : LeavesList C (T' c) R)
    (hTc : T c → T' c) (path : Option Path) (hpath : st = .waitingForPort ∨ path.isSome) :
    Inv T' O' ((s.setWaiting (s.waitingForPortChanList.erase c)).setChan c
      { C with node := none, state := st, refobj := R, path := path }) := by
  have hc := h.chan hC
  obtain ⟨hwait, -⟩ := hc.waits hnode
  have halone := hc.alone (Or.inl hwait)
  have hmem : c ∉ s.waitingForPortChanList.erase c := h.lists.waitingNodup.not_mem_erase
  refine h.update hC (N := { C with node := none, state := st, refobj := R, path := path })
    (fun d => Registry.setChan_chans)
    ⟨rfl, hrefs.peer, rfl, Or.inr (Or.inl hwait), fun _ => rfl⟩ ?_ hT (fun d _ => hO d)
    (fun d hd => ⟨List.mem_of_mem_erase, (List.mem_erase_of_ne hd).mpr⟩) (fun _ _ _ => Iff.rfl)
    ⟨[], (List.append_nil _).symm⟩ ((h.lists.eraseWaiting c).setChan hC _)
  exact { hc with
    handleRef := hrefs.handle.trans hc.handleRef
    nodeRef := ⟨fun hm => absurd hm hrefs.node, nofun⟩
    tmpRef := hrefs.tmp
    inWaiting := ⟨nofun, fun hm => absurd hm hmem⟩
    inPending := fun p => ⟨nofun, fun hp => by
      have := (hc.inPending p).mpr hp
      simp [hnode] at this⟩
    waits := nofun
    linked := fun hs => Or.inr (by
      rcases hst with rfl | ⟨-, ho⟩
      · cases hs
      · exact ho)
    client := fun _ => hc.client hwait
    pends := nofun
    alone := fun _ => halone
    paired := fun hs => by rcases hst with rfl | ⟨rfl, -⟩ <;> simp at hs
    anchored := fun hp => by simp [halone] at hp
    held := fun _ => (hc.held (Or.inl hwait)).imp_left hTc
    queued := fun _ => ⟨fun _ => hpath, fun _ => (hc.queued (by simp [hwait])).mpr (Or.inl hwait)⟩
    unaccepted := fun hs => by rcases hst with rfl | ⟨rfl, -⟩ <;> cases hs
    valid := fun _ => by rcases hst with rfl | ⟨rfl, -⟩ <;> nofun
    granted := fun hs => by rcases hst with rfl | ⟨rfl, -⟩ <;> simp at hs }

/-- What shutting a channel down leaves of it. -/
structure ShutDown (s t : Registry) (c : ChanId) (C : Chan) : Prop where
  self : ∃ C', t.chans c = some C' ∧ C'.peer = none ∧ C'.handle = C.handle ∧
    (C.state ≠ .invalid → C'.state = .disconnecting) ∧
    (C.state ≠ .waitingForPort → C'.node = C.node)
  /-- a peer somebody has a handle to hears of it -/
  peer : ∀ {y Y}, C.peer = some y → s.chans y = some Y → .handle ∈ Y.refobj →
    t.chans y = some { Y with state := .disconnecting, refobj := Y.refobj.erase (.peer c) }
  ports : t.ports = s.ports
  list : t.ipcPortList = s.ipcPortList

/-- Shutting down one side of a connection. -/
theorem wp_chanShutdownOneLocked {Q : PUnit → Registry → Prop} (hC : s.chans c = some C)
    (hst : C.state ≠ .waitingForPort ∧ C.state ≠ .invalid) :
    wp (chanShutdownOneLocked c) Q E s ↔
      Q ⟨⟩ (s.setChan c { C with state := .disconnecting }) := by
  simp only [chanShutdownOneLocked, wp_bind, wp_getChan, hC, Option.elim_some]
  cases hs : C.state with
  | invalid => exact absurd hs hst.2
  | waitingForPort => exact absurd hs hst.1
  | connected => simp [hC]
  | connecting => simp [hC]
  | accepting => simp [hC]
  | disconnecting =>
      have hself : { C with state := .disconnecting } = C := by rw [← hs]
      rw [wp_pure, hself, Registry.setChan_self hC]

/-- `chan_shutdown_locked` fails on an orphaned client only. -/
theorem Inv.wp_chanShutdownLocked (h : Inv T O s) (hC : s.chans c = some C) :
    wp (chanShutdownLocked c) (fun _ t => Inv T O t ∧ ShutDown s t c C)
      (fun e _ => e = .assertFailed .waitingInList ∧ C.state = .waitingForPort ∧ O c) s := by
  have hc := h.chan hC
  simp only [chanShutdownLocked, wp_bind]
  cases hpeer : C.peer with
  | some y =>
      obtain ⟨Y, hY, href, -⟩ := h.peers.peer hC hpeer
      obtain ⟨hst, hYst⟩ := h.attached_of_peer hC hpeer hY
      obtain ⟨hcy, hunpeer⟩ := h.unpeer hC hpeer hY
      have hyc : y ≠ c := hcy.symm
      have hY' : (s.setChan c { C with state := .disconnecting, peer := some y }).chans y =
          some Y := by simp [hyc, hY]
      rw [wp_chanShutdownOneLocked hC hst]
      simp only [wp_getChan, Registry.setChan_chans, if_true, Option.elim_some, hpeer, wp_bind]
      rw [wp_chanShutdownOneLocked hY' hYst]
      simp only [wp_bind, Ipc.wp_chanDelRef, Registry.setChan_chans, Registry.setChan_setChan,
        if_true, Option.elim_some, href, not_true, if_false]
      -- the peer may go; either way `c` lets go of it last
      have hpost : ∀ t, t.chans c = some { C with state := .disconnecting, peer := none } →
          (.handle ∈ Y.refobj → t.chans y = some { Y with
            state := .disconnecting, refobj := Y.refobj.erase (.peer c) }) →
          t.ports = s.ports → t.ipcPortList = s.ipcPortList → ShutDown s t c C := by
        refine fun t ht hy hp hl => ⟨⟨_, ht, rfl, rfl, fun _ => rfl, fun _ => rfl⟩, ?_, hp, hl⟩
        intro z Z hz hZ hhandle
        obtain rfl : y = z := Option.some.inj (hpeer.symm.trans hz)
        obtain rfl : Y = Z := Option.some.inj (hY.symm.trans hZ)
        exact hy hhandle
      by_cases hempty : Y.refobj.erase (.peer c) = ∅
      · obtain ⟨hpn, hnn, hfree⟩ := hunpeer.freeChan (c := y)
          (C := { Y with state := .disconnecting, refobj := Y.refobj.erase (.peer c) })
          (by simp) hempty
        simp only at hpn hnn
        simp only [hempty, if_true, hpn, hnn, Option.isSome_none, Bool.false_eq_true, if_false,
          wp_modifyChan, Registry.freeChan_chans, Registry.setChan_chans, hcy, Option.elim_some]
        rw [Registry.freeChan_setChan_comm hyc, Registry.setChan_comm hyc,
          Registry.setChan_setChan]
        rw [Registry.freeChan_setChan] at hfree ⊢
        refine ⟨hfree, hpost _ (by simp [hcy]) (fun hhandle => ?_) rfl rfl⟩
        have hmem : ObjRef.handle ∈ Y.refobj.erase (.peer c) :=
          Finset.mem_erase.mpr ⟨by simp, hhandle⟩
        simp [hempty] at hmem
      · simp only [hempty, if_false, wp_modifyChan, Registry.setChan_chans, hcy, if_true,
          Option.elim_some]
        rw [Registry.setChan_comm hyc, Registry.setChan_setChan]
        exact ⟨hunpeer, hpost _ (by simp [hcy]) (fun _ => by simp) rfl rfl⟩
  | none =>
      simp only [chanShutdownOneLocked, wp_bind, wp_getChan, hC, Option.elim_some]
      cases hs : C.state with
      | accepting => simpa [hpeer] using hc.paired (Or.inl hs)
      | connecting => simpa [hpeer] using hc.paired (Or.inr (Or.inl hs))
      | connected => simpa [hpeer] using hc.paired (Or.inr (Or.inr hs))
      | invalid =>
          simp only [wp_pure, wp_bind, wp_getChan, hC, Option.elim_some, hpeer]
          exact ⟨h, ⟨C, hC, hpeer, rfl, fun hne => absurd hs hne, fun _ => rfl⟩,
            fun hy => by simp [hpeer] at hy, rfl, rfl⟩
      | disconnecting =>
          simp only [wp_pure, wp_bind, wp_getChan, hC, Option.elim_some, hpeer]
          exact ⟨h, ⟨C, hC, hpeer, rfl, fun _ => hs, fun _ => rfl⟩,
            fun hy => by simp [hpeer] at hy, rfl, rfl⟩
      | waitingForPort =>
          cases hn : C.node with
          | none =>
              simp only [Option.isNone_none, if_true, wp_bind, wp_throw]
              exact ⟨trivial, trivial, (hc.linked hs).resolve_left (by simp [hn])⟩
          | some l =>
              cases l with
              | pending p => simpa [hs] using hc.pends p hn
              | waitingForPort =>
                  -- the handle or the caller's reference outlives the list's
                  have hlast : C.refobj.erase .node ≠ ∅ := fun hempty => by
                    have hheld := hc.held (Or.inl hs)
                    rw [← hc.handleRef, ← hc.tmpRef] at hheld
                    rcases hheld with hr | hr
                    · simpa [hempty] using Finset.mem_erase.mpr ⟨(by simp : ObjRef.tmp ≠ .node), hr⟩
                    · simpa [hempty] using Finset.mem_erase.mpr ⟨(by simp : ObjRef.handle ≠ .node), hr⟩
                  have hnode : ObjRef.node ∈ C.refobj := hc.nodeRef.mpr (by simp [hn])
                  have hinv := h.unlinkWaiting hC hn (Or.inl rfl) (fun _ => id) (fun _ _ => Iff.rfl)
                    (R := C.refobj.erase .node)
                    ⟨by simp, by simp, by simp, by simpa using hc.tmpRef⟩ id C.path
                    (Or.inr (hc.waits hn).2)
                  simp only [hn, Option.isNone_some, Bool.false_eq_true, if_false, wp_bind, wp_pure,
                    wp_listDelete, hC, Option.elim_some, Ipc.wp_chanDelRef, Registry.setChan_chans,
                    if_true, hnode, not_true, hlast, wp_modifyChan, Registry.setChan_setChan,
                    wp_getChan, hpeer]
                  exact ⟨hpeer ▸ hinv, ⟨_, Registry.setChan_chans.trans (if_pos rfl), rfl, rfl,
                    fun _ => rfl, fun hne => absurd hs hne⟩, fun hy => by simp [hpeer] at hy, rfl, rfl⟩

/-! ## Dropping a handle of a channel -/

/-- The last reference through a handle goes only after the channel was shut
down. -/
theorem Inv.wp_handleDecref_chan (h : Inv T O s) (hC : s.chans c = some C)
    (hpos : 0 < C.handle.refcnt)
    (hclosed : C.handle.refcnt = 1 → C.state = .disconnecting ∧ C.peer = none) :
    wp (handleDecref (.chan c)) (fun _ t => Inv T O t) E s := by
  have hc := h.chan hC
  simp only [handleDecref, wp_bind, wp_getChan, wp_modifyChan, hC, Option.elim_some, wp_ite,
    wp_pure, chanHandleDestroy]
  by_cases hlast : C.handle.refcnt = 1
  · obtain ⟨hst, hpeer⟩ := hclosed hlast
    have hr : ObjRef.handle ∈ C.refobj := hc.handleRef.mpr hpos
    simp only [hlast, if_true]
    refine wp_conseq (Inv.wp_chanDelRef (T := T) (O := O)
      (C := { C with handle := { C.handle with refcnt := 1 - 1 } }) (by simp) hr ?_)
      fun _ t ht => ht.1
    rw [Registry.setChan_setChan]
    refine h.setChan hC ⟨rfl, by simp, rfl, Or.inl rfl, fun _ => rfl⟩ ?_ (fun _ _ => Iff.rfl)
      (fun _ _ => id)
    exact { hc with
      refcnt_nonneg := by simp
      handleRef := by simp
      nodeRef := by simpa using hc.nodeRef
      tmpRef := by simpa using hc.tmpRef
      anchored := fun hp => by simp [hpeer] at hp
      held := fun hs => by simp [hst] at hs
      valid := fun hv => by simp at hv
      unaccepted := fun _ => rfl
      granted := fun hs => by simp [hst] at hs }
  · simp only [hlast, if_false]
    refine h.setChan hC ⟨rfl, fun _ => Iff.rfl, rfl, Or.inl rfl, fun _ => rfl⟩ ?_
      (fun _ _ => Iff.rfl) (fun _ _ => id)
    have hpos' : 0 < C.handle.refcnt - 1 := by omega
    exact { hc with
      refcnt_nonneg := Int.le_of_lt hpos'
      handleRef := ⟨fun _ => hpos', fun _ => hc.handleRef.mpr hpos⟩
      held := fun _ => Or.inr hpos'
      valid := fun _ => hc.valid hpos
      unaccepted := fun hs => absurd (hc.unaccepted hs) (by omega)
      granted := fun hs hf d hd => by
        obtain ⟨g, hg, hgr⟩ := hc.granted hs hf d hd
        exact ⟨g, fun _ => hg hpos, hgr⟩ }

end

end TX2SecureUart.Ipc
