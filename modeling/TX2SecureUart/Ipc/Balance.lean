/-
# `Ipc.Balance` — every operation balances

Function by function: what is linked is counted, what is unlinked is dropped,
and what is left over is the reference that the caller gets.
-/
import TX2SecureUart.Ipc.Refs

namespace TX2SecureUart.Ipc

open Prog

/-- The books after the caller was given a reference, or none. -/
def gain (r : HandlePtr → Int) : Option HandlePtr → HandlePtr → Int
  | none => r
  | some h => bump r h 1

section

variable {r : HandlePtr → Int} {F : HandlePtr → Prop} {s t : Registry} {c client server : ChanId}
  {p : PortId} {P : Port} {env : Env}

/-! ## Shutting down -/

theorem Balanced.wp_disconnect (h : Balanced r F s) :
    wp (modifyChan c fun C => { C with state := .disconnecting })
      (fun _ t => Balanced r F t ∧ Steady s t) anyStop s :=
  h.wp_modifyChan fun _ => ⟨rfl, rfl, rfl, Or.inr (by simp)⟩

theorem Balanced.wp_chanShutdownOneLocked (h : Balanced r F s) :
    wp (chanShutdownOneLocked c) (fun _ t => Balanced r F t ∧ t.ports = s.ports) anyStop s := by
  simp only [chanShutdownOneLocked, wp_bind, wp_getChan]
  cases hC : s.chans c with
  | none => trivial
  | some C =>
      simp only [Option.elim_some]
      cases hst : C.state with
      | invalid | disconnecting => exact ⟨h, rfl⟩
      | accepting => exact wp_conseq h.wp_disconnect fun _ _ ht => ⟨ht.1, ht.2.ports⟩
      | connected | connecting =>
          refine wp_seq h.wp_disconnect ?_
          intro _ t ht
          refine wp_conseq (ht.1.wp_handleNotify _) ?_
          rintro _ u ⟨hu, rfl⟩
          exact ⟨hu, ht.2.ports⟩
      | waitingForPort =>
          -- it is in the waiting list, if in any
          have hn : s.NotPending c := by
            intro C' hC'
            obtain rfl : C = C' := Option.some.inj (hC.symm.trans hC')
            exact (h.kept hC).waiting hst
          rw [wp_ite]
          split
          · trivial
          · refine wp_seq (h.wp_listDelete hn) ?_
            intro _ t ht
            refine wp_seq (ht.1.wp_chanDelRef (by simp)) ?_
            intro _ u hu
            refine wp_conseq hu.1.wp_disconnect ?_
            intro _ v hv
            exact ⟨hv.1, hv.2.ports.trans (hu.2.ports.trans ht.2)⟩

theorem Balanced.wp_chanShutdownLocked (h : Balanced r F s) :
    wp (chanShutdownLocked c) (fun _ t => Balanced r F t ∧ t.ports = s.ports) anyStop s := by
  refine wp_seq h.wp_chanShutdownOneLocked ?_
  intro _ t ht
  rw [wp_bind, wp_getChan]
  cases hC : t.chans c with
  | none => trivial
  | some C =>
      simp only [Option.elim_some]
      cases C.peer with
      | none => exact ht
      | some peer =>
          refine wp_seq ht.1.wp_chanShutdownOneLocked ?_
          intro _ u hu
          refine wp_seq (hu.1.wp_chanDelRef (by simp)) ?_
          intro _ v hv
          refine wp_conseq (hv.1.wp_modifyChan fun _ => ⟨rfl, rfl, rfl, Or.inl rfl⟩) ?_
          intro _ w hw
          exact ⟨hw.1, hw.2.ports.trans (hv.2.ports.trans (hu.2.trans ht.2))⟩

/-- Each pending connection drops the reference it was counted by. -/
theorem Balanced.wp_tearDownPending {l : List ChanId} :
    ∀ {s : Registry}, Balanced r F s → 1 ≤ r (.port p) →
      (∀ P, s.ports p = some P → P.pendingList = l) →
      wp (tearDownPending p l) (fun _ t => Balanced r F t) anyStop s := by
  induction l with
  | nil =>
      intro s h _ _
      exact h
  | cons server rest ih =>
      intro s h hpos hl
      refine wp_seq h.wp_chanShutdownLocked ?_
      intro _ t ht
      obtain ⟨ht, hports⟩ := ht
      cases hP : t.ports p with
      | none =>
          rw [← ht.refs] at hpos
          simp [Registry.handleRefs, hP] at hpos
      | some P =>
          have hpending : P.pendingList = server :: rest := hl P (hports ▸ hP)
          refine wp_seq (ht.wp_listDelete_pending hP (by simp [hpending])) ?_
          intro _ u hu
          obtain ⟨hu, hPu, -⟩ := hu
          refine wp_seq (hu.wp_chanDelRef (by simp)) ?_
          intro _ v hv
          have hPv := hv.2.ports ▸ hPu
          refine wp_seq (hv.1.wp_handleDecref_port (p := p) ?_) ?_
          · simp only [bump, Function.update_self]
            omega
          · intro _ w hw
            obtain ⟨hw, -, hkeep⟩ := hw
            have hback : bump (bump r (.port p) 1) (.port p) (-1) = r := by
              rw [bump_bump]
              exact bump_zero r _
            rw [hback] at hw
            refine ih hw hpos ?_
            intro P' hP'
            rw [hkeep _ hPv P' hP']
            simp [hpending]

theorem Balanced.wp_portShutdown (h : Balanced r F s) (hpos : 1 ≤ r (.port p)) :
    wp (portShutdown p) (fun _ t => Balanced r F t) anyStop s := by
  refine wp_seq (h.wp_modifyPort fun P hP => ⟨rfl, fun hn => h.listed hP hn, rfl⟩) ?_
  intro _ t ht
  have htear : ∀ {u : Registry}, Balanced r F u →
      wp (do tearDownPending p (← getPort p).pendingList) (fun _ v => Balanced r F v) anyStop u := by
    intro u hu
    rw [wp_bind, wp_getPort]
    cases hP : u.ports p with
    | none => trivial
    | some P =>
        refine hu.wp_tearDownPending hpos ?_
        intro P' hP'
        rw [Option.some.inj (hP.symm.trans hP')]
  rw [wp_bind, wp_getPort]
  cases hP : t.ports p with
  | none => trivial
  | some P =>
      rw [Option.elim_some]
      by_cases hnode : P.node = true
      · rw [if_pos hnode, wp_bind, wp_modify, wp_bind, Ipc.wp_modifyPort,
          Registry.setListed_ports, hP, Option.elim_some]
        -- the list's reference is the one that is dropped
        have hset := (ht.setPort hP (M := { P with node := false }) rfl (by simp)).setListed
          (l := t.ipcPortList.erase p) ?_
        · have hone : (P.handle.refcnt - ({ P with node := false } : Port).ownRefs) -
              (P.handle.refcnt - P.ownRefs) = 1 := by
            simp only [Port.ownRefs, hnode]
            simp
          have hset' : Balanced (bump r (.port p) ((P.handle.refcnt -
            ({ P with node := false } : Port).ownRefs) - (P.handle.refcnt - P.ownRefs))) F _ := hset
          rw [hone] at hset'
          refine wp_seq (hset'.wp_handleDecref_port (p := p) ?_) ?_
          · simp only [bump, Function.update_self]
            omega
          · intro _ u hu
            have hback : bump (bump r (.port p) 1) (.port p) (-1) = r := by
              rw [bump_bump]
              exact bump_zero r _
            exact htear (hback ▸ hu.1)
        · intro q Q hQ hn
          by_cases hq : q = p
          · subst hq
            obtain rfl : ({ P with node := false } : Port) = Q := by simpa using hQ
            simp at hn
          · refine (List.mem_erase_of_ne hq).mpr (ht.listed (p := q) (P := Q) ?_ hn)
            simpa [hq] using hQ
      · rw [if_neg hnode]
        exact htear ht

/-! ## Attaching a client -/

/-- The local reference goes at the end of an operation. -/
theorem wp_dropTmp {α : Type} {f : α → HandlePtr → Int} {a : α} (h : Balanced (f a) F s) :
    wp (do chanDelRef c .tmp; pure a) (fun b t => Balanced (f b) F t) anyStop s :=
  wp_seq (h.wp_chanDelRef (by simp)) fun _ _ ht => ht.1

theorem Balanced.wp_setState (h : Balanced r F s) {st : ChanState} (hst : st ≠ .waitingForPort) :
    wp (modifyChan c fun C => { C with state := st })
      (fun _ t => Balanced r F t ∧ t.NotWaiting c) anyStop s := by
  rw [Ipc.wp_modifyChan]
  cases hC : s.chans c with
  | none => trivial
  | some C =>
      have hkept : ({ C with state := st } : Chan).Kept :=
        (h.kept hC).congr rfl rfl rfl (Or.inr hst)
      refine ⟨h.setChan_same hC hkept (fun _ => Iff.rfl) rfl, ?_⟩
      intro D hD
      obtain rfl : ({ C with state := st } : Chan) = D := by simpa using hD
      exact hst

/-- The port gets a reference for the new pending connection. -/
theorem Balanced.wp_portLink (h : Balanced r F s) :
    wp (portLink p client server) (fun _ t => Balanced r F t) anyStop s := by
  refine wp_seq (h.wp_setState (by simp)) ?_
  intro _ s₁ h₁
  refine wp_seq (h₁.1.wp_modifyChan fun _ => ⟨rfl, rfl, rfl, Or.inr (by simp)⟩) ?_
  intro _ s₂ h₂
  refine wp_seq (h₂.1.wp_chanAddRef _) ?_
  intro _ s₃ h₃
  refine wp_seq (h₃.1.wp_modifyChan fun _ => ⟨rfl, rfl, rfl, Or.inl rfl⟩) ?_
  intro _ s₄ h₄
  refine wp_seq (h₄.1.wp_chanAddRef _) ?_
  intro _ s₅ h₅
  refine wp_seq (h₅.1.wp_modifyChan fun _ => ⟨rfl, rfl, rfl, Or.inl rfl⟩) ?_
  intro _ s₆ h₆
  refine wp_seq (h₆.1.wp_chanAddRef _) ?_
  intro _ s₇ h₇
  have hsteady := h₂.2.trans (h₃.2.trans (h₄.2.trans (h₅.2.trans (h₆.2.trans h₇.2))))
  refine wp_seq (h₇.1.wp_listAddTail_pending (hsteady.notWaiting h₁.2)) ?_
  intro _ s₈ h₈
  refine wp_seq h₈.wp_handleIncref_port ?_
  intro _ s₉ h₉
  have hback : bump (bump r (.port p) (-1)) (.port p) 1 = r := by
    rw [bump_bump]
    exact bump_zero r _
  rw [hback] at h₉
  refine wp_seq (h₉.wp_handleNotify _) ?_
  rintro _ u ⟨hu, rfl⟩
  simp only [wp_bind, wp_getChan, wp_getPort, wp_modify]
  cases u.chans client with
  | none => trivial
  | some C =>
      cases u.ports p with
      | none => trivial
      | some P => exact hu.log _

theorem Balanced.wp_portAttachClient (h : Balanced r F s) :
    wp (portAttachClient env p client) (fun _ t => Balanced r F t) anyStop s := by
  simp only [portAttachClient, wp_bind, wp_getPort]
  cases hP : s.ports p with
  | none => trivial
  | some P =>
      simp only [Option.elim_some, wp_ite, wp_pure, wp_bind, wp_getChan]
      split
      · exact h
      cases hC : s.chans client with
      | none => trivial
      | some C =>
          rw [Option.elim_some]
          split
          · exact h
          refine wp_conseq (h.wp_chanAlloc _ _ _) ?_
          intro o t ht
          cases o with
          | none => exact ht.1
          | some server =>
              rw [wp_ite]
              split
              · refine wp_seq (ht.1.wp_modifyChan fun _ => ⟨rfl, rfl, rfl, Or.inl rfl⟩) ?_
                intro _ u hu
                rw [wp_ite]
                split
                · refine wp_seq (hu.1.wp_modifyChan fun _ => ⟨rfl, rfl, rfl, Or.inl rfl⟩) ?_
                  intro _ v hv
                  refine wp_seq hv.1.wp_portLink ?_
                  intro _ w hw
                  exact wp_dropTmp hw
                · refine wp_seq (hu.1.wp_modifyChan fun _ => ⟨rfl, rfl, rfl, Or.inl rfl⟩) ?_
                  intro _ v hv
                  exact wp_dropTmp hv.1
              · exact wp_dropTmp ht.1

/-! ## Publishing -/

/-- A search changes nothing. -/
theorem wp_portFind_same {Q : Registry → Prop} {path : Path} {l : List PortId} (h : Q s) :
    wp (portFind path l) (fun _ t => Q t) anyStop s := by
  induction l with
  | nil => exact h
  | cons p rest ih =>
      rw [portFind, wp_bind, wp_getPort]
      cases s.ports p with
      | none => trivial
      | some P =>
          rw [Option.elim_some, wp_ite]
          split
          · exact h
          · exact ih

/-- A client that waits leaves the list, and is attached if the hook lets it. -/
theorem Balanced.wp_publishTo (h : Balanced r F s) (hn : s.NotPending client) :
    wp (publishTo env p client) (fun _ t => Balanced r F t) anyStop s := by
  refine wp_seq (h.wp_modifyChan fun _ => ⟨rfl, rfl, rfl, Or.inl rfl⟩) ?_
  intro _ s₁ h₁
  refine wp_seq (h₁.1.wp_chanAddRef _) ?_
  intro _ s₂ h₂
  refine wp_seq (h₂.1.wp_listDelete ((h₁.2.trans h₂.2).notPending hn)) ?_
  intro _ s₃ h₃
  refine wp_seq (h₃.1.wp_chanDelRef (by simp)) ?_
  intro _ s₄ h₄
  simp only [wp_bind, wp_getChan, wp_getPort, trustyHypCheckGuestAccess, wp_modify, wp_pure, wp_ite]
  cases s₄.chans client with
  | none => trivial
  | some C =>
      cases s₄.ports p with
      | none => trivial
      | some P =>
          simp only [Option.elim_some]
          have hlog := h₄.1.log (.hypCheck C.handle.guestId P.uuid
            (env.hypCheck client C.handle.guestId P.uuid))
          split
          · refine wp_conseq hlog.wp_portAttachClient ?_
            intro err u hu
            split
            · refine wp_seq hu.wp_chanShutdownLocked ?_
              intro _ v hv
              exact wp_dropTmp hv.1
            · exact wp_dropTmp hu
          · exact (wp_bind _ _).mp (wp_dropTmp (f := fun _ => r) hlog)

/-- One client after the other, each of which still waits. -/
theorem Balanced.wp_publishLoop {l : List ChanId} :
    ∀ {s : Registry} {P : Port} {ret : Int}, Balanced r F s → Inv nobody (fun _ => True) s →
      s.ports p = some P → l.Nodup → (∀ c ∈ l, c ∈ s.waitingForPortChanList) →
      wp (publishLoop env p ret l) (fun _ t => Balanced r F t) anyStop s := by
  induction l with
  | nil =>
      intro s P ret h _ _ _ _
      exact h
  | cons client rest ih =>
      intro s P ret h hinv hP hnodup hwaiting
      obtain ⟨hnot, hnodup⟩ := List.nodup_cons.mp hnodup
      rw [publishLoop, wp_bind, wp_getChan]
      cases hC : s.chans client with
      | none => trivial
      | some C =>
          have hnode := (hinv.chan hC).inWaiting.mpr (hwaiting client (List.mem_cons_self ..))
          have hrest : ∀ c ∈ rest, c ∈ s.waitingForPortChanList := by
            intro c hc
            exact hwaiting c (List.mem_cons_of_mem _ hc)
          rw [Option.elim_some]
          cases C.path with
          | none => trivial
          | some path =>
              simp only [wp_bind, wp_getPort, hP, Option.elim_some, wp_ite]
              split
              · have hn : s.NotPending client := by
                  intro C' hC'
                  obtain rfl : C = C' := Option.some.inj (hC.symm.trans hC')
                  simp [hnode]
                refine wp_conseq (wp_mono (wp_and (h.wp_publishTo hn)
                  (hinv.wp_publishTo hC hnode hP fun _ => trivial))
                  (fun _ _ ht => ht) fun _ _ _ => trivial) ?_
                intro _ t ht
                obtain ⟨ht, hinv', -, hto⟩ := ht
                obtain ⟨⟨pending, refcnt, hP'⟩, -⟩ := hto.port
                refine ih ht hinv' hP' hnodup ?_
                intro c hc
                rw [hto.waiting]
                refine (List.mem_erase_of_ne ?_).mpr (hrest c hc)
                rintro rfl
                exact hnot hc
              · exact ih h hinv hP hnodup hrest

/-- The list gets a reference to the port of its own. -/
theorem Balanced.list (h : Balanced r F s) (hP : s.ports p = some P) (hnode : P.node = false) :
    Balanced r F ((s.setListed (s.ipcPortList ++ [p])).setPort p (listedPort P)) := by
  have hlist : Balanced r F (s.setListed (s.ipcPortList ++ [p])) := by
    refine h.setListed ?_
    intro q Q hQ hn
    exact List.mem_append_left _ (h.listed hQ hn)
  have hset := hlist.setPort (M := listedPort P) hP rfl fun _ => by simp [Registry.setListed]
  have hzero : ((listedPort P).handle.refcnt - (listedPort P).ownRefs) -
      (P.handle.refcnt - P.ownRefs) = 0 := by
    simp only [Port.ownRefs, listedPort, hnode]
    simp
  rwa [hzero, bump_zero] at hset

theorem Balanced.wp_ipcPortPublish (h : Balanced r F s) (hinv : Inv nobody (fun _ => True) s) :
    wp (ipcPortPublish env p) (fun _ t => Balanced r F t) anyStop s := by
  rw [ipcPortPublish, wp_bind, wp_getPort]
  cases hP : s.ports p with
  | none => trivial
  | some P =>
      rw [Option.elim_some, wp_bind, hinv.lists.wp_portFindLocked]
      cases hfind : s.findPort P.path with
      | some q => exact h
      | none =>
          simp only [wp_bind, Ipc.wp_modifyPort, hP, Option.elim_some, wp_modify, handleIncref,
            Registry.setPort_ports, Registry.setListed_setPort, Registry.setListed_ports, if_true,
            Registry.setPort_setPort, Registry.setPort_ipcPortList, wp_get]
          exact (h.list hP (hinv.not_listed hP hfind).2).wp_publishLoop (P := listedPort P)
            (hinv.list hP hfind) (by simp) hinv.lists.waitingNodup fun c hc => hc

/-! ## Connecting -/

/-- A client that is in no pending list begins to wait, or is attached. -/
theorem Balanced.wp_attachOrWait (h : Balanced r F s) (hn : s.NotPending client) {guest : UInt32}
    {path : Path} {flags : UInt32} :
    wp (attachOrWait env guest path flags client) (fun _ t => Balanced r F t) anyStop s := by
  rw [attachOrWait, portFindLocked, wp_bind, wp_bind, wp_get]
  refine wp_conseq (wp_portFind_same (Q := fun t => t = s) rfl) ?_
  rintro o t rfl
  cases o with
  | some p =>
      simp only [wp_bind, wp_getPort]
      cases hP : t.ports p with
      | none => trivial
      | some P =>
          simp only [Option.elim_some, trustyHypCheckGuestAccess, wp_bind, wp_modify, wp_pure,
            wp_ite]
          split
          · exact h.log _
          · refine wp_conseq ((h.log _).wp_modifyPort fun Q hQ => ⟨rfl, fun hq => ?_, rfl⟩) ?_
            · exact (h.log _).listed hQ hq
            · intro _ u hu
              exact hu.wp_portAttachClient
  | none =>
      simp only [wp_ite, wp_pure]
      split
      · exact h
      split
      · exact h
      refine wp_seq (h.wp_modifyChan fun _ => ⟨rfl, rfl, rfl, Or.inl rfl⟩) ?_
      intro _ u hu
      rw [wp_bind, Ipc.wp_modifyChan]
      cases hC : u.chans client with
      | none => trivial
      | some C =>
          have hk := hu.1.kept hC
          have hset : Balanced r F (u.setChan client { C with state := .waitingForPort }) :=
            hu.1.setChan_same hC ⟨hk.refobj, hk.handle, fun _ => hu.2.notPending hn C hC⟩
              (fun _ => Iff.rfl) rfl
          refine wp_seq hset.wp_listAddTail_waiting ?_
          intro _ v hv
          refine wp_seq (hv.wp_chanAddRef _) ?_
          intro _ w hw
          exact hw.1

/-- What the caller of a successful connect gets is the first reference. -/
theorem Balanced.wp_ipcPortConnectAsync (h : Balanced r F s) {guest : UInt32} {cid : Option Uuid}
    {path : Path} {maxPath : Nat} {flags : UInt32} :
    wp (ipcPortConnectAsync env guest cid path maxPath flags)
      (fun ret t => Balanced (gain r (ret.2.map .chan)) F t) anyStop s := by
  simp only [ipcPortConnectAsync, wp_ite, wp_pure, wp_bind]
  split
  · exact h
  split
  · exact h
  refine wp_conseq (h.wp_chanAlloc _ _ _) ?_
  intro o t ht
  cases o with
  | none => exact ht.1
  | some client =>
      obtain ⟨ht, hnew⟩ := ht
      obtain ⟨hzero, hclient⟩ := hnew client rfl
      have hn : t.NotPending client := by
        intro C hC
        obtain rfl : newChan 0 cid = C := Option.some.inj (hclient.symm.trans hC)
        simp [newChan]
      refine wp_seq (ht.wp_attachOrWait hn) ?_
      intro ret u hu
      rw [wp_ite]
      split
      · exact wp_dropTmp (f := fun b : Int × Option ChanId => gain r (b.2.map .chan))
          (a := (ret, none)) hu
      · refine wp_seq (hu.wp_chanHandleInit hzero) ?_
        intro _ v hv
        refine wp_seq (hv.wp_modifyChan fun _ => ⟨rfl, rfl, rfl, Or.inl rfl⟩) ?_
        intro _ w hw
        exact wp_dropTmp (f := fun b : Int × Option ChanId => gain r (b.2.map .chan))
          (a := (noError, some client)) hw.1

/-! ## Accepting -/

/-- The handle of the server is made, with the reference of the caller. -/
theorem Balanced.wp_acceptConnect (h : Balanced r F s) (hzero : r (.chan server) = 0) :
    wp (acceptConnect server client) (fun _ t => Balanced (bump r (.chan server) 1) F t)
      anyStop s := by
  refine wp_seq (h.wp_modifyChan fun _ => ⟨rfl, rfl, rfl, Or.inr (by simp)⟩) ?_
  intro _ s₁ h₁
  refine wp_seq (h₁.1.wp_modifyChan fun _ => ⟨rfl, rfl, rfl, Or.inr (by simp)⟩) ?_
  intro _ s₂ h₂
  refine wp_seq (h₂.1.wp_chanHandleInit hzero) ?_
  intro _ s₃ h₃
  rw [wp_bind, wp_getChan]
  cases s₃.chans client with
  | none => trivial
  | some C =>
      refine wp_seq (h₃.wp_modifyChan fun _ => ⟨rfl, rfl, rfl, Or.inl rfl⟩) ?_
      intro _ s₄ h₄
      refine wp_conseq (h₄.1.wp_handleNotify _) ?_
      intro _ s₅ h₅
      exact h₅.1

/-- A server that still is accepting has no handle yet. -/
theorem Balanced.wp_ipcPortAccept (h : Balanced r F s) (hinv : Inv nobody (fun _ => True) s)
    {handle : Option HandlePtr} (hheld : ∀ p, handle = some (.port p) → 1 ≤ r (.port p)) :
    wp (ipcPortAccept handle)
      (fun ret t => Balanced (gain r (ret.2.map fun x => .chan x.1)) F t) anyStop s := by
  rcases handle with _ | c | p
  · exact h
  · exact h
  have hpos := hheld p rfl
  simp only [ipcPortAccept, wp_bind, wp_getPort]
  cases hP : s.ports p with
  | none => trivial
  | some P =>
      simp only [Option.elim_some, wp_ite, wp_pure]
      split
      · exact h
      cases hl : P.pendingList with
      | nil => exact h
      | cons server rest =>
          have hmem : server ∈ P.pendingList := by simp [hl]
          refine wp_seq (h.wp_listDelete_pending hP hmem) ?_
          intro _ s₁ h₁
          obtain ⟨h₁, hP₁, hstate₁⟩ := h₁
          refine wp_seq (h₁.wp_chanAddRef _) ?_
          intro _ s₂ h₂
          refine wp_seq (h₂.1.wp_chanDelRef (by simp)) ?_
          intro _ s₃ h₃
          refine wp_seq (h₃.1.wp_handleDecref_port (p := p) ?_) ?_
          · simp only [bump, Function.update_self]
            omega
          intro _ s₄ h₄
          obtain ⟨h₄, hchans, -⟩ := h₄
          have hback : bump (bump r (.port p) 1) (.port p) (-1) = r := by
            rw [bump_bump]
            exact bump_zero r _
          rw [hback] at h₄
          rw [wp_bind, wp_getChan]
          cases hS : s₄.chans server with
          | none => trivial
          | some S =>
              have hdrop : ∀ {u : Registry}, Balanced r F u →
                  wp (do
                    chanShutdownLocked server
                    chanDelRef server .tmp
                    return (errChannelClosed, (none : Option (ChanId × Option Uuid))))
                    (fun ret t => Balanced (gain r (ret.2.map fun x => .chan x.1)) F t)
                    anyStop u := by
                intro u hu
                refine wp_seq hu.wp_chanShutdownLocked ?_
                intro _ v hv
                exact wp_dropTmp (f := fun b : Int × Option (ChanId × Option Uuid) =>
                  gain r (b.2.map fun x => .chan x.1)) (a := (errChannelClosed, none)) hv.1
              rw [Option.elim_some]
              cases S.peer with
              | none => exact hdrop h₄
              | some client =>
                  simp only [wp_bind, wp_getChan]
                  cases s₄.chans client with
                  | none => trivial
                  | some C =>
                      simp only [Option.elim_some]
                      split
                      · exact hdrop h₄
                      · rename_i hstates
                        have hacc : S.state = .accepting := by
                          by_contra hne
                          exact hstates (Or.inl hne)
                        -- its state has not changed since the operation began
                        have hzero : r (.chan server) = 0 := by
                          obtain ⟨S₂, hS₂, -, hst | hst⟩ := (h₂.2.trans h₃.2).chan (hchans ▸ hS)
                          · obtain ⟨S₀, hS₀, hst₀⟩ := hstate₁ server S₂ hS₂
                            rw [h.chan_ref hS₀]
                            exact (hinv.chan hS₀).unaccepted (hst₀ ▸ hst ▸ hacc)
                          · exact absurd hacc hst.1
                        refine wp_seq (h₄.wp_acceptConnect hzero) ?_
                        intro _ u hu
                        exact wp_dropTmp (f := fun b : Int × Option (ChanId × Option Uuid) =>
                          gain r (b.2.map fun x : ChanId × Option Uuid => .chan x.1))
                          (a := (noError, some (server, C.uuid))) hu

/-! ## The rest -/

/-- A new port belongs to the caller. -/
theorem Balanced.newPort (h : Balanced r F s) (sid : Option Uuid) (path : Path)
    (numRecvBufs recvBufSize : Nat) (flags : UInt32) :
    Balanced (bump r (.port s.nextPort) 1) F
      (Registry.setPort { s with nextPort := s.nextPort + 1 } s.nextPort
        (newPort sid path numRecvBufs recvBufSize flags)) := by
  have hfresh := h.freshPort (p := s.nextPort) (Nat.le_refl _)
  generalize hP : Ipc.newPort sid path numRecvBufs recvBufSize flags = P
  have hnew : P.pendingList = [] ∧ P.node = false ∧ P.handle.refcnt = 1 := by
    subst hP
    exact ⟨rfl, rfl, rfl⟩
  obtain ⟨hpending, hnode, hone⟩ := hnew
  have hold : ∀ {q Q}, (Registry.setPort { s with nextPort := s.nextPort + 1 } s.nextPort P).ports q =
      some Q → Q = P ∨ s.ports q = some Q := by
    intro q Q hQ
    by_cases hq : q = s.nextPort
    · exact Or.inl (by simpa [hq] using hQ.symm)
    · exact Or.inr (by simpa [hq] using hQ)
  refine { h with
    refs := ?_, freed := ?_, pending := ?_, pendingNodup := ?_, pendingOld := ?_, pendingPort := ?_
    listed := ?_, freshPort := ?_ }
  · funext x
    have hr : r (.port s.nextPort) = 0 := by
      rw [← h.refs]
      simp [Registry.handleRefs, hfresh]
    rw [bump, hr]
    cases x with
    | port q =>
        by_cases hq : q = s.nextPort
        · subst hq
          simp [Registry.handleRefs, Port.ownRefs, hpending, hnode, hone]
        · simp [Registry.handleRefs, hq, ← h.refs]
    | chan d => simp [Registry.handleRefs, ← h.refs]
  · intro x hx
    have hf := h.freed x hx
    cases x with
    | port q =>
        have hq : q ≠ s.nextPort := Nat.ne_of_lt hf.1
        exact ⟨Nat.lt_succ_of_lt hf.1, by simpa [hq] using hf.2⟩
    | chan d => exact hf
  · intro q Q d D hQ hD
    by_cases hq : q = s.nextPort
    · subst hq
      obtain rfl : P = Q := by simpa using hQ
      have hnot : D.node ≠ some (.pending s.nextPort) := by
        intro hn
        exact absurd (h.pendingPort hD hn) (Nat.lt_irrefl _)
      simp [hpending, hnot]
    · exact h.pending (by simpa [hq] using hQ) hD
  · intro q Q hQ
    rcases hold hQ with rfl | hQ
    · simp [hpending]
    · exact h.pendingNodup hQ
  · intro q Q d hQ hd
    rcases hold hQ with rfl | hQ
    · simp [hpending] at hd
    · exact h.pendingOld hQ hd
  · intro d D q hD hn
    exact Nat.lt_succ_of_lt (h.pendingPort hD hn)
  · intro q Q hQ hn
    rcases hold hQ with rfl | hQ
    · simp [hnode] at hn
    · exact h.listed hQ hn
  · intro q hq
    have hne : q ≠ s.nextPort := Nat.ne_of_gt hq
    simpa [hne] using h.freshPort (Nat.le_of_succ_le hq)

theorem Balanced.wp_ipcPortCreate (h : Balanced r F s) {sid : Option Uuid} {path : Path}
    {numRecvBufs recvBufSize : Nat} {flags : UInt32} :
    wp (ipcPortCreate env sid path numRecvBufs recvBufSize flags)
      (fun ret t => Balanced (gain r (ret.2.map .port)) F t) anyStop s := by
  simp only [ipcPortCreate, wp_ite, wp_pure, wp_bind, wp_get, wp_set]
  split
  · exact h
  split
  · exact h
  split
  · exact h
  split
  · exact h
  split
  · exact h
  exact h.newPort sid path numRecvBufs recvBufSize flags

/-! ## Message calls -/

/-- They leave the references alone. -/
theorem Balanced.wp_setQueue (h : Balanced r F s) (mq : MsgQueue) :
    wp (setQueue c mq) (fun _ t => Balanced r F t) anyStop s :=
  wp_conseq (h.wp_modifyChan fun _ => ⟨rfl, rfl, rfl, Or.inl rfl⟩) fun _ _ ht => ht.1

theorem Balanced.wp_sendMsgLocked (h : Balanced r F s) (handle : Option HandlePtr) (msg : MsgDesc) :
    wp (sendMsgLocked handle msg) (fun _ t => Balanced r F t) anyStop s := by
  simp only [sendMsgLocked]
  cases checkChannelLocked handle with
  | none => exact h
  | some c =>
      simp only [wp_bind, wp_getChan]
      cases hC : s.chans c with
      | none => trivial
      | some C =>
          rw [Option.elim_some]
          cases C.state with
          | connected =>
              have hwrite : wp (msgWriteLocked c msg) (fun _ t => Balanced r F t) anyStop s := by
                simp only [msgWriteLocked, wp_bind, wp_getChan, hC, Option.elim_some]
                cases C.peer with
                | none => trivial
                | some peer =>
                    simp only [wp_bind, wp_getQueue]
                    cases s.chans peer with
                    | none => trivial
                    | some Y =>
                        rw [Option.elim_some]
                        cases Y.msgQueue with
                        | none => trivial
                        | some mq =>
                            rw [Option.elim_some]
                            cases mq.freeList with
                            | nil =>
                                refine wp_seq (h.wp_modifyChan fun _ =>
                                  ⟨rfl, rfl, rfl, Or.inl rfl⟩) ?_
                                intro _ t ht
                                exact ht.1
                            | cons item rest =>
                                refine wp_seq (h.wp_setQueue _) ?_
                                intro _ t ht
                                exact ht
              refine wp_seq hwrite ?_
              intro ret t ht
              rw [wp_ite]
              split
              · rw [wp_bind, wp_getChan]
                cases t.chans c with
                | none => trivial
                | some C' =>
                    rw [Option.elim_some]
                    cases C'.peer with
                    | none => trivial
                    | some peer =>
                        refine wp_seq (ht.wp_handleNotify _) ?_
                        intro _ u hu
                        exact hu.1
              · exact ht
          | _ => exact h

theorem wp_getQueue_bind {α : Type} {f : MsgQueue → IpcM α}
    (hf : ∀ mq, wp (f mq) (fun _ t => Balanced r F t) anyStop s) :
    wp (getQueue c >>= f) (fun _ t => Balanced r F t) anyStop s := by
  rw [wp_bind, wp_getQueue]
  cases s.chans c with
  | none => trivial
  | some C =>
      rw [Option.elim_some]
      cases C.msgQueue with
      | none => trivial
      | some mq => exact hf mq

theorem Balanced.wp_sysGetMsg (h : Balanced r F s) (handle : Option HandlePtr) (copied : Bool) :
    wp (sysGetMsg handle copied) (fun _ t => Balanced r F t) anyStop s := by
  simp only [sysGetMsg]
  cases checkChannelLocked handle with
  | none => exact h
  | some c =>
      refine wp_getQueue_bind ?_
      intro mq
      cases mq.peekNextFilled with
      | none => exact h
      | some info =>
          rw [wp_ite]
          split
          · exact h
          · cases mq.getFilled with
            | none => trivial
            | some mq =>
                refine wp_seq (h.wp_setQueue _) ?_
                intro _ t ht
                exact ht

theorem Balanced.wp_readMsgLocked (h : Balanced r F s) (handle : Option HandlePtr)
    (msgId offset : UInt32) (msg : MsgDesc) :
    wp (readMsgLocked handle msgId offset msg) (fun _ t => Balanced r F t) anyStop s := by
  simp only [readMsgLocked]
  cases checkChannelLocked handle with
  | none => exact h
  | some c => exact wp_getQueue_bind fun _ => h

theorem Balanced.wp_ipcPutMsg (h : Balanced r F s) (handle : Option HandlePtr) (msgId : UInt32) :
    wp (ipcPutMsg handle msgId) (fun _ t => Balanced r F t) anyStop s := by
  simp only [ipcPutMsg]
  cases checkChannelLocked handle with
  | none => exact h
  | some c =>
      refine wp_getQueue_bind ?_
      intro mq
      cases mq.putRead msgId with
      | none => exact h
      | some mq =>
          refine wp_seq (h.wp_setQueue _) ?_
          intro _ t ht
          rw [wp_bind, wp_getChan]
          cases t.chans c with
          | none => trivial
          | some C =>
              rw [Option.elim_some]
              cases C.peer with
              | none => exact ht
              | some peer =>
                  simp only [wp_bind, wp_getChan]
                  cases t.chans peer with
                  | none => trivial
                  | some Y =>
                      rw [Option.elim_some, wp_ite]
                      split
                      · refine wp_seq (ht.wp_modifyChan fun _ => ⟨rfl, rfl, rfl, Or.inl rfl⟩) ?_
                        intro _ u hu
                        refine wp_seq (hu.1.wp_handleNotify _) ?_
                        intro _ v hv
                        exact hv.1
                      · exact ht

theorem Balanced.wp_msgCall (h : Balanced r F s) (handle : Option HandlePtr) (call : MsgCall) :
    wp (call.run handle) (fun _ t => Balanced r F t) anyStop s := by
  cases call with
  | ipcSend msg | sysSend msg =>
      rw [MsgCall.run, wp_map]
      cases msg with
      | none => exact h
      | some msg => exact h.wp_sendMsgLocked handle msg
  | ipcGet => exact (wp_map _ _).mpr (h.wp_sysGetMsg handle true)
  | sysGet copied => exact (wp_map _ _).mpr (h.wp_sysGetMsg handle copied)
  | ipcRead msgId offset msg | sysRead msgId offset msg =>
      rw [MsgCall.run, wp_map]
      cases msg with
      | none => exact h
      | some msg => exact h.wp_readMsgLocked handle msgId offset msg
  | put msgId => exact (wp_map _ _).mpr (h.wp_ipcPutMsg handle msgId)

end

end TX2SecureUart.Ipc
