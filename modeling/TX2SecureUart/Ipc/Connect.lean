/-
# `Ipc.Connect` — connecting and accepting keep the invariant

A new client is attached or put into the waiting list before it gets its
handle, so the guest it works for is stored after the hook was asked about it.
Accepting makes the server's handle and copies the guest from the client's.
-/
import TX2SecureUart.Ipc.Publish

namespace TX2SecureUart.Ipc

open Prog

section

variable {T T' O : ChanId → Prop} {E : Fault → Registry → Prop} {s : Registry}
  {client server c : ChanId} {C S : Chan} {p : PortId} {P : Port} {env : Env} {guest : UInt32}
  {cid : Option Uuid} {path : Path} {flags : UInt32}

/-! ## A new client -/

/-- `chan_alloc` for a client. -/
theorem Inv.newClient (h : Inv nobody O s) (cid : Option Uuid) :
    Inv (· = s.nextChan) O
      (Registry.setChan { s with nextChan := s.nextChan + 1 } s.nextChan (newChan 0 cid)) := by
  have hfresh := h.lists.freshChan (c := s.nextChan) (Nat.le_refl _)
  generalize hs' : Registry.setChan { s with nextChan := s.nextChan + 1 } s.nextChan
    (newChan 0 cid) = s'
  have hself : s'.chans s.nextChan = some (newChan 0 cid) := by simp [← hs']
  have hother : ∀ {d}, d ≠ s.nextChan → s'.chans d = s.chans d := fun hd => by simp [← hs', hd]
  have hne : ∀ {d D}, s.chans d = some D → d ≠ s.nextChan := fun hD hd => by
    rw [hd, hfresh] at hD
    cases hD
  have hlive : ∀ d, (s.chans d).isSome → (s'.chans d).isSome := fun d hd => by
    obtain ⟨D, hD⟩ := Option.isSome_iff_exists.mp hd
    rw [hother (hne hD), hD]
    rfl
  have hsplit : ∀ {d D}, s'.chans d = some D →
      (d = s.nextChan ∧ D = newChan 0 cid) ∨ (d ≠ s.nextChan ∧ s.chans d = some D) := by
    intro d D hD
    by_cases hd : d = s.nextChan
    · exact Or.inl ⟨hd, Option.some.inj ((hd ▸ hD).symm.trans hself)⟩
    · exact Or.inr ⟨hd, by rwa [hother hd] at hD⟩
  have hw : s'.waitingForPortChanList = s.waitingForPortChanList := by
    rw [← hs']
    rfl
  have hp : s'.ports = s.ports := by
    rw [← hs']
    rfl
  have hn : s'.nextChan = s.nextChan + 1 := by
    rw [← hs']
    rfl
  refine ⟨fun {d D} hD => ?_, ⟨fun {x X y} hX hy => ?_, fun {y Y x} hY hx => ?_⟩,
    h.lists.keep hlive (fun {d} hd => ?_) hp (by rw [← hs']; rfl) hw (by rw [← hs']; rfl),
    fun {d} hd => ?_⟩
  · rcases hsplit hD with ⟨rfl, rfl⟩ | ⟨hd, hD⟩
    · exact
        { refcnt_nonneg := Int.le_refl 0
          handleRef := by simp [newChan]
          nodeRef := by simp [newChan]
          tmpRef := by simp [newChan]
          inWaiting := ⟨nofun, fun hm => by
            have := h.lists.waitingLive (hw ▸ hm)
            simp [hfresh] at this⟩
          inPending := fun q => ⟨nofun, fun ⟨Q, hQ, hm⟩ => by
            have := h.lists.pendingLive (hp ▸ hQ) hm
            simp [hfresh] at this⟩
          waits := nofun
          linked := nofun
          client := nofun
          pends := nofun
          alone := fun _ => rfl
          paired := fun hs => by simp [newChan] at hs
          anchored := nofun
          queue := nofun
          queued := fun hs => absurd rfl hs
          held := fun hs => by simp [newChan] at hs
          valid := nofun
          unaccepted := nofun
          granted := fun hs => by simp [newChan] at hs }
    · exact (h.chan hD).congr (by simp [hd, nobody]) id (by rw [hw]) (fun q => by rw [hp])
        ⟨[], by rw [← hs']; exact (List.append_nil _).symm⟩
  · rcases hsplit hX with ⟨rfl, rfl⟩ | ⟨-, hX⟩
    · cases hy
    · obtain ⟨Y, hY, href, hcompat⟩ := h.peers.peer hX hy
      exact ⟨Y, by rw [hother (hne hY), hY], href, hcompat⟩
  · rcases hsplit hY with ⟨rfl, rfl⟩ | ⟨-, hY⟩
    · simp [newChan] at hx
    · obtain ⟨X, hX, hpX⟩ := h.peers.peerRef hY hx
      exact ⟨X, by rw [hother (hne hX), hX], hpX⟩
  · rw [hn] at hd
    rw [hother (Nat.ne_of_gt hd)]
    exact h.lists.freshChan (Nat.le_of_succ_le hd)
  · obtain rfl : d = s.nextChan := hd
    rw [hself]
    rfl

/-- An attempt to connect has failed: the client goes. -/
theorem Inv.wp_dropClient (h : Inv (· = client) O s)
    (hC : s.chans client = some (newChan 0 cid)) :
    wp (chanDelRef client .tmp) (fun _ t => Inv nobody O t) E s := by
  refine wp_conseq (Inv.wp_chanDelRef (T := nobody) hC (by simp [newChan]) ?_) fun _ t ht => ht.1
  exact h.delTmp hC (fun d hd => by simp [nobody, hd]) id (by simp [newChan])
    (fun hs => by simp [newChan] at hs)

/-- A new client waits for a port. -/
theorem Inv.wait (h : Inv (· = client) O s) (hC : s.chans client = some (newChan 0 cid))
    (path : Path) :
    Inv (· = client) O ((s.setWaiting (s.waitingForPortChanList ++ [client])).setChan client
      { newChan 0 cid with
        path := some path, state := .waitingForPort, node := some .waitingForPort
        refobj := {.node, .tmp} }) := by
  have hc := h.chan hC
  have hnot : client ∉ s.waitingForPortChanList := fun hm => by
    have := hc.inWaiting.mpr hm
    simp [newChan] at this
  have hlists : ListInv (s.setWaiting (s.waitingForPortChanList ++ [client])) :=
    { h.lists with
      waitingLive := fun {d} hd => by
        rcases List.mem_append.mp hd with hd | hd
        · exact h.lists.waitingLive hd
        · rw [List.mem_singleton.mp hd]
          exact Option.isSome_iff_exists.mpr ⟨_, hC⟩
      waitingNodup := List.nodup_append.mpr ⟨h.lists.waitingNodup, List.nodup_singleton _,
        fun a ha b hb hab => hnot (by rw [← List.mem_singleton.mp hb, ← hab]; exact ha)⟩ }
  refine h.update hC (N := { newChan 0 cid with
      path := some path, state := .waitingForPort, node := some .waitingForPort
      refobj := {.node, .tmp} })
    (fun d => Registry.setChan_chans)
    ⟨rfl, by simp [newChan], rfl, Or.inr (Or.inr rfl), fun _ => rfl⟩ ?_ (fun _ _ => Iff.rfl)
    (fun _ _ => id) (fun d hd => ?_) (fun _ _ _ => Iff.rfl) ⟨[], (List.append_nil _).symm⟩
    (hlists.setChan hC _)
  · exact
      { refcnt_nonneg := hc.refcnt_nonneg
        handleRef := by simp [newChan]
        nodeRef := by simp
        tmpRef := by simp
        inWaiting := iff_of_true rfl (List.mem_append_right _ (List.mem_singleton_self _))
        inPending := fun q => ⟨by simp, fun hq => by
          have := (hc.inPending q).mpr hq
          simp [newChan] at this⟩
        waits := fun _ => ⟨rfl, rfl⟩
        linked := fun _ => Or.inl rfl
        client := fun _ => (by decide : (0 : UInt32) ≠ ipcChanFlagServer)
        pends := by simp
        alone := fun _ => rfl
        paired := fun hs => by simp at hs
        anchored := by simp
        queue := by simp [newChan]
        queued := fun _ => iff_of_true rfl (Or.inl rfl)
        held := fun _ => Or.inl rfl
        valid := by simp
        unaccepted := by simp
        granted := fun hs => by simp at hs }
  · show d ∈ s.waitingForPortChanList ++ [client] ↔ _
    simp [hd]

/-- A client that waits or is attached, and has no handle yet. -/
structure Unopened (O : ChanId → Prop) (s : Registry) (client : ChanId) (guest : UInt32)
    (C : Chan) : Prop where
  inv : Inv (· = client) O s
  live : s.chans client = some C
  state : C.state = .waitingForPort ∨ C.state = .connecting
  refcnt : C.handle.refcnt = 0
  letIn : ∀ d, C.peer = some d → Granted s.trace client d C.uuid guest

/-- The end of `ipc_port_connect_async`: the client gets its handle, and with it
the guest. -/
theorem Unopened.open (h : Unopened O s client guest C) :
    Inv nobody O (s.setChan client { C with
      handle := ⟨1, guest⟩, refobj := (insert .handle C.refobj).erase .tmp }) := by
  have hc := h.inv.chan h.live
  have hst : C.state ≠ .invalid ∧ C.state ≠ .accepting ∧ C.state ≠ .connected := by
    rcases h.state with hs | hs <;> simp [hs]
  refine h.inv.setChan h.live
    ⟨rfl, by simp, rfl, Or.inl rfl, fun hs => absurd hs hst.2.2⟩ ?_
    (fun d hd => by simp [nobody, hd]) (fun _ _ => id)
  exact { hc with
    refcnt_nonneg := show (0 : Int) ≤ 1 by decide
    handleRef := by simp
    nodeRef := by simpa using hc.nodeRef
    tmpRef := by simp [nobody]
    anchored := fun _ => Or.inl (by simp)
    held := fun _ => Or.inr (show (0 : Int) < 1 by decide)
    valid := fun _ => hst.1
    unaccepted := fun hs => absurd hs hst.2.1
    granted := fun _ _ d hd => ⟨guest, fun _ => rfl, h.letIn d hd⟩ }

/-! ## `ipc_port_connect_async` -/

theorem Inv.wp_attachOrWait (h : Inv (· = client) O s)
    (hC : s.chans client = some (newChan 0 cid)) :
    wp (attachOrWait env guest path flags client)
      (fun r t => (r = noError ∧ ∃ C, Unopened O t client guest C) ∨
        (r ≠ noError ∧ Inv (· = client) O t ∧ t.chans client = some (newChan 0 cid)))
      (fun _ _ => False) s := by
  simp only [attachOrWait, wp_bind]
  rw [h.lists.wp_portFindLocked]
  cases hfind : s.findPort path with
  | some p =>
      obtain ⟨P, hP, hlisted⟩ := (h.lists.listed p).mp (List.mem_of_find?_eq_some hfind)
      simp only [wp_bind, wp_getPort, hP, Option.elim_some, trustyHypCheckGuestAccess, wp_modify,
        wp_pure, wp_ite]
      by_cases hans : env.hypCheck client guest P.uuid = 0
      · have hlog := h.log (.hypCheck guest P.uuid (env.hypCheck client guest P.uuid))
        have hlisted := h.lists.listedAs hP
        have hrefs := h.lists.refcnt hP
        have hport := hlog.setPort (l := s.ipcPortList) hP
          (N := { P with handle := { P.handle with guestId := guest } }) rfl hlisted hrefs
        simp only [hans, ne_eq, not_true_eq_false, if_false, wp_modifyPort, Registry.log_ports,
          hP, Option.elim_some] at hport ⊢
        refine wp_conseq (hport.wp_portAttachClient
          (P := { P with handle := { P.handle with guestId := guest } }) hC (by simp) rfl)
          fun r u hu => ?_
        rcases hu with ⟨hcan, rfl, rfl⟩ | ⟨-, hr, n, hn, rfl⟩
        · have hatt : Attachable (· = client)
              (((s.log (.hypCheck guest P.uuid 0)).setListed s.ipcPortList).setPort p
                { P with handle := { P.handle with guestId := guest } })
              { P with handle := { P.handle with guestId := guest } } client (newChan 0 cid) :=
            ⟨rfl, Or.inr rfl, rfl, rfl, (by decide : (0 : UInt32) ≠ ipcChanFlagServer), guest,
              s.trace, fun hpos => absurd hpos (by simp [newChan]), rfl⟩
          have hinv := hport.attach (p := p) hC (by simp) hatt hcan
          obtain ⟨hne, -, -⟩ := hport.fresh_server hC
          refine Or.inl ⟨rfl, _, hinv, by rw [Registry.attach_chans, if_neg hne.symm, if_pos rfl],
            Or.inr rfl, rfl, fun d hd => ?_⟩
          obtain rfl := Option.some.inj hd
          exact ⟨s.trace, [],
            linkedPort { P with handle := { P.handle with guestId := guest } } s.nextChan,
            List.append_assoc s.trace [_] [_], hcan.1, hcan.2.1⟩
        · exact Or.inr ⟨hr, hport.setNextChan hn, hC⟩
      · simp only [hans, ne_eq, not_false_eq_true, if_true]
        exact Or.inr ⟨trivial, h.log _, hC⟩
  | none =>
      simp only [wp_ite, wp_pure]
      by_cases hflag : flags &&& ipcConnectWaitForPort = 0
      · rw [if_pos hflag]
        exact Or.inr ⟨by decide, h, hC⟩
      · rw [if_neg hflag]
        cases env.allocPath with
        | false => exact Or.inr ⟨by decide, h, hC⟩
        | true =>
            simp only [Bool.not_true, Bool.false_eq_true, if_false, wp_bind, wp_modifyChan, hC,
              Option.elim_some, Registry.setChan_chans, if_true, Registry.setChan_setChan,
              listAddTail, wp_getChan, newChan, Option.isSome_none, wp_ite, wp_pure, wp_modify,
              Registry.setWaiting_setChan, wp_chanAddRef]
            rw [if_neg (by decide)]
            exact Or.inl ⟨trivial, _, h.wait hC path, Registry.setChan_chans.trans (if_pos rfl),
              Or.inl rfl, rfl, by simp⟩

/-- Connecting never stops the kernel. -/
theorem Inv.wp_ipcPortConnectAsync (h : Inv nobody O s) (maxPath : Nat) :
    wp (ipcPortConnectAsync env guest cid path maxPath flags) (fun _ t => Inv nobody O t)
      (fun _ _ => False) s := by
  simp only [ipcPortConnectAsync, wp_ite, wp_pure, wp_bind]
  by_cases hcid : cid.isNone
  · rw [if_pos hcid]
    exact h
  rw [if_neg hcid]
  by_cases hlen : path.length = 0 ∨ maxPath ≤ path.length
  · rw [if_pos hlen]
    exact h
  rw [if_neg hlen]
  simp only [chanAlloc, wp_ite, wp_pure, wp_bind, wp_get, wp_set]
  cases env.allocChan with
  | false => exact h
  | true =>
      simp only [Bool.not_true, Bool.false_eq_true, if_false]
      refine wp_conseq ((h.newClient cid).wp_attachOrWait
        (Registry.setChan_chans.trans (if_pos rfl)))
        fun r t ht => ?_
      rcases ht with ⟨rfl, C, hopen⟩ | ⟨hr, hinv, hC⟩
      · have hc := hopen.inv.chan hopen.live
        have hnot : ObjRef.handle ∉ C.refobj := fun hm => by
          have := hc.handleRef.mp hm
          simp [hopen.refcnt] at this
        have htmp : ObjRef.tmp ∈ insert ObjRef.handle C.refobj :=
          Finset.mem_insert_of_mem (hc.tmpRef.mpr rfl)
        have hlast : (insert ObjRef.handle C.refobj).erase .tmp ≠ ∅ :=
          Finset.ne_empty_of_mem (Finset.mem_erase.mpr ⟨(by simp : ObjRef.handle ≠ .tmp),
            Finset.mem_insert_self _ _⟩)
        simp only [noError, ne_eq, not_true_eq_false, if_false, chanHandleInit, wp_bind,
          wp_modifyChan, hopen.live, Option.elim_some, wp_chanAddRef, Registry.setChan_chans,
          if_true, hnot, Registry.setChan_setChan, Ipc.wp_chanDelRef, htmp, hlast, wp_pure]
        exact hopen.open
      · simp only [hr, ne_eq, not_false_eq_true, if_true, wp_bind]
        exact hinv.wp_dropClient hC

/-! ## `ipc_port_accept` -/

/-- The server of an accepted connection. -/
def acceptedServer (S : Chan) (guest : UInt32) : Chan :=
  { S with
    state := .connected, handle := ⟨1, guest⟩
    refobj := (insert .handle S.refobj).erase .tmp }

/-- The client of an accepted connection. -/
def acceptedClient (C : Chan) : Chan :=
  { C with state := .connected, auxState := { C.auxState with connected := true } }

/-- Both sides become connected. -/
theorem Inv.accept (h : Inv (· = server) O s) (hS : s.chans server = some S)
    (hC : s.chans client = some C) (hpeer : S.peer = some client) (hst : S.state = .accepting)
    (hnode : S.node = none) :
    server ≠ client ∧ Inv nobody O ((s.setChan client (acceptedClient C)).setChan server
      (acceptedServer S C.handle.guestId)) := by
  have hs := h.chan hS
  have hc := h.chan hC
  obtain ⟨C', hC', href, hcompat⟩ := h.peers.peer hS hpeer
  obtain rfl : C = C' := Option.some.inj (hC.symm.trans hC')
  obtain ⟨hcst, hcpeer⟩ := hcompat.accepting hst
  obtain ⟨S', hS', href', hcompat'⟩ := h.peers.peer hC hcpeer
  obtain rfl : S = S' := Option.some.inj (hS.symm.trans hS')
  have hne : server ≠ client := by
    rintro rfl
    obtain rfl : S = C := Option.some.inj (hS.symm.trans hC)
    simp [hst] at hcst
  have hflags : S.flags = ipcChanFlagServer := hcompat.server hst
  refine ⟨hne, ?_⟩
  have hself : ∀ {x X}, s.chans x = some X → X.peer = some server → x = client := by
    intro x X hX hpX
    obtain ⟨S', hS', -, hcx⟩ := h.peers.peer hX hpX
    obtain rfl : S = S' := Option.some.inj (hS.symm.trans hS')
    simpa [hpeer, eq_comm] using hcx.back
  have hself' : ∀ {x X}, s.chans x = some X → X.peer = some client → x = server := by
    intro x X hX hpX
    obtain ⟨C', hC', -, hcx⟩ := h.peers.peer hX hpX
    obtain rfl : C = C' := Option.some.inj (hC.symm.trans hC')
    simpa [hcpeer, eq_comm] using hcx.back
  refine h.updatePair hC hS hne.symm ?_ ?_
    ⟨Or.inr hcpeer, fun z hz => ?_, fun {x X} _ hxs hX hpX => absurd (hself' hX hpX) hxs,
      fun x hx => Or.inl ?_⟩
    ⟨Or.inr hpeer, fun z hz => ?_, fun {x X} _ hxc hX hpX => absurd (hself hX hpX) hxc,
      fun x hx => Or.inl ?_⟩
    (fun d hdc hds => by simp [hds, nobody])
  · exact { hc with
      tmpRef := by simpa [acceptedClient, nobody, hne.symm] using hc.tmpRef
      waits := fun hn => by
        have := (hc.waits hn).1
        simp [hcst] at this
      linked := by simp [acceptedClient]
      client := by simp [acceptedClient]
      pends := fun q hn => by
        have := hc.pends q hn
        simp [hcst] at this
      alone := fun hs => by simp [acceptedClient] at hs
      paired := fun _ => hc.paired (Or.inr (Or.inl hcst))
      queued := fun _ => by
        have := hc.queued (by simp [hcst])
        simpa [acceptedClient, hcst] using this
      held := fun _ => Or.inr ((hc.held (Or.inr (Or.inl hcst))).resolve_left hne.symm)
      valid := by simp [acceptedClient]
      unaccepted := by simp [acceptedClient]
      granted := fun _ => hc.granted (Or.inl hcst) }
  · exact { hs with
      refcnt_nonneg := show (0 : Int) ≤ 1 by decide
      handleRef := by simp [acceptedServer]
      nodeRef := by simpa [acceptedServer] using hs.nodeRef
      tmpRef := by simp [acceptedServer, nobody]
      waits := fun hn => by cases hnode.symm.trans hn
      linked := by simp [acceptedServer]
      client := by simp [acceptedServer]
      pends := fun q hn => by cases hnode.symm.trans hn
      alone := fun hs => by simp [acceptedServer] at hs
      paired := fun _ => hs.paired (Or.inl hst)
      anchored := fun _ => Or.inl (by simp [acceptedServer])
      queued := fun _ => by
        have := hs.queued (by simp [hst])
        simpa [acceptedServer, hst] using this
      held := fun _ => Or.inr (show (0 : Int) < 1 by decide)
      valid := by simp [acceptedServer]
      unaccepted := by simp [acceptedServer]
      granted := fun _ hf => absurd hflags hf }
  · obtain rfl : server = z := Option.some.inj (hcpeer.symm.trans hz)
    exact ⟨rfl, by simpa [acceptedServer] using href',
      ⟨Or.inr hpeer, by simp [acceptedClient], by simp [acceptedClient], fun _ => ⟨rfl, hpeer, rfl⟩, by simp [acceptedClient], hcompat'.roles, by simp [acceptedClient]⟩⟩
  · obtain ⟨X, hX, hpX⟩ := h.peers.peerRef hC hx
    exact ⟨hself' hX hpX, hpeer⟩
  · obtain rfl : client = z := Option.some.inj (hpeer.symm.trans hz)
    exact ⟨rfl, href,
      ⟨Or.inr hcpeer, by simp [acceptedServer], by simp [acceptedServer], fun _ => ⟨rfl, hcpeer, rfl⟩, by simp [acceptedServer], hcompat.roles, by simp [acceptedServer]⟩⟩
  · obtain ⟨X, hX, hpX⟩ := h.peers.peerRef hS (by simpa [acceptedServer] using hx)
    exact ⟨hself hX hpX, hcpeer⟩

/-- The connection is dropped: its client has gone. -/
theorem Inv.wp_dropServer (h : Inv (· = server) O s) (hS : s.chans server = some S)
    (hst : S.state = .accepting ∨ S.state = .disconnecting) {α : Type} (r : α) :
    wp (do chanShutdownLocked server; chanDelRef server .tmp; pure r)
      (fun _ t => Inv nobody O t) (fun _ _ => False) s := by
  have hne : S.state ≠ .waitingForPort ∧ S.state ≠ .invalid := by
    rcases hst with hst | hst <;> simp [hst]
  rw [wp_bind]
  refine wp_mono (h.wp_chanShutdownLocked hS) (fun _ t ht => ?_) fun _ _ he => hne.1 he.2.1
  obtain ⟨hinv, ⟨S', hS', hpeer, -, hst', -⟩, -, -⟩ := ht
  have hst' := hst' hne.2
  rw [wp_bind]
  refine wp_conseq (Inv.wp_chanDelRef (T := nobody) hS' ((hinv.chan hS').tmpRef.mpr rfl) ?_)
    fun _ u hu => hu.1
  exact hinv.delTmp hS' (fun d hd => by simp [nobody, hd]) id (fun hp => by simp [hpeer] at hp)
    (fun hs => by simp [hst'] at hs)

/-- Accepting never stops the kernel. -/
theorem Inv.wp_ipcPortAccept (h : Inv nobody O s) {handle : Option HandlePtr}
    (hheld : ∀ p, handle = some (.port p) →
      ∃ P, s.ports p = some P ∧ P.ownRefs < P.handle.refcnt) :
    wp (ipcPortAccept handle) (fun _ t => Inv nobody O t) (fun _ _ => False) s := by
  rcases handle with _ | c | p
  · exact h
  · exact h
  · obtain ⟨P, hP, hheld⟩ := hheld p rfl
    simp only [ipcPortAccept, wp_bind, wp_getPort, hP, Option.elim_some, wp_ite, wp_pure]
    by_cases hst : P.state ≠ .listening
    · rw [if_pos hst]
      exact h
    rw [if_neg hst]
    cases hl : P.pendingList with
    | nil => exact h
    | cons server rest =>
        obtain ⟨S, hS⟩ := Option.isSome_iff_exists.mp
          (h.lists.pendingLive hP (c := server) (by simp [hl]))
        have hs := h.chan hS
        have hnode : S.node = some (.pending p) := (hs.inPending p).mpr ⟨P, hP, by simp [hl]⟩
        have hSst := hs.pends p hnode
        have htmp : ObjRef.tmp ∉ S.refobj := fun hm => hs.tmpRef.mp hm
        have hnref : ObjRef.node ∈ insert ObjRef.tmp S.refobj :=
          Finset.mem_insert_of_mem (hs.nodeRef.mpr (by simp [hnode]))
        have hlast : (insert ObjRef.tmp S.refobj).erase .node ≠ ∅ :=
          Finset.ne_empty_of_mem (Finset.mem_erase.mpr ⟨(by simp : ObjRef.tmp ≠ .node),
            Finset.mem_insert_self _ _⟩)
        have hinv : Inv (· = server) O _ := h.unlinkPending hP hS hnode
          (fun d hd => by simp [hd, nobody]) (R := (insert .tmp S.refobj).erase .node)
          ⟨by simp, by simp, by simp, by simp⟩ fun _ => rfl
        simp only [wp_bind, wp_listDelete, hS, Option.elim_some, hnode, hP, wp_chanAddRef,
          Registry.setChan_chans, if_true, htmp, if_false, Registry.setChan_setChan,
          Ipc.wp_chanDelRef, hnref, not_true, hlast]
        have hown := Port.ownRefs_cons hl
        have hnonneg := Port.ownRefs_nonneg { P with pendingList := rest }
        rw [hl, List.erase_cons_head] at hinv ⊢
        generalize hS₁ : ({ S with
          node := none, refobj := (insert .tmp S.refobj).erase .node } : Chan) = S₁ at hinv ⊢
        have hSs : S₁.node = none ∧ S₁.state = S.state ∧ S₁.peer = S.peer := by
          subst hS₁
          exact ⟨rfl, rfl, rfl⟩
        obtain ⟨hn₁, hst₁, hp₁⟩ := hSs
        refine wp_conseq (hinv.wp_handleDecref_port (p := p) (P := { P with pendingList := rest })
          (by simp) (show _ < P.handle.refcnt by omega)) fun _ t ht => ?_
        obtain ⟨hinv, ht⟩ := ht
        have hlive : t.chans server = some S₁ := by
          rw [ht (show P.handle.refcnt ≠ 1 by omega)]
          simp
        simp only [wp_bind, wp_getChan, hlive, Option.elim_some]
        have hdrop := hinv.wp_dropServer hlive (hst₁ ▸ hSst)
          (errChannelClosed, (none : Option (ChanId × Option Uuid)))
        cases hpeer : S₁.peer with
        | none => exact hdrop
        | some client =>
            obtain ⟨C, hC, -, hcompat⟩ := hinv.peers.peer hlive hpeer
            simp only [wp_bind, wp_getChan, hC, Option.elim_some]
            by_cases hbad : S₁.state ≠ .accepting ∨ C.state ≠ .connecting
            · rw [if_pos hbad]
              exact hdrop
            rw [if_neg hbad]
            have hacc : S₁.state = .accepting := by
              by_contra hne
              exact hbad (Or.inl hne)
            obtain ⟨hne, haccept⟩ := hinv.accept hlive hC hpeer hacc hn₁
            have hs₁ := hinv.chan hlive
            have hhandle : ObjRef.handle ∉ S₁.refobj := fun hm => by
              have := hs₁.handleRef.mp hm
              simp [hs₁.unaccepted hacc] at this
            have htmp₁ : ObjRef.tmp ∈ insert ObjRef.handle S₁.refobj :=
              Finset.mem_insert_of_mem (hs₁.tmpRef.mpr rfl)
            have hlast₁ : (insert ObjRef.handle S₁.refobj).erase .tmp ≠ ∅ :=
              Finset.ne_empty_of_mem (Finset.mem_erase.mpr ⟨(by simp : ObjRef.handle ≠ .tmp),
                Finset.mem_insert_self _ _⟩)
            have hcomm : ∀ (u : Registry) (X Y : Chan), (u.setChan server X).setChan client Y =
                (u.setChan client Y).setChan server X := fun u X Y => Registry.setChan_comm hne
            simp only [acceptConnect, chanHandleInit, wp_bind, wp_modifyChan, hlive, hC,
              Option.elim_some, Registry.setChan_chans, hne, hne.symm, if_true, if_false,
              wp_chanAddRef, hhandle, wp_getChan, wp_handleNotify_chan, Ipc.wp_chanDelRef, htmp₁,
              not_true, hlast₁, Registry.setChan_setChan, hcomm]
            exact haccept

end

end TX2SecureUart.Ipc
