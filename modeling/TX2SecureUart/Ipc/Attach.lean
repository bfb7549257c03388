/-
# `Ipc.Attach` — a client is attached to a port

`port_attach_client` either links the client to a new server channel that
waits to be accepted, or leaves no trace of the attempt.  The first half
computes both outcomes, the second shows that linking keeps the invariant.
-/
import TX2SecureUart.Ipc.PortInv

namespace TX2SecureUart.Ipc

open Prog

section

variable {T O T' O' : ChanId → Prop} {E : Fault → Registry → Prop} {s : Registry}
  {client server : ChanId} {C S : Chan} {p : PortId} {P : Port} {env : Env}

/-! ## The two outcomes -/

/-- The client's side of a new connection. -/
def linkedClient (C : Chan) (server : ChanId) : Chan :=
  { C with refobj := insert (.peer server) C.refobj, peer := some server, state := .connecting }

/-- The server's side, pending at port `p`. -/
def linkedServer (S : Chan) (client : ChanId) (p : PortId) : Chan :=
  { S with
    refobj := insert .node (insert (.peer client) S.refobj), peer := some client
    state := .accepting, node := some (.pending p) }

/-- The port, with one more pending connection. -/
def linkedPort (P : Port) (server : ChanId) : Port :=
  { P with
    pendingList := P.pendingList ++ [server]
    handle := { P.handle with refcnt := P.handle.refcnt + 1 } }

theorem wp_portLink {Q : PUnit → Registry → Prop} (hne : server ≠ client)
    (hC : s.chans client = some C) (hS : s.chans server = some S) (hP : s.ports p = some P)
    (hcref : .peer server ∉ C.refobj) (hsref : .peer client ∉ S.refobj) (hnref : .node ∉ S.refobj)
    (hnode : S.node = none) :
    wp (portLink p client server) Q E s ↔ Q ⟨⟩
      ((((s.setPort p (linkedPort P server)).setChan client (linkedClient C server)).setChan server
        (linkedServer S client p)).log (.attach client server C.uuid (linkedPort P server))) := by
  have hcomm : ∀ (t : Registry) (X Y : Chan), (t.setChan server X).setChan client Y =
      (t.setChan client Y).setChan server X := fun t X Y => Registry.setChan_comm hne
  have hne' : client ≠ server := hne.symm
  simp only [portLink, listAddTail, handleIncref, wp_bind, wp_modifyChan, wp_chanAddRef, wp_getChan, hC, hS, hP,
    Registry.setChan_chans, hne, hne', if_true, if_false, Option.elim_some, hcref, hsref, hnref, hnode,
    Finset.mem_insert, reduceCtorEq, false_or, Option.isSome_none, Bool.false_eq_true,
    wp_modifyPort, Registry.setChan_ports, Registry.setPort_ports, Registry.setPort_setPort,
    Registry.setChan_setPort, Registry.setPort_chans, wp_handleNotify_port, wp_getPort, wp_modify,
    Registry.setChan_setChan, hcomm, wp_ite]
  rfl

/-- Whether `port_attach_client` succeeds. -/
def CanAttach (env : Env) (P : Port) (client : ChanId) (uuid : Option Uuid) : Prop :=
  P.state = .listening ∧ checkAccess P uuid = noError ∧ env.allocServer client = true ∧
    env.allocClientQueue client = true ∧ env.allocServerQueue client = true

instance (env : Env) (P : Port) (client : ChanId) (uuid : Option Uuid) :
    Decidable (CanAttach env P client uuid) :=
  inferInstanceAs (Decidable (_ ∧ _ ∧ _ ∧ _ ∧ _))

/-- The client's side, with its queue. -/
def attachedClient (env : Env) (P : Port) (client server : ChanId) (C : Chan) : Chan :=
  linkedClient { C with
    msgQueue := some (MsgQueue.create P.numRecvBufs P.recvBufSize (env.fresh client)) } server

/-- The server's side, with its queue, when only its peer and the pending list
refer to it. -/
def attachedServer (env : Env) (p : PortId) (P : Port) (client server : ChanId) : Chan where
  refobj := {.node, .peer client}
  peer := some client
  uuid := P.uuid
  state := .accepting
  flags := ipcChanFlagServer
  auxState := ⟨false, false, false⟩
  handle := ⟨0, 0⟩
  node := some (.pending p)
  msgQueue := some (MsgQueue.create P.numRecvBufs P.recvBufSize (env.fresh server))
  path := none

/-- The registry after a client was attached. -/
def Registry.attach (s : Registry) (env : Env) (p : PortId) (P : Port) (client : ChanId)
    (C : Chan) : Registry :=
  ((((Registry.setPort { s with nextChan := s.nextChan + 1 } p (linkedPort P s.nextChan)).setChan
    client (attachedClient env P client s.nextChan C)).setChan
    s.nextChan (attachedServer env p P client s.nextChan)).log
    (.attach client s.nextChan C.uuid (linkedPort P s.nextChan)))

/-- The client and the server it would get are different channels, the second
of which nobody knows. -/
theorem Inv.fresh_server (h : Inv T O s) (hC : s.chans client = some C) :
    s.nextChan ≠ client ∧ s.chans s.nextChan = none ∧ .peer s.nextChan ∉ C.refobj := by
  have hfresh := h.lists.freshChan (c := s.nextChan) (Nat.le_refl _)
  refine ⟨fun hne => ?_, hfresh, fun href => ?_⟩
  · rw [hne, hC] at hfresh
    cases hfresh
  · obtain ⟨X, hX, -⟩ := h.peers.peerRef hC href
    rw [hfresh] at hX
    cases hX

/-- The first reference is still the only one: the channel goes with it. -/
theorem wp_chanDelRef_only {Q : PUnit → Registry → Prop} (hC : s.chans client = some C)
    (hrefs : C.refobj = {.tmp}) (hpeer : C.peer = none) (hnode : C.node = none) :
    wp (chanDelRef client .tmp) Q E s ↔ Q ⟨⟩ (s.freeChan client) := by
  have hlast : ({.tmp} : Finset ObjRef).erase .tmp = ∅ := by decide
  rw [wp_chanDelRef]
  simp [hC, hrefs, hpeer, hnode, hlast]

theorem Inv.wp_portAttachClient (h : Inv T O s) (hC : s.chans client = some C)
    (hP : s.ports p = some P) (hqueue : C.msgQueue = none) :
    wp (portAttachClient env p client) (fun r t =>
      (CanAttach env P client C.uuid ∧ r = noError ∧ t = s.attach env p P client C) ∨
      (¬ CanAttach env P client C.uuid ∧ r ≠ noError ∧
        ∃ n, s.nextChan ≤ n ∧ t = { s with nextChan := n })) E s := by
  obtain ⟨hne, hfresh, hcref⟩ := h.fresh_server hC
  have hne' := hne.symm
  have hcomm : ∀ (t : Registry) (X Y : Chan), (t.setChan s.nextChan X).setChan client Y =
      (t.setChan client Y).setChan s.nextChan X := fun t X Y => Registry.setChan_comm hne
  have hsame : ∃ n, s.nextChan ≤ n ∧ s = { s with nextChan := n } :=
    ⟨s.nextChan, Nat.le_refl _, rfl⟩
  -- the server is allocated and freed again
  have hcounted : ∃ n, s.nextChan ≤ n ∧
      { s with nextChan := s.nextChan + 1 } = { s with nextChan := n } :=
    ⟨s.nextChan + 1, Nat.le_succ _, rfl⟩
  have hfree : ({ s with nextChan := s.nextChan + 1 } : Registry).freeChan s.nextChan =
      { s with nextChan := s.nextChan + 1 } := Registry.freeChan_self hfresh
  simp only [portAttachClient, wp_bind, wp_getPort, hP, Option.elim_some, wp_ite, wp_pure]
  by_cases hst : P.state = .listening
  swap
  · simp only [hst, ne_eq, not_false_eq_true, if_true]
    exact Or.inr ⟨fun hcan => hst hcan.1, by decide, hsame⟩
  by_cases hacc : checkAccess P C.uuid = noError
  swap
  · simp only [hst, ne_eq, not_true_eq_false, if_false, wp_bind, wp_getChan, hC, Option.elim_some,
      wp_ite, hacc, not_false_eq_true, if_true, wp_pure]
    exact Or.inr ⟨fun hcan => hacc hcan.2.1, trivial, hsame⟩
  simp only [hst, hacc, ne_eq, not_true_eq_false, if_false, wp_bind, wp_getChan, hC,
    Option.elim_some, wp_ite, chanAlloc, wp_pure, wp_get, wp_set]
  cases hserver : env.allocServer client with
  | false =>
      simp only [Bool.not_false, if_true]
      exact Or.inr ⟨fun hcan => by simp [hcan.2.2.1] at hserver, by decide, hsame⟩
  | true =>
      simp only [Bool.not_true, Bool.false_eq_true, if_false]
      cases hcq : env.allocClientQueue client with
      | false =>
          simp only [Bool.false_eq_true, if_false]
          rw [wp_chanDelRef_only (C := newChan ipcChanFlagServer P.uuid) (by simp) rfl rfl rfl,
            Registry.freeChan_setChan, hfree]
          exact Or.inr ⟨fun hcan => by simp [hcan.2.2.2.1] at hcq, by decide, hcounted⟩
      | true =>
          simp only [if_true, wp_modifyChan, Registry.setChan_chans, hne', if_false, hC,
            Option.elim_some, wp_ite, wp_bind, hne]
          cases hsq : env.allocServerQueue client with
          | false =>
              have hback : { C with msgQueue := none } = C := by rw [← hqueue]
              simp only [Bool.false_eq_true, if_false, Registry.setChan_setChan, hback]
              rw [wp_chanDelRef_only (C := newChan ipcChanFlagServer P.uuid) (by simp [hne]) rfl rfl
                rfl, Registry.setChan_comm hne, Registry.freeChan_setChan,
                Registry.setChan_self (s := { s with nextChan := s.nextChan + 1 }) hC, hfree]
              exact Or.inr ⟨fun hcan => by simp [hcan.2.2.2.2] at hsq, by decide, hcounted⟩
          | true =>
              simp only [if_true]
              rw [Registry.setChan_comm hne, Registry.setChan_setChan,
                wp_portLink hne (S := { newChan ipcChanFlagServer P.uuid with
                  msgQueue := some (MsgQueue.create P.numRecvBufs P.recvBufSize
                    (env.fresh s.nextChan)) }) (C := { C with
                  msgQueue := some (MsgQueue.create P.numRecvBufs P.recvBufSize
                    (env.fresh client)) })
                  (by simp [hne']) (by simp) (by simpa using hP) hcref
                  (by simp [newChan]) (by simp [newChan]) rfl]
              have href : ObjRef.tmp ∈ (insert .node (insert (.peer client) {.tmp}) :
                  Finset ObjRef) := by simp
              have hlast : (insert .node (insert (.peer client) {.tmp}) :
                  Finset ObjRef).erase .tmp = {.node, .peer client} := by ext r; simp; grind
              have hne₀ : ({.node, .peer client} : Finset ObjRef) ≠ ∅ := by simp
              simp only [wp_bind, Ipc.wp_chanDelRef, Registry.log_chans, Registry.setChan_chans, if_true,
                Option.elim_some, linkedServer, newChan, href, not_true, if_false, hlast, hne₀,
                wp_pure]
              refine Or.inl ⟨⟨hst, hacc, hserver, hcq, hsq⟩, trivial, ?_⟩
              simp only [Registry.setChan_log, Registry.setChan_setPort, hcomm,
                Registry.setChan_setChan]
              rfl

/-! ## Linking keeps the invariant -/

/-- A client that may be linked to a new server: it was alone, somebody holds
a reference to it, and the hook has just let it in. -/
structure Attachable (T : ChanId → Prop) (s : Registry) (P : Port) (client : ChanId) (C : Chan) :
    Prop where
  held : T client
  state : C.state = .waitingForPort ∨ C.state = .invalid
  node : C.node = none
  path : C.path = none
  flags : C.flags ≠ ipcChanFlagServer
  letIn : ∃ g tr, (0 < C.handle.refcnt → C.handle.guestId = g) ∧
    s.trace = tr ++ [.hypCheck g P.uuid 0]

section

variable (h : Inv T O s) (hC : s.chans client = some C) (hP : s.ports p = some P)

theorem Registry.attach_chans (d : ChanId) :
    (s.attach env p P client C).chans d =
      if d = s.nextChan then some (attachedServer env p P client s.nextChan)
      else if d = client then some (attachedClient env P client s.nextChan C)
      else s.chans d := by
  simp only [Registry.attach, Registry.log_chans, Registry.setChan_chans, Registry.setPort_chans]

theorem Registry.attach_ports (q : PortId) :
    (s.attach env p P client C).ports q =
      if q = p then some (linkedPort P s.nextChan) else s.ports q :=
  Registry.setPort_ports

theorem linkedPort_ownRefs (P : Port) (server : ChanId) :
    (linkedPort P server).ownRefs = P.ownRefs + 1 := by
  show ((P.pendingList ++ [server]).length + if P.node then 1 else 0 : Int) =
    (P.pendingList.length + if P.node then 1 else 0) + 1
  rw [List.length_append, List.length_singleton]
  omega

include hP in
/-- Who is pending after the server was added. -/
theorem Registry.attach_pending (d : ChanId) (q : PortId) :
    (∃ Q, (s.attach env p P client C).ports q = some Q ∧ d ∈ Q.pendingList) ↔
      (d = s.nextChan ∧ q = p) ∨ ∃ Q, s.ports q = some Q ∧ d ∈ Q.pendingList := by
  rw [Registry.attach_ports]
  by_cases hqp : q = p
  · subst hqp
    simp [hP, linkedPort, or_comm]
  · simp [hqp]

include h hC hP in
theorem Inv.attach_lists : ListInv (s.attach env p P client C) := by
  obtain ⟨-, hfresh, -⟩ := h.fresh_server hC
  have hlive : ∀ d, (s.chans d).isSome → ((s.attach env p P client C).chans d).isSome := by
    intro d hd
    rw [Registry.attach_chans]
    split
    · rfl
    · split
      · rfl
      · exact hd
  have hnot : ∀ q Q, s.ports q = some Q → s.nextChan ∉ Q.pendingList := fun q Q hQ hmem => by
    have := h.lists.pendingLive hQ hmem
    simp [hfresh] at this
  have hrefs := h.lists.refcnt hP
  have hports : ∀ {q Q}, (s.attach env p P client C).ports q = some Q →
      (q = p ∧ Q = linkedPort P s.nextChan) ∨ (q ≠ p ∧ s.ports q = some Q) := by
    intro q Q hQ
    rw [Registry.attach_ports] at hQ
    by_cases hqp : q = p
    · exact Or.inl ⟨hqp, by simpa [hqp] using hQ.symm⟩
    · exact Or.inr ⟨hqp, by simpa [hqp] using hQ⟩
  exact
    { waitingLive := fun hd => hlive _ (h.lists.waitingLive hd)
      waitingNodup := h.lists.waitingNodup
      listed := fun q => (h.lists.listed q).trans (by
        rw [Registry.attach_ports]
        by_cases hqp : q = p
        · subst hqp
          simp [hP, linkedPort]
        · simp [hqp])
      listedNodup := h.lists.listedNodup
      pendingLive := fun {q Q d} hQ hd => by
        rcases hports hQ with ⟨rfl, rfl⟩ | ⟨-, hQ⟩
        · rcases List.mem_append.mp hd with hd | hd
          · exact hlive _ (h.lists.pendingLive hP hd)
          · rw [List.mem_singleton.mp hd, Registry.attach_chans, if_pos rfl]
            rfl
        · exact hlive _ (h.lists.pendingLive hQ hd)
      pendingNodup := fun {q Q} hQ => by
        rcases hports hQ with ⟨rfl, rfl⟩ | ⟨-, hQ⟩
        · exact List.nodup_append.mpr ⟨h.lists.pendingNodup hP, List.nodup_singleton _,
            fun a ha b hb hab => hnot _ _ hP (by
              rw [← List.mem_singleton.mp hb, ← hab]
              exact ha)⟩
        · exact h.lists.pendingNodup hQ
      refcnt := fun {q Q} hQ => by
        rcases hports hQ with ⟨rfl, rfl⟩ | ⟨-, hQ⟩
        · rw [linkedPort_ownRefs]
          show 1 ≤ P.handle.refcnt + 1 ∧ P.ownRefs + 1 ≤ P.handle.refcnt + 1
          omega
        · exact h.lists.refcnt hQ
      freshChan := fun {d} hd => by
        have hd : s.nextChan + 1 ≤ d := hd
        have hdc : d ≠ client := fun hdc => by
          have := h.lists.freshChan (c := d) (Nat.le_of_succ_le hd)
          rw [hdc, hC] at this
          cases this
        rw [Registry.attach_chans, if_neg (Nat.ne_of_gt hd), if_neg hdc]
        exact h.lists.freshChan (Nat.le_of_succ_le hd)
      freshPort := fun {q} hq => by
        have hqp : q ≠ p := fun hqp => by
          have := h.lists.freshPort (p := q) hq
          rw [hqp, hP] at this
          cases this
        rw [Registry.attach_ports, if_neg hqp]
        exact h.lists.freshPort hq }

include h hC hP in
/-- The client's own part. -/
theorem Inv.attach_client (hatt : Attachable T s P client C)
    (hcan : CanAttach env P client C.uuid) :
    ChanInv T O (s.attach env p P client C) client (attachedClient env P client s.nextChan C) := by
  obtain ⟨hne, -, -⟩ := h.fresh_server hC
  have hc := h.chan hC
  exact
    { refcnt_nonneg := hc.refcnt_nonneg
      handleRef := by simpa [attachedClient, linkedClient] using hc.handleRef
      nodeRef := by simpa [attachedClient, linkedClient] using hc.nodeRef
      tmpRef := by simpa [attachedClient, linkedClient] using hc.tmpRef
      inWaiting := hc.inWaiting
      inPending := fun q => (hc.inPending q).trans (by
        rw [Registry.attach_pending hP]
        simp [hne.symm])
      waits := fun hn => by cases hatt.node.symm.trans hn
      linked := nofun
      client := nofun
      pends := fun q hn => by cases hatt.node.symm.trans hn
      alone := fun hs => by simp [attachedClient, linkedClient] at hs
      paired := fun _ => rfl
      anchored := fun _ => Or.inr (Or.inr (by
        simpa [attachedClient, linkedClient] using hc.tmpRef.mpr hatt.held))
      queue := fun _ => rfl
      queued := fun _ => by simp [attachedClient, linkedClient, hatt.path]
      held := fun _ => Or.inl hatt.held
      valid := fun _ => nofun
      unaccepted := nofun
      granted := fun _ _ d hd => by
        obtain rfl : s.nextChan = d := Option.some.inj hd
        obtain ⟨g, tr, hg, htr⟩ := hatt.letIn
        refine ⟨g, hg, tr, [], linkedPort P s.nextChan, ?_, hcan.1, hcan.2.1⟩
        show s.trace ++ _ = _
        rw [htr]
        simp [linkedPort, attachedClient, linkedClient] }

include h hC hP in
/-- The server's own part. -/
theorem Inv.attach_server :
    ChanInv T O (s.attach env p P client C) s.nextChan
      (attachedServer env p P client s.nextChan) := by
  obtain ⟨-, hfresh, -⟩ := h.fresh_server hC
  exact
    { refcnt_nonneg := Int.le_refl 0
      handleRef := by simp [attachedServer]
      nodeRef := by simp [attachedServer]
      tmpRef := by
        have hT : ¬ T s.nextChan := fun hT => by
          have := h.tmpLive hT
          simp [hfresh] at this
        simpa [attachedServer] using hT
      inWaiting := ⟨nofun, fun hm => by
        have := h.lists.waitingLive hm
        simp [hfresh] at this⟩
      inPending := fun q => by
        have hnot : ¬ ∃ Q, s.ports q = some Q ∧ s.nextChan ∈ Q.pendingList := fun ⟨Q, hQ, hd⟩ => by
          have := h.lists.pendingLive hQ hd
          simp [hfresh] at this
        rw [Registry.attach_pending hP]
        simp only [hnot, or_false, true_and, attachedServer, Option.some.injEq,
          ListId.pending.injEq]
        exact eq_comm
      waits := nofun
      linked := nofun
      client := nofun
      pends := fun _ _ => Or.inl rfl
      alone := fun hs => by simp [attachedServer] at hs
      paired := fun _ => rfl
      anchored := fun _ => Or.inr (Or.inl (by simp [attachedServer]))
      queue := fun _ => rfl
      queued := fun _ => by simp [attachedServer]
      held := fun hs => by simp [attachedServer] at hs
      valid := nofun
      unaccepted := fun _ => rfl
      granted := fun hs => by simp [attachedServer] at hs }

include h hC in
theorem Inv.attach_peers (hatt : Attachable T s P client C) :
    PeerInv (s.attach env p P client C) := by
  obtain ⟨hne, hfresh, -⟩ := h.fresh_server hC
  have halone := (h.chan hC).alone hatt.state
  have hpeer : ∀ {x X}, s.chans x = some X → X.peer ≠ some client := h.no_peer_of hC hatt.state
  have hclient : (s.attach env p P client C).chans client =
      some (attachedClient env P client s.nextChan C) := by
    rw [Registry.attach_chans, if_neg hne.symm, if_pos rfl]
  have hserver : (s.attach env p P client C).chans s.nextChan =
      some (attachedServer env p P client s.nextChan) := by
    rw [Registry.attach_chans, if_pos rfl]
  have hsplit : ∀ {d D}, (s.attach env p P client C).chans d = some D →
      (d = s.nextChan ∧ D = attachedServer env p P client s.nextChan) ∨
      (d = client ∧ D = attachedClient env P client s.nextChan C) ∨
      (d ≠ s.nextChan ∧ d ≠ client ∧ s.chans d = some D) := by
    intro d D hD
    rw [Registry.attach_chans] at hD
    split at hD
    · exact Or.inl ⟨‹_›, (Option.some.inj hD).symm⟩
    · split at hD
      · exact Or.inr (Or.inl ⟨‹_›, (Option.some.inj hD).symm⟩)
      · exact Or.inr (Or.inr ⟨‹_›, ‹_›, hD⟩)
  have hold : ∀ {d D}, s.chans d = some D → d ≠ client →
      (s.attach env p P client C).chans d = some D := by
    intro d D hD hdc
    have hds : d ≠ s.nextChan := fun hds => by simp [hds, hfresh] at hD
    rw [Registry.attach_chans, if_neg hds, if_neg hdc, hD]
  constructor
  · intro x X y hX hy
    rcases hsplit hX with ⟨rfl, rfl⟩ | ⟨rfl, rfl⟩ | ⟨-, hxc, hX⟩
    · obtain rfl : client = y := Option.some.inj hy
      exact ⟨_, hclient, by simp [attachedClient, linkedClient],
        ⟨Or.inr rfl, fun _ => ⟨rfl, rfl⟩, nofun, nofun, nofun,
          iff_of_true rfl hatt.flags, fun _ => rfl⟩⟩
    · obtain rfl : s.nextChan = y := Option.some.inj hy
      exact ⟨_, hserver, by simp [attachedServer],
        ⟨Or.inr rfl, nofun, fun _ => ⟨rfl, rfl⟩, nofun, nofun,
          iff_of_false hatt.flags (fun hf => hf rfl), nofun⟩⟩
    · obtain ⟨Y, hY, href, hcompat⟩ := h.peers.peer hX hy
      have hyc : y ≠ client := fun hyc => hpeer hX (hyc ▸ hy)
      exact ⟨Y, hold hY hyc, href, hcompat⟩
  · intro y Y x hY hx
    rcases hsplit hY with ⟨rfl, rfl⟩ | ⟨rfl, rfl⟩ | ⟨-, -, hY⟩
    · have hxc : x = client := by simpa [attachedServer] using hx
      subst hxc
      exact ⟨_, hclient, rfl⟩
    · have hx' : x = s.nextChan ∨ .peer x ∈ C.refobj := by
        simpa [attachedClient, linkedClient] using hx
      rcases hx' with rfl | hx'
      · exact ⟨_, hserver, rfl⟩
      · obtain ⟨X, hX, hpX⟩ := h.peers.peerRef hC hx'
        exact absurd hpX (hpeer hX)
    · obtain ⟨X, hX, hpX⟩ := h.peers.peerRef hY hx
      have hxc : x ≠ client := by
        rintro rfl
        obtain rfl : C = X := Option.some.inj (hC.symm.trans hX)
        simp [halone] at hpX
      exact ⟨X, hold hX hxc, hpX⟩

include h hC hP in
theorem Inv.attach (hatt : Attachable T s P client C) (hcan : CanAttach env P client C.uuid) :
    Inv T O (s.attach env p P client C) where
  chan := fun {d D} hD => by
    obtain ⟨hne, -, -⟩ := h.fresh_server hC
    rw [Registry.attach_chans] at hD
    by_cases hds : d = s.nextChan
    · rw [if_pos hds] at hD
      obtain rfl := Option.some.inj hD
      rw [hds]
      exact h.attach_server hC hP
    · rw [if_neg hds] at hD
      by_cases hdc : d = client
      · rw [if_pos hdc] at hD
        obtain rfl := Option.some.inj hD
        rw [hdc]
        exact h.attach_client hC hP hatt hcan
      · rw [if_neg hdc] at hD
        refine (h.chan hD).congr Iff.rfl id Iff.rfl (fun q => ?_) ⟨[_], rfl⟩
        rw [Registry.attach_pending hP]
        simp [hds]
  peers := h.attach_peers hC hatt
  lists := h.attach_lists hC hP
  tmpLive := fun {d} hd => by
    rw [Registry.attach_chans]
    split
    · rfl
    · split
      · rfl
      · exact h.tmpLive hd

end

end

end TX2SecureUart.Ipc
