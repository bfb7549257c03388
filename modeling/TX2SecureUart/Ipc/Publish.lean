/-
# `Ipc.Publish` — a port is published

The loop of `ipc_port_publish` over the clients that wait for the port.  A
client that the hook lets in is attached; if that fails, shutting the client
down stops the kernel, because it is already out of the list.  A client that
the hook refuses is left in the state `waitingForPort`, an orphan.
-/
import TX2SecureUart.Ipc.Attach

namespace TX2SecureUart.Ipc

open Prog

section

variable {O : ChanId → Prop} {E : Fault → Registry → Prop} {s t u : Registry}
  {client : ChanId} {C : Chan} {p : PortId} {P : Port} {env : Env}

/-! ## What the clients of a port are told -/

/-- The client waits for a port with this path. -/
def Registry.waitsFor (s : Registry) (path : Path) (c : ChanId) : Bool :=
  (s.chans c).any fun C => C.path = some path

/-- The answer of the hook for a client of the port. -/
def Registry.answer (s : Registry) (env : Env) (P : Port) (c : ChanId) : Int :=
  (s.chans c).elim 0 fun C => env.hypCheck c C.handle.guestId P.uuid

/-- Whether attaching a client to the port succeeds. -/
def Registry.attachable (s : Registry) (env : Env) (P : Port) (c : ChanId) : Prop :=
  (s.chans c).elim False fun C => CanAttach env P c C.uuid

instance (s : Registry) (env : Env) (P : Port) (c : ChanId) : Decidable (s.attachable env P c) :=
  decidable_of_iff ((s.chans c).any fun C => decide (CanAttach env P c C.uuid)) (by
    unfold Registry.attachable
    cases s.chans c <;> simp)

/-- What publishing leaves of a port: only pending connections are added, and a
reference to the port for each. -/
structure PortGrows (s t : Registry) (p : PortId) (P : Port) : Prop where
  port : ∃ pending refcnt, t.ports p = some { P with
    pendingList := pending, handle := { P.handle with refcnt := refcnt } }
  list : t.ipcPortList = s.ipcPortList

theorem PortGrows.trans {P' : Port} (h : PortGrows s t p P) (hP' : t.ports p = some P')
    (h' : PortGrows t u p P') : PortGrows s u p P := by
  obtain ⟨⟨pending, refcnt, hP⟩, hlist⟩ := h
  obtain ⟨⟨pending', refcnt', hP''⟩, hlist'⟩ := h'
  obtain rfl := Option.some.inj (hP.symm.trans hP')
  exact ⟨⟨pending', refcnt', hP''⟩, hlist'.trans hlist⟩

/-! ## One client -/

/-- An orphan cannot be shut down. -/
theorem wp_chanShutdownLocked_orphan {Q : PUnit → Registry → Prop} (hC : s.chans client = some C)
    (hst : C.state = .waitingForPort) (hnode : C.node = none) :
    wp (chanShutdownLocked client) Q E s ↔ E (.assertFailed .waitingInList) s := by
  simp only [chanShutdownLocked, chanShutdownOneLocked, wp_bind, wp_getChan, hC, Option.elim_some,
    hst, hnode, Option.isNone_none, if_true, wp_throw]

/-- The local reference to a client with a handle is dropped. -/
theorem Inv.wp_delTmp (h : Inv (· = client) (fun d => O d ∨ d = client) s)
    (hC : s.chans client = some C) (hpos : 0 < C.handle.refcnt)
    (horphan : C.state = .waitingForPort → O client) :
    wp (chanDelRef client .tmp) (fun _ t => Inv nobody O t ∧
      t = s.setChan client { C with refobj := C.refobj.erase .tmp }) E s := by
  have hc := h.chan hC
  have hhandle : ObjRef.handle ∈ C.refobj := hc.handleRef.mpr hpos
  have htmp : ObjRef.tmp ∈ C.refobj := hc.tmpRef.mpr rfl
  have hlast : C.refobj.erase .tmp ≠ ∅ :=
    Finset.ne_empty_of_mem (Finset.mem_erase.mpr ⟨(nofun : ObjRef.handle ≠ .tmp), hhandle⟩)
  have horphans : Inv (· = client) O s := h.orphans fun d D hD hs hd => by
    rcases hd with hd | rfl
    · exact hd
    · obtain rfl : C = D := Option.some.inj (hC.symm.trans hD)
      exact horphan hs
  rw [Ipc.wp_chanDelRef]
  simp only [hC, Option.elim_some, htmp, not_true, if_false, hlast]
  exact ⟨horphans.delTmp hC (fun d hd => by simp [nobody, hd]) id (fun _ => Or.inl hhandle)
    fun _ => hpos, trivial⟩

/-- What one pass of the loop does, apart from the result. -/
structure PublishedTo (s t : Registry) (p : PortId) (P : Port) (client : ChanId) : Prop where
  port : PortGrows s t p P
  others : ∀ d, d ≠ client → (s.chans d).isSome → t.chans d = s.chans d
  waiting : t.waitingForPortChanList = s.waitingForPortChanList.erase client

theorem Inv.wp_publishTo (h : Inv nobody O s) (hC : s.chans client = some C)
    (hnode : C.node = some .waitingForPort) (hP : s.ports p = some P)
    (hO : s.answer env P client ≠ 0 → O client) :
    wp (publishTo env p client)
      (fun r t => Inv nobody O t ∧ r = s.answer env P client ∧ PublishedTo s t p P client)
      (fun e _ => e = .assertFailed .waitingInList ∧ s.answer env P client = 0 ∧
        ¬ s.attachable env P client) s := by
  have hc := h.chan hC
  obtain ⟨hwait, -⟩ := hc.waits hnode
  have hpos : 0 < C.handle.refcnt := (hc.held (Or.inl hwait)).resolve_left id
  have hhandle : ObjRef.handle ∈ C.refobj := hc.handleRef.mpr hpos
  have htmp : ObjRef.tmp ∉ C.refobj := fun hm => hc.tmpRef.mp hm
  have hnref : ObjRef.node ∈ C.refobj := hc.nodeRef.mpr (by simp [hnode])
  have hpeer : C.peer = none := hc.alone (Or.inl hwait)
  have hqueue : C.msgQueue = none := (hc.queued (by simp [hwait])).mpr (Or.inl hwait)
  simp only [Registry.answer, Registry.attachable, hC, Option.elim_some] at hO ⊢
  -- the client out of the list
  have hinv : Inv (· = client) (fun d => O d ∨ d = client) _ := h.unlinkWaiting hC hnode
    (Or.inr ⟨hwait, Or.inr rfl⟩) (fun d => Or.inl) (fun d hd => by simp [hd, nobody])
    (R := (insert .tmp C.refobj).erase .node)
    ⟨by simp, by simp, by simp, by simp⟩ (fun hn => hn.elim) none (Or.inl hwait)
  simp only [publishTo, wp_bind, wp_modifyChan, hC, Option.elim_some, wp_chanAddRef,
    Registry.setChan_chans, if_true, htmp, if_false, Registry.setChan_setChan, wp_listDelete,
    hnode, Ipc.wp_chanDelRef]
  have hnref' : ObjRef.node ∈ insert ObjRef.tmp C.refobj := Finset.mem_insert_of_mem hnref
  have hlast : (insert ObjRef.tmp C.refobj).erase .node ≠ ∅ :=
    Finset.ne_empty_of_mem (Finset.mem_erase.mpr ⟨(by simp : ObjRef.tmp ≠ .node),
      Finset.mem_insert_self _ _⟩)
  simp only [hnref', not_true, if_false, hlast, Registry.setWaiting_setChan, Registry.setChan_setChan,
    Registry.setChan_waiting, wp_getChan, Registry.setChan_chans, if_true, Option.elim_some, wp_bind,
    wp_getPort, Registry.setChan_ports, Registry.setWaiting_ports, hP, trustyHypCheckGuestAccess,
    wp_modify, wp_pure, wp_ite]
  generalize hans : env.hypCheck client C.handle.guestId P.uuid = answer at hO ⊢
  have hlog := hinv.log (.hypCheck C.handle.guestId P.uuid answer)
  generalize hC₁ : ({ C with
      refobj := (insert .tmp C.refobj).erase .node, node := none, path := none } : Chan) = C₁
    at hlog ⊢
  have hCs : C₁.state = C.state ∧ C₁.handle = C.handle ∧ C₁.uuid = C.uuid ∧ C₁.flags = C.flags ∧
      C₁.msgQueue = none ∧ C₁.node = none ∧ C₁.path = none := by
    subst hC₁
    exact ⟨rfl, rfl, rfl, rfl, hqueue, rfl, rfl⟩
  obtain ⟨hst₁, hh₁, hu₁, hf₁, hq₁, hn₁, hp₁⟩ := hCs
  generalize hs₁ : (((s.setWaiting (s.waitingForPortChanList.erase client)).setChan client
    C₁).log (.hypCheck C.handle.guestId P.uuid answer)) = s₁ at hlog ⊢
  have hchan₁ : s₁.chans client = some C₁ := by simp [← hs₁]
  have hport₁ : s₁.ports p = some P := by simp [← hs₁, hP]
  have hothers₁ : ∀ d, d ≠ client → s₁.chans d = s.chans d := fun d hd => by simp [← hs₁, hd]
  have hwaiting₁ : s₁.waitingForPortChanList = s.waitingForPortChanList.erase client := by
    rw [← hs₁]
    rfl
  have hlist₁ : s₁.ipcPortList = s.ipcPortList := by
    rw [← hs₁]
    rfl
  split
  · rename_i hzero
    subst hzero
    refine wp_conseq (hlog.wp_portAttachClient hchan₁ hport₁ hq₁) fun r u hu => ?_
    rcases hu with ⟨hcan, rfl, rfl⟩ | ⟨hcan, hr, n, hn, rfl⟩
    · -- the client is attached
      have hatt : Attachable (· = client) s₁ P client C₁ :=
        ⟨rfl, Or.inl (hst₁.trans hwait), hn₁, hp₁, by rw [hf₁]; exact hc.client hwait,
          C.handle.guestId, s.trace, fun _ => by rw [hh₁], by rw [← hs₁]; rfl⟩
      have hinv' := hlog.attach hchan₁ hport₁ hatt hcan
      obtain ⟨hne, -, -⟩ := hlog.fresh_server hchan₁
      have hchan' : (s₁.attach env p P client C₁).chans client =
          some (attachedClient env P client s₁.nextChan C₁) := by
        rw [Registry.attach_chans, if_neg hne.symm, if_pos rfl]
      simp only [noError, ne_eq, not_true_eq_false, if_false, wp_bind]
      refine wp_conseq (hinv'.wp_delTmp hchan' (hh₁ ▸ hpos) (by simp [attachedClient, linkedClient])) fun _ t ht => ?_
      refine ⟨ht.1, rfl, ?_⟩
      rw [ht.2]
      refine ⟨⟨⟨P.pendingList ++ [s₁.nextChan], P.handle.refcnt + 1, ?_⟩, hlist₁⟩,
        fun d hd hlive => ?_, hwaiting₁⟩
      · rw [Registry.setChan_ports, Registry.attach_ports, if_pos rfl]
        rfl
      · have hdn : d ≠ s₁.nextChan := fun hdn => by
          have := hlog.lists.freshChan (c := d) (Nat.le_of_eq hdn.symm)
          rw [hothers₁ d hd] at this
          simp [this] at hlive
        rw [Registry.setChan_chans, if_neg hd, Registry.attach_chans, if_neg hdn, if_neg hd,
          hothers₁ d hd]
    · -- attaching fails, and so does shutting the client down
      simp only [show ¬ r = noError from hr, ne_eq, not_false_eq_true, if_true, wp_bind]
      rw [wp_chanShutdownLocked_orphan (s := { s₁ with nextChan := n }) hchan₁ (hst₁.trans hwait) hn₁]
      exact ⟨rfl, trivial, hu₁ ▸ hcan⟩
  · rename_i hdenied
    refine wp_conseq (hlog.wp_delTmp hchan₁ (hh₁ ▸ hpos) fun _ => hO hdenied) fun _ t ht => ?_
    refine ⟨ht.1, rfl, ?_⟩
    rw [ht.2]
    refine ⟨⟨⟨P.pendingList, P.handle.refcnt, hport₁⟩, hlist₁⟩, fun d hd _ => ?_, hwaiting₁⟩
    rw [Registry.setChan_chans, if_neg hd, hothers₁ d hd]

/-! ## The loop -/

theorem Registry.waitsFor_congr {c : ChanId} (h : t.chans c = s.chans c) (path : Path) :
    t.waitsFor path c = s.waitsFor path c := by
  unfold Registry.waitsFor
  rw [h]

theorem Registry.answer_congr {c : ChanId} (h : t.chans c = s.chans c) (env : Env) (P : Port) :
    t.answer env P c = s.answer env P c := by
  unfold Registry.answer
  rw [h]

theorem Registry.attachable_congr {c : ChanId} (h : t.chans c = s.chans c) (env : Env) (P : Port) :
    t.attachable env P c ↔ s.attachable env P c := by
  unfold Registry.attachable
  rw [h]

/-- The result is the answer for the last client, whatever the others were
told. -/
theorem Inv.wp_publishLoop : ∀ {l : List ChanId} {s : Registry} {P : Port} {ret : Int},
    Inv nobody O s → s.ports p = some P → l.Nodup → (∀ c ∈ l, c ∈ s.waitingForPortChanList) →
    (∀ c ∈ l, s.waitsFor P.path c → s.answer env P c ≠ 0 → O c) →
    wp (publishLoop env p ret l)
      (fun r t => Inv nobody O t ∧ PortGrows s t p P ∧
        r = ((l.filter (s.waitsFor P.path)).map (s.answer env P)).getLastD ret)
      (fun e _ => e = .assertFailed .waitingInList ∧ ∃ c ∈ l, s.waitsFor P.path c ∧
        s.answer env P c = 0 ∧ ¬ s.attachable env P c) s
  | [], s, P, ret, h, hP, _, _, _ =>
      ⟨h, ⟨⟨P.pendingList, P.handle.refcnt, hP⟩, rfl⟩, rfl⟩
  | client :: rest, s, P, ret, h, hP, hnodup, hwaiting, hO => by
      obtain ⟨hnot, hnodup⟩ := List.nodup_cons.mp hnodup
      obtain ⟨C, hC⟩ := Option.isSome_iff_exists.mp
        (h.lists.waitingLive (hwaiting client (List.mem_cons_self ..)))
      have hnode := (h.chan hC).inWaiting.mpr (hwaiting client (List.mem_cons_self ..))
      obtain ⟨-, hpath⟩ := (h.chan hC).waits hnode
      obtain ⟨path, hpath⟩ := Option.isSome_iff_exists.mp hpath
      have hmem : ∀ c ∈ rest, c ∈ s.waitingForPortChanList := fun c hc =>
        hwaiting c (List.mem_cons_of_mem _ hc)
      have hOrest : ∀ c ∈ rest, s.waitsFor P.path c → s.answer env P c ≠ 0 → O c := fun c hc =>
        hO c (List.mem_cons_of_mem _ hc)
      simp only [publishLoop, wp_bind, wp_getChan, hC, Option.elim_some, hpath, wp_getPort, hP,
        wp_ite]
      by_cases hmatch : path = P.path
      · have hfor : s.waitsFor P.path client = true := by
          simp [Registry.waitsFor, hC, hpath, hmatch]
        rw [if_pos hmatch, List.filter_cons_of_pos hfor, List.map_cons, List.getLastD_cons]
        refine wp_mono (h.wp_publishTo hC hnode hP (hO client (List.mem_cons_self ..) hfor))
          (fun r t ht => ?_)
          (fun _ _ he => ⟨he.1, client, List.mem_cons_self .., hfor, he.2⟩)
        obtain ⟨hinv, rfl, hport, hothers, hwaits⟩ := ht
        obtain ⟨⟨pending, refcnt, hP'⟩, -⟩ := id hport
        -- the clients still to come are as they were
        have hne : ∀ c ∈ rest, c ≠ client := fun c hc hcc => hnot (hcc ▸ hc)
        have hsame : ∀ c ∈ rest, t.chans c = s.chans c := fun c hc =>
          hothers c (hne c hc) (h.lists.waitingLive (hmem c hc))
        have hfilter : rest.filter (t.waitsFor P.path) = rest.filter (s.waitsFor P.path) :=
          List.filter_congr fun c hc => Registry.waitsFor_congr (hsame c hc) _
        have hmap : (rest.filter (s.waitsFor P.path)).map (t.answer env P) =
            (rest.filter (s.waitsFor P.path)).map (s.answer env P) :=
          List.map_congr_left fun c hc =>
            Registry.answer_congr (hsame c (List.mem_filter.mp hc).1) env P
        refine wp_mono (Inv.wp_publishLoop hinv hP' hnodup
          (fun c hc => hwaits ▸ (List.mem_erase_of_ne (hne c hc)).mpr (hmem c hc))
          (fun c hc hw ha => hOrest c hc (Registry.waitsFor_congr (hsame c hc) _ ▸ hw)
            (Registry.answer_congr (hsame c hc) env P ▸ ha)))
          (fun r u hu => ?_) (fun _ _ he => ?_)
        · obtain ⟨hinv', hport', hr⟩ := hu
          refine ⟨hinv', hport.trans hP' hport', hr.trans ?_⟩
          rw [← hmap, ← hfilter]
          rfl
        · obtain ⟨hassert, c, hc, hw, ha, hatt⟩ := he
          exact ⟨hassert, c, List.mem_cons_of_mem _ hc, Registry.waitsFor_congr (hsame c hc) _ ▸ hw,
            (Registry.answer_congr (hsame c hc) env P).symm.trans ha,
            fun hs => hatt ((Registry.attachable_congr (hsame c hc) env P).mpr hs)⟩
      · have hfor : ¬ s.waitsFor P.path client = true := by
          simp [Registry.waitsFor, hC, hpath, hmatch]
        rw [if_neg hmatch, List.filter_cons_of_neg hfor]
        exact wp_mono (Inv.wp_publishLoop h hP hnodup hmem hOrest) (fun _ _ hr => hr)
          fun _ _ he => he.imp_right fun he => he.imp fun c hc =>
            ⟨List.mem_cons_of_mem _ hc.1, hc.2⟩

/-! ## `ipc_port_publish` -/

/-- What `port_find_locked` finds. -/
def Registry.findPort (s : Registry) (path : Path) : Option PortId :=
  s.ipcPortList.find? fun p => (s.ports p).any fun P => path = P.path

theorem wp_portFind {Q : Option PortId → Registry → Prop} (path : Path) :
    ∀ {l : List PortId}, (∀ p ∈ l, (s.ports p).isSome) →
      (wp (portFind path l) Q E s ↔
        Q (l.find? fun p => (s.ports p).any fun P => path = P.path) s)
  | [], _ => Iff.rfl
  | p :: rest, hlive => by
      obtain ⟨P, hP⟩ := Option.isSome_iff_exists.mp (hlive p (List.mem_cons_self ..))
      have ih := wp_portFind (Q := Q) path fun q hq => hlive q (List.mem_cons_of_mem _ hq)
      simp only [portFind, wp_bind, wp_getPort, hP, Option.elim_some, wp_ite, wp_pure]
      by_cases hpath : path = P.path
      · rw [if_pos hpath, List.find?_cons_of_pos (by simp [hP, hpath])]
      · rw [if_neg hpath, List.find?_cons_of_neg (by simp [hP, hpath]), ih]

theorem ListInv.wp_portFindLocked (h : ListInv s) {Q : Option PortId → Registry → Prop}
    (path : Path) : wp (portFindLocked path) Q E s ↔ Q (s.findPort path) s := by
  simp only [portFindLocked, wp_bind, wp_get]
  exact wp_portFind path fun p hp => by
    obtain ⟨P, hP, -⟩ := (h.listed p).mp hp
    simp [hP]

/-- The port as `ipc_port_publish` lists it. -/
def listedPort (P : Port) : Port :=
  { P with
    state := .listening, node := true, handle := { P.handle with refcnt := P.handle.refcnt + 1 } }

/-- A port whose path is not taken is not listed. -/
theorem Inv.not_listed {T : ChanId → Prop} (h : Inv T O s) (hP : s.ports p = some P)
    (hfind : s.findPort P.path = none) : p ∉ s.ipcPortList ∧ P.node = false := by
  have hnot : p ∉ s.ipcPortList := fun hmem => by
    have := List.find?_eq_none.mp hfind p hmem
    simp [hP] at this
  refine ⟨hnot, Bool.eq_false_iff.mpr fun hn => hnot ((h.lists.listed p).mpr ⟨P, hP, hn⟩)⟩

theorem Inv.list {T : ChanId → Prop} (h : Inv T O s) (hP : s.ports p = some P)
    (hfind : s.findPort P.path = none) :
    Inv T O ((s.setListed (s.ipcPortList ++ [p])).setPort p (listedPort P)) := by
  obtain ⟨hnot, hnode⟩ := h.not_listed hP hfind
  refine h.setPort hP rfl ⟨?_, fun q => ?_⟩ ?_
  · exact List.nodup_append.mpr ⟨h.lists.listedNodup, List.nodup_singleton _,
      fun a ha b hb hab => hnot (by rw [← List.mem_singleton.mp hb, ← hab]; exact ha)⟩
  · by_cases hqp : q = p <;> simp [hqp, listedPort]
  · have hrefs := h.lists.refcnt hP
    simp only [Port.ownRefs, hnode, listedPort, if_true, Bool.false_eq_true, if_false] at hrefs ⊢
    omega

/-- The clients that publishing the port works on. -/
def Registry.clientsOf (s : Registry) (P : Port) : List ChanId :=
  s.waitingForPortChanList.filter (s.waitsFor P.path)

/-- If the path is taken nothing happens.  Otherwise the port is listed in
whatever way the loop ends, and the result is the last answer of the hook. -/
theorem Inv.wp_ipcPortPublish (h : Inv nobody O s) (hP : s.ports p = some P)
    (hO : s.findPort P.path = none → ∀ c ∈ s.clientsOf P, s.answer env P c ≠ 0 → O c) :
    wp (ipcPortPublish env p)
      (fun r t => Inv nobody O t ∧
        match s.findPort P.path with
        | some _ => r = errAlreadyExists ∧ t = s
        | none => r = ((s.clientsOf P).map (s.answer env P)).getLastD noError ∧
            t.ipcPortList = s.ipcPortList ++ [p] ∧
            ∃ pending refcnt, t.ports p = some { P with
              state := .listening, node := true, pendingList := pending
              handle := { P.handle with refcnt := refcnt } })
      (fun e _ => e = .assertFailed .waitingInList ∧ s.findPort P.path = none ∧
        ∃ c ∈ s.clientsOf P, s.answer env P c = 0 ∧
          ¬ s.attachable env { P with state := .listening } c) s := by
  simp only [ipcPortPublish, wp_bind, wp_getPort, hP, Option.elim_some]
  rw [h.lists.wp_portFindLocked]
  cases hfind : s.findPort P.path with
  | some q => exact ⟨h, rfl, rfl⟩
  | none =>
      have hinv := h.list hP hfind
      simp only [wp_bind, wp_modifyPort, hP, Option.elim_some, wp_modify, handleIncref,
        Registry.setPort_ports, Registry.setListed_setPort, Registry.setListed_ports, if_true,
        Registry.setPort_setPort, Registry.setPort_ipcPortList, wp_get]
      have hloop := @Inv.wp_publishLoop O p env _ _ (listedPort P) noError hinv
        (by simp) h.lists.waitingNodup (fun c hc => hc)
        (fun c hc hw ha => hO hfind c (List.mem_filter.mpr ⟨hc, hw⟩) ha)
      refine wp_mono hloop (fun r t ht => ?_) fun _ _ he => ?_
      · obtain ⟨hinv', ⟨⟨pending, refcnt, hport⟩, hlist⟩, hr⟩ := ht
        exact ⟨hinv', hr, hlist, pending, refcnt, hport⟩
      · obtain ⟨hassert, c, hc, hw, ha, hatt⟩ := he
        exact ⟨hassert, trivial, c, List.mem_filter.mpr ⟨hc, hw⟩, ha, hatt⟩

end

end TX2SecureUart.Ipc
