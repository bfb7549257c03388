/-
# `Ipc.PortInv` — the updates of a port, and closing one

The registry holds a reference to a port for being listed and one for each
pending connection; `Port.ownRefs` counts them.  Whoever works on a port holds
one more, so the port is there until the work is done.
-/
import TX2SecureUart.Ipc.Shutdown

namespace TX2SecureUart.Ipc

open Prog

section

variable {T O T' O' : ChanId → Prop} {E : Fault → Registry → Prop} {s : Registry} {c : ChanId}
  {C : Chan} {p : PortId} {P : Port}

/-! ## References to a port -/

theorem Port.ownRefs_nonneg (P : Port) : 0 ≤ P.ownRefs := by
  unfold Port.ownRefs
  split <;> omega

theorem Port.ownRefs_cons {rest : List ChanId} (hl : P.pendingList = c :: rest) :
    P.ownRefs = ({ P with pendingList := rest } : Port).ownRefs + 1 := by
  simp only [Port.ownRefs, hl, List.length_cons]
  omega

/-- What listing a port, or taking it off the list, does to the list. -/
def ListedAs (s : Registry) (p : PortId) (l : List PortId) (listed : Bool) : Prop :=
  l.Nodup ∧ ∀ q, q ∈ l ↔ if q = p then listed = true else q ∈ s.ipcPortList

theorem ListInv.listedAs (h : ListInv s) (hP : s.ports p = some P) :
    ListedAs s p s.ipcPortList P.node := by
  refine ⟨h.listedNodup, fun q => ?_⟩
  by_cases hqp : q = p
  · subst hqp
    simp [h.listed, hP]
  · simp [hqp]

theorem ListInv.setPort (h : ListInv s) {N : Port} {l : List PortId} (hP : s.ports p = some P)
    (hpending : N.pendingList.Sublist P.pendingList) (hlisted : ListedAs s p l N.node)
    (hrefs : 1 ≤ N.handle.refcnt ∧ N.ownRefs ≤ N.handle.refcnt) :
    ListInv ((s.setListed l).setPort p N) := by
  have hsplit : ∀ {q Q}, (s.setPort p N).ports q = some Q →
      (q = p ∧ Q = N) ∨ (q ≠ p ∧ s.ports q = some Q) := by
    intro q Q hQ
    by_cases hqp : q = p
    · exact Or.inl ⟨hqp, by simpa [hqp] using hQ.symm⟩
    · exact Or.inr ⟨hqp, by simpa [hqp] using hQ⟩
  refine { h with listed := fun q => ?_, listedNodup := hlisted.1, pendingLive := ?_,
                  pendingNodup := ?_, refcnt := ?_, freshPort := fun {q} hq => ?_ }
  · refine (hlisted.2 q).trans ?_
    by_cases hqp : q = p
    · simp [hqp]
    · simp [hqp, h.listed]
  · intro q Q d hQ hd
    rcases hsplit hQ with ⟨rfl, rfl⟩ | ⟨-, hQ⟩
    · exact h.pendingLive hP (hpending.subset hd)
    · exact h.pendingLive hQ hd
  · intro q Q hQ
    rcases hsplit hQ with ⟨rfl, rfl⟩ | ⟨-, hQ⟩
    · exact (h.pendingNodup hP).sublist hpending
    · exact h.pendingNodup hQ
  · intro q Q hQ
    rcases hsplit hQ with ⟨rfl, rfl⟩ | ⟨-, hQ⟩
    · exact hrefs
    · exact h.refcnt hQ
  · have hqp : q ≠ p := fun hqp => by
      have := h.freshPort (p := q) hq
      rw [hqp, hP] at this
      cases this
    simpa [hqp] using h.freshPort (p := q) hq

/-- The pending list of a port stays as it is. -/
theorem Inv.setPort (h : Inv T O s) {N : Port} {l : List PortId} (hP : s.ports p = some P)
    (hpending : N.pendingList = P.pendingList) (hlisted : ListedAs s p l N.node)
    (hrefs : 1 ≤ N.handle.refcnt ∧ N.ownRefs ≤ N.handle.refcnt) :
    Inv T O ((s.setListed l).setPort p N) := by
  refine h.sameChans rfl rfl (fun d q => ?_) ⟨[], (List.append_nil _).symm⟩
    (h.lists.setPort hP (hpending ▸ List.Sublist.refl _) hlisted hrefs)
  by_cases hqp : q = p
  · subst hqp
    simp [hP, hpending]
  · simp [hqp]

theorem Inv.freePort (h : Inv T O s) (hP : s.ports p = some P)
    (hpending : P.pendingList = []) (hnode : P.node = false) : Inv T O (s.freePort p) := by
  have hne : ∀ {q Q}, (s.freePort p).ports q = some Q → q ≠ p ∧ s.ports q = some Q := by
    intro q Q hQ
    by_cases hqp : q = p
    · simp [hqp] at hQ
    · exact ⟨hqp, by simpa [hqp] using hQ⟩
  refine h.sameChans rfl rfl (fun d q => ?_) ⟨[], (List.append_nil _).symm⟩
    { h.lists with
      listed := fun q => (h.lists.listed q).trans ?_
      pendingLive := fun hQ => h.lists.pendingLive (hne hQ).2
      pendingNodup := fun hQ => h.lists.pendingNodup (hne hQ).2
      refcnt := fun hQ => h.lists.refcnt (hne hQ).2
      freshPort := fun {q} hq => ?_ }
  · by_cases hqp : q = p
    · subst hqp
      simp [hP, hpending]
    · simp [hqp]
  · by_cases hqp : q = p
    · subst hqp
      simp [hP, hnode]
    · simp [hqp]
  · rw [Registry.freePort_ports]
    split
    · rfl
    · exact h.lists.freshPort hq

/-- A reference to a port from outside is dropped: `ownRefs < refcnt` before,
and the port goes with the last one. -/
theorem Inv.wp_handleDecref_port (h : Inv T O s) (hP : s.ports p = some P)
    (hheld : P.ownRefs < P.handle.refcnt) :
    wp (handleDecref (.port p)) (fun _ t => Inv T O t ∧ (P.handle.refcnt ≠ 1 →
      t = s.setPort p { P with handle := { P.handle with refcnt := P.handle.refcnt - 1 } })) E s := by
  rw [Ipc.wp_handleDecref_port]
  simp only [hP, Option.elim_some]
  have hpos := (h.lists.refcnt hP).1
  by_cases hlast : P.handle.refcnt = 1
  · simp only [hlast, if_true, Registry.freePort_setPort]
    have hnone : P.pendingList = [] ∧ P.node = false := by
      unfold Port.ownRefs at hheld
      cases hn : P.node <;> cases hl : P.pendingList <;> simp [hn, hl] at hheld ⊢ <;> omega
    exact ⟨h.freePort hP hnone.1 hnone.2, fun hne => absurd rfl hne⟩
  · simp only [hlast, if_false]
    have hlisted := h.lists.listedAs hP
    refine ⟨h.setPort hP rfl hlisted ⟨?_, ?_⟩, fun _ => trivial⟩
    · show 1 ≤ P.handle.refcnt - 1
      omega
    · show P.ownRefs ≤ P.handle.refcnt - 1
      omega

/-! ## `port_shutdown` -/

/-- A server leaves the pending list of its port. -/
theorem Inv.unlinkPending (h : Inv T O s) (hP : s.ports p = some P) (hC : s.chans c = some C)
    (hnode : C.node = some (.pending p)) (hT : ∀ d, d ≠ c → (T' d ↔ T d))
    {R : Finset ObjRef} (hrefs : LeavesList C (T' c) R) (hkept : C.peer.isSome → T' c) :
    Inv T' O ((s.setPort p { P with pendingList := P.pendingList.erase c }).setChan c
      { C with node := none, refobj := R }) := by
  have hc := h.chan hC
  have hst := hc.pends p hnode
  have hmem : c ∉ P.pendingList.erase c := (h.lists.pendingNodup hP).not_mem_erase
  have hothers : ∀ q, q ≠ p → ∀ Q, s.ports q = some Q → c ∉ Q.pendingList := by
    intro q hqp Q hQ hd
    have := (hc.inPending q).mpr ⟨Q, hQ, hd⟩
    rw [hnode] at this
    exact hqp (by simpa using this.symm)
  have hrefcnt := h.lists.refcnt hP
  have hlisted := h.lists.listedAs hP
  have hlists := h.lists.setPort hP (N := { P with pendingList := P.pendingList.erase c })
    List.erase_sublist hlisted ⟨hrefcnt.1, by
      have := List.length_erase_le (a := c) (l := P.pendingList)
      unfold Port.ownRefs at hrefcnt ⊢
      simp only
      omega⟩
  refine h.update hC (N := { C with node := none, refobj := R })
    (fun d => Registry.setChan_chans) ⟨rfl, hrefs.peer, rfl, Or.inl rfl, fun _ => rfl⟩ ?_ hT
    (fun _ _ => id) (fun _ _ => Iff.rfl) (fun d hd q => ?_) ⟨[], (List.append_nil _).symm⟩
    (hlists.setChan hC _)
  · exact { hc with
      handleRef := hrefs.handle.trans hc.handleRef
      nodeRef := ⟨fun hm => absurd hm hrefs.node, nofun⟩
      tmpRef := hrefs.tmp
      inWaiting := ⟨nofun, fun hm => by
        have := hc.inWaiting.mpr hm
        simp [hnode] at this⟩
      inPending := fun q => ⟨nofun, fun ⟨Q, hQ, hd⟩ => by
        by_cases hqp : q = p
        · subst hqp
          obtain rfl : { P with pendingList := P.pendingList.erase c } = Q := by simpa using hQ
          exact absurd hd hmem
        · exact absurd hd (hothers q hqp Q (by simpa [hqp] using hQ))⟩
      waits := nofun
      linked := fun hs => by rcases hst with hst | hst <;> simp [hst] at hs
      pends := nofun
      anchored := fun hp => Or.inr (Or.inr (hrefs.tmp.mpr (hkept hp)))
      held := fun hs => by rcases hst with hst | hst <;> simp [hst] at hs }
  · by_cases hqp : q = p
    · subst hqp
      simp [hP, List.mem_erase_of_ne hd]
    · simp [hqp]

/-- One pass for each pending connection; the port outlives them. -/
theorem Inv.wp_tearDownPending : ∀ {l : List ChanId} {s : Registry} {P : Port}, Inv nobody O s →
    s.ports p = some P → P.pendingList = l → P.ownRefs < P.handle.refcnt →
    wp (tearDownPending p l) (fun _ t => Inv nobody O t) (fun _ _ => False) s
  | [], s, P, h, _, _, _ => h
  | server :: rest, s, P, h, hP, hl, hheld => by
      have hlive := h.lists.pendingLive hP (c := server) (by simp [hl])
      obtain ⟨S, hS⟩ := Option.isSome_iff_exists.mp hlive
      have hs := h.chan hS
      have hnode : S.node = some (.pending p) := (hs.inPending p).mpr ⟨P, hP, by simp [hl]⟩
      have hst : S.state ≠ .waitingForPort := fun hw => by
        have := hs.pends p hnode
        simp [hw] at this
      simp only [tearDownPending, wp_bind]
      refine wp_mono (h.wp_chanShutdownLocked hS) (fun _ t ht => ?_) fun _ _ he => hst he.2.1
      obtain ⟨hinv, ⟨S', hS', hpeer, -, -, hnode'⟩, -, hports, -⟩ := ht
      have hP' : t.ports p = some P := hports ▸ hP
      have hn' : S'.node = some (.pending p) := (hnode' hst).trans hnode
      have hs' := hinv.chan hS'
      have hr : ObjRef.node ∈ S'.refobj := hs'.nodeRef.mpr (by simp [hn'])
      have hunlink := hinv.unlinkPending hP' hS' hn' (fun _ _ => Iff.rfl)
        (R := S'.refobj.erase .node)
        ⟨by simp, by simp, by simp, by simpa using hs'.tmpRef⟩ (by simp [hpeer])
      simp only [wp_bind, wp_listDelete, hS', Option.elim_some, hn', hP']
      refine wp_conseq (Inv.wp_chanDelRef (T := nobody) (O := O) (C := { S' with node := none })
        (by simp) hr (by rw [Registry.setChan_setChan]; exact hunlink)) fun _ u hu => ?_
      have hPu : u.ports p = some { P with pendingList := rest } := by
        rcases hu.2 with rfl | rfl <;> simp [hl]
      have hown := Port.ownRefs_cons hl
      have hnonneg := Port.ownRefs_nonneg { P with pendingList := rest }
      rw [wp_bind]
      refine wp_conseq (hu.1.wp_handleDecref_port hPu (show _ < P.handle.refcnt by omega))
        fun _ v hv => ?_
      have hPv := hv.2 (show P.handle.refcnt ≠ 1 by omega)
      refine Inv.wp_tearDownPending hv.1 (P := { P with
        pendingList := rest, handle := { P.handle with refcnt := P.handle.refcnt - 1 } })
        (by simp [hPv]) rfl ?_
      show ({ P with pendingList := rest } : Port).ownRefs < P.handle.refcnt - 1
      omega

/-- Closing a port: it is no longer listed and has no pending connection. -/
theorem Inv.wp_portShutdown (h : Inv nobody O s) (hP : s.ports p = some P)
    (hheld : P.ownRefs < P.handle.refcnt) :
    wp (portShutdown p) (fun _ t => Inv nobody O t) (fun _ _ => False) s := by
  have hlisted := h.lists.listedAs hP
  have hrefs := h.lists.refcnt hP
  simp only [portShutdown, wp_bind, wp_modifyPort, hP, Option.elim_some, wp_getPort,
    Registry.setPort_ports, if_true, wp_ite, wp_modify]
  cases hn : P.node with
  | false =>
      rw [hn] at hlisted
      simp only [Bool.false_eq_true, if_false]
      refine Inv.wp_tearDownPending (P := { P with state := .closing, node := false }) ?_
        (by simp) rfl ?_
      · exact h.setPort hP rfl hlisted (by simpa [Port.ownRefs, hn] using hrefs)
      · simpa [Port.ownRefs, hn] using hheld
  | true =>
      have hunlisted : ListedAs s p (s.ipcPortList.erase p) false := by
        refine ⟨hlisted.1.erase p, fun q => ?_⟩
        by_cases hqp : q = p
        · simp [hqp, hlisted.1.not_mem_erase]
        · simp [hqp, List.mem_erase_of_ne hqp]
      have hinv := h.setPort hP (N := { P with state := .closing, node := false }) rfl hunlisted
        ⟨hrefs.1, by
          simp only [Port.ownRefs, hn, if_true, Bool.false_eq_true, if_false] at hrefs ⊢
          omega⟩
      simp only [Port.ownRefs, hn, if_true] at hheld
      simp only [if_true, Registry.setListed_setPort, Registry.setPort_setPort,
        Registry.setPort_ipcPortList, Registry.setPort_ports, Option.elim_some]
      refine wp_conseq (hinv.wp_handleDecref_port (p := p)
        (P := { P with state := .closing, node := false }) (by simp) ?_) fun _ t ht => ?_
      · simp only [Port.ownRefs, Bool.false_eq_true, if_false]
        omega
      · have hPt : t.ports p = some { P with
            state := .closing, node := false
            handle := { P.handle with refcnt := P.handle.refcnt - 1 } } := by
          rw [ht.2 (show P.handle.refcnt ≠ 1 by omega)]
          simp
        simp only [wp_bind, wp_getPort, hPt, Option.elim_some]
        refine Inv.wp_tearDownPending ht.1 hPt rfl ?_
        simp only [Port.ownRefs, Bool.false_eq_true, if_false]
        omega

end

end TX2SecureUart.Ipc
