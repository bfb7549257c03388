/-
# `Ipc.Inv` — what holds of the registry between and within operations

`ChanInv` is about one channel: its references, the list it is in, its state,
and, for a connected client, how it got there.  `PeerInv` is about two
channels that hold each other, `ListInv` about the ports and the lists.

An operation keeps some channels alive through its local reference, and a
client that was refused by the access hook is left in the state
`waitingForPort` without being in the list.  `T` says which channels have a
local reference, `O` which ones were orphaned in this way.

The second half shows what the updates that the operations are made of do to
`Inv`.
-/
import TX2SecureUart.Ipc.Port

namespace TX2SecureUart.Ipc

open Prog

/-! ## The invariant -/

/-- The hook let guest `g` in, and directly afterwards client `c` was attached
to server `d` by a listening port that allows the client's world. -/
def Granted (trace : List Event) (c d : ChanId) (uuid : Option Uuid) (g : UInt32) : Prop :=
  ∃ pre post P, trace = pre ++ .hypCheck g P.uuid 0 :: .attach c d uuid P :: post ∧
    P.state = .listening ∧ checkAccess P uuid = noError

structure ChanInv (T O : ChanId → Prop) (s : Registry) (c : ChanId) (C : Chan) : Prop where
  refcnt_nonneg : 0 ≤ C.handle.refcnt
  handleRef : .handle ∈ C.refobj ↔ 0 < C.handle.refcnt
  nodeRef : .node ∈ C.refobj ↔ C.node.isSome
  tmpRef : .tmp ∈ C.refobj ↔ T c
  inWaiting : C.node = some .waitingForPort ↔ c ∈ s.waitingForPortChanList
  inPending : ∀ p, C.node = some (.pending p) ↔ ∃ P, s.ports p = some P ∧ c ∈ P.pendingList
  /-- a channel in the waiting list waits for its path -/
  waits : C.node = some .waitingForPort → C.state = .waitingForPort ∧ C.path.isSome
  linked : C.state = .waitingForPort → C.node = some .waitingForPort ∨ O c
  client : C.state = .waitingForPort → C.flags ≠ ipcChanFlagServer
  /-- a pending channel is a server's -/
  pends : ∀ p, C.node = some (.pending p) → C.state = .accepting ∨ C.state = .disconnecting
  alone : C.state = .waitingForPort ∨ C.state = .invalid → C.peer = none
  paired : C.state = .accepting ∨ C.state = .connecting ∨ C.state = .connected → C.peer.isSome
  /-- a channel with a peer is kept alive by something else than the peer -/
  anchored : C.peer.isSome → .handle ∈ C.refobj ∨ .node ∈ C.refobj ∨ .tmp ∈ C.refobj
  queue : C.peer.isSome → C.msgQueue.isSome
  /-- a channel has no queue until it is attached -/
  queued : C.state ≠ .invalid → (C.msgQueue = none ↔ C.state = .waitingForPort ∨ C.path.isSome)
  /-- a client's handle exists as long as the client is open -/
  held : C.state = .waitingForPort ∨ C.state = .connecting ∨ C.state = .connected →
    T c ∨ 0 < C.handle.refcnt
  valid : 0 < C.handle.refcnt → C.state ≠ .invalid
  /-- the handle of a server is made when its client is accepted -/
  unaccepted : C.state = .accepting → C.handle.refcnt = 0
  granted : C.state = .connecting ∨ C.state = .connected → C.flags ≠ ipcChanFlagServer →
    ∀ d, C.peer = some d →
      ∃ g, (0 < C.handle.refcnt → C.handle.guestId = g) ∧ Granted s.trace c d C.uuid g

/-- What `x`, whose peer is `y`, knows about `y`. -/
structure Compat (x : ChanId) (X Y : Chan) : Prop where
  back : Y.peer = none ∨ Y.peer = some x
  accepting : X.state = .accepting → Y.state = .connecting ∧ Y.peer = some x
  connecting : X.state = .connecting → Y.state = .accepting ∧ Y.peer = some x
  connected : X.state = .connected → Y.state = .connected ∧ Y.peer = some x ∧
    X.handle.guestId = Y.handle.guestId
  disconnecting : X.state = .disconnecting → Y.state = .disconnecting
  /-- one of the two is the server -/
  roles : X.flags = ipcChanFlagServer ↔ Y.flags ≠ ipcChanFlagServer
  server : X.state = .accepting → X.flags = ipcChanFlagServer

structure PeerInv (s : Registry) : Prop where
  peer : ∀ {x X y}, s.chans x = some X → X.peer = some y →
    ∃ Y, s.chans y = some Y ∧ .peer x ∈ Y.refobj ∧ Compat x X Y
  peerRef : ∀ {y Y x}, s.chans y = some Y → .peer x ∈ Y.refobj →
    ∃ X, s.chans x = some X ∧ X.peer = some y

/-- The references to a port that the registry itself holds. -/
def Port.ownRefs (P : Port) : Int := P.pendingList.length + if P.node then 1 else 0

structure ListInv (s : Registry) : Prop where
  waitingLive : ∀ {c}, c ∈ s.waitingForPortChanList → (s.chans c).isSome
  waitingNodup : s.waitingForPortChanList.Nodup
  listed : ∀ p, p ∈ s.ipcPortList ↔ ∃ P, s.ports p = some P ∧ P.node = true
  listedNodup : s.ipcPortList.Nodup
  pendingLive : ∀ {p P c}, s.ports p = some P → c ∈ P.pendingList → (s.chans c).isSome
  pendingNodup : ∀ {p P}, s.ports p = some P → P.pendingList.Nodup
  refcnt : ∀ {p P}, s.ports p = some P → 1 ≤ P.handle.refcnt ∧ P.ownRefs ≤ P.handle.refcnt
  freshChan : ∀ {c}, s.nextChan ≤ c → s.chans c = none
  freshPort : ∀ {p}, s.nextPort ≤ p → s.ports p = none

structure Inv (T O : ChanId → Prop) (s : Registry) : Prop where
  chan : ∀ {c C}, s.chans c = some C → ChanInv T O s c C
  peers : PeerInv s
  lists : ListInv s
  /-- a local reference is a reference to something -/
  tmpLive : ∀ {c}, T c → (s.chans c).isSome

/-- No channel has the property: between operations, none has a local
reference. -/
def nobody : ChanId → Prop := fun _ => False

theorem inv_empty (O : ChanId → Prop) : Inv nobody O .empty where
  chan h := nomatch h
  peers := ⟨(fun h => nomatch h), (fun h => nomatch h)⟩
  lists :=
    { waitingLive := fun h => nomatch h
      waitingNodup := List.nodup_nil
      listed := fun _ => ⟨(fun h => nomatch h), (fun ⟨_, h, _⟩ => nomatch h)⟩
      listedNodup := List.nodup_nil
      pendingLive := fun h => nomatch h
      pendingNodup := fun h => nomatch h
      refcnt := fun h => nomatch h
      freshChan := fun _ => rfl
      freshPort := fun _ => rfl }
  tmpLive h := h.elim

/-! ## Consequences -/

section

variable {T O T' O' : ChanId → Prop} {s s' : Registry} {c d : ChanId} {C D : Chan}

theorem Granted.append {trace : List Event} {uuid : Option Uuid} {g : UInt32}
    (h : Granted trace c d uuid g) (es : List Event) : Granted (trace ++ es) c d uuid g := by
  obtain ⟨pre, post, P, rfl, hstate, haccess⟩ := h
  exact ⟨pre, post ++ es, P, by simp, hstate, haccess⟩

/-- Nothing is anybody's peer while it waits or is new. -/
theorem Inv.no_peer_of (h : Inv T O s) (hC : s.chans c = some C)
    (hst : C.state = .waitingForPort ∨ C.state = .invalid) :
    ∀ {x X}, s.chans x = some X → X.peer ≠ some c := by
  intro x X hX hpeer
  obtain ⟨Y, hY, -, hcompat⟩ := h.peers.peer hX hpeer
  obtain rfl : C = Y := Option.some.inj (hC.symm.trans hY)
  have halone := (h.chan hX).alone
  have hx : X.peer.isSome := by simp [hpeer]
  cases hs : X.state with
  | accepting => simp [(hcompat.accepting hs).1] at hst
  | connecting => simp [(hcompat.connecting hs).1] at hst
  | connected => simp [(hcompat.connected hs).1] at hst
  | disconnecting => simp [hcompat.disconnecting hs] at hst
  | waitingForPort => simp [halone (Or.inl hs)] at hx
  | invalid => simp [halone (Or.inr hs)] at hx

/-- A channel that an update does not touch. -/
theorem ChanInv.congr (h : ChanInv T O s c C) (hT : T' c ↔ T c) (hO : O c → O' c)
    (hw : c ∈ s'.waitingForPortChanList ↔ c ∈ s.waitingForPortChanList)
    (hp : ∀ p, (∃ P, s'.ports p = some P ∧ c ∈ P.pendingList) ↔
      ∃ P, s.ports p = some P ∧ c ∈ P.pendingList)
    (htrace : ∃ es, s'.trace = s.trace ++ es) : ChanInv T' O' s' c C :=
  { h with
    tmpRef := h.tmpRef.trans hT.symm
    inWaiting := h.inWaiting.trans hw.symm
    inPending := fun p => (h.inPending p).trans (hp p).symm
    linked := fun hs => (h.linked hs).imp_right hO
    held := fun hs => (h.held hs).imp_left hT.mpr
    granted := fun hs hf d hd => by
      obtain ⟨g, hg, hgr⟩ := h.granted hs hf d hd
      obtain ⟨es, hes⟩ := htrace
      exact ⟨g, hg, hes ▸ hgr.append es⟩ }

/-! ## Updates of one channel -/

/-- Nothing that other channels know about `c` changes. -/
structure SamePeers (C C' : Chan) : Prop where
  peer : C'.peer = C.peer
  refs : ∀ x, .peer x ∈ C'.refobj ↔ .peer x ∈ C.refobj
  flags : C'.flags = C.flags
  state : C'.state = C.state ∨ C.state = .waitingForPort ∨ C.state = .invalid
  guest : C.state = .connected → C'.handle.guestId = C.handle.guestId

theorem Inv.peers_update (h : Inv T O s) {C' : Chan} (hC : s.chans c = some C)
    (hchans : ∀ d, s'.chans d = if d = c then some C' else s.chans d) (hsame : SamePeers C C') :
    PeerInv s' := by
  have hself : s'.chans c = some C' := by rw [hchans, if_pos rfl]
  have hother : ∀ {d}, d ≠ c → s'.chans d = s.chans d := fun hd => by rw [hchans, if_neg hd]
  -- a state that changes is one of a channel without a peer on either side
  have hkept : (∃ x X, s.chans x = some X ∧ X.peer = some c) ∨ C.peer.isSome →
      C'.state = C.state := by
    intro hpeer
    refine hsame.state.resolve_right fun hst => ?_
    rcases hpeer with ⟨x, X, hX, hx⟩ | hpeer
    · exact h.no_peer_of hC hst hX hx
    · rw [(h.chan hC).alone hst] at hpeer
      cases hpeer
  constructor
  · intro x X y hX hy
    -- the old versions of `x` and `y`
    by_cases hxc : x = c
    · subst hxc
      obtain rfl : C' = X := Option.some.inj (hself.symm.trans hX)
      rw [hsame.peer] at hy
      have hstate := hkept (Or.inr (by simp [hy]))
      obtain ⟨Y, hY, href, hcompat⟩ := h.peers.peer hC hy
      by_cases hyc : y = x
      · subst hyc
        obtain rfl : C = Y := Option.some.inj (hC.symm.trans hY)
        have := hcompat.roles
        tauto
      · refine ⟨Y, by rw [hother hyc, hY], href, ?_⟩
        exact ⟨hcompat.back, by rw [hstate]; exact hcompat.accepting,
          by rw [hstate]; exact hcompat.connecting,
          fun hs => by
            rw [hstate] at hs
            rw [hsame.guest hs]
            exact hcompat.connected hs,
          by rw [hstate]; exact hcompat.disconnecting, by rw [hsame.flags]; exact hcompat.roles,
          by rw [hstate, hsame.flags]; exact hcompat.server⟩
    · rw [hother hxc] at hX
      obtain ⟨Y, hY, href, hcompat⟩ := h.peers.peer hX hy
      by_cases hyc : y = c
      · subst hyc
        obtain rfl : C = Y := Option.some.inj (hC.symm.trans hY)
        have hstate := hkept (Or.inl ⟨x, X, hX, hy⟩)
        refine ⟨C', hself, (hsame.refs x).mpr href, ?_⟩
        exact ⟨by rw [hsame.peer]; exact hcompat.back,
          by rw [hstate, hsame.peer]; exact hcompat.accepting,
          by rw [hstate, hsame.peer]; exact hcompat.connecting,
          fun hs => by
            have hc := hcompat.connected hs
            rw [hstate, hsame.peer, hsame.guest hc.1]
            exact hc,
          by rw [hstate]; exact hcompat.disconnecting, by rw [hsame.flags]; exact hcompat.roles,
          hcompat.server⟩
      · exact ⟨Y, by rw [hother hyc, hY], href, hcompat⟩
  · intro y Y x hY hx
    have hold : ∃ X, s.chans x = some X ∧ X.peer = some y := by
      by_cases hyc : y = c
      · subst hyc
        obtain rfl : C' = Y := Option.some.inj (hself.symm.trans hY)
        exact h.peers.peerRef hC ((hsame.refs x).mp hx)
      · rw [hother hyc] at hY
        exact h.peers.peerRef hY hx
    obtain ⟨X, hX, hpeer⟩ := hold
    by_cases hxc : x = c
    · subst hxc
      obtain rfl : C = X := Option.some.inj (hC.symm.trans hX)
      exact ⟨C', hself, hsame.peer.trans hpeer⟩
    · exact ⟨X, by rw [hother hxc, hX], hpeer⟩

/-- The lists and ports stay as they are; no channel disappears. -/
theorem ListInv.keep (h : ListInv s) (hlive : ∀ d, (s.chans d).isSome → (s'.chans d).isSome)
    (hfresh : ∀ {d}, s'.nextChan ≤ d → s'.chans d = none) (hports : s'.ports = s.ports)
    (hnext : s'.nextPort = s.nextPort) (hwaiting : s'.waitingForPortChanList =
      s.waitingForPortChanList) (hlist : s'.ipcPortList = s.ipcPortList) : ListInv s' where
  waitingLive hc := hlive _ (h.waitingLive (hwaiting ▸ hc))
  waitingNodup := hwaiting ▸ h.waitingNodup
  listed p := by rw [hlist, hports]; exact h.listed p
  listedNodup := hlist ▸ h.listedNodup
  pendingLive hP hc := hlive _ (h.pendingLive (hports ▸ hP) hc)
  pendingNodup hP := h.pendingNodup (hports ▸ hP)
  refcnt hP := h.refcnt (hports ▸ hP)
  freshChan := hfresh
  freshPort hp := by rw [hports]; exact h.freshPort (hnext ▸ hp)

theorem ListInv.setChan (h : ListInv s) (hC : s.chans c = some C) (C' : Chan) :
    ListInv (s.setChan c C') := by
  refine h.keep (fun d hd => ?_) (fun {d} hd => ?_) rfl rfl rfl rfl
  · rw [Registry.setChan_chans]
    split
    · rfl
    · exact hd
  · have hdc : d ≠ c := fun hdc => by
      have := h.freshChan hd
      rw [hdc, hC] at this
      cases this
    rw [Registry.setChan_chans, if_neg hdc]
    exact h.freshChan hd

theorem Inv.update (h : Inv T O s) {N : Chan} (hC : s.chans c = some C)
    (hchans : ∀ d, s'.chans d = if d = c then some N else s.chans d) (hsame : SamePeers C N)
    (hN : ChanInv T' O' s' c N) (hT : ∀ d, d ≠ c → (T' d ↔ T d)) (hO : ∀ d, d ≠ c → O d → O' d)
    (hwaiting : ∀ d, d ≠ c → (d ∈ s'.waitingForPortChanList ↔ d ∈ s.waitingForPortChanList))
    (hpending : ∀ d, d ≠ c → ∀ p, (∃ P, s'.ports p = some P ∧ d ∈ P.pendingList) ↔
      ∃ P, s.ports p = some P ∧ d ∈ P.pendingList)
    (htrace : ∃ es, s'.trace = s.trace ++ es) (hlists : ListInv s') : Inv T' O' s' where
  chan := fun {d D} hD => by
    rw [hchans] at hD
    by_cases hdc : d = c
    · subst hdc
      rw [if_pos rfl] at hD
      exact Option.some.inj hD ▸ hN
    · rw [if_neg hdc] at hD
      exact (h.chan hD).congr (hT d hdc) (hO d hdc) (hwaiting d hdc) (hpending d hdc) htrace
  peers := h.peers_update hC hchans hsame
  lists := hlists
  tmpLive := fun {d} hd => by
    rw [hchans]
    by_cases hdc : d = c
    · rw [if_pos hdc]
      rfl
    · rw [if_neg hdc]
      exact h.tmpLive ((hT d hdc).mp hd)

/-- Only the channel itself changes. -/
theorem Inv.setChan (h : Inv T O s) {C' : Chan} (hC : s.chans c = some C)
    (hsame : SamePeers C C') (hC' : ChanInv T' O' s c C') (hT : ∀ d, d ≠ c → (T' d ↔ T d))
    (hO : ∀ d, d ≠ c → O d → O' d) : Inv T' O' (s.setChan c C') := by
  refine h.update hC (fun d => Registry.setChan_chans) hsame
    (hC'.congr Iff.rfl id Iff.rfl (fun _ => Iff.rfl) ⟨[], (List.append_nil _).symm⟩) hT hO
    (fun _ _ => Iff.rfl) (fun _ _ _ => Iff.rfl) ⟨[], (List.append_nil _).symm⟩
    (h.lists.setChan hC C')

/-! ## Updates of two channels -/

/-- The links of `c` after an update of `c` and `y`. -/
structure Linked (s : Registry) (c y : ChanId) (C C' Y' : Chan) : Prop where
  old : C.peer = none ∨ C.peer = some y
  peer : ∀ z, C'.peer = some z → z = y ∧ .peer c ∈ Y'.refobj ∧ Compat c C' Y'
  back : ∀ {x X}, x ≠ c → x ≠ y → s.chans x = some X → X.peer = some c →
    .peer x ∈ C'.refobj ∧ Compat x X C'
  refs : ∀ x, .peer x ∈ C'.refobj →
    (x = y ∧ Y'.peer = some c) ∨ (x ≠ c ∧ x ≠ y ∧ .peer x ∈ C.refobj)

theorem Inv.updatePair (h : Inv T O s) {y : ChanId} {Y C' Y' : Chan} (hC : s.chans c = some C)
    (hY : s.chans y = some Y) (hcy : c ≠ y) (hC' : ChanInv T' O s c C') (hY' : ChanInv T' O s y Y')
    (hlinks : Linked s c y C C' Y') (hlinks' : Linked s y c Y Y' C')
    (hT : ∀ d, d ≠ c → d ≠ y → (T' d ↔ T d)) : Inv T' O ((s.setChan c C').setChan y Y') := by
  generalize hs' : (s.setChan c C').setChan y Y' = s'
  have hc' : s'.chans c = some C' := by simp [← hs', hcy]
  have hy' : s'.chans y = some Y' := by simp [← hs']
  have hother : ∀ {d}, d ≠ c → d ≠ y → s'.chans d = s.chans d := fun hdc hdy => by
    simp [← hs', hdc, hdy]
  have hsplit : ∀ {d D}, s'.chans d = some D →
      (d = c ∧ D = C') ∨ (d = y ∧ D = Y') ∨ (d ≠ c ∧ d ≠ y ∧ s.chans d = some D) := by
    intro d D hD
    by_cases hdc : d = c
    · exact Or.inl ⟨hdc, Option.some.inj ((hdc ▸ hD).symm.trans hc')⟩
    · by_cases hdy : d = y
      · exact Or.inr (Or.inl ⟨hdy, Option.some.inj ((hdy ▸ hD).symm.trans hy')⟩)
      · exact Or.inr (Or.inr ⟨hdc, hdy, by rwa [hother hdc hdy] at hD⟩)
  have hw : s'.waitingForPortChanList = s.waitingForPortChanList := by simp [← hs']
  have hp : s'.ports = s.ports := by simp [← hs']
  have htr : ∃ es, s'.trace = s.trace ++ es := ⟨[], by simp [← hs']⟩
  refine ⟨fun {d D} hD => ?_, ⟨fun {x X z} hX hz => ?_, fun {z Z x} hZ hx => ?_⟩,
    hs' ▸ (h.lists.setChan hC C').setChan (C := Y) (by simp [hcy.symm, hY]) Y',
    fun {d} hd => ?_⟩
  · rcases hsplit hD with ⟨rfl, rfl⟩ | ⟨rfl, rfl⟩ | ⟨hdc, hdy, hD⟩
    · exact hC'.congr Iff.rfl id (by rw [hw]) (fun p => by rw [hp]) htr
    · exact hY'.congr Iff.rfl id (by rw [hw]) (fun p => by rw [hp]) htr
    · exact (h.chan hD).congr (hT d hdc hdy) id (by rw [hw]) (fun p => by rw [hp]) htr
  · rcases hsplit hX with ⟨rfl, rfl⟩ | ⟨rfl, rfl⟩ | ⟨hxc, hxy, hX⟩
    · obtain ⟨rfl, hrest⟩ := hlinks.peer z hz
      exact ⟨_, hy', hrest⟩
    · obtain ⟨rfl, hrest⟩ := hlinks'.peer z hz
      exact ⟨_, hc', hrest⟩
    · by_cases hzc : z = c
      · subst hzc
        exact ⟨_, hc', hlinks.back hxc hxy hX hz⟩
      by_cases hzy : z = y
      · subst hzy
        exact ⟨_, hy', hlinks'.back hxy hxc hX hz⟩
      obtain ⟨Z, hZ, hrest⟩ := h.peers.peer hX hz
      exact ⟨Z, by rw [hother hzc hzy, hZ], hrest⟩
  · -- nobody but `c` and `y` lets go of a peer
    have hkeep : x ≠ c → x ≠ y → (∃ X, s.chans x = some X ∧ X.peer = some z) →
        ∃ X, s'.chans x = some X ∧ X.peer = some z := fun hxc hxy ⟨X, hX, hpX⟩ =>
      ⟨X, by rw [hother hxc hxy, hX], hpX⟩
    rcases hsplit hZ with ⟨rfl, rfl⟩ | ⟨rfl, rfl⟩ | ⟨hzc, hzy, hZ⟩
    · rcases hlinks.refs x hx with ⟨rfl, hpx⟩ | ⟨hxc, hxy, hx⟩
      · exact ⟨_, hy', hpx⟩
      · exact hkeep hxc hxy (h.peers.peerRef hC hx)
    · rcases hlinks'.refs x hx with ⟨rfl, hpx⟩ | ⟨hxy, hxc, hx⟩
      · exact ⟨_, hc', hpx⟩
      · exact hkeep hxc hxy (h.peers.peerRef hY hx)
    · obtain ⟨X, hX, hpX⟩ := h.peers.peerRef hZ hx
      have hxc : x ≠ c := by
        rintro rfl
        obtain rfl : C = X := Option.some.inj (hC.symm.trans hX)
        rcases hlinks.old with hpn | hpy
        · simp [hpn] at hpX
        · exact hzy (Option.some.inj (hpX.symm.trans hpy))
      have hxy : x ≠ y := by
        rintro rfl
        obtain rfl : Y = X := Option.some.inj (hY.symm.trans hX)
        rcases hlinks'.old with hpn | hpc
        · simp [hpn] at hpX
        · exact hzc (Option.some.inj (hpX.symm.trans hpc))
      exact ⟨X, by rw [hother hxc hxy, hX], hpX⟩
  · by_cases hdc : d = c
    · simp [hdc, hc']
    · by_cases hdy : d = y
      · simp [hdy, hy']
      · rw [hother hdc hdy]
        exact h.tmpLive ((hT d hdc hdy).mp hd)

/-- Nothing happens to channels, nor to which lists they are in. -/
theorem Inv.sameChans (h : Inv T O s) (hchans : s'.chans = s.chans)
    (hwaiting : s'.waitingForPortChanList = s.waitingForPortChanList)
    (hpending : ∀ d p, (∃ P, s'.ports p = some P ∧ d ∈ P.pendingList) ↔
      ∃ P, s.ports p = some P ∧ d ∈ P.pendingList)
    (htrace : ∃ es, s'.trace = s.trace ++ es) (hlists : ListInv s') : Inv T O s' where
  chan := fun {d _} hD => (h.chan (hchans ▸ hD)).congr Iff.rfl id (by rw [hwaiting]) (hpending d)
    htrace
  peers := ⟨by rw [hchans]; exact h.peers.peer, by rw [hchans]; exact h.peers.peerRef⟩
  lists := hlists
  tmpLive := fun hd => by rw [hchans]; exact h.tmpLive hd

theorem Inv.log (h : Inv T O s) (e : Event) : Inv T O (s.log e) :=
  h.sameChans rfl rfl (fun _ _ => Iff.rfl) ⟨[e], rfl⟩
    (h.lists.keep (fun _ => id) h.lists.freshChan rfl rfl rfl rfl)

theorem Inv.setNextChan (h : Inv T O s) {n : ChanId} (hn : s.nextChan ≤ n) :
    Inv T O { s with nextChan := n } :=
  h.sameChans rfl rfl (fun _ _ => Iff.rfl) ⟨[], (List.append_nil _).symm⟩
    (h.lists.keep (fun _ => id) (fun hd => h.lists.freshChan (Nat.le_trans hn hd)) rfl rfl rfl rfl)

/-- Only a channel that waits without being in the list is an orphan. -/
theorem Inv.orphans (h : Inv T O s)
    (hO : ∀ d D, s.chans d = some D → D.state = .waitingForPort → O d → O' d) : Inv T O' s :=
  { h with
    chan := fun {d D} hD =>
      { h.chan hD with linked := fun hs => ((h.chan hD).linked hs).imp_right (hO d D hD hs) } }

/-- Forgetting a channel whose last reference is gone. -/
theorem Inv.freeChan (h : Inv T O s) (hC : s.chans c = some C) (hrefs : C.refobj = ∅) :
    C.peer = none ∧ C.node = none ∧ Inv T O (s.freeChan c) := by
  have hc := h.chan hC
  have hpeer : C.peer = none := by
    by_contra hne
    have := hc.anchored (Option.isSome_iff_ne_none.mpr hne)
    simp [hrefs] at this
  have hnode : C.node = none := by
    have := hc.nodeRef
    simpa [hrefs] using this
  have hwaiting : c ∉ s.waitingForPortChanList := fun hmem => by
    have := hc.inWaiting.mpr hmem
    simp [hnode] at this
  have hpending : ∀ p P, s.ports p = some P → c ∉ P.pendingList := fun p P hP hmem => by
    have := (hc.inPending p).mpr ⟨P, hP, hmem⟩
    simp [hnode] at this
  have hother : ∀ {d}, d ≠ c → (s.freeChan c).chans d = s.chans d := fun hd => by simp [hd]
  have hne : ∀ {d D}, (s.freeChan c).chans d = some D → d ≠ c ∧ s.chans d = some D := by
    intro d D hD
    by_cases hdc : d = c
    · simp [hdc] at hD
    · exact ⟨hdc, by rwa [hother hdc] at hD⟩
  refine ⟨hpeer, hnode, ?_, ⟨?_, ?_⟩, ?_, ?_⟩
  · intro d D hD
    exact (h.chan (hne hD).2).congr Iff.rfl id Iff.rfl (fun _ => Iff.rfl)
      ⟨[], (List.append_nil _).symm⟩
  · intro x X y hX hy
    obtain ⟨Y, hY, href, hcompat⟩ := h.peers.peer (hne hX).2 hy
    have hyc : y ≠ c := by
      rintro rfl
      obtain rfl : C = Y := Option.some.inj (hC.symm.trans hY)
      simp [hrefs] at href
    exact ⟨Y, by rw [hother hyc, hY], href, hcompat⟩
  · intro y Y x hY hx
    obtain ⟨X, hX, hpeerX⟩ := h.peers.peerRef (hne hY).2 hx
    have hxc : x ≠ c := by
      rintro rfl
      obtain rfl : C = X := Option.some.inj (hC.symm.trans hX)
      simp [hpeer] at hpeerX
    exact ⟨X, by rw [hother hxc, hX], hpeerX⟩
  · refine { h.lists with waitingLive := ?_, pendingLive := ?_, freshChan := ?_ }
    · intro d hd
      have hdc : d ≠ c := fun hdc => hwaiting (hdc ▸ hd)
      rw [hother hdc]
      exact h.lists.waitingLive hd
    · intro p P d hP hd
      have hdc : d ≠ c := fun hdc => hpending p P hP (hdc ▸ hd)
      rw [hother hdc]
      exact h.lists.pendingLive hP hd
    · intro d hd
      rw [Registry.freeChan_chans]
      split
      · rfl
      · exact h.lists.freshChan hd
  · intro d hd
    have hdc : d ≠ c := by
      rintro rfl
      have := hc.tmpRef.mpr hd
      simp [hrefs] at this
    rw [hother hdc]
    exact h.tmpLive hd

end

end TX2SecureUart.Ipc
