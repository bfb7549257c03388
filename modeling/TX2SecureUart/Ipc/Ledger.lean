/-
# `Ipc.Ledger` — reference counts over whole runs

Beside the registry stands a ledger of the references held outside: by handle
tables, by handle lists and by running calls.  A caller enters a reference when
an operation returns one or when it takes one more, and strikes it out when it
drops it; a handle may be used while it has an entry.

The counts agree with the ledger in every state of every run, so an object
exists exactly while something refers to it.
-/
import TX2SecureUart.Ipc.Balance
import TX2SecureUart.Ipc.Runs

namespace TX2SecureUart.Ipc

open Prog

/-! ## The ledger -/

structure Ledger where
  reg : Registry
  refs : HandlePtr → Nat

def Ledger.empty : Ledger := ⟨.empty, fun _ => 0⟩

abbrev LedgerM := EStateM Fault Ledger

def onReg {α : Type} (m : IpcM α) : LedgerM α :=
  zoom Ledger.reg (fun s L => { L with reg := s }) m

/-- A reference for the caller, if there is one. -/
def enter (refs : HandlePtr → Nat) : Option HandlePtr → HandlePtr → Nat
  | none => refs
  | some h => Function.update refs h (refs h + 1)

def strike (refs : HandlePtr → Nat) (h : HandlePtr) : HandlePtr → Nat :=
  Function.update refs h (refs h - 1)

/-- An operation, and what its caller writes down afterwards. -/
def keeping {α : Type} (m : IpcM α) (note : α → (HandlePtr → Nat) → HandlePtr → Nat) :
    LedgerM Unit := do
  let a ← onReg m
  modify fun L => { L with refs := note a L.refs }

def Action.keep : Action → LedgerM Unit
  | .create env sid path numRecvBufs recvBufSize flags =>
      keeping (ipcPortCreate env sid path numRecvBufs recvBufSize flags)
        fun ret refs => enter refs (ret.2.map .port)
  | .publish env p => keeping (ipcPortPublish env p) fun _ refs => refs
  | .connect env guest cid path maxPath flags =>
      keeping (ipcPortConnectAsync env guest cid path maxPath flags)
        fun ret refs => enter refs (ret.2.map .chan)
  | .accept handle =>
      keeping (ipcPortAccept handle) fun ret refs => enter refs (ret.2.map fun x => .chan x.1)
  | .incref handle => keeping (handleIncref handle) fun _ refs => enter refs (some handle)
  | .shutdown handle => keeping (handleShutdown handle) fun _ refs => refs
  | .decref handle => keeping (handleDecref handle) fun _ refs => strike refs handle
  | .message handle call => keeping (call.run handle) fun _ refs => refs

/-- The handles that an action uses are in the ledger. -/
def Action.Entered (L : Ledger) : Action → Prop
  | .create .. | .connect .. => True
  | .publish _ p => 0 < L.refs (.port p)
  | .accept handle | .message handle _ => ∀ h, handle = some h → 0 < L.refs h
  | .incref handle | .shutdown handle => 0 < L.refs handle
  | .decref handle => 0 < L.refs handle ∧ Closed L.reg handle

def ledger : Machine Fault Ledger Action where
  init := .empty
  run := Action.keep
  Enabled L a := a.Entered L

/-! ## One step -/

/-- The ledger is true, and nothing is left behind. -/
structure Booked (L : Ledger) : Prop where
  inv : Inv nobody (fun _ => True) L.reg
  refs : ∀ h, L.reg.handleRefs h = L.refs h
  refobj : ∀ {c C}, L.reg.chans c = some C → C.refobj.Nonempty

theorem held_iff {s : Registry} {h : HandlePtr} : Held s h ↔ 0 < s.handleRefs h := by
  cases h with
  | chan c => cases hC : s.chans c <;> simp [Held, Registry.handleRefs, hC]
  | port p => cases hP : s.ports p <;> simp [Held, Registry.handleRefs, hP]

section

variable {L : Ledger}

theorem Booked.held (h : Booked L) {handle : HandlePtr} (hpos : 0 < L.refs handle) :
    Held L.reg handle := by
  rw [held_iff, h.refs]
  exact_mod_cast hpos

theorem Booked.enabled (h : Booked L) {a : Action} (hen : a.Entered L) : a.Enabled L.reg := by
  cases a with
  | create | connect => trivial
  | publish env p => exact h.held hen
  | accept handle | message handle call =>
      intro x hx
      exact h.held (hen x hx)
  | incref handle | shutdown handle => exact h.held hen
  | decref handle => exact ⟨h.held hen.1, hen.2⟩

theorem Booked.gain_eq (h : Booked L) (o : Option HandlePtr) (x : HandlePtr) :
    gain L.reg.handleRefs o x = (enter L.refs o x : Nat) := by
  cases o with
  | none => exact h.refs x
  | some y =>
      by_cases hx : x = y
      · subst hx
        simp [gain, bump, enter, h.refs]
      · simp [gain, bump, enter, hx, h.refs]

theorem Booked.drop_eq (h : Booked L) {y : HandlePtr} (hpos : 0 < L.refs y) (x : HandlePtr) :
    bump L.reg.handleRefs y (-1) x = (strike L.refs y x : Nat) := by
  by_cases hx : x = y
  · subst hx
    simp only [bump, strike, Function.update_self, h.refs]
    omega
  · simp [bump, strike, hx, h.refs]

/-- An operation that balances is written down as it was. -/
theorem Booked.wp_keeping {α : Type} {m : IpcM α} {r : α → HandlePtr → Int}
    {note : α → (HandlePtr → Nat) → HandlePtr → Nat}
    (hrun : wp m (fun _ t => Inv nobody (fun _ => True) t) (fun e _ => e.Clean) L.reg)
    (hbal : wp m (fun a t => Balanced (r a) L.reg.Freed t) anyStop L.reg)
    (hnote : ∀ a x, r a x = note a L.refs x) :
    wp (keeping m note) (fun _ L' => Booked L' ∧ ∀ x, L.reg.Freed x → L'.reg.Freed x)
      (fun e _ => e.Clean) L := by
  rw [keeping, wp_bind, onReg, wp_zoom]
  refine wp_mono (wp_and hrun hbal) ?_ fun _ _ he => he.1
  intro a t ht
  obtain ⟨hinv, hbal⟩ := ht
  rw [wp_modify]
  refine ⟨⟨hinv, ?_, fun hC => (hbal.kept hC).refobj⟩, hbal.freed⟩
  intro x
  show t.handleRefs x = _
  rw [hbal.refs]
  exact hnote a x

/-- The result of an operation does not matter for the registry. -/
theorem wp_of_unit {α : Type} {m : IpcM α} {I : Registry → Prop} {E : Fault → Registry → Prop}
    {s : Registry} (h : wp ((fun _ => ()) <$> m) (fun _ t => I t) E s) :
    wp m (fun _ t => I t) E s :=
  (wp_map _ _).mp h

theorem Booked.wp_keep (h : Booked L) {a : Action} (hen : a.Entered L) :
    wp a.keep (fun _ L' => Booked L' ∧ ∀ x, L.reg.Freed x → L'.reg.Freed x)
      (fun e _ => e.Clean) L := by
  have hrun : wp a.run (fun _ t => Inv nobody (fun _ => True) t) (fun e _ => e.Clean) L.reg :=
    wp_mono (h.inv.wp_run (h.enabled hen) fun _ _ _ _ _ _ _ => trivial) (fun _ _ ht => ht)
      fun _ _ he => he.2
  have hbal : Balanced L.reg.handleRefs L.reg.Freed L.reg := h.inv.balanced h.refobj
  cases a with
  | create env sid path numRecvBufs recvBufSize flags =>
      rw [Action.keep]
      exact wp_keeping (wp_of_unit hrun) hbal.wp_ipcPortCreate fun ret x => h.gain_eq _ x
  | publish env p =>
      rw [Action.keep]
      exact wp_keeping (wp_of_unit hrun) (hbal.wp_ipcPortPublish h.inv) fun _ x => h.refs x
  | connect env guest cid path maxPath flags =>
      rw [Action.keep]
      exact wp_keeping (wp_of_unit hrun) hbal.wp_ipcPortConnectAsync fun ret x => h.gain_eq _ x
  | accept handle =>
      rw [Action.keep]
      refine wp_keeping (wp_of_unit hrun) (hbal.wp_ipcPortAccept h.inv ?_)
        fun ret x => h.gain_eq _ x
      intro p hp
      have hpos := hen _ hp
      rw [h.refs]
      omega
  | incref handle =>
      rw [Action.keep]
      refine wp_keeping (r := fun _ => bump L.reg.handleRefs handle 1) hrun ?_
        fun _ x => h.gain_eq (some handle) x
      cases handle with
      | chan c =>
          refine hbal.wp_handleIncref_chan ?_
          have hpos : 0 < L.refs (.chan c) := hen
          rw [h.refs]
          omega
      | port p => exact hbal.wp_handleIncref_port
  | shutdown handle =>
      rw [Action.keep]
      refine wp_keeping (r := fun _ => L.reg.handleRefs) hrun ?_ fun _ x => h.refs x
      cases handle with
      | chan c => exact wp_conseq hbal.wp_chanShutdownLocked fun _ _ ht => ht.1
      | port p =>
          refine hbal.wp_portShutdown ?_
          have hpos : 0 < L.refs (.port p) := hen
          rw [h.refs]
          omega
  | decref handle =>
      obtain ⟨hpos, -⟩ := hen
      rw [Action.keep]
      refine wp_keeping (r := fun _ => bump L.reg.handleRefs handle (-1)) hrun ?_
        fun _ x => h.drop_eq hpos x
      cases handle with
      | chan c =>
          refine hbal.wp_handleDecref_chan ?_
          rw [h.refs]
          omega
      | port p =>
          refine wp_conseq (hbal.wp_handleDecref_port ?_) fun _ _ ht => ht.1
          rw [h.refs]
          omega
  | message handle call =>
      rw [Action.keep]
      exact wp_keeping (wp_of_unit hrun) (hbal.wp_msgCall handle call) fun _ x => h.refs x

/-! ## All runs -/

theorem booked_empty : Booked .empty where
  inv := inv_empty _
  refs := by
    intro h
    cases h <;> rfl
  refobj := by
    intro c C hC
    cases hC

/-- Any step. -/
def anyEntry : Ledger → Action → Prop := fun _ _ => True

theorem booked_of_reachable (h : ledger.Reachable anyEntry L) : Booked L :=
  Machine.invariant booked_empty
    (fun _ _ hL hen _ => wp_conseq (hL.wp_keep hen) fun _ _ ht => ht.1) h

/-- What was freed is never there again. -/
theorem freed_of_run {L' : Ledger} (h : ledger.Reachable anyEntry L)
    (hrun : Relation.ReflTransGen (ledger.Step anyEntry) L L') {x : HandlePtr}
    (hx : L.reg.Freed x) : L'.reg.Freed x := by
  induction hrun with
  | refl => exact hx
  | tail hto hstep ih =>
      obtain ⟨a, hen, -, hret⟩ := hstep
      have hbooked := booked_of_reachable (h.trans hto)
      exact (wp_ok (hbooked.wp_keep hen) hret).2 x ih

/-! ## Who refers to what -/

/-- The object exists. -/
def Registry.Live (s : Registry) : HandlePtr → Prop
  | .chan c => (s.chans c).isSome
  | .port p => (s.ports p).isSome

/-- A handle, a list or a peer pointer leads to the object. -/
def Ledger.Referenced (L : Ledger) : HandlePtr → Prop
  | .chan c => 0 < L.refs (.chan c) ∨ c ∈ L.reg.waitingForPortChanList ∨
      (∃ p P, L.reg.ports p = some P ∧ c ∈ P.pendingList) ∨
      ∃ x X, L.reg.chans x = some X ∧ X.peer = some c
  | .port p => 0 < L.refs (.port p) ∨ p ∈ L.reg.ipcPortList ∨
      ∃ c C, L.reg.chans c = some C ∧ C.node = some (.pending p)

/-- The references that are linked into a channel. -/
def Ledger.Refobj (L : Ledger) (c : ChanId) : ObjRef → Prop
  | .handle => 0 < L.refs (.chan c)
  | .node => c ∈ L.reg.waitingForPortChanList ∨ ∃ p P, L.reg.ports p = some P ∧ c ∈ P.pendingList
  | .peer x => ∃ X, L.reg.chans x = some X ∧ X.peer = some c
  | .tmp => False

theorem Booked.port_refcnt (h : Booked L) {p : PortId} {P : Port} (hP : L.reg.ports p = some P) :
    P.handle.refcnt = L.refs (.port p) + (if p ∈ L.reg.ipcPortList then 1 else 0) +
      P.pendingList.length := by
  have hrefs := h.refs (.port p)
  simp only [Registry.handleRefs, hP, Option.elim_some, Port.ownRefs] at hrefs
  have hlisted := h.inv.lists.listed p
  simp only [hP, Option.some.injEq, exists_eq_left'] at hlisted
  rw [← hrefs]
  by_cases hn : P.node = true
  · rw [if_pos hn, if_pos (hlisted.mpr hn)]
    omega
  · rw [if_neg hn, if_neg (fun hm => hn (hlisted.mp hm))]
    omega

theorem Booked.chan_refcnt (h : Booked L) {c : ChanId} {C : Chan} (hC : L.reg.chans c = some C) :
    C.handle.refcnt = L.refs (.chan c) := by
  have hrefs := h.refs (.chan c)
  simpa only [Registry.handleRefs, hC, Option.elim_some] using hrefs

theorem Booked.mem_refobj (h : Booked L) {c : ChanId} {C : Chan} (hC : L.reg.chans c = some C)
    (ref : ObjRef) : ref ∈ C.refobj ↔ L.Refobj c ref := by
  have hc := h.inv.chan hC
  cases ref with
  | handle =>
      rw [hc.handleRef, h.chan_refcnt hC]
      exact Int.natCast_pos
  | node =>
      rw [hc.nodeRef]
      constructor
      · intro hn
        obtain ⟨l, hl⟩ := Option.isSome_iff_exists.mp hn
        cases l with
        | waitingForPort => exact Or.inl (hc.inWaiting.mp hl)
        | pending p => exact Or.inr ⟨p, (hc.inPending p).mp hl⟩
      · rintro (hm | ⟨p, hp⟩)
        · simp [hc.inWaiting.mpr hm]
        · simp [(hc.inPending p).mpr hp]
  | peer x =>
      constructor
      · exact h.inv.peers.peerRef hC
      · rintro ⟨X, hX, hpeer⟩
        obtain ⟨C', hC', href, -⟩ := h.inv.peers.peer hX hpeer
        rwa [Option.some.inj (hC.symm.trans hC')]
  | tmp => exact hc.tmpRef

/-- An object exists exactly while something refers to it. -/
theorem Booked.live_iff (h : Booked L) (x : HandlePtr) : L.reg.Live x ↔ L.Referenced x := by
  cases x with
  | chan c =>
      constructor
      · intro hlive
        obtain ⟨C, hC⟩ := Option.isSome_iff_exists.mp hlive
        obtain ⟨ref, href⟩ := h.refobj hC
        have hlink := (h.mem_refobj hC ref).mp href
        cases ref with
        | handle => exact Or.inl hlink
        | node =>
            rcases hlink with hm | hp
            · exact Or.inr (Or.inl hm)
            · exact Or.inr (Or.inr (Or.inl hp))
        | peer d => exact Or.inr (Or.inr (Or.inr ⟨d, hlink⟩))
        | tmp => exact hlink.elim
      · rintro (hpos | hm | ⟨p, P, hP, hm⟩ | ⟨d, D, hD, hpeer⟩)
        · obtain ⟨C, hC, -⟩ := h.held hpos
          simp [Registry.Live, hC]
        · exact h.inv.lists.waitingLive hm
        · exact h.inv.lists.pendingLive hP hm
        · obtain ⟨C, hC, -⟩ := h.inv.peers.peer hD hpeer
          simp [Registry.Live, hC]
  | port p =>
      constructor
      · intro hlive
        obtain ⟨P, hP⟩ := Option.isSome_iff_exists.mp hlive
        have hcount := h.port_refcnt hP
        have hone := (h.inv.lists.refcnt hP).1
        by_cases hpos : 0 < L.refs (.port p)
        · exact Or.inl hpos
        by_cases hm : p ∈ L.reg.ipcPortList
        · exact Or.inr (Or.inl hm)
        rw [if_neg hm] at hcount
        have hlen : 0 < P.pendingList.length := by omega
        obtain ⟨c, hc⟩ := List.exists_mem_of_length_pos hlen
        obtain ⟨C, hC⟩ := Option.isSome_iff_exists.mp (h.inv.lists.pendingLive hP hc)
        exact Or.inr (Or.inr ⟨c, C, hC, ((h.inv.chan hC).inPending p).mpr ⟨P, hP, hc⟩⟩)
      · rintro (hpos | hm | ⟨c, C, hC, hn⟩)
        · obtain ⟨P, hP, -⟩ := h.held hpos
          simp [Registry.Live, hP]
        · obtain ⟨P, hP, -⟩ := (h.inv.lists.listed p).mp hm
          simp [Registry.Live, hP]
        · obtain ⟨P, hP, -⟩ := ((h.inv.chan hC).inPending p).mp hn
          simp [Registry.Live, hP]

/-- The counts of a state, against what there is to count. -/
structure Ledger.Counted (L : Ledger) : Prop where
  port : ∀ p P, L.reg.ports p = some P → P.handle.refcnt =
    L.refs (.port p) + (if p ∈ L.reg.ipcPortList then 1 else 0) + P.pendingList.length
  chan : ∀ c C, L.reg.chans c = some C → C.handle.refcnt = L.refs (.chan c) ∧
    ∀ ref, ref ∈ C.refobj ↔ L.Refobj c ref
  live : ∀ x, L.reg.Live x ↔ L.Referenced x
  /-- no operation touches what was freed -/
  clean : ∀ a : Action, a.Entered L → ∀ e t, a.keep L = .error e t → e.Clean

/-- In every state of every run the counts are right, and what was freed by
then stays freed in every state that follows. -/
theorem ledger_counted (h : ledger.Reachable anyEntry L) :
    L.Counted ∧ ∀ L', Relation.ReflTransGen (ledger.Step anyEntry) L L' →
      ∀ x, L.reg.Freed x → L'.reg.Freed x := by
  have hbooked := booked_of_reachable h
  refine ⟨⟨fun p P => hbooked.port_refcnt, ?_, hbooked.live_iff, ?_⟩, ?_⟩
  · intro c C hC
    exact ⟨hbooked.chan_refcnt hC, hbooked.mem_refobj hC⟩
  · intro a hen e t hstop
    exact wp_error (E := fun e _ => e.Clean) (hbooked.wp_keep hen) hstop
  · intro L' hrun x hx
    exact freed_of_run h hrun hx

/-- The ledger after a client began to wait for its port. -/
def ledgerAfterWait : Ledger := stateOf (clientWaits.keep .empty)

theorem ledger_counted_afterWait :
    ledgerAfterWait.Counted ∧ ∀ L', Relation.ReflTransGen (ledger.Step anyEntry) ledgerAfterWait L' →
      ∀ x, ledgerAfterWait.reg.Freed x → L'.reg.Freed x :=
  ledger_counted (Machine.Reachable.init.step (M := ledger) (a := clientWaits) trivial trivial
    (by decide +kernel))

end

end TX2SecureUart.Ipc
