/-
# `Ipc.Refs` — what an operation does to the references held outside

The count of a handle is made of the references that the registry holds itself
and of those held outside, by handle tables, handle lists and running calls.
`handleRefs` is what is left for the outside.  An operation passes references
around inside the registry, but in the end the outside has gained what was
returned to it and lost what it dropped, and nothing else.

`Balanced` is what holds while an operation runs.  The runs that stop are left
out: a specification here says nothing about them.
-/
import TX2SecureUart.Ipc.System

namespace TX2SecureUart.Ipc

open Prog

/-! ## The books -/

/-- The references to a handle that the registry does not hold itself. -/
def Registry.handleRefs (s : Registry) : HandlePtr → Int
  | .chan c => (s.chans c).elim 0 fun C => C.handle.refcnt
  | .port p => (s.ports p).elim 0 fun P => P.handle.refcnt - P.ownRefs

/-- The object was allocated, and has been freed. -/
def Registry.Freed (s : Registry) : HandlePtr → Prop
  | .chan c => c < s.nextChan ∧ s.chans c = none
  | .port p => p < s.nextPort ∧ s.ports p = none

/-- `k` more references to `h`. -/
def bump (r : HandlePtr → Int) (h : HandlePtr) (k : Int) : HandlePtr → Int :=
  Function.update r h (r h + k)

theorem bump_bump (r : HandlePtr → Int) (h : HandlePtr) (j k : Int) :
    bump (bump r h j) h k = bump r h (j + k) := by
  simp [bump, Int.add_assoc]

theorem bump_zero (r : HandlePtr → Int) (h : HandlePtr) : bump r h 0 = r := by
  simp [bump]

/-- A channel is kept by its references: there is one, and the handle's is
there for as long as the handle. -/
structure Chan.Kept (C : Chan) : Prop where
  refobj : C.refobj.Nonempty
  handle : C.handle.refcnt ≠ 0 → .handle ∈ C.refobj
  waiting : C.state = .waitingForPort → ∀ p, C.node ≠ some (.pending p)

/-- `r` counts the references held outside, and what is in `F` was freed. -/
structure Balanced (r : HandlePtr → Int) (F : HandlePtr → Prop) (s : Registry) : Prop where
  refs : s.handleRefs = r
  freed : ∀ h, F h → s.Freed h
  kept : ∀ {c C}, s.chans c = some C → C.Kept
  pending : ∀ {p P c C}, s.ports p = some P → s.chans c = some C →
    (c ∈ P.pendingList ↔ C.node = some (.pending p))
  pendingNodup : ∀ {p P}, s.ports p = some P → P.pendingList.Nodup
  pendingOld : ∀ {p P c}, s.ports p = some P → c ∈ P.pendingList → c < s.nextChan
  pendingPort : ∀ {c C p}, s.chans c = some C → C.node = some (.pending p) → p < s.nextPort
  listed : ∀ {p P}, s.ports p = some P → P.node = true → p ∈ s.ipcPortList
  freshChan : ∀ {c}, s.nextChan ≤ c → s.chans c = none
  freshPort : ∀ {p}, s.nextPort ≤ p → s.ports p = none

/-- Between operations the invariant leaves little to ask for. -/
theorem Inv.balanced {O : ChanId → Prop} {s : Registry} (h : Inv nobody O s)
    (hkept : ∀ {c C}, s.chans c = some C → C.refobj.Nonempty) :
    Balanced s.handleRefs s.Freed s where
  refs := rfl
  freed := fun _ hf => hf
  kept := by
    intro c C hC
    have hc := h.chan hC
    refine ⟨hkept hC, ?_, ?_⟩
    · intro hne
      have := hc.refcnt_nonneg
      exact hc.handleRef.mpr (by omega)
    · intro hs p hn
      have := hc.pends p hn
      simp [hs] at this
  pending := by
    intro p P c C hP hC
    refine Iff.trans ?_ ((h.chan hC).inPending p).symm
    simp [hP]
  pendingNodup := h.lists.pendingNodup
  pendingOld := by
    intro p P c hP hc
    have hlive := h.lists.pendingLive hP hc
    by_contra hold
    simp [h.lists.freshChan (Nat.le_of_not_lt hold)] at hlive
  pendingPort := by
    intro c C p hC hn
    obtain ⟨P, hP, -⟩ := ((h.chan hC).inPending p).mp hn
    by_contra hold
    simp [h.lists.freshPort (Nat.le_of_not_lt hold)] at hP
  listed := by
    intro p P hP hn
    exact (h.lists.listed p).mpr ⟨P, hP, hn⟩
  freshChan := h.lists.freshChan
  freshPort := h.lists.freshPort

/-! ## Updates -/

section

variable {r : HandlePtr → Int} {F : HandlePtr → Prop} {s t : Registry} {c d : ChanId} {C N : Chan}
  {p q : PortId} {P M : Port}

theorem Chan.Kept.congr (h : C.Kept) (hrefs : N.refobj = C.refobj)
    (hcnt : N.handle.refcnt = C.handle.refcnt) (hnode : N.node = C.node)
    (hst : N.state = C.state ∨ N.state ≠ .waitingForPort) : N.Kept where
  refobj := hrefs ▸ h.refobj
  handle := by
    rw [hrefs, hcnt]
    exact h.handle
  waiting := by
    intro hs
    rw [hnode]
    rcases hst with hst | hst
    · exact h.waiting (hst ▸ hs)
    · exact absurd hs hst

theorem Balanced.chan_ref (h : Balanced r F s) (hC : s.chans c = some C) :
    r (.chan c) = C.handle.refcnt := by
  rw [← h.refs]
  simp [Registry.handleRefs, hC]

theorem Balanced.port_ref (h : Balanced r F s) (hP : s.ports p = some P) :
    r (.port p) = P.handle.refcnt - P.ownRefs := by
  rw [← h.refs]
  simp [Registry.handleRefs, hP]

/-- A channel changes, and stays pending where it was. -/
theorem Balanced.setChan (h : Balanced r F s) (hC : s.chans c = some C) (hkept : N.Kept)
    (hnode : ∀ p, N.node = some (.pending p) ↔ C.node = some (.pending p)) :
    Balanced (bump r (.chan c) (N.handle.refcnt - C.handle.refcnt)) F (s.setChan c N) where
  refs := by
    funext x
    rw [bump, h.chan_ref hC]
    cases x with
    | chan d =>
        by_cases hd : d = c
        · subst hd
          simp [Registry.handleRefs]
        · simp [Registry.handleRefs, hd, ← h.refs]
    | port q => simp [Registry.handleRefs, ← h.refs]
  freed := by
    intro x hx
    have hf := h.freed x hx
    cases x with
    | chan d =>
        have hd : d ≠ c := by
          rintro rfl
          simp [hf.2] at hC
        exact ⟨hf.1, by simpa [hd] using hf.2⟩
    | port q => exact hf
  kept := by
    intro d D hD
    by_cases hd : d = c
    · subst hd
      obtain rfl : N = D := by simpa using hD
      exact hkept
    · exact h.kept (c := d) (by simpa [hd] using hD)
  pending := by
    intro q Q d D hQ hD
    by_cases hd : d = c
    · subst hd
      obtain rfl : N = D := by simpa using hD
      exact (h.pending hQ hC).trans (hnode q).symm
    · exact h.pending hQ (by simpa [hd] using hD)
  pendingNodup := h.pendingNodup
  pendingOld := h.pendingOld
  pendingPort := by
    intro d D q hD hn
    by_cases hd : d = c
    · subst hd
      obtain rfl : N = D := by simpa using hD
      exact h.pendingPort hC ((hnode q).mp hn)
    · exact h.pendingPort (c := d) (by simpa [hd] using hD) hn
  listed := h.listed
  freshChan := by
    intro d hd
    have hnone := h.freshChan hd
    have hdc : d ≠ c := by
      rintro rfl
      simp [hnone] at hC
    simpa [hdc] using hnone
  freshPort := h.freshPort

/-- The references to the handle stay as many as they were. -/
theorem Balanced.setChan_same (h : Balanced r F s) (hC : s.chans c = some C) (hkept : N.Kept)
    (hnode : ∀ p, N.node = some (.pending p) ↔ C.node = some (.pending p))
    (hcnt : N.handle.refcnt = C.handle.refcnt) : Balanced r F (s.setChan c N) := by
  have := h.setChan hC hkept hnode
  rwa [hcnt, Int.sub_self, bump_zero] at this

/-- A channel without references is freed. -/
theorem Balanced.freeChan (h : Balanced r F s) (hzero : r (.chan c) = 0) :
    Balanced r F (s.freeChan c) where
  refs := by
    funext x
    cases x with
    | chan d =>
        by_cases hd : d = c
        · subst hd
          simp [Registry.handleRefs, hzero]
        · simp [Registry.handleRefs, hd, ← h.refs]
    | port q => simp [Registry.handleRefs, ← h.refs]
  freed := by
    intro x hx
    have hf := h.freed x hx
    cases x with
    | chan d =>
        refine ⟨hf.1, ?_⟩
        rw [Registry.freeChan_chans]
        split
        · rfl
        · exact hf.2
    | port q => exact hf
  kept := by
    intro d D hD
    by_cases hd : d = c
    · simp [hd] at hD
    · exact h.kept (c := d) (by simpa [hd] using hD)
  pending := by
    intro q Q d D hQ hD
    by_cases hd : d = c
    · simp [hd] at hD
    · exact h.pending hQ (by simpa [hd] using hD)
  pendingNodup := h.pendingNodup
  pendingOld := h.pendingOld
  pendingPort := by
    intro d D q hD
    by_cases hd : d = c
    · simp [hd] at hD
    · exact h.pendingPort (c := d) (by simpa [hd] using hD)
  listed := h.listed
  freshChan := by
    intro d hd
    rw [Registry.freeChan_chans]
    split
    · rfl
    · exact h.freshChan hd
  freshPort := h.freshPort

/-- A port changes, with its pending list as it was. -/
theorem Balanced.setPort (h : Balanced r F s) (hP : s.ports p = some P)
    (hpending : M.pendingList = P.pendingList) (hlisted : M.node = true → p ∈ s.ipcPortList) :
    Balanced (bump r (.port p)
      ((M.handle.refcnt - M.ownRefs) - (P.handle.refcnt - P.ownRefs))) F (s.setPort p M) where
  refs := by
    funext x
    rw [bump, h.port_ref hP]
    cases x with
    | port q =>
        by_cases hq : q = p
        · subst hq
          simp [Registry.handleRefs]
        · simp [Registry.handleRefs, hq, ← h.refs]
    | chan d => simp [Registry.handleRefs, ← h.refs]
  freed := by
    intro x hx
    have hf := h.freed x hx
    cases x with
    | port q =>
        have hq : q ≠ p := by
          rintro rfl
          simp [hf.2] at hP
        exact ⟨hf.1, by simpa [hq] using hf.2⟩
    | chan d => exact hf
  kept := h.kept
  pending := by
    intro q Q d D hQ hD
    by_cases hq : q = p
    · subst hq
      obtain rfl : M = Q := by simpa using hQ
      rw [hpending]
      exact h.pending hP hD
    · exact h.pending (by simpa [hq] using hQ) hD
  pendingNodup := by
    intro q Q hQ
    by_cases hq : q = p
    · subst hq
      obtain rfl : M = Q := by simpa using hQ
      rw [hpending]
      exact h.pendingNodup hP
    · exact h.pendingNodup (p := q) (by simpa [hq] using hQ)
  pendingOld := by
    intro q Q d hQ hd
    by_cases hq : q = p
    · subst hq
      obtain rfl : M = Q := by simpa using hQ
      rw [hpending] at hd
      exact h.pendingOld hP hd
    · exact h.pendingOld (p := q) (by simpa [hq] using hQ) hd
  pendingPort := h.pendingPort
  listed := by
    intro q Q hQ hn
    by_cases hq : q = p
    · subst hq
      obtain rfl : M = Q := by simpa using hQ
      exact hlisted hn
    · exact h.listed (p := q) (by simpa [hq] using hQ) hn
  freshChan := h.freshChan
  freshPort := by
    intro q hq
    have hnone := h.freshPort hq
    have hqp : q ≠ p := by
      rintro rfl
      simp [hnone] at hP
    simpa [hqp] using hnone

/-- A port that nobody refers to is freed. -/
theorem Balanced.freePort (h : Balanced r F s) (hzero : r (.port p) = 0) :
    Balanced r F (s.freePort p) where
  refs := by
    funext x
    cases x with
    | port q =>
        by_cases hq : q = p
        · subst hq
          simp [Registry.handleRefs, hzero]
        · simp [Registry.handleRefs, hq, ← h.refs]
    | chan d => simp [Registry.handleRefs, Registry.freePort, ← h.refs]
  freed := by
    intro x hx
    have hf := h.freed x hx
    cases x with
    | port q =>
        refine ⟨hf.1, ?_⟩
        rw [Registry.freePort_ports]
        split
        · rfl
        · exact hf.2
    | chan d => exact hf
  kept := h.kept
  pending := by
    intro q Q d D hQ hD
    by_cases hq : q = p
    · simp [hq] at hQ
    · exact h.pending (by simpa [hq] using hQ) hD
  pendingNodup := by
    intro q Q hQ
    by_cases hq : q = p
    · simp [hq] at hQ
    · exact h.pendingNodup (p := q) (by simpa [hq] using hQ)
  pendingOld := by
    intro q Q d hQ hd
    by_cases hq : q = p
    · simp [hq] at hQ
    · exact h.pendingOld (p := q) (by simpa [hq] using hQ) hd
  pendingPort := h.pendingPort
  listed := by
    intro q Q hQ
    by_cases hq : q = p
    · simp [hq] at hQ
    · exact h.listed (p := q) (by simpa [hq] using hQ)
  freshChan := h.freshChan
  freshPort := by
    intro q hq
    rw [Registry.freePort_ports]
    split
    · rfl
    · exact h.freshPort hq

/-- A channel enters or leaves the pending list of a port. -/
theorem Balanced.relist (h : Balanced r F s) (hC : s.chans c = some C) (hP : s.ports p = some P)
    {l : List ChanId} {n : Option ListId} (hkept : ({ C with node := n } : Chan).Kept)
    (hl : l.Nodup) (hothers : ∀ d, d ≠ c → (d ∈ l ↔ d ∈ P.pendingList))
    (hself : c ∈ l ↔ n = some (.pending p))
    (hnode : ∀ q, q ≠ p → (n = some (.pending q) ↔ C.node = some (.pending q))) :
    Balanced (bump r (.port p) (P.pendingList.length - l.length)) F
      ((s.setPort p { P with pendingList := l }).setChan c { C with node := n }) where
  refs := by
    funext x
    have hp := h.port_ref hP
    have hc := h.chan_ref hC
    rw [bump, hp]
    cases x with
    | port q =>
        by_cases hq : q = p
        · subst hq
          simp [Registry.handleRefs, Port.ownRefs]
          omega
        · simp [Registry.handleRefs, hq, ← h.refs]
    | chan d =>
        by_cases hd : d = c
        · subst hd
          simp [Registry.handleRefs, hc]
        · simp [Registry.handleRefs, hd, ← h.refs]
  freed := by
    intro x hx
    have hf := h.freed x hx
    cases x with
    | port q =>
        have hq : q ≠ p := by
          rintro rfl
          simp [hf.2] at hP
        exact ⟨hf.1, by simpa [hq] using hf.2⟩
    | chan d =>
        have hd : d ≠ c := by
          rintro rfl
          simp [hf.2] at hC
        exact ⟨hf.1, by simpa [hd] using hf.2⟩
  kept := by
    intro d D hD
    by_cases hd : d = c
    · subst hd
      obtain rfl : ({ C with node := n } : Chan) = D := by simpa using hD
      exact hkept
    · exact h.kept (c := d) (by simpa [hd] using hD)
  pending := by
    intro q Q d D hQ hD
    by_cases hd : d = c
    · subst hd
      obtain rfl : ({ C with node := n } : Chan) = D := by simpa using hD
      by_cases hq : q = p
      · subst hq
        obtain rfl : ({ P with pendingList := l } : Port) = Q := by simpa using hQ
        exact hself
      · exact (h.pending (p := q) (by simpa [hq] using hQ) hC).trans (hnode q hq).symm
    · have hD' : s.chans d = some D := by simpa [hd] using hD
      by_cases hq : q = p
      · subst hq
        obtain rfl : ({ P with pendingList := l } : Port) = Q := by simpa using hQ
        exact (hothers d hd).trans (h.pending hP hD')
      · exact h.pending (by simpa [hq] using hQ) hD'
  pendingNodup := by
    intro q Q hQ
    by_cases hq : q = p
    · subst hq
      obtain rfl : ({ P with pendingList := l } : Port) = Q := by simpa using hQ
      exact hl
    · exact h.pendingNodup (p := q) (by simpa [hq] using hQ)
  pendingOld := by
    intro q Q d hQ hd
    by_cases hdc : d = c
    · subst hdc
      by_contra hold
      simp [h.freshChan (Nat.le_of_not_lt hold)] at hC
    · by_cases hq : q = p
      · subst hq
        obtain rfl : ({ P with pendingList := l } : Port) = Q := by simpa using hQ
        exact h.pendingOld hP ((hothers d hdc).mp hd)
      · exact h.pendingOld (p := q) (by simpa [hq] using hQ) hd
  pendingPort := by
    intro d D q hD hn
    by_cases hd : d = c
    · subst hd
      obtain rfl : ({ C with node := n } : Chan) = D := by simpa using hD
      by_cases hq : q = p
      · subst hq
        by_contra hold
        simp [h.freshPort (Nat.le_of_not_lt hold)] at hP
      · exact h.pendingPort hC ((hnode q hq).mp hn)
    · exact h.pendingPort (c := d) (by simpa [hd] using hD) hn
  listed := by
    intro q Q hQ
    by_cases hq : q = p
    · subst hq
      obtain rfl : ({ P with pendingList := l } : Port) = Q := by simpa using hQ
      intro hn
      exact h.listed hP hn
    · exact h.listed (p := q) (by simpa [hq] using hQ)
  freshChan := by
    intro d hd
    have hnone := h.freshChan hd
    have hdc : d ≠ c := by
      rintro rfl
      simp [hnone] at hC
    simpa [hdc] using hnone
  freshPort := by
    intro q hq
    have hnone := h.freshPort hq
    have hqp : q ≠ p := by
      rintro rfl
      simp [hnone] at hP
    simpa [hqp] using hnone

theorem Balanced.setWaiting (h : Balanced r F s) (l : List ChanId) :
    Balanced r F (s.setWaiting l) :=
  { h with refs := h.refs }

theorem Balanced.setListed (h : Balanced r F s) {l : List PortId}
    (hl : ∀ p P, s.ports p = some P → P.node = true → p ∈ l) : Balanced r F (s.setListed l) :=
  { h with
    refs := h.refs
    listed := fun hP hn => hl _ _ hP hn }

theorem Balanced.log (h : Balanced r F s) (e : Event) : Balanced r F (s.log e) :=
  { h with refs := h.refs }

/-! ## The primitives -/

/-- Neither the place of a channel, nor its references, nor those to it change. -/
structure Quiet (C C' : Chan) : Prop where
  refobj : C'.refobj = C.refobj
  refcnt : C'.handle.refcnt = C.handle.refcnt
  node : C'.node = C.node
  state : C'.state = C.state ∨ C'.state ≠ .accepting ∧ C'.state ≠ .waitingForPort

/-- The same of all channels, and the ports stay as they are. -/
structure Steady (s t : Registry) : Prop where
  ports : t.ports = s.ports
  chan : ∀ {c C}, t.chans c = some C → ∃ C₀, s.chans c = some C₀ ∧ C.node = C₀.node ∧
    (C.state = C₀.state ∨ C.state ≠ .accepting ∧ C.state ≠ .waitingForPort)

/-- The channel is in no pending list. -/
def Registry.NotPending (s : Registry) (c : ChanId) : Prop :=
  ∀ C, s.chans c = some C → ∀ p, C.node ≠ some (.pending p)

def Registry.NotWaiting (s : Registry) (c : ChanId) : Prop :=
  ∀ C, s.chans c = some C → C.state ≠ .waitingForPort

theorem Steady.refl (s : Registry) : Steady s s :=
  ⟨rfl, fun hC => ⟨_, hC, rfl, Or.inl rfl⟩⟩

theorem Steady.trans {u : Registry} (h : Steady s t) (h' : Steady t u) : Steady s u where
  ports := h'.ports.trans h.ports
  chan := by
    intro c C hC
    obtain ⟨C₁, hC₁, hnode₁, hst₁⟩ := h'.chan hC
    obtain ⟨C₀, hC₀, hnode₀, hst₀⟩ := h.chan hC₁
    refine ⟨C₀, hC₀, hnode₁.trans hnode₀, ?_⟩
    rcases hst₁ with hst₁ | hst₁
    · rw [hst₁]
      exact hst₀
    · exact Or.inr hst₁

theorem Steady.notPending (h : Steady s t) (hn : s.NotPending c) : t.NotPending c := by
  intro C hC
  obtain ⟨C₀, hC₀, hnode, -⟩ := h.chan hC
  rw [hnode]
  exact hn C₀ hC₀

theorem Steady.notWaiting (h : Steady s t) (hn : s.NotWaiting c) : t.NotWaiting c := by
  intro C hC
  obtain ⟨C₀, hC₀, -, hst | hst⟩ := h.chan hC
  · rw [hst]
    exact hn C₀ hC₀
  · exact hst.2

theorem Steady.setChan (hC : s.chans c = some C) (hnode : C'.node = C.node)
    (hst : C'.state = C.state ∨ C'.state ≠ .accepting ∧ C'.state ≠ .waitingForPort) :
    Steady s (s.setChan c C') where
  ports := rfl
  chan := by
    intro d D hD
    by_cases hd : d = c
    · subst hd
      obtain rfl : C' = D := by simpa using hD
      exact ⟨C, hC, hnode, hst⟩
    · exact ⟨D, by simpa [hd] using hD, rfl, Or.inl rfl⟩

theorem Steady.freeChan (s : Registry) (c : ChanId) : Steady s (s.freeChan c) where
  ports := rfl
  chan := by
    intro d D hD
    by_cases hd : d = c
    · simp [hd] at hD
    · exact ⟨D, by simpa [hd] using hD, rfl, Or.inl rfl⟩

theorem Balanced.wp_modifyChan (h : Balanced r F s) {f : Chan → Chan} (hf : ∀ C, Quiet C (f C)) :
    wp (modifyChan c f) (fun _ t => Balanced r F t ∧ Steady s t) anyStop s := by
  rw [Ipc.wp_modifyChan]
  cases hC : s.chans c with
  | none => trivial
  | some C =>
      obtain ⟨hrefs, hcnt, hnode, hst⟩ := hf C
      refine ⟨h.setChan_same hC ((h.kept hC).congr hrefs hcnt hnode (hst.imp_right And.right)) ?_
        hcnt, Steady.setChan hC hnode hst⟩
      intro p
      rw [hnode]

theorem Balanced.wp_handleNotify (h : Balanced r F s) (x : HandlePtr) :
    wp (handleNotify x) (fun _ t => Balanced r F t ∧ t = s) anyStop s := by
  cases x with
  | chan c =>
      rw [Ipc.wp_handleNotify_chan]
      cases s.chans c with
      | none => trivial
      | some C => exact ⟨h, rfl⟩
  | port p =>
      rw [Ipc.wp_handleNotify_port]
      cases s.ports p with
      | none => trivial
      | some P => exact ⟨h, rfl⟩

theorem Balanced.wp_chanAddRef (h : Balanced r F s) (ref : ObjRef) :
    wp (chanAddRef c ref) (fun _ t => Balanced r F t ∧ Steady s t) anyStop s := by
  rw [Ipc.wp_chanAddRef]
  cases hC : s.chans c with
  | none => trivial
  | some C =>
      simp only [Option.elim_some]
      split
      · trivial
      · have hk := h.kept hC
        refine ⟨h.setChan_same hC ⟨Finset.insert_nonempty _ _, ?_, hk.waiting⟩
          (fun _ => Iff.rfl) rfl, Steady.setChan hC rfl (Or.inl rfl)⟩
        intro hne
        exact Finset.mem_insert_of_mem (hk.handle hne)

/-- The handle's own reference goes after the references to the handle. -/
theorem Balanced.wp_chanDelRef (h : Balanced r F s) {ref : ObjRef}
    (hzero : ref = .handle → r (.chan c) = 0) :
    wp (chanDelRef c ref) (fun _ t => Balanced r F t ∧ Steady s t) anyStop s := by
  rw [Ipc.wp_chanDelRef]
  cases hC : s.chans c with
  | none => trivial
  | some C =>
      have hk := h.kept hC
      have hcnt := h.chan_ref hC
      simp only [Option.elim_some]
      split
      · trivial
      split
      · rename_i hempty
        split
        · trivial
        split
        · trivial
        · -- nothing but this reference was left
          have hr : r (.chan c) = 0 := by
            by_cases href : ref = .handle
            · exact hzero href
            · by_contra hne
              rw [hcnt] at hne
              have hmem : ObjRef.handle ∈ C.refobj.erase ref :=
                Finset.mem_erase.mpr ⟨Ne.symm href, hk.handle hne⟩
              simp [hempty] at hmem
          rw [Registry.freeChan_setChan]
          exact ⟨h.freeChan hr, Steady.freeChan s c⟩
      · rename_i hne
        refine ⟨h.setChan_same hC ⟨Finset.nonempty_iff_ne_empty.mpr hne, ?_, hk.waiting⟩
          (fun _ => Iff.rfl) rfl, Steady.setChan hC rfl (Or.inl rfl)⟩
        intro hpos
        refine Finset.mem_erase.mpr ⟨?_, hk.handle hpos⟩
        intro href
        exact hpos (hcnt ▸ hzero href.symm)

theorem Balanced.wp_modifyPort (h : Balanced r F s) {f : Port → Port}
    (hf : ∀ P, s.ports p = some P → (f P).pendingList = P.pendingList ∧
      ((f P).node = true → p ∈ s.ipcPortList) ∧
      (f P).handle.refcnt - (f P).ownRefs = P.handle.refcnt - P.ownRefs) :
    wp (modifyPort p f) (fun _ t => Balanced r F t) anyStop s := by
  rw [Ipc.wp_modifyPort]
  cases hP : s.ports p with
  | none => trivial
  | some P =>
      obtain ⟨hpending, hlisted, hown⟩ := hf P hP
      have hset := h.setPort hP hpending hlisted
      rwa [hown, Int.sub_self, bump_zero] at hset

theorem Balanced.addRefs (h : Balanced r F s) (hP : s.ports p = some P) (k : Int) :
    Balanced (bump r (.port p) k) F
      (s.setPort p { P with handle := { P.handle with refcnt := P.handle.refcnt + k } }) := by
  have hset := h.setPort hP (M := { P with
    handle := { P.handle with refcnt := P.handle.refcnt + k } }) rfl fun hn => h.listed hP hn
  have hk : (P.handle.refcnt + k - P.ownRefs) - (P.handle.refcnt - P.ownRefs) = k := by omega
  have hset' : Balanced (bump r (.port p)
      ((P.handle.refcnt + k - P.ownRefs) - (P.handle.refcnt - P.ownRefs))) F _ := hset
  rwa [hk] at hset'

theorem Balanced.wp_handleIncref_port (h : Balanced r F s) :
    wp (handleIncref (.port p)) (fun _ t => Balanced (bump r (.port p) 1) F t) anyStop s := by
  rw [handleIncref, Ipc.wp_modifyPort]
  cases hP : s.ports p with
  | none => trivial
  | some P => exact h.addRefs hP 1

/-- A reference held outside is dropped; with the last one the port goes. -/
theorem Balanced.wp_handleDecref_port (h : Balanced r F s) (hpos : 1 ≤ r (.port p)) :
    wp (handleDecref (.port p)) (fun _ t => Balanced (bump r (.port p) (-1)) F t ∧
      t.chans = s.chans ∧
      ∀ P, s.ports p = some P → ∀ P', t.ports p = some P' → P'.pendingList = P.pendingList)
      anyStop s := by
  rw [Ipc.wp_handleDecref_port]
  cases hP : s.ports p with
  | none => trivial
  | some P =>
      have hset := h.addRefs hP (-1)
      have hown := h.port_ref hP
      have hnonneg := Port.ownRefs_nonneg P
      simp only [Option.elim_some]
      split
      · rename_i hlast
        rw [Registry.freePort_setPort]
        have hfree := hset.freePort (p := p)
        rw [Registry.freePort_setPort] at hfree
        refine ⟨hfree ?_, rfl, ?_⟩
        · simp only [bump, Function.update_self]
          omega
        · intro Q hQ Q' hQ'
          simp at hQ'
      · refine ⟨hset, rfl, ?_⟩
        intro Q hQ Q' hQ'
        cases hQ
        obtain rfl := Option.some.inj ((if_pos rfl).symm.trans
          (Registry.setPort_ports.symm.trans hQ'))
        rfl

/-- A channel that is not pending leaves its list. -/
theorem Balanced.wp_listDelete (h : Balanced r F s)
    (hn : s.NotPending c) :
    wp (listDelete c) (fun _ t => Balanced r F t ∧ t.ports = s.ports) anyStop s := by
  rw [Ipc.wp_listDelete]
  cases hC : s.chans c with
  | none => trivial
  | some C =>
      have hk := h.kept hC
      have hnp := hn C hC
      simp only [Option.elim_some]
      cases hnode : C.node with
      | none => trivial
      | some l =>
          cases l with
          | waitingForPort =>
              refine ⟨(h.setWaiting _).setChan_same hC ⟨hk.refobj, hk.handle, ?_⟩ ?_ rfl,
                rfl⟩
              · simp
              · simp [hnode]
          | pending p => exact absurd hnode (hnp p)

/-- A pending channel leaves the list of its port. -/
theorem Balanced.wp_listDelete_pending (h : Balanced r F s) {P : Port} (hP : s.ports p = some P)
    (hmem : c ∈ P.pendingList) :
    wp (listDelete c) (fun _ t => Balanced (bump r (.port p) 1) F t ∧
      t.ports p = some { P with pendingList := P.pendingList.erase c } ∧
      ∀ d D, t.chans d = some D → ∃ D₀, s.chans d = some D₀ ∧ D.state = D₀.state) anyStop s := by
  rw [Ipc.wp_listDelete]
  cases hC : s.chans c with
  | none => trivial
  | some C =>
      have hk := h.kept hC
      have hnode : C.node = some (.pending p) := (h.pending hP hC).mp hmem
      have hnodup := h.pendingNodup hP
      have hlen : (P.pendingList.length : Int) - (P.pendingList.erase c).length = 1 := by
        have := List.length_pos_of_mem hmem
        rw [List.length_erase_of_mem hmem]
        omega
      have hrelist := h.relist hC hP (l := P.pendingList.erase c) (n := none)
        ⟨hk.refobj, hk.handle, by simp⟩ (hnodup.erase c)
        (fun d hd => List.mem_erase_of_ne hd)
        (iff_of_false hnodup.not_mem_erase (by simp)) ?_
      · rw [hlen] at hrelist
        simp only [Option.elim_some, hnode, hP]
        refine ⟨hrelist, by simp, ?_⟩
        intro d D hD
        by_cases hd : d = c
        · subst hd
          obtain rfl : ({ C with node := none } : Chan) = D := by simpa using hD
          exact ⟨C, hC, rfl⟩
        · exact ⟨D, by simpa [hd] using hD, rfl⟩
      · intro q hq
        simp [hnode, Ne.symm hq]

/-- A channel becomes pending. -/
theorem Balanced.wp_listAddTail_pending (h : Balanced r F s)
    (hst : s.NotWaiting c) :
    wp (listAddTail (.pending p) c) (fun _ t => Balanced (bump r (.port p) (-1)) F t)
      anyStop s := by
  simp only [listAddTail, wp_bind, wp_getChan, wp_ite, wp_throw, Ipc.wp_modifyChan]
  cases hC : s.chans c with
  | none => trivial
  | some C =>
      have hk := h.kept hC
      simp only [Option.elim_some]
      split
      · trivial
      · rename_i hnone
        have hnode : C.node = none := by simpa using hnone
        rw [Ipc.wp_modifyPort]
        cases hP : s.ports p with
        | none =>
            rw [Registry.setChan_ports, hP]
            trivial
        | some P =>
            have hnot : c ∉ P.pendingList := by
              intro hm
              have := (h.pending hP hC).mp hm
              simp [hnode] at this
            have hrelist := h.relist hC hP (l := P.pendingList ++ [c]) (n := some (.pending p))
              ⟨hk.refobj, hk.handle, fun hs => absurd hs (hst C hC)⟩
              (List.nodup_append.mpr ⟨h.pendingNodup hP, List.nodup_singleton _, ?_⟩) ?_ ?_ ?_
            · have hlen : (P.pendingList.length : Int) - (P.pendingList ++ [c]).length = -1 := by
                simp
              rw [hlen] at hrelist
              rw [Registry.setChan_ports, hP, Option.elim_some]
              exact hrelist
            · intro a ha b hb
              rw [List.mem_singleton.mp hb]
              rintro rfl
              exact hnot ha
            · intro d hd
              simp [hd]
            · simp
            · intro q hq
              simp [hnode, Ne.symm hq]

/-- A channel begins to wait. -/
theorem Balanced.wp_listAddTail_waiting (h : Balanced r F s) :
    wp (listAddTail .waitingForPort c) (fun _ t => Balanced r F t) anyStop s := by
  simp only [listAddTail, wp_bind, wp_getChan, wp_ite, wp_throw, Ipc.wp_modifyChan, wp_modify]
  cases hC : s.chans c with
  | none => trivial
  | some C =>
      have hk := h.kept hC
      simp only [Option.elim_some]
      split
      · trivial
      · rename_i hnone
        have hnode : C.node = none := by simpa using hnone
        have hset : Balanced r F (s.setChan c { C with node := some .waitingForPort }) := by
          refine h.setChan_same hC ⟨hk.refobj, hk.handle, ?_⟩ ?_ rfl
          · simp
          · simp [hnode]
        exact hset.setWaiting _

theorem Balanced.wp_handleIncref_chan (h : Balanced r F s) (hpos : r (.chan c) ≠ 0) :
    wp (handleIncref (.chan c)) (fun _ t => Balanced (bump r (.chan c) 1) F t) anyStop s := by
  rw [handleIncref, Ipc.wp_modifyChan]
  cases hC : s.chans c with
  | none => trivial
  | some C =>
      have hk := h.kept hC
      rw [h.chan_ref hC] at hpos
      have hset := h.setChan hC (N := { C with
        handle := { C.handle with refcnt := C.handle.refcnt + 1 } })
        ⟨hk.refobj, fun _ => hk.handle hpos, hk.waiting⟩ (fun _ => Iff.rfl)
      have hone : C.handle.refcnt + 1 - C.handle.refcnt = 1 := by omega
      have hset' : Balanced (bump r (.chan c) (C.handle.refcnt + 1 - C.handle.refcnt)) F _ := hset
      rwa [hone] at hset'

theorem Balanced.wp_handleDecref_chan (h : Balanced r F s) (hpos : r (.chan c) ≠ 0) :
    wp (handleDecref (.chan c)) (fun _ t => Balanced (bump r (.chan c) (-1)) F t) anyStop s := by
  simp only [handleDecref, wp_bind, wp_getChan, Ipc.wp_modifyChan, wp_ite, wp_pure]
  cases hC : s.chans c with
  | none => trivial
  | some C =>
      have hk := h.kept hC
      have hcnt := h.chan_ref hC
      rw [hcnt] at hpos
      have hset := h.setChan hC (N := { C with
        handle := { C.handle with refcnt := C.handle.refcnt - 1 } })
        ⟨hk.refobj, fun _ => hk.handle hpos, hk.waiting⟩ (fun _ => Iff.rfl)
      have hone : C.handle.refcnt - 1 - C.handle.refcnt = -1 := by omega
      have hset' : Balanced (bump r (.chan c) (C.handle.refcnt - 1 - C.handle.refcnt)) F _ := hset
      rw [hone] at hset'
      simp only [Option.elim_some]
      split
      · rename_i hlast
        refine wp_conseq (hset'.wp_chanDelRef ?_) fun _ _ ht => ht.1
        intro _
        simp [bump, hcnt, hlast]
      · exact hset'

/-- The handle of a channel is made, with the reference of the caller. -/
theorem Balanced.wp_chanHandleInit (h : Balanced r F s) (hzero : r (.chan c) = 0) :
    wp (chanHandleInit c) (fun _ t => Balanced (bump r (.chan c) 1) F t) anyStop s := by
  simp only [chanHandleInit, wp_bind, Ipc.wp_modifyChan, Ipc.wp_chanAddRef]
  cases hC : s.chans c with
  | none => trivial
  | some C =>
      have hk := h.kept hC
      have hcnt := h.chan_ref hC
      simp only [Option.elim_some, Registry.setChan_chans, if_true, Registry.setChan_setChan]
      split
      · trivial
      · have hset := h.setChan hC (N := { C with
          handle := .init, refobj := insert .handle C.refobj })
          ⟨Finset.insert_nonempty _ _, fun _ => Finset.mem_insert_self _ _, hk.waiting⟩
          (fun _ => Iff.rfl)
        have hone : Handle.init.refcnt - C.handle.refcnt = 1 := by
          rw [← hcnt, hzero]
          rfl
        have hset' : Balanced (bump r (.chan c) (Handle.init.refcnt - C.handle.refcnt)) F _ := hset
        rwa [hone] at hset'

/-- A new channel has no handle yet. -/
theorem Balanced.wp_chanAlloc (h : Balanced r F s) (flags : UInt32) (uuid : Option Uuid)
    (alloc : Bool) :
    wp (chanAlloc flags uuid alloc) (fun o t => Balanced r F t ∧ ∀ d, o = some d →
      r (.chan d) = 0 ∧ t.chans d = some (newChan flags uuid)) anyStop s := by
  simp only [chanAlloc, wp_ite, wp_pure, wp_bind, wp_get, wp_set]
  have hfresh := h.freshChan (c := s.nextChan) (Nat.le_refl _)
  have hzero : r (.chan s.nextChan) = 0 := by
    rw [← h.refs]
    simp [Registry.handleRefs, hfresh]
  split
  · exact ⟨h, fun d hd => by cases hd⟩
  · refine ⟨?_, ?_⟩
    · refine { h with
        refs := ?_, freed := ?_, kept := ?_, pending := ?_, pendingOld := ?_, pendingPort := ?_
        freshChan := ?_ }
      · funext x
        cases x with
        | chan d =>
            by_cases hd : d = s.nextChan
            · subst hd
              simp [Registry.handleRefs, hzero, newChan]
            · simp [Registry.handleRefs, hd, ← h.refs]
        | port q => simp [Registry.handleRefs, ← h.refs]
      · intro x hx
        have hf := h.freed x hx
        cases x with
        | chan d =>
            have hd : d ≠ s.nextChan := Nat.ne_of_lt hf.1
            exact ⟨Nat.lt_succ_of_lt hf.1, by simpa [hd] using hf.2⟩
        | port q => exact hf
      · intro d D hD
        by_cases hd : d = s.nextChan
        · subst hd
          obtain rfl : newChan flags uuid = D := by simpa using hD
          exact ⟨⟨.tmp, by simp [newChan]⟩, by simp [newChan], by simp [newChan]⟩
        · exact h.kept (c := d) (by simpa [hd] using hD)
      · intro q Q d D hQ hD
        by_cases hd : d = s.nextChan
        · subst hd
          obtain rfl : newChan flags uuid = D := by simpa using hD
          have hnot : s.nextChan ∉ Q.pendingList := by
            intro hm
            exact absurd (h.pendingOld hQ hm) (Nat.lt_irrefl _)
          simp [hnot, newChan]
        · exact h.pending hQ (by simpa [hd] using hD)
      · intro q Q d hQ hd
        exact Nat.lt_succ_of_lt (h.pendingOld hQ hd)
      · intro d D q hD hn
        by_cases hd : d = s.nextChan
        · subst hd
          obtain rfl : newChan flags uuid = D := by simpa using hD
          simp [newChan] at hn
        · exact h.pendingPort (c := d) (by simpa [hd] using hD) hn
      · intro d hd
        have hne : d ≠ s.nextChan := Nat.ne_of_gt hd
        have hd' : s.nextChan ≤ d := Nat.le_of_succ_le hd
        simpa [hne] using h.freshChan hd'
    · intro d hd
      cases hd
      exact ⟨hzero, by simp⟩

end

end TX2SecureUart.Ipc
