/-
# `Ipc.Holder` — the operations, for a caller that keeps count

A kernel component that holds channels counts its references itself.  Each
operation it uses is one of the ledger, and what the ledger says of it is
stated here on the registry.
-/
import TX2SecureUart.Ipc.Ledger

namespace TX2SecureUart.Ipc

open Prog

section

variable {α : Type} {reg : Registry} {refs : HandlePtr → Nat} {c : ChanId} {C : Chan}

theorem wp_keeping_iff {m : IpcM α} {note : α → (HandlePtr → Nat) → HandlePtr → Nat}
    {Q : Unit → Ledger → Prop} {E : Fault → Ledger → Prop} :
    wp (keeping m note) Q E ⟨reg, refs⟩ ↔
      wp m (fun a t => Q () ⟨t, note a refs⟩) (fun e t => E e ⟨t, refs⟩) reg := by
  rw [keeping, wp_bind, onReg, wp_zoom]
  rfl

/-- Who may act on fewer references may act on more. -/
theorem Action.Entered.mono {refs' : HandlePtr → Nat} {a : Action} (h : a.Entered ⟨reg, refs⟩)
    (hle : ∀ x, refs x ≤ refs' x) : a.Entered ⟨reg, refs'⟩ := by
  cases a with
  | create | connect => trivial
  | publish env p => exact Nat.lt_of_lt_of_le h (hle _)
  | accept handle | message handle call =>
      intro x hx
      exact Nat.lt_of_lt_of_le (h x hx) (hle x)
  | incref handle | shutdown handle => exact Nat.lt_of_lt_of_le h (hle _)
  | decref handle => exact ⟨Nat.lt_of_lt_of_le h.1 (hle _), h.2⟩

/-- What an action leaves behind is in the books. -/
theorem Booked.wp_noted (h : Booked ⟨reg, refs⟩) {a : Action} (hen : a.Entered ⟨reg, refs⟩)
    (m : IpcM α) (note : α → (HandlePtr → Nat) → HandlePtr → Nat) (hkeep : a.keep = keeping m note) :
    wp m (fun b t => Booked ⟨t, note b refs⟩) anyStop reg := by
  have hwp := h.wp_keep hen
  rw [hkeep, wp_keeping_iff] at hwp
  exact wp_mono hwp (fun _ _ ht => ht.1) fun _ _ _ => trivial

theorem Booked.wp_connect (h : Booked ⟨reg, refs⟩) (env : Env) (guest : UInt32)
    (cid : Option Uuid) (path : Path) (maxPath : Nat) (flags : UInt32) :
    wp (ipcPortConnectAsync env guest cid path maxPath flags)
      (fun ret t => Booked ⟨t, enter refs (ret.2.map .chan)⟩) anyStop reg :=
  h.wp_noted (a := .connect env guest cid path maxPath flags) trivial
    (ipcPortConnectAsync env guest cid path maxPath flags)
    (fun ret refs => enter refs (ret.2.map .chan)) rfl

theorem Booked.wp_incref (h : Booked ⟨reg, refs⟩) (hpos : 0 < refs (.chan c)) :
    wp (handleIncref (.chan c)) (fun _ t => Booked ⟨t, enter refs (some (.chan c))⟩) anyStop reg :=
  h.wp_noted (a := .incref (.chan c)) hpos _ (fun _ refs => enter refs (some (.chan c))) rfl

/-- A reference is dropped that is not the last one. -/
theorem Booked.wp_decref (h : Booked ⟨reg, refs⟩) (htwo : 2 ≤ refs (.chan c)) :
    wp (handleDecref (.chan c)) (fun _ t => Booked ⟨t, strike refs (.chan c)⟩) anyStop reg := by
  refine h.wp_noted (a := .decref (.chan c)) ⟨Nat.lt_of_lt_of_le Nat.two_pos htwo, ?_⟩ _
    (fun _ refs => strike refs (.chan c)) rfl
  intro C hC hlast
  have hcount : C.handle.refcnt = refs (.chan c) := h.chan_refcnt hC
  omega

/-- `handle_close` -/
theorem Booked.wp_close (h : Booked ⟨reg, refs⟩) (hpos : 0 < refs (.chan c)) :
    wp (do handleShutdown (.chan c); handleDecref (.chan c))
      (fun _ t => Booked ⟨t, strike refs (.chan c)⟩) anyStop reg := by
  have hlive : 0 < (⟨reg, refs⟩ : Ledger).refs (.chan c) := hpos
  obtain ⟨C, hC, hone⟩ := h.held hlive
  have hvalid := (h.inv.chan hC).valid hone
  have hshut : wp (handleShutdown (.chan c)) (fun _ t => Booked ⟨t, refs⟩) anyStop reg :=
    h.wp_noted (a := .shutdown (.chan c)) hpos _ (fun _ refs => refs) rfl
  have hclosed : wp (handleShutdown (.chan c)) (fun _ t => ShutDown reg t c C) anyStop reg :=
    wp_mono (h.inv.wp_chanShutdownLocked hC) (fun _ _ ht => ht.2) fun _ _ _ => trivial
  refine wp_seq (wp_mono (wp_and hshut hclosed) (fun _ _ ht => ht) fun _ _ _ => trivial) ?_
  rintro _ t ⟨ht, hdown⟩
  obtain ⟨C', hC', hpeer, -, hstate, -⟩ := hdown.self
  refine ht.wp_noted (a := .decref (.chan c)) ⟨hpos, ?_⟩ _ (fun _ refs => strike refs (.chan c)) rfl
  intro D hD _
  obtain rfl : C' = D := Option.some.inj (hC'.symm.trans hD)
  exact ⟨hstate hvalid, hpeer⟩

theorem Booked.wp_message (h : Booked ⟨reg, refs⟩) (hpos : 0 < refs (.chan c)) (call : MsgCall) :
    wp (call.run (some (.chan c))) (fun _ t => Booked ⟨t, refs⟩) anyStop reg := by
  refine h.wp_noted (a := .message (some (.chan c)) call) ?_ _ (fun _ refs => refs) rfl
  intro x hx
  cases hx
  exact hpos

/-- Whoever runs an action changes no counts but of the handle it drops, and
drops no more than one reference. -/
theorem Booked.wp_action (h : Booked ⟨reg, refs⟩) {a : Action} (hen : a.Entered ⟨reg, refs⟩) :
    wp a.run (fun _ t => ∃ refs', Booked ⟨t, refs'⟩ ∧
      ((∀ x, refs x ≤ refs' x) ∨ ∃ x, a = .decref x ∧ refs' = strike refs x)) anyStop reg := by
  have henter : ∀ o x, refs x ≤ enter refs o x := by
    intro o x
    cases o with
    | none => exact Nat.le_refl _
    | some y =>
        by_cases hx : x = y
        · subst hx
          simp [enter]
        · simp [enter, hx]
  cases a with
  | create env sid path numRecvBufs recvBufSize flags =>
      refine (wp_map _ _).mpr (wp_conseq (h.wp_noted hen _
        (fun ret refs => enter refs (ret.2.map .port)) rfl) ?_)
      intro ret t ht
      exact ⟨_, ht, Or.inl (henter _)⟩
  | publish env p =>
      refine (wp_map _ _).mpr (wp_conseq (h.wp_noted hen _ (fun _ refs => refs) rfl) ?_)
      intro ret t ht
      exact ⟨_, ht, Or.inl fun _ => Nat.le_refl _⟩
  | connect env guest cid path maxPath flags =>
      refine (wp_map _ _).mpr (wp_conseq (h.wp_noted hen _
        (fun ret refs => enter refs (ret.2.map .chan)) rfl) ?_)
      intro ret t ht
      exact ⟨_, ht, Or.inl (henter _)⟩
  | accept handle =>
      refine (wp_map _ _).mpr (wp_conseq (h.wp_noted hen _
        (fun ret refs => enter refs (ret.2.map fun x => .chan x.1)) rfl) ?_)
      intro ret t ht
      exact ⟨_, ht, Or.inl (henter _)⟩
  | incref handle =>
      refine wp_conseq (h.wp_noted hen _ (fun _ refs => enter refs (some handle)) rfl) ?_
      intro ret t ht
      exact ⟨_, ht, Or.inl (henter _)⟩
  | shutdown handle =>
      refine wp_conseq (h.wp_noted hen _ (fun _ refs => refs) rfl) ?_
      intro ret t ht
      exact ⟨_, ht, Or.inl fun _ => Nat.le_refl _⟩
  | decref handle =>
      refine wp_conseq (h.wp_noted hen _ (fun _ refs => strike refs handle) rfl) ?_
      intro ret t ht
      exact ⟨_, ht, Or.inr ⟨handle, rfl, rfl⟩⟩
  | message handle call =>
      refine (wp_map _ _).mpr (wp_conseq (h.wp_noted hen _ (fun _ refs => refs) rfl) ?_)
      intro ret t ht
      exact ⟨_, ht, Or.inl fun _ => Nat.le_refl _⟩

end

end TX2SecureUart.Ipc
