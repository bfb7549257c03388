/-
# `Ipc.Meanwhile` — what everybody else does while a call is under way

A call has references of its own; everybody else uses the IPC layer with theirs,
and it is the same to them whether the call is there or not.  Nobody gets hold of
a channel that only the call has a handle of: a handle comes from making the
channel, from accepting it, or from somebody who has one.
-/
import TX2SecureUart.Ipc.Fade
import TX2SecureUart.Ipc.Holder
import Mathlib

namespace TX2SecureUart.Ipc

open Prog

/-- What others do between two steps of a call, all together. -/
structure Meanwhile where
  run : Ledger → Ledger
  steps : ∀ L, Relation.ReflTransGen (ledger.Step anyEntry) L (run L)

/-- Nothing happens. -/
def Meanwhile.idle : Meanwhile := ⟨fun L => L, fun _ => Relation.ReflTransGen.refl⟩

/-- The connection that `ipc_port_accept` takes, if it takes one. -/
def Registry.nextPending (s : Registry) : HandlePtr → Option ChanId
  | .chan _ => none
  | .port p => (s.ports p).bind fun P =>
      if P.state = .listening then P.pendingList.head? else none

/-- The hook answers `NO_ERROR` or an error. -/
def Env.HookErrs (env : Env) : Prop := ∀ c guest peer, env.hypCheck c guest peer ≤ 0

/-- What `ipc_port_connect_async` comes to: a call that fails has left no channel,
one that succeeds returns the channel it made. -/
inductive Makes (env : Env) (s : Registry) (ret : Int × Option ChanId) (t : Registry) : Prop where
  | fails (code : ret.1 ≠ noError) (nothing : ret.2 = none) (gone : t.chans s.nextChan = none)
      (error : env.HookErrs → ret.1 < 0)
  | returns (chan : ret = (noError, some s.nextChan))

/-- What `ipc_port_accept` comes to: a call that fails has shut down the connection
it took, if it took one; one that succeeds returns the connection it took, which
nobody had a handle of. -/
inductive Takes (s : Registry) (x : HandlePtr) (ret : Int × Option (ChanId × Option Uuid))
    (t : Registry) : Prop where
  | fails (error : ret.1 < 0) (nothing : ret.2 = none)
      (shut : ∀ c, s.nextPending x = some c → t.Shut c)
  | returns (c : ChanId) (uuid : Option Uuid) (C : Chan)
      (chan : ret = (noError, some (c, uuid))) (next : s.nextPending x = some c)
      (live : s.chans c = some C) (state : C.state = .accepting)

section

variable {O : ChanId → Prop} {reg : Registry} {refs mine : HandlePtr → Nat} {c : ChanId}
  {x y : HandlePtr} {env : Env} {guest : UInt32} {cid : Option Uuid} {path : Path} {maxPath : Nat}
  {flags : UInt32}

/-! ## The channel that is made -/

theorem wp_portAttachClient_nonpos {p : PortId} :
    wp (portAttachClient env p c) (fun r _ => r ≤ 0) anyStop reg := by
  simp only [portAttachClient, wp_bind, wp_getPort]
  cases reg.ports p with
  | none => trivial
  | some P =>
      simp only [Option.elim_some, wp_ite, wp_pure, wp_bind, wp_getChan]
      split
      · exact (by decide : errNotReady ≤ 0)
      cases reg.chans c with
      | none => trivial
      | some C =>
          rw [Option.elim_some]
          split
          · unfold checkAccess
            split
            · exact (by decide : errAccessDenied ≤ 0)
            · split <;> decide
            · split <;> decide
          refine wp_conseq (wp_any _ _) ?_
          intro o t _
          cases o with
          | none => exact (by decide : errNoMemory ≤ 0)
          | some server =>
              rw [wp_ite]
              split
              · refine wp_seq (wp_any _ _) ?_
                intro _ u _
                rw [wp_ite]
                split
                · refine wp_seq (wp_any _ _) ?_
                  intro _ v _
                  refine wp_seq (wp_any _ _) ?_
                  intro _ w _
                  exact wp_seq (wp_any _ _) fun _ _ _ => Int.le_refl 0
                · refine wp_seq (wp_any _ _) ?_
                  intro _ v _
                  exact wp_seq (wp_any _ _) fun _ _ _ => (by decide : errNoMemory ≤ 0)
              · exact wp_seq (wp_any _ _) fun _ _ _ => (by decide : errNoMemory ≤ 0)

theorem Inv.wp_attachOrWait_nonpos (h : Inv (· = c) O reg) :
    wp (attachOrWait env guest path flags c) (fun r _ => env.HookErrs → r ≤ 0) anyStop reg := by
  simp only [attachOrWait, wp_bind]
  rw [h.lists.wp_portFindLocked]
  cases reg.findPort path with
  | some p =>
      simp only [wp_bind, wp_getPort]
      cases reg.ports p with
      | none => trivial
      | some P =>
          simp only [Option.elim_some, trustyHypCheckGuestAccess, wp_bind, wp_modify, wp_pure,
            wp_ite]
          split
          · intro hhook
            exact hhook c guest P.uuid
          · refine wp_conseq (wp_any _ _) ?_
            intro _ t _
            exact wp_conseq wp_portAttachClient_nonpos fun _ _ hr _ => hr
  | none =>
      simp only [wp_ite, wp_pure]
      split
      · exact fun _ => (by decide : errNotFound ≤ 0)
      split
      · exact fun _ => (by decide : errNoMemory ≤ 0)
      · refine wp_seq (wp_any _ _) fun _ _ _ => wp_seq (wp_any _ _) fun _ _ _ => ?_
        refine wp_seq (wp_any _ _) fun _ _ _ => wp_seq (wp_any _ _) fun _ _ _ => ?_
        exact fun _ => Int.le_refl 0

theorem Inv.wp_ipcPortConnectAsync_made (h : Inv nobody O reg) :
    wp (ipcPortConnectAsync env guest cid path maxPath flags) (Makes env reg) anyStop reg := by
  have hfresh := h.lists.freshChan (c := reg.nextChan) (Nat.le_refl _)
  have hnone : ∀ e : Int, e ≠ noError → e < 0 → Makes env reg (e, none) reg :=
    fun e he hneg => .fails he rfl hfresh fun _ => hneg
  simp only [ipcPortConnectAsync, wp_ite, wp_pure, wp_bind]
  split
  · exact hnone errInvalidArgs (by decide) (by decide)
  split
  · exact hnone errInvalidArgs (by decide) (by decide)
  simp only [chanAlloc, wp_ite, wp_pure, wp_bind, wp_get, wp_set]
  split
  · exact hnone errNoMemory (by decide) (by decide)
  have hinv := h.newClient cid
  have hself : (Registry.setChan { reg with nextChan := reg.nextChan + 1 } reg.nextChan
      (newChan 0 cid)).chans reg.nextChan = some (newChan 0 cid) :=
    Registry.setChan_chans.trans (if_pos rfl)
  refine wp_mono (wp_and (hinv.wp_attachOrWait hself) hinv.wp_attachOrWait_nonpos) ?_
    fun _ _ _ => trivial
  rintro r t ⟨hr, hle⟩
  split
  · rename_i hne
    rcases hr with ⟨heq, -⟩ | ⟨-, -, hC⟩
    · exact absurd heq hne
    rw [wp_bind, wp_chanDelRef_only hC rfl rfl rfl]
    exact .fails hne rfl (by simp) fun hhook => lt_of_le_of_ne (hle hhook) hne
  · refine wp_seq (wp_any _ _) fun _ _ _ => wp_seq (wp_any _ _) fun _ _ _ => ?_
    exact wp_seq (wp_any _ _) fun _ _ _ => .returns rfl

/-! ## The channel that is taken -/

theorem wp_ipcPortAccept_taken :
    wp (ipcPortAccept (some x)) (Takes reg x) anyStop reg := by
  cases x with
  | chan d => exact .fails (by decide) rfl (by simp [Registry.nextPending])
  | port p =>
      simp only [ipcPortAccept, wp_bind, wp_getPort]
      cases hP : reg.ports p with
      | none => trivial
      | some P =>
          simp only [Option.elim_some, wp_ite, wp_pure]
          split
          · rename_i hst
            exact .fails (by decide) rfl (by simp [Registry.nextPending, hP, hst])
          rename_i hst
          have hst := not_not.mp hst
          cases hl : P.pendingList with
          | nil => exact .fails (by decide) rfl (by simp [Registry.nextPending, hP, hl])
          | cons server rest =>
              have hnext : reg.nextPending (.port p) = some server := by
                simp [Registry.nextPending, hP, hst, hl]
              have hdrop : ∀ {u : Registry},
                  wp (do
                    chanShutdownLocked server
                    chanDelRef server .tmp
                    return (errChannelClosed, (none : Option (ChanId × Option Uuid))))
                    (Takes reg (.port p)) anyStop u := by
                intro u
                refine wp_seq wp_chanShutdownLocked_shut ?_
                intro _ v hv
                refine wp_seq wp_chanDelRef_fades ?_
                intro _ w hw
                refine .fails (by decide) rfl ?_
                intro c hc
                obtain rfl : server = c := Option.some.inj (hnext.symm.trans hc)
                exact hw.shut hv
              refine wp_seq wp_listDelete_fades ?_
              intro _ s₁ h₁
              refine wp_seq wp_chanAddRef_fades ?_
              intro _ s₂ h₂
              refine wp_seq wp_chanDelRef_fades ?_
              intro _ s₃ h₃
              refine wp_seq (wp_handleDecref_fades _) ?_
              intro _ s₄ h₄
              have hfade : Fades reg s₄ := h₁.trans (h₂.trans (h₃.trans h₄))
              rw [wp_bind, wp_getChan]
              cases hS : s₄.chans server with
              | none => trivial
              | some S =>
                  rw [Option.elim_some]
                  cases S.peer with
                  | none => exact hdrop
                  | some client =>
                      simp only [wp_bind, wp_getChan]
                      cases s₄.chans client with
                      | none => trivial
                      | some C =>
                          simp only [Option.elim_some]
                          split
                          · exact hdrop
                          · rename_i hstates
                            have hacc : S.state = .accepting := by
                              by_contra hne
                              exact hstates (Or.inl hne)
                            obtain ⟨S₀, hS₀, -, hst₀ | hst₀⟩ := hfade server S hS
                            · refine wp_seq (wp_any _ _) fun _ _ _ => ?_
                              refine wp_seq (wp_any _ _) fun _ _ _ => ?_
                              exact .returns server C.uuid S₀ rfl hnext hS₀ (hst₀ ▸ hacc)
                            · rw [hacc] at hst₀
                              cases hst₀

/-! ## Others -/

theorem enter_add (o : Option HandlePtr) : enter (refs + mine) o = enter refs o + mine := by
  cases o with
  | none => rfl
  | some y =>
      funext z
      by_cases hz : z = y
      · subst hz
        simp only [enter, Function.update_self, Pi.add_apply]
        omega
      · simp [enter, hz]

theorem strike_add (hpos : 0 < refs y) : strike (refs + mine) y = strike refs y + mine := by
  funext z
  by_cases hz : z = y
  · subst hz
    simp only [strike, Function.update_self, Pi.add_apply]
    omega
  · simp [strike, hz]

theorem enter_of_ne {o : Option HandlePtr} (ho : o ≠ some y) : enter refs o y = refs y := by
  cases o with
  | none => rfl
  | some z =>
      have hz : y ≠ z := by
        rintro rfl
        exact ho rfl
      simp [enter, hz]

/-- Others take a step, and leave a channel alone that they have no handle of. -/
structure Beside (mine refs : HandlePtr → Nat) (L : Ledger) : Prop where
  booked : Booked ⟨L.reg, L.refs + mine⟩
  alone : ∀ c, 0 < mine (.chan c) → refs (.chan c) = 0 → L.refs (.chan c) = 0

/-- A step that gives a handle out, or none. -/
theorem Beside.enter {o : Option HandlePtr} (hb : Booked ⟨reg, Ipc.enter (refs + mine) o⟩)
    (hnew : ∀ c, o = some (.chan c) → mine (.chan c) = 0) :
    Beside mine refs ⟨reg, Ipc.enter refs o⟩ := by
  rw [enter_add] at hb
  refine ⟨hb, ?_⟩
  intro c hmine hzero
  have ho : o ≠ some (.chan c) := by
    intro ho
    exact absurd (hnew c ho) (Nat.ne_of_gt hmine)
  exact (enter_of_ne ho).trans hzero

/-- A step that leaves the counts as they are. -/
theorem Beside.same (hb : Booked ⟨reg, refs + mine⟩) : Beside mine refs ⟨reg, refs⟩ :=
  ⟨hb, fun _ _ hzero => hzero⟩

/-- What is in the books of the call is there. -/
theorem Booked.mine_zero (h : Booked ⟨reg, refs + mine⟩) (hnone : reg.handleRefs x = 0) :
    mine x = 0 := by
  have hrefs : reg.handleRefs x = ((refs x + mine x : Nat) : Int) := h.refs x
  omega

theorem Booked.wp_beside (h : Booked ⟨reg, refs + mine⟩) {a : Action}
    (hen : a.Entered ⟨reg, refs⟩) :
    wp a.keep (fun _ L => Beside mine refs L) anyStop ⟨reg, refs⟩ := by
  have hen' : a.Entered ⟨reg, refs + mine⟩ := hen.mono fun x => Nat.le_add_right _ _
  cases a with
  | create env sid path numRecvBufs recvBufSize flags =>
      rw [Action.keep, wp_keeping_iff]
      refine wp_conseq (h.wp_noted hen' _ (fun ret refs => enter refs (ret.2.map .port)) rfl) ?_
      intro ret t ht
      refine Beside.enter ht ?_
      intro c hc
      cases hr : ret.2 with
      | none => simp [hr] at hc
      | some p => simp [hr] at hc
  | publish env p =>
      rw [Action.keep, wp_keeping_iff]
      exact wp_conseq (h.wp_noted hen' _ (fun _ refs => refs) rfl) fun _ _ ht => .same ht
  | connect env guest cid path maxPath flags =>
      rw [Action.keep, wp_keeping_iff]
      refine wp_mono (wp_and (h.wp_connect env guest cid path maxPath flags)
        h.inv.wp_ipcPortConnectAsync_made) ?_ fun _ _ _ => trivial
      rintro ret t ⟨ht, hmade⟩
      refine Beside.enter ht ?_
      intro c hc
      cases hmade with
      | fails _ hnone => simp [hnone] at hc
      | returns hret =>
          subst hret
          obtain rfl : reg.nextChan = c := by simpa using hc
          have hfresh : reg.chans reg.nextChan = none := h.inv.lists.freshChan (Nat.le_refl _)
          refine h.mine_zero ?_
          simp [Registry.handleRefs, hfresh]
  | accept handle =>
      rw [Action.keep, wp_keeping_iff]
      have hnoted := h.wp_noted hen' (ipcPortAccept handle)
        (fun ret refs => enter refs (ret.2.map fun x => .chan x.1)) rfl
      cases handle with
      | none => exact .same hnoted
      | some x =>
          refine wp_mono (wp_and hnoted wp_ipcPortAccept_taken) ?_ fun _ _ _ => trivial
          rintro ret t ⟨ht, htaken⟩
          refine Beside.enter ht ?_
          intro c hc
          cases htaken with
          | fails _ hnone => simp [hnone] at hc
          | returns d uuid D hret _ hD hst =>
              subst hret
              obtain rfl : d = c := by simpa using hc
              refine h.mine_zero ?_
              simp [Registry.handleRefs, hD, (h.inv.chan hD).unaccepted hst]
  | incref handle =>
      rw [Action.keep, wp_keeping_iff]
      refine wp_conseq (h.wp_noted hen' _ (fun _ refs => enter refs (some handle)) rfl) ?_
      intro _ t ht
      have hpos : 0 < refs handle := hen
      have hb : Booked ⟨t, Ipc.enter (refs + mine) (some handle)⟩ := ht
      rw [enter_add] at hb
      refine ⟨hb, ?_⟩
      intro c _ hzero
      have hne : some handle ≠ some (.chan c) := by
        intro heq
        rw [Option.some.inj heq] at hpos
        omega
      exact (enter_of_ne hne).trans hzero
  | shutdown handle =>
      rw [Action.keep, wp_keeping_iff]
      exact wp_conseq (h.wp_noted hen' _ (fun _ refs => refs) rfl) fun _ _ ht => .same ht
  | decref handle =>
      rw [Action.keep, wp_keeping_iff]
      refine wp_conseq (h.wp_noted hen' _ (fun _ refs => strike refs handle) rfl) ?_
      intro _ t ht
      have hpos : 0 < refs handle := hen.1
      have hb : Booked ⟨t, strike (refs + mine) handle⟩ := ht
      rw [strike_add hpos] at hb
      refine ⟨hb, ?_⟩
      intro c _ hzero
      by_cases hc : HandlePtr.chan c = handle
      · simp [strike, ← hc, hzero]
      · simp [strike, hc, hzero]
  | message handle call =>
      rw [Action.keep, wp_keeping_iff]
      exact wp_conseq (h.wp_noted hen' _ (fun _ refs => refs) rfl) fun _ _ ht => .same ht

/-- What every step of the others keeps is kept by all of them together. -/
theorem Meanwhile.induct (w : Meanwhile) {I : Ledger → Prop} {L : Ledger} (hstart : I L)
    (hstep : ∀ (L : Ledger) (a : Action), I L → a.Entered L → wp a.keep (fun _ L' => I L') anyStop L) : I (w.run L) := by
  have hrun := w.steps L
  generalize w.run L = L' at hrun
  induction hrun with
  | refl => exact hstart
  | tail _ hnext ih =>
      obtain ⟨a, hen, -, hret⟩ := hnext
      exact wp_ok (hstep _ a ih hen) hret

/-- However many steps others take. -/
theorem Booked.meanwhile (h : Booked ⟨reg, refs + mine⟩) (w : Meanwhile) :
    Beside mine refs (w.run ⟨reg, refs⟩) := by
  refine w.induct (.same h) ?_
  intro L a hL hen
  refine wp_conseq (hL.booked.wp_beside hen) ?_
  intro _ L' hnext
  exact ⟨hnext.booked, fun c hmine hzero => hnext.alone c hmine (hL.alone c hmine hzero)⟩

end

end TX2SecureUart.Ipc
