/-
# `Ql.Runs` — the device in any run

The non-secure world writes the buffer and issues commands, one at a time;
everybody else uses the IPC layer, with references of their own.  The invariant
of the device holds in every state of every such run, so what was said of a
command holds of it whenever it comes.
-/
import TX2SecureUart.Ql.Access
import TX2SecureUart.Ql.GetEvent
import TX2SecureUart.Ipc.Holder

namespace TX2SecureUart.Ql

open Prog Ipc

/-! ## The system -/

/-- The references to a handle that are not those of the device: it has one in
its table and one in its list. -/
def QlState.others (s : QlState) : HandlePtr → Nat
  | .chan c => (s.reg.handleRefs (.chan c)).toNat - if c ∈ s.dev.handleList then 2 else 0
  | .port p => (s.reg.handleRefs (.port p)).toNat

inductive DevAction where
  /-- a command of the non-secure world -/
  | cmd (env : CmdEnv) (cmdSz : UInt32)
  /-- the non-secure world writes the shared buffer -/
  | write (mem : Nat → UInt8)
  /-- somebody else uses the IPC layer -/
  | other (a : Ipc.Action)

def DevAction.run : DevAction → QlM Unit
  | .cmd env cmdSz => (fun _ => ()) <$> qlTipcHandleCmd env cmdSz
  | .write mem => modify fun s => { s with mem := mem }
  | .other a => onReg a.run

def DevAction.Enabled (s : QlState) : DevAction → Prop
  | .cmd .. | .write _ => True
  | .other a => a.Entered ⟨s.reg, s.others⟩

/-- The device before its first command. -/
def devStart (dev : QlTipcDev) (mem : Nat → UInt8) : QlState where
  dev := dev
  reg := .empty
  cookie := fun _ => none
  waitEvent := fun _ => false
  mem := mem
  log := []

def device (dev : QlTipcDev) (mem : Nat → UInt8) : Machine Stop QlState DevAction where
  init := devStart dev mem
  run := DevAction.run
  Enabled s a := a.Enabled s

/-- Any step. -/
def anyDevStep : QlState → DevAction → Prop := fun _ _ => True

section

variable {refs refs' : HandlePtr → Nat} {s t : QlState} {c : ChanId} {slot : Nat}
  {addr payloadLen : UInt32}

/-! ## Steps that leave the device alone -/

/-- Nothing of the device changes but its buffer. -/
structure SameDev (s t : QlState) : Prop where
  dev : t.dev = s.dev
  cookie : t.cookie = s.cookie
  waitEvent : t.waitEvent = s.waitEvent

theorem DevInv.congr (h : DevInv refs s) (hst : SameDev s t) (hb : Booked ⟨t.reg, refs'⟩)
    (hheld : ∀ c ∈ s.dev.handleList, 2 ≤ refs' (.chan c)) : DevInv refs' t where
  booked := hb
  slots := hst.dev ▸ h.slots
  bound := hst.dev ▸ h.bound
  linked := by
    rw [hst.dev, hst.cookie]
    exact h.linked
  listed := by
    rw [hst.dev]
    exact h.listed
  nodup := hst.dev ▸ h.nodup
  held := by
    intro c hc
    exact hheld c (hst.dev ▸ hc)
  idle := by
    intro c
    rw [hst.waitEvent]
    exact h.idle c

/-- What is kept by a command: the books are kept, whatever it costs. -/
abbrev Keeps {α : Type} (m : QlM α) (s : QlState) : Prop :=
  wp m (fun _ t => ∃ refs, DevInv refs t) anyStop s

theorem DevInv.buffer (h : DevInv refs s) (mem : Nat → UInt8) (log : List Access) :
    DevInv refs { s with mem := mem, log := log } :=
  h.congr ⟨rfl, rfl, rfl⟩ h.booked fun _ hc => h.held hc

theorem DevInv.keeps_setStatus (h : DevInv refs s) (cmd : UInt16) (err : Int) (len : Nat) :
    Keeps (setStatus cmd err len) s := by
  refine wp_conseq (wp_setStatus cmd err len) ?_
  rintro _ _ ⟨-, mem, log, rfl, -⟩
  exact ⟨refs, h.buffer mem log⟩

/-- A call into the IPC layer that keeps the counts. -/
theorem DevInv.wp_onReg {α : Type} {m : IpcM α} (h : DevInv refs s)
    (hm : wp m (fun _ t => Booked ⟨t, refs⟩) anyStop s.reg) :
    wp (onReg m) (fun _ t => DevInv refs t ∧ SameDev s t) anyStop s := by
  rw [Ql.wp_onReg]
  refine wp_mono hm ?_ fun _ _ _ => trivial
  intro a reg hb
  exact ⟨h.congr ⟨rfl, rfl, rfl⟩ hb fun _ hc => h.held hc, rfl, rfl, rfl⟩

/-! ## Messages and events -/

theorem DevInv.refs_pos (h : DevInv refs s) (htarget : s.dev.target addr = some (slot, c)) :
    0 < refs (.chan c) := by
  obtain ⟨-, -, -, hchan⟩ := target_eq_some htarget
  exact Nat.lt_of_lt_of_le Nat.two_pos (h.held (h.linked hchan).1)

theorem DevInv.keeps_devSend (h : DevInv refs s) : Keeps (devSend payloadLen addr) s := by
  rw [Keeps, devSend, wp_bind, wp_get]
  cases htarget : s.dev.target addr with
  | none => exact h.keeps_setStatus _ _ _
  | some found =>
      obtain ⟨slot, c⟩ := found
      rw [wp_bind, wp_get, wp_bind, wp_load]
      refine wp_seq ((h.buffer s.mem _).wp_onReg ((wp_map _ _).mp
        (h.booked.wp_message (h.refs_pos htarget) (.ipcSend _)))) ?_
      intro rc t ht
      exact ht.1.keeps_setStatus _ _ _

theorem DevInv.keeps_devRecv (h : DevInv refs s) : Keeps (devRecv addr) s := by
  rw [Keeps, devRecv, wp_bind, wp_get]
  cases htarget : s.dev.target addr with
  | none => exact h.keeps_setStatus _ _ _
  | some found =>
      obtain ⟨slot, c⟩ := found
      have hpos := h.refs_pos htarget
      refine wp_seq (h.wp_onReg ((wp_map _ _).mp (h.booked.wp_message hpos .ipcGet))) ?_
      rintro ⟨rc, info⟩ t₁ ⟨h₁, -⟩
      rw [wp_ite]
      split
      · exact h₁.keeps_setStatus _ _ _
      cases info with
      | none => trivial
      | some mi =>
          rw [wp_bind, wp_get]
          refine wp_seq (h₁.wp_onReg ((wp_map _ _).mp
            (h₁.booked.wp_message hpos (.ipcRead mi.id 0 _)))) ?_
          rintro ⟨rc', stored⟩ t₂ ⟨h₂, -⟩
          rw [wp_bind, wp_store]
          have h₃ := h₂.buffer (Ipc.write t₂.mem sizeofTipcCmdHdr stored)
            (t₂.log ++ [⟨true, sizeofTipcCmdHdr, stored.length⟩])
          refine wp_seq (h₃.wp_onReg ((wp_map _ _).mp
            (h₃.booked.wp_message hpos (.put mi.id)))) ?_
          rintro _ t₄ ⟨h₄, -⟩
          rw [wp_ite, wp_ite]
          split
          · exact h₄.keeps_setStatus _ _ _
          split
          · exact h₄.keeps_setStatus _ _ _
          · exact h₄.keeps_setStatus _ _ _

/-- An event that was taken does not matter for the books. -/
theorem booked_finalized {reg : Registry} {C : Chan} {event : UInt32} (h : Booked ⟨reg, refs⟩)
    (hC : reg.chans c = some C) : Booked ⟨reg.setChan c (finalizedChan C event), refs⟩ where
  inv := h.inv.setMsg hC _ Iff.rfl
  refs := by
    intro x
    rw [← h.refs x]
    cases x with
    | port p => rfl
    | chan d =>
        by_cases hd : d = c
        · subst hd
          simp [Registry.handleRefs, finalizedChan, hC]
        · simp [Registry.handleRefs, hd]
  refobj := by
    intro d D hD
    by_cases hd : d = c
    · subst hd
      have heq : finalizedChan C event = D := by simpa using hD
      rw [← heq]
      exact (h.refobj hC : C.refobj.Nonempty)
    · exact h.refobj (c := d) (by simpa [hd] using hD)

theorem DevInv.polled (h : DevInv refs s) (hst : Polled s t) : DevInv refs t where
  booked := by
    rcases hst.reg with hreg | ⟨c, C, event, hC, hreg⟩
    · rw [hreg]
      exact h.booked
    · rw [hreg]
      exact booked_finalized h.booked hC
  slots := by
    rw [hst.inuse, hst.epts]
    exact h.slots
  bound := hst.inuse ▸ h.bound
  linked := by
    intro slot c hchan
    rw [hst.epts] at hchan
    rw [hst.cookie, hst.perm.mem_iff]
    exact h.linked hchan
  listed := by
    intro c hc
    rw [hst.epts]
    exact h.listed (hst.perm.mem_iff.mp hc)
  nodup := hst.perm.nodup_iff.mpr h.nodup
  held := by
    intro c hc
    exact h.held (hst.perm.mem_iff.mp hc)
  idle := by
    intro c
    rw [hst.waitEvent]
    exact h.idle c

theorem DevInv.keeps_devGetEvent (h : DevInv refs s) (poll : ChanId → UInt32)
    (polls : List (ChanId → UInt32)) : Keeps (devGetEvent poll polls payloadLen addr) s :=
  wp_mono h.wp_devGetEvent (fun _ _ ht => ⟨refs, h.polled ht.2.1⟩) fun _ _ _ => trivial

/-! ## Connecting -/

theorem bitmapFfz_eq_some {inuse : Nat → Bool} (h : bitmapFfz inuse = some slot) :
    slot < qlTipcAddrMaxNum ∧ inuse slot = false := by
  rw [bitmapFfz] at h
  have hfree := List.find?_some h
  exact ⟨List.mem_range.mp (List.mem_of_find?_eq_some h), by simpa using hfree⟩

theorem addrToSlot_slotToAddr (h : slot < qlTipcAddrMaxNum) :
    (addrToSlot (slotToAddr slot)).toNat = slot := by
  rw [qlTipcAddrMaxNum] at h
  simp [addrToSlot, slotToAddr, Nat.mod_eq_of_lt (show slot < 4294967296 by omega)]

theorem slotToAddr_ne_zero (h : slot < qlTipcAddrMaxNum) : slotToAddr slot ≠ 0 := by
  rw [qlTipcAddrMaxNum] at h
  intro hzero
  have := congrArg UInt32.toNat hzero
  simp [slotToAddr, qlTipcAddrBase] at this
  omega

/-- The table, the list and the cookies with one channel more. -/
def QlState.opened (s : QlState) (slot : Nat) (c : ChanId) (cookie : UInt64) (reg : Registry) :
    QlState :=
  { s with
    reg := reg
    cookie := Function.update s.cookie c (some slot)
    dev := { s.dev with
      inuse := Function.update s.dev.inuse slot true
      epts := Function.update s.dev.epts slot ⟨some c, cookie⟩
      handleList := s.dev.handleList ++ [c] } }

theorem DevInv.opened (h : DevInv refs s) {cookie : UInt64} {reg : Registry}
    (hb : Booked ⟨reg, refs'⟩) (hle : ∀ x, refs x ≤ refs' x) (htwo : 2 ≤ refs' (.chan c))
    (hslot : slot < qlTipcAddrMaxNum) (hfree : s.dev.inuse slot = false)
    (hnew : c ∉ s.dev.handleList) : DevInv refs' (s.opened slot c cookie reg) where
  booked := hb
  slots := by
    intro x
    by_cases hx : x = slot
    · subst hx
      simp [QlState.opened]
    · simpa [QlState.opened, hx] using h.slots x
  bound := by
    intro x hinuse
    by_cases hx : x = slot
    · rw [hx]
      exact hslot
    · exact h.bound (by simpa [QlState.opened, hx] using hinuse)
  linked := by
    intro x d hchan
    by_cases hx : x = slot
    · subst hx
      obtain rfl : c = d := by simpa [QlState.opened] using hchan
      simp [QlState.opened]
    · obtain ⟨hd, hcookie⟩ := h.linked (by simpa [QlState.opened, hx] using hchan)
      have hdc : d ≠ c := by
        rintro rfl
        exact hnew hd
      simp [QlState.opened, hd, hdc, hcookie]
  listed := by
    intro d hd
    rcases List.mem_append.mp hd with hd | hd
    · obtain ⟨x, hchan⟩ := h.listed hd
      have hx : x ≠ slot := by
        rintro rfl
        rw [h.slots, hchan] at hfree
        cases hfree
      exact ⟨x, by simpa [QlState.opened, hx] using hchan⟩
    · obtain rfl := List.mem_singleton.mp hd
      exact ⟨slot, by simp [QlState.opened]⟩
  nodup := h.nodup.append (List.nodup_singleton c) (by simpa using hnew)
  held := by
    intro d hd
    rcases List.mem_append.mp hd with hd | hd
    · exact Nat.le_trans (h.held hd) (hle _)
    · obtain rfl := List.mem_singleton.mp hd
      exact htwo
  idle := h.idle

theorem strike_enter (refs : HandlePtr → Nat) (x : HandlePtr) :
    strike (enter refs (some x)) x = refs := by
  simp [strike, enter]

theorem le_enter (refs : HandlePtr → Nat) (x y : HandlePtr) : refs x ≤ enter refs (some y) x := by
  by_cases hx : x = y
  · subst hx
    simp [enter]
  · simp [enter, hx]

/-- The channel is entered into the table and the list. -/
theorem DevInv.wp_open (h : DevInv refs s) {reg : Registry} {addr : UInt32} (cookie : UInt64)
    (hb : Booked ⟨reg, enter refs (some (.chan c))⟩) (hslot : slot < qlTipcAddrMaxNum)
    (hfree : s.dev.inuse slot = false) (haddr : addr = slotToAddr slot) :
    wp (do
      handleSetCookie c ((← get).dev.eptLookup addr)
      handleListAdd c)
      (fun _ t => ∃ refs', DevInv refs' t) anyStop
      { s with
        reg := reg
        dev := { s.dev with
          inuse := Function.update s.dev.inuse slot true
          epts := Function.update s.dev.epts slot ⟨some c, cookie⟩ } } := by
  have hpos : 0 < enter refs (some (.chan c)) (.chan c) := by simp [enter]
  subst haddr
  have hlookup : QlTipcDev.eptLookup { s.dev with
      inuse := Function.update s.dev.inuse slot true
      epts := Function.update s.dev.epts slot ⟨some c, cookie⟩ } (slotToAddr slot) = some slot := by
    simp [QlTipcDev.eptLookup, addrToSlot_slotToAddr hslot, hslot]
  have hlive : 0 < (⟨reg, enter refs (some (.chan c))⟩ : Ledger).refs (.chan c) := hpos
  obtain ⟨C, hC, -⟩ := hb.held hlive
  rw [wp_bind, wp_get, hlookup, wp_bind, handleSetCookie, wp_bind, Ql.wp_onReg, wp_getChan, hC,
    Option.elim_some, wp_modify, handleListAdd, wp_bind, Ql.wp_onReg]
  refine wp_mono (hb.wp_incref hpos) ?_ fun _ _ _ => trivial
  intro _ reg' hb'
  rw [wp_bind, wp_get, wp_ite]
  split
  · trivial
  rename_i hnew
  rw [wp_bind, wp_get, wp_setHandleList]
  refine ⟨_, h.opened hb' ?_ ?_ hslot hfree hnew⟩
  · intro x
    exact Nat.le_trans (le_enter refs x _) (le_enter _ x _)
  · simp [enter]

theorem wp_handleClose {Q : Unit → QlState → Prop} {E : Stop → QlState → Prop} :
    wp (handleClose c) Q E s ↔
      wp (do handleShutdown (.chan c); handleDecref (.chan c))
        (fun _ reg => Q () { s with reg := reg }) (fun e reg => E (.ipc e) { s with reg := reg })
        s.reg := by
  simp only [handleClose, wp_bind, Ql.wp_onReg]

theorem DevInv.keeps_devConnect (h : DevInv refs s) (env : Env) :
    Keeps (devConnect env payloadLen) s := by
  rw [Keeps, devConnect, wp_ite, wp_ite]
  split
  · exact h.keeps_setStatus _ _ _
  split
  · exact h.keeps_setStatus _ _ _
  rw [wp_bind, wp_load, wp_bind, wp_get, wp_bind, Ql.wp_onReg]
  refine wp_mono (h.booked.wp_connect _ _ _ _ _ _) ?_ fun _ _ _ => trivial
  rintro ⟨rc, chan⟩ reg hb
  rw [wp_ite]
  cases chan with
  | none =>
      split
      · exact (h.congr (t := { s with reg := reg, log := _ }) ⟨rfl, rfl, rfl⟩ hb
          fun _ hc => h.held hc).keeps_setStatus _ _ _
      · trivial
  | some c =>
      replace hb : Booked ⟨reg, enter refs (some (.chan c))⟩ := hb
      have hheld : ∀ d ∈ s.dev.handleList, 2 ≤ enter refs (some (.chan c)) (.chan d) :=
        fun d hd => Nat.le_trans (h.held hd) (le_enter refs _ _)
      split
      · exact (h.congr (t := { s with reg := reg, log := _ }) ⟨rfl, rfl, rfl⟩ hb
          hheld).keeps_setStatus _ _ _
      dsimp only
      rw [wp_bind, allocLocalAddr, wp_bind, wp_get]
      dsimp only
      cases hffz : bitmapFfz s.dev.inuse with
      | none =>
          rw [wp_pure, wp_ite, if_pos rfl, wp_bind, wp_handleClose]
          refine wp_mono (hb.wp_close (by simp [enter])) ?_ fun _ _ _ => trivial
          intro _ reg' hb'
          rw [strike_enter] at hb'
          exact (h.congr (t := { s with reg := reg', log := _ }) ⟨rfl, rfl, rfl⟩ hb'
            fun _ hc => h.held hc).keeps_setStatus _ _ _
      | some slot =>
          obtain ⟨hslot, hfree⟩ := bitmapFfz_eq_some hffz
          rw [wp_bind, wp_modify, wp_pure, wp_ite, if_neg (slotToAddr_ne_zero hslot)]
          have hopen := (h.buffer s.mem (s.log ++ [⟨false, sizeofTipcCmdHdr, payloadLen.toNat⟩])).wp_open
            (UInt64.ofNat (leNat ((bytesAt s.mem sizeofTipcCmdHdr payloadLen.toNat).take 8)))
            hb hslot hfree rfl
          rw [wp_bind, wp_get, wp_bind] at hopen ⊢
          refine wp_mono hopen ?_ fun _ _ _ => trivial
          intro _ t₁ h₁
          refine wp_seq h₁ ?_
          rintro _ t₂ ⟨refs', h₂⟩
          rw [wp_bind, wp_store]
          exact (h₂.buffer _ _).keeps_setStatus _ _ _

/-! ## Disconnecting -/

/-- The table and the list with one channel less. -/
def QlState.closed (s : QlState) (slot : Nat) (c : ChanId) (reg : Registry) : QlState :=
  { s with
    reg := reg
    cookie := Function.update s.cookie c none
    dev := { s.dev with
      inuse := Function.update s.dev.inuse slot false
      epts := Function.update s.dev.epts slot ⟨none, 0⟩
      handleList := s.dev.handleList.erase c } }

theorem DevInv.closed (h : DevInv refs s) {reg : Registry} (hb : Booked ⟨reg, refs'⟩)
    (hsame : ∀ d, d ≠ c → refs' (.chan d) = refs (.chan d))
    (hchan : (s.dev.epts slot).chan = some c) : DevInv refs' (s.closed slot c reg) where
  booked := hb
  slots := by
    intro x
    by_cases hx : x = slot
    · subst hx
      simp [QlState.closed]
    · simpa [QlState.closed, hx] using h.slots x
  bound := by
    intro x hinuse
    by_cases hx : x = slot
    · subst hx
      simp [QlState.closed] at hinuse
    · exact h.bound (by simpa [QlState.closed, hx] using hinuse)
  linked := by
    intro x d hd
    by_cases hx : x = slot
    · subst hx
      simp [QlState.closed] at hd
    · obtain ⟨hmem, hcookie⟩ := h.linked (show (s.dev.epts x).chan = some d by simpa [QlState.closed, hx] using hd)
      have hdc : d ≠ c := by
        rintro rfl
        rw [(h.linked hchan).2] at hcookie
        exact hx (Option.some.inj hcookie).symm
      exact ⟨(List.mem_erase_of_ne hdc).mpr hmem, by simpa [QlState.closed, hdc] using hcookie⟩
  listed := by
    intro d hd
    obtain ⟨hdc, hmem⟩ := (h.nodup.mem_erase_iff).mp hd
    obtain ⟨x, hx⟩ := h.listed hmem
    have hslot : x ≠ slot := by
      rintro rfl
      exact hdc (Option.some.inj (hx.symm.trans hchan))
    exact ⟨x, by simpa [QlState.closed, hslot] using hx⟩
  nodup := h.nodup.erase c
  held := by
    intro d hd
    obtain ⟨hdc, hmem⟩ := (h.nodup.mem_erase_iff).mp hd
    rw [hsame d hdc]
    exact h.held hmem
  idle := h.idle

theorem DevInv.keeps_devDisconnect (h : DevInv refs s) : Keeps (devDisconnect addr) s := by
  rw [Keeps, devDisconnect, wp_bind, wp_get]
  cases htarget : s.dev.target addr with
  | none => exact ⟨refs, h⟩
  | some found =>
      obtain ⟨slot, c⟩ := found
      obtain ⟨hslot, rfl, -, hchan⟩ := target_eq_some htarget
      have hmem := (h.linked hchan).1
      have htwo := h.held hmem
      dsimp only
      rw [handleListDel, wp_bind, wp_bind, wp_get, wp_ite, if_neg (not_not.mpr hmem), wp_bind, wp_get,
        wp_bind, wp_setHandleList, Ql.wp_onReg]
      refine wp_mono (h.booked.wp_decref htwo) ?_ fun _ _ _ => trivial
      intro _ reg₁ hb₁
      have hpos : 0 < strike refs (.chan c) (.chan c) := by
        simp [strike]
        omega
      have hlive : 0 < (⟨reg₁, strike refs (.chan c)⟩ : Ledger).refs (.chan c) := hpos
      obtain ⟨C, hC, -⟩ := hb₁.held hlive
      rw [handleSetCookie, wp_bind, wp_bind, Ql.wp_onReg, wp_getChan, hC, Option.elim_some, wp_modify,
        wp_bind, wp_handleClose]
      refine wp_mono (hb₁.wp_close hpos) ?_ fun _ _ _ => trivial
      intro _ reg₂ hb₂
      rw [freeLocalAddr, wp_bind, wp_modify, addrToSlot_slotToAddr hslot, if_pos hslot]
      refine (h.closed hb₂ ?_ hchan).keeps_setStatus _ _ _
      intro d hd
      simp [strike, hd]

/-! ## Any command, any step -/

theorem DevInv.keeps_handleCmd (h : DevInv refs s) (env : CmdEnv) (cmdSz : UInt32) :
    Keeps (qlTipcHandleCmd env cmdSz) s := by
  rw [Keeps, qlTipcHandleCmd, wp_ite]
  split
  · exact ⟨refs, h⟩
  rw [wp_bind, wp_load, wp_ite]
  have hread := h.buffer s.mem (s.log ++ [⟨false, 0, sizeofTipcCmdHdr⟩])
  split
  · exact ⟨refs, hread⟩
  rw [devHandleCmd, wp_ite, wp_ite, wp_ite, wp_ite, wp_ite]
  split
  · exact hread.keeps_devSend
  split
  · exact hread.keeps_devRecv
  split
  · exact hread.keeps_devGetEvent _ _
  split
  · exact hread.keeps_devConnect _
  split
  · exact hread.keeps_devDisconnect
  · exact hread.keeps_setStatus _ _ _

theorem DevInv.others_le (h : DevInv refs s) (x : HandlePtr) : s.others x ≤ refs x := by
  have hrefs : s.reg.handleRefs x = refs x := h.booked.refs x
  cases x with
  | chan c =>
      rw [QlState.others, hrefs, Int.toNat_natCast]
      exact Nat.sub_le _ _
  | port p =>
      rw [QlState.others, hrefs, Int.toNat_natCast]

/-- What others do leaves the device its references. -/
theorem DevInv.keeps_other (h : DevInv refs s) {a : Ipc.Action}
    (hen : a.Entered ⟨s.reg, s.others⟩) : Keeps (onReg a.run) s := by
  rw [Keeps, Ql.wp_onReg]
  refine wp_mono (h.booked.wp_action (hen.mono h.others_le)) ?_ fun _ _ _ => trivial
  rintro _ reg ⟨refs', hb, hrefs⟩
  refine ⟨refs', h.congr ⟨rfl, rfl, rfl⟩ hb ?_⟩
  intro c hc
  have htwo := h.held hc
  rcases hrefs with hle | ⟨x, rfl, rfl⟩
  · exact Nat.le_trans htwo (hle _)
  · by_cases hx : x = .chan c
    · subst hx
      have hpos : 0 < s.others (.chan c) := hen.1
      have hcount : s.reg.handleRefs (.chan c) = refs (.chan c) := h.booked.refs _
      rw [QlState.others, hcount, Int.toNat_natCast, if_pos hc] at hpos
      simp [strike]
      omega
    · have hne : HandlePtr.chan c ≠ x := fun heq => hx heq.symm
      simpa [strike, hne] using htwo

section

variable {devs : List QlTipcDev} {bufPa : UInt64} {bufSz : UInt32} {allocated mapped : Bool}
  {dev : QlTipcDev} {mem : Nat → UInt8} {poll : ChanId → UInt32} {polls : List (ChanId → UInt32)}

/-- A device is made without channels. -/
theorem devCreate_empty (hdev : devCreate devs bufPa bufSz allocated mapped = .ok dev) :
    dev.handleList = [] ∧ (∀ slot, dev.inuse slot = false) ∧
      ∀ slot, (dev.epts slot).chan = none := by
  simp only [devCreate] at hdev
  repeat' split at hdev
  all_goals cases hdev
  exact ⟨rfl, fun _ => rfl, fun _ => rfl⟩

theorem devInv_start (hdev : devCreate devs bufPa bufSz allocated mapped = .ok dev) :
    DevInv (fun _ => 0) (devStart dev mem) := by
  obtain ⟨hlist, hinuse, hchan⟩ := devCreate_empty hdev
  refine
    { booked := booked_empty
      slots := fun slot => (hinuse slot).trans (by simp [devStart, hchan slot])
      bound := ?_
      linked := ?_
      listed := ?_
      nodup := by simp [devStart, hlist]
      held := ?_
      idle := fun _ => rfl }
  · intro slot h
    simp [devStart, hinuse slot] at h
  · intro slot c h
    simp [devStart, hchan slot] at h
  · intro c h
    simp [devStart, hlist] at h
  · intro c h
    simp [devStart, hlist] at h

/-- In every state of every run the device is in order. -/
theorem devInv_of_reachable (hdev : devCreate devs bufPa bufSz allocated mapped = .ok dev)
    (h : (device dev mem).Reachable anyDevStep s) : ∃ refs, DevInv refs s := by
  refine Machine.invariant (I := fun s => ∃ refs, DevInv refs s) (E := fun _ _ => anyStop)
    ⟨_, devInv_start hdev⟩ ?_ h
  rintro s a ⟨refs, hs⟩ hen -
  cases a with
  | cmd env cmdSz => exact (wp_map _ _).mpr (hs.keeps_handleCmd env cmdSz)
  | write mem => exact ⟨refs, hs.buffer mem s.log⟩
  | other a => exact hs.keeps_other hen

/-- In every state of every run, and for every target and every sequence of
readings: the command ends, is answered with an event of an endpoint or, when
there is none, with the empty event, and gives back its references, unless it
polls the list and no channel of it reports anything. -/
theorem getEvent_answers_iff (hdev : devCreate devs bufPa bufSz allocated mapped = .ok dev)
    (h : (device dev mem).Reachable anyDevStep s) :
    GetEventAnswers s poll polls payloadLen addr ↔
      ¬ ListTimesOut s poll polls payloadLen addr := by
  obtain ⟨refs, hs⟩ := devInv_of_reachable hdev h
  exact hs.getEventAnswers_iff

end

end

/-! ## A channel without an event -/

/-- The first device. -/
theorem devCreate_first : devCreate [] 0 4096 true true = .ok pageDev := rfl

/-- A service makes a port, and publishes it. -/
def makePort : DevAction :=
  .other (.create quiet.ipc (some (.app 0)) [0x70] 1 pageSize ipcPortAllowNsConnect)

def portMade : QlState := stateOf (makePort.run (devStart pageDev fun _ => 0))

def portPublished : QlState := stateOf (DevAction.run (.other (.publish quiet.ipc 0)) portMade)

/-- The device is told to connect to it, and does. -/
def connectWritten : QlState :=
  stateOf (DevAction.run (.write (cmdMem 1 0 18 (leBytes 16 5 ++ [0x70, 0]))) portPublished)

def oneChannel : QlState := stateOf (DevAction.run (.cmd quiet 34) connectWritten)

theorem reachable_oneChannel : (device pageDev fun _ => 0).Reachable anyDevStep oneChannel := by
  have h₁ : (device pageDev fun _ => 0).Reachable anyDevStep portMade :=
    Machine.Reachable.init.step (M := device pageDev fun _ => 0) (a := makePort) trivial trivial
      (by decide +kernel)
  have hheld : 0 < portMade.others (.port 0) := by decide +kernel
  have h₂ : (device pageDev fun _ => 0).Reachable anyDevStep portPublished :=
    h₁.step (a := DevAction.other (.publish quiet.ipc 0)) hheld trivial (by decide +kernel)
  have h₃ : (device pageDev fun _ => 0).Reachable anyDevStep connectWritten :=
    h₂.step (a := DevAction.write _) trivial trivial rfl
  exact h₃.step (a := DevAction.cmd quiet 34) trivial trivial (by decide +kernel)

theorem oneChannel_timesOut : ListTimesOut oneChannel (fun _ => 0) [] 8 0 := by
  refine ⟨by decide, rfl, by decide +kernel, ?_⟩
  intro reading hreading c _
  rw [List.mem_singleton.mp hreading]

/-- With one channel and nothing to report, the command does not end. -/
theorem oneChannel_not_answered : ¬ GetEventAnswers oneChannel (fun _ => 0) [] 8 0 := by
  obtain ⟨refs, h⟩ := devInv_of_reachable devCreate_first reachable_oneChannel
  exact fun hanswers => h.getEventAnswers_iff.mp hanswers oneChannel_timesOut

/-- With a hang-up of the channel it is answered. -/
theorem getEvent_answers_iff_hup :
    GetEventAnswers oneChannel (fun _ => 4) [] 8 0 ↔
      ¬ ListTimesOut oneChannel (fun _ => 4) [] 8 0 :=
  getEvent_answers_iff devCreate_first reachable_oneChannel

end TX2SecureUart.Ql
