/-
# `Syscall.AllOrNone` — a call gives a handle, or takes everything back

The references to a handle are those of the table, two for each slot, those of
the running call, and those of others.  While a call is under way nobody else has
a handle of its channel; so when it closes the channel, no handle is left.
-/
import TX2SecureUart.Ipc.Pending
import TX2SecureUart.Syscall.Connect
import Mathlib

namespace TX2SecureUart.Syscall

open Prog Ipc

/-! ## References -/

/-- The references of the table: one came with the handle, one is that of
`handle_list_add`. -/
def tableRefs (ctx : Uctx) (x : HandlePtr) : Nat :=
  2 * (Finset.univ.filter fun id => ctx.handles id = some x).card

/-- One reference. -/
def one (x : HandlePtr) : HandlePtr → Nat := fun y => if y = x then 1 else 0

/-- Who has which references before a call. -/
def CallState.books (s : CallState) : Ledger := ⟨s.reg, s.others + tableRefs s.ctx⟩

/-- No handle of the channel is left, and it is shut down on both sides. -/
structure HungUp (s : Registry) (c : ChanId) : Prop where
  self : ∀ C, s.chans c = some C →
    C.handle.refcnt = 0 ∧ .handle ∉ C.refobj ∧ C.state = .disconnecting ∧ C.peer = none
  peer : ∀ y Y, s.chans y = some Y → Y.peer = some c → Y.state = .disconnecting

/-- An error leaves the table as it was and the channel of the call hung up; an
identifier was free, and now is that of the channel, which the table did not
have before. -/
structure AllOrNone (s : CallState) (r : Int) (t : CallState) : Prop where
  error : r < 0 → t.ctx = s.ctx ∧ ∀ c, t.chan = some c → HungUp t.reg c
  id : 0 ≤ r → ∃ (id : HandleId) (c : ChanId), r = id.val ∧ t.chan = some c ∧
    s.ctx.handles id = none ∧ t.ctx = s.ctx.set id (some (.chan c)) ∧
    ∀ i, s.ctx.handles i ≠ some (.chan c)

section

variable {ctx : Uctx} {id : HandleId} {x y : HandlePtr} {refs own : HandlePtr → Nat}
  {reg : Registry} {c : ChanId} {C : Chan} {s t : CallState} {r : Int}

theorem tableRefs_eq_zero : tableRefs ctx x = 0 ↔ ∀ id, ctx.handles id ≠ some x := by
  simp [tableRefs, Finset.filter_eq_empty_iff]

theorem two_le_tableRefs (h : ctx.handles id = some x) : 2 ≤ tableRefs ctx x := by
  have hmem : id ∈ Finset.univ.filter fun id => ctx.handles id = some x := by simpa using h
  have hpos := Finset.card_pos.mpr ⟨id, hmem⟩
  rw [tableRefs]
  omega

/-- A free slot is filled. -/
theorem tableRefs_set (hid : ctx.handles id = none) :
    tableRefs (ctx.set id (some x)) = tableRefs ctx + one x + one x := by
  funext y
  have hnot : id ∉ Finset.univ.filter fun i => ctx.handles i = some y := by simp [hid]
  by_cases hy : y = x
  · subst hy
    have hset : (Finset.univ.filter fun i => (ctx.set id (some y)).handles i = some y) =
        insert id (Finset.univ.filter fun i => ctx.handles i = some y) := by
      ext i
      by_cases hi : i = id <;> simp [hi]
    simp only [tableRefs, hset, Finset.card_insert_of_notMem hnot, Pi.add_apply, one, if_pos]
    omega
  · have hset : (Finset.univ.filter fun i => (ctx.set id (some x)).handles i = some y) =
        Finset.univ.filter fun i => ctx.handles i = some y := by
      ext i
      by_cases hi : i = id
      · subst hi
        simp [hid, Ne.symm hy]
      · simp [hi]
    simp only [tableRefs, hset, Pi.add_apply, one, if_neg hy, Nat.add_zero]

theorem enter_some : enter refs (some x) = refs + one x := by
  funext y
  by_cases hy : y = x
  · subst hy
    simp [enter, one]
  · simp [enter, one, hy]

theorem strike_one : strike (refs + one x) x = refs := by
  funext y
  by_cases hy : y = x
  · subst hy
    simp [strike, one]
  · simp [strike, one, hy]

/-! ## Steps on the books -/

theorem wp_gain (h : Booked ⟨reg, refs⟩) (hpos : 0 < refs x) :
    wp (handleIncref x) (fun _ t => Booked ⟨t, refs + one x⟩) anyStop reg := by
  refine wp_conseq (h.wp_noted (a := .incref x) hpos _ (fun _ refs => enter refs (some x)) rfl) ?_
  intro _ t ht
  have hb : Booked ⟨t, enter refs (some x)⟩ := ht
  rwa [enter_some] at hb

/-- A reference is dropped, and another one is left. -/
theorem wp_drop (h : Booked ⟨reg, refs + one x⟩) (hpos : 0 < refs x) :
    wp (handleDecref x) (fun _ t => Booked ⟨t, refs⟩) anyStop reg := by
  have hone : (refs + one x) x = refs x + 1 := by simp [one]
  have hen : (Action.decref x).Entered ⟨reg, refs + one x⟩ := by
    refine ⟨by show 0 < (refs + one x) x; omega, ?_⟩
    cases x with
    | port p => trivial
    | chan c =>
        intro C hC hlast
        have hcount : C.handle.refcnt = ((refs + one (.chan c)) (.chan c) : Nat) := h.chan_refcnt hC
        omega
  refine wp_conseq (h.wp_noted hen _ (fun _ refs => strike refs x) rfl) ?_
  intro _ t ht
  have hb : Booked ⟨t, strike (refs + one x) x⟩ := ht
  rwa [strike_one] at hb

/-- A channel that nobody has a handle of, and that was shut down. -/
theorem hungUp_of_shut (h : Booked ⟨reg, refs⟩) (hzero : refs (.chan c) = 0) (hshut : reg.Shut c) :
    HungUp reg c := by
  have hself : ∀ C, reg.chans c = some C →
      C.handle.refcnt = 0 ∧ .handle ∉ C.refobj ∧ C.state = .disconnecting ∧ C.peer = none := by
    intro C hC
    have hc := h.inv.chan hC
    have hcount : C.handle.refcnt = (refs (.chan c) : Int) := h.chan_refcnt hC
    rw [hzero] at hcount
    obtain ⟨hpeer, hst⟩ := hshut C hC
    have hhandle : ObjRef.handle ∉ C.refobj := by
      intro hm
      have hpos := hc.handleRef.mp hm
      omega
    refine ⟨hcount, hhandle, hst.resolve_right ?_, hpeer⟩
    -- a new channel is kept by the reference of the running operation only
    intro hnew
    obtain ⟨ref, href⟩ := h.refobj hC
    have hlink := (h.mem_refobj hC ref).mp href
    cases ref with
    | handle => exact hhandle href
    | node =>
        rcases hlink with hm | ⟨p, hp⟩
        · have hwait := (hc.waits (hc.inWaiting.mpr hm)).1
          simp [hnew] at hwait
        · have hpend := hc.pends p ((hc.inPending p).mpr hp)
          simp [hnew] at hpend
    | peer z =>
        obtain ⟨Z, hZ, hz⟩ := hlink
        exact h.inv.no_peer_of hC (Or.inr hnew) hZ hz
    | tmp => exact hlink
  refine ⟨hself, ?_⟩
  intro y Y hY hy
  obtain ⟨C, hC, -, hcompat⟩ := h.inv.peers.peer hY hy
  obtain ⟨-, -, hst, hpeer⟩ := hself C hC
  have halone := (h.inv.chan hY).alone
  cases hYst : Y.state with
  | disconnecting => rfl
  | accepting => exact absurd (hst.symm.trans (hcompat.accepting hYst).1) (by decide)
  | connecting => exact absurd (hst.symm.trans (hcompat.connecting hYst).1) (by decide)
  | connected => exact absurd (hst.symm.trans (hcompat.connected hYst).1) (by decide)
  | waitingForPort =>
      rw [halone (Or.inl hYst)] at hy
      cases hy
  | invalid =>
      rw [halone (Or.inr hYst)] at hy
      cases hy

/-! ## While the call has a channel -/

/-- The call has a handle of the channel, which is in no table, and `own` besides. -/
structure Holds (ctx : Uctx) (own : HandlePtr → Nat) (c : ChanId) (s : CallState) : Prop where
  books : Booked ⟨s.reg, s.others + (tableRefs ctx + own + one (.chan c))⟩
  ctx_eq : s.ctx = ctx
  chan : s.chan = some c
  alone : s.others (.chan c) = 0

/-- The call has closed the channel. -/
structure Drops (ctx : Uctx) (own : HandlePtr → Nat) (c : ChanId) (s : CallState) : Prop where
  books : Booked ⟨s.reg, s.others + (tableRefs ctx + own)⟩
  ctx_eq : s.ctx = ctx
  chan : s.chan = some c
  alone : s.others (.chan c) = 0
  shut : s.reg.Shut c

/-- The call has put the channel into a slot. -/
structure Installs (ctx : Uctx) (own : HandlePtr → Nat) (c : ChanId) (id : HandleId)
    (s : CallState) : Prop where
  books : Booked ⟨s.reg, s.others + (tableRefs ctx + own + one (.chan c) + one (.chan c))⟩
  ctx_eq : s.ctx = ctx.set id (some (.chan c))
  free : ctx.handles id = none
  chan : s.chan = some c
  alone : s.others (.chan c) = 0

theorem refs_pos : 0 < (refs + (own + one x)) x := by
  simp [one]

theorem Holds.live (h : Holds ctx own c s) : ∃ C, s.reg.chans c = some C := by
  have hpos : 0 < (⟨s.reg, s.others + (tableRefs ctx + own + one (.chan c))⟩ : Ledger).refs
      (.chan c) := refs_pos
  obtain ⟨C, hC, -⟩ := h.books.held hpos
  exact ⟨C, hC⟩

theorem Holds.wp_meanwhile (h : Holds ctx own c s) (w : Meanwhile) :
    wp (meanwhile w) (fun _ t => Holds ctx own c t) anyStop s := by
  have hnext := h.books.meanwhile w
  refine ⟨hnext.booked, h.ctx_eq, h.chan, hnext.alone c ?_ h.alone⟩
  simp [one]

theorem Installs.wp_meanwhile (h : Installs ctx own c id s) (w : Meanwhile) :
    wp (meanwhile w) (fun _ t => Installs ctx own c id t) anyStop s := by
  have hnext := h.books.meanwhile w
  refine ⟨hnext.booked, h.ctx_eq, h.free, h.chan, hnext.alone c ?_ h.alone⟩
  simp [one]

theorem Holds.wp_handleClose (h : Holds ctx own c s) :
    wp (handleClose (.chan c)) (fun _ t => Drops ctx own c t) anyStop s := by
  rw [handleClose, wp_onReg]
  refine wp_mono (wp_and (h.books.wp_close refs_pos) wp_close_shut) ?_ fun _ _ _ => trivial
  rintro _ reg ⟨hb, hshut⟩
  have hbooks : Booked ⟨reg, strike (s.others + (tableRefs ctx + own + one (.chan c))) (.chan c)⟩ :=
    hb
  rw [← add_assoc, strike_one] at hbooks
  exact ⟨hbooks, h.ctx_eq, h.chan, h.alone, hshut⟩

/-! ## Waiting -/

theorem Holds.wp_gotEvent (h : Holds ctx own c s) (event : UInt32) :
    wp (gotEvent c event) (fun r t => Holds ctx own c t ∧ r.1 = noError) anyStop s := by
  obtain ⟨C, hC⟩ := h.live
  rw [gotEvent, wp_bind, wp_onReg, Ql.wp_chanFinalizeEvent hC]
  exact ⟨⟨Ql.booked_finalized h.books hC, h.ctx_eq, h.chan, h.alone⟩, rfl⟩

/-- A wait ends with an event or with an error, and others have used the time. -/
theorem Holds.wp_waitLoop (sleeps : List Sleep) : ∀ {s : CallState}, Holds ctx own c s →
    wp (waitLoop c sleeps) (fun r t => Holds ctx own c t ∧ (r.1 = noError ∨ r.1 < 0)) anyStop s := by
  have hevent : ∀ {s : CallState} (event : UInt32), Holds ctx own c s →
      wp (gotEvent c event) (fun r t => Holds ctx own c t ∧ (r.1 = noError ∨ r.1 < 0)) anyStop s :=
    fun event h => wp_conseq (h.wp_gotEvent event) fun _ _ ht => ⟨ht.1, Or.inl ht.2⟩
  induction sleeps with
  | nil =>
      intro s h
      obtain ⟨C, hC⟩ := h.live
      simp only [waitLoop, chanPoll, wp_bind, wp_onReg, wp_getChan, hC, Option.elim_some, wp_pure,
        wp_ite, wp_throw]
      split
      · exact hevent _ h
      · trivial
  | cons sleep rest ih =>
      intro s h
      obtain ⟨C, hC⟩ := h.live
      simp only [waitLoop, chanPoll, wp_bind, wp_onReg, wp_getChan, hC, Option.elim_some, wp_pure,
        wp_ite]
      split
      · exact hevent _ h
      · refine wp_conseq (h.wp_meanwhile sleep.meanwhile) ?_
        intro _ t ht
        split
        · rename_i hneg
          exact ⟨ht, Or.inr hneg⟩
        · exact ih ht

theorem Holds.wp_handleWait (h : Holds ctx own c s) (w : Waiting) :
    wp (handleWait c w) (fun r t => Holds ctx own c t ∧ (r.1 = noError ∨ r.1 < 0)) anyStop s := by
  rw [handleWait, wp_ite]
  split
  · exact ⟨h, Or.inr (by decide)⟩
  · exact Holds.wp_waitLoop w.sleeps h

/-- The connection is there, or the channel is closed. -/
theorem Holds.wp_awaitConnection (h : Holds ctx own c s) (sched : ConnectSchedule) :
    wp (awaitConnection c sched)
      (fun r t => (r = noError ∧ Holds ctx own c t) ∨ (r < 0 ∧ Drops ctx own c t)) anyStop s := by
  have htwice : wp (waitTwice c sched)
      (fun r t => Holds ctx own c t ∧ (r.1 = noError ∨ r.1 < 0)) anyStop s := by
    refine wp_seq (h.wp_handleWait sched.first) ?_
    rintro r t ⟨ht, hr⟩
    rw [wp_ite]
    split
    · exact ht.wp_handleWait sched.second
    · exact ⟨ht, hr⟩
  have hclose : ∀ {t : CallState} (e : Int), e < 0 → Holds ctx own c t →
      wp (do handleClose (.chan c); return e)
        (fun r t => (r = noError ∧ Holds ctx own c t) ∨ (r < 0 ∧ Drops ctx own c t)) anyStop t := by
    intro t e he ht
    refine wp_seq ht.wp_handleClose ?_
    intro _ u hu
    exact Or.inr ⟨he, hu⟩
  refine wp_seq htwice ?_
  rintro ⟨ret, event⟩ t ⟨ht, -⟩
  simp only [wp_ite]
  split
  · rename_i hneg
    exact hclose ret hneg ht
  split
  · exact hclose errChannelClosed (by decide) ht
  split
  · exact hclose errNotReady (by decide) ht
  · exact Or.inl ⟨rfl, ht⟩

/-! ## Installing -/

/-- The channel gets a slot, if there is one. -/
theorem Holds.wp_install (h : Holds ctx own c s) :
    wp (onTask (uctxHandleInstall (.chan c))) (fun ret t =>
      (ret = (errNoResources, none) ∧ Holds ctx own c t) ∨
      ∃ id, ret = (noError, some id) ∧ Installs ctx own c id t) anyStop s := by
  obtain rfl := h.ctx_eq
  rw [wp_onTask, wp_uctxHandleInstall]
  cases hslot : Uctx.bitmapFfz s.ctx.inuse with
  | none => exact Or.inl ⟨rfl, h⟩
  | some id =>
      refine wp_conseq (wp_gain h.books refs_pos) ?_
      intro _ reg hb
      refine Or.inr ⟨id, rfl, ?_, rfl, Uctx.bitmapFfz_some hslot, h.chan, h.alone⟩
      rwa [add_assoc] at hb

/-! ## What the call comes to -/

theorem Drops.hungUp (h : Drops ctx own c s) (hnew : tableRefs ctx (.chan c) = 0)
    (hown : own (.chan c) = 0) : HungUp s.reg c := by
  refine hungUp_of_shut h.books ?_ h.shut
  simp [h.alone, hnew, hown]

theorem Drops.allOrNone {s₀ : CallState} (h : Drops s₀.ctx own c s)
    (hnew : tableRefs s₀.ctx (.chan c) = 0) (hown : own (.chan c) = 0) (hr : r < 0) :
    AllOrNone s₀ r s := by
  refine ⟨fun _ => ⟨h.ctx_eq, ?_⟩, fun hpos => absurd hr (by omega)⟩
  intro d hd
  obtain rfl : c = d := Option.some.inj (h.chan.symm.trans hd)
  exact h.hungUp hnew hown

theorem Installs.allOrNone {s₀ : CallState} (h : Installs s₀.ctx own c id s)
    (hnew : tableRefs s₀.ctx (.chan c) = 0) : AllOrNone s₀ id.val s := by
  refine ⟨fun hneg => absurd hneg (by simp), fun _ => ?_⟩
  exact ⟨id, c, rfl, h.chan, h.free, h.ctx_eq, tableRefs_eq_zero.mp hnew⟩

/-- Nothing was made or taken. -/
theorem allOrNone_early (hctx : t.ctx = s.ctx) (hchan : t.chan = none) (hr : r < 0) :
    AllOrNone s r t := by
  refine ⟨fun _ => ⟨hctx, ?_⟩, fun hpos => absurd hr (by omega)⟩
  intro c hc
  rw [hchan] at hc
  cases hc

theorem Holds.wp_installChan (h : Holds ctx 0 c s) (hnew : tableRefs ctx (.chan c) = 0)
    {s₀ : CallState} (hs : s₀.ctx = ctx) :
    wp (installChan c) (fun r t => AllOrNone s₀ r t) anyStop s := by
  subst hs
  refine wp_seq h.wp_install ?_
  rintro ⟨ret, id⟩ t (⟨heq, ht⟩ | ⟨id', heq, ht⟩)
  · obtain ⟨rfl, rfl⟩ := Prod.mk.inj heq
    simp only [wp_ite]
    rw [if_pos (by decide)]
    refine wp_seq ht.wp_handleClose ?_
    intro _ u hu
    exact hu.allOrNone hnew rfl (by decide)
  · obtain ⟨rfl, rfl⟩ := Prod.mk.inj heq
    simp only [wp_ite]
    rw [if_neg (by decide)]
    exact ht.allOrNone hnew

/-! ## `sys_connect` -/

section

variable {env : Env} {guest : UInt32} {uuid : Uuid} {path : Option Path} {flags handleId : UInt32}
  {connecting : ConnectSchedule} {accepting : AcceptSchedule} {copied : Bool} {phandle : HandlePtr}

theorem Holds.wp_finishConnect (h : Holds ctx 0 c s) (hnew : tableRefs ctx (.chan c) = 0)
    {s₀ : CallState} (hs : s₀.ctx = ctx) :
    wp (finishConnect flags connecting c) (fun r t => AllOrNone s₀ r t) anyStop s := by
  refine wp_seq (h.wp_meanwhile connecting.made) ?_
  intro _ t ht
  rw [wp_ite]
  split
  · refine wp_seq (ht.wp_awaitConnection connecting) ?_
    rintro r u (⟨rfl, hu⟩ | ⟨hneg, hu⟩)
    · rw [wp_ite, if_neg (by simp)]
      refine wp_seq (hu.wp_meanwhile connecting.connected) ?_
      intro _ v hv
      exact hv.wp_installChan hnew hs
    · rw [wp_ite, if_pos (ne_of_lt hneg)]
      subst hs
      exact hu.allOrNone hnew rfl hneg
  · exact ht.wp_installChan hnew hs

/-- A channel that does not exist is in no books. -/
theorem refs_zero_of_none (h : Booked ⟨reg, refs⟩) (hnone : reg.chans c = none) :
    refs (.chan c) = 0 := by
  refine h.refs_zero ?_
  simp [Registry.handleRefs, hnone]

theorem wp_sysConnect (h : Booked s.books) (hhook : env.HookErrs) :
    wp (sysConnect env guest uuid path flags connecting) (fun r t => AllOrNone s r t) anyStop s := by
  have hbooks : Booked ⟨s.reg, s.others + tableRefs s.ctx⟩ := h
  have hfresh : s.reg.chans s.reg.nextChan = none := hbooks.inv.lists.freshChan (Nat.le_refl _)
  have hzero := refs_zero_of_none hbooks hfresh
  obtain ⟨halone, hnew⟩ := Nat.add_eq_zero_iff.mp hzero
  rw [sysConnect, wp_bind, wp_note, wp_ite]
  split
  · exact allOrNone_early rfl rfl (by decide)
  cases hcopy : copyPath path with
  | error ret => exact allOrNone_early rfl rfl (copyPath_error hcopy)
  | ok tmpPath =>
      rw [wp_bind, wp_get, wp_bind, wp_note, wp_bind, wp_onReg]
      refine wp_mono (wp_and (hbooks.wp_connect env guest (some uuid) tmpPath ipcPortPathMax flags)
        hbooks.inv.wp_ipcPortConnectAsync_made) ?_ fun _ _ _ => trivial
      rintro ⟨ret, chan⟩ reg ⟨hb, hmade⟩
      cases hmade with
      | fails hcode hnothing hgone herror =>
          obtain rfl : chan = none := hnothing
          simp only [wp_ite]
          rw [if_pos hcode]
          have hb' : Booked ⟨reg, s.others + tableRefs s.ctx⟩ := hb
          have hneg : ret < 0 := herror hhook
          refine ⟨fun _ => ⟨rfl, ?_⟩, fun hpos => absurd hneg (by omega)⟩
          intro c hc
          obtain rfl : s.reg.nextChan = c := Option.some.inj hc
          refine hungUp_of_shut hb' hzero ?_
          intro C hC
          have hgone' : reg.chans s.reg.nextChan = none := hgone
          rw [hgone'] at hC
          cases hC
      | returns hret =>
          obtain ⟨rfl, rfl⟩ := Prod.mk.inj hret
          simp only [wp_ite]
          rw [if_neg (by decide)]
          have hb' : Booked ⟨reg, enter (s.others + tableRefs s.ctx) (some (.chan s.reg.nextChan))⟩ :=
            hb
          rw [enter_some, add_assoc] at hb'
          have hholds : Holds s.ctx 0 s.reg.nextChan
              { s with reg := reg, chan := some s.reg.nextChan } := by
            refine ⟨?_, rfl, rfl, halone⟩
            rwa [add_zero]
          exact hholds.wp_finishConnect hnew rfl

/-! ## `sys_accept` -/

/-- The reference to the port goes back as well. -/
theorem Drops.wp_release (h : Drops ctx (one phandle) c s) (htable : ctx.handles id = some phandle) :
    wp (onReg (handleDecref phandle)) (fun _ t => Drops ctx 0 c t) anyStop s := by
  have hpos : 0 < (s.others + tableRefs ctx) phandle := by
    have := two_le_tableRefs htable
    simp only [Pi.add_apply]
    omega
  have hb : Booked ⟨s.reg, s.others + tableRefs ctx + one phandle⟩ := by
    rw [add_assoc]
    exact h.books
  rw [wp_onReg]
  refine wp_mono (wp_and (wp_drop hb hpos) (wp_handleDecref_fades phandle)) ?_ fun _ _ _ => trivial
  rintro _ reg ⟨hreg, hfade⟩
  refine ⟨?_, h.ctx_eq, h.chan, h.alone, hfade.shut h.shut⟩
  rwa [add_zero]

theorem Holds.wp_errInstall {s₀ : CallState} (h : Holds s₀.ctx (one phandle) c s)
    (htable : s₀.ctx.handles id = some phandle) (hnew : tableRefs s₀.ctx (.chan c) = 0)
    (hr : r < 0) :
    wp (errInstall phandle (.chan c) r) (fun r t => AllOrNone s₀ r t) anyStop s := by
  refine wp_seq h.wp_handleClose ?_
  intro _ t ht
  refine wp_seq (ht.wp_release htable) ?_
  intro _ u hu
  exact hu.allOrNone hnew rfl hr

/-- The slot is emptied again. -/
theorem Installs.wp_remove (h : Installs ctx own c id s) :
    wp (onTask (uctxHandleRemove id)) (fun ret t => ret.2 = some (.chan c) ∧ Holds ctx own c t)
      anyStop s := by
  have hslot : s.ctx.handles id = some (.chan c) := by
    rw [h.ctx_eq]
    exact Uctx.set_self _ _ _
  have hb : Booked ⟨s.reg, s.others + (tableRefs ctx + own + one (.chan c)) + one (.chan c)⟩ := by
    rw [add_assoc]
    exact h.books
  rw [wp_onTask, wp_uctxHandleRemove]
  simp only [hslot]
  refine wp_conseq (wp_drop hb refs_pos) ?_
  intro _ reg hreg
  refine ⟨trivial, hreg, ?_, h.chan, h.alone⟩
  show s.ctx.set id none = ctx
  rw [h.ctx_eq]
  exact Uctx.set_set_none h.free

theorem Installs.wp_release {i : HandleId} (h : Installs ctx (one phandle) c id s)
    (htable : ctx.handles i = some phandle) :
    wp (onReg (handleDecref phandle)) (fun _ t => Installs ctx 0 c id t) anyStop s := by
  have hpos : 0 < (s.others + (tableRefs ctx + 0 + one (.chan c) + one (.chan c))) phandle := by
    have := two_le_tableRefs htable
    simp only [Pi.add_apply, Pi.zero_apply]
    omega
  have hb : Booked ⟨s.reg, s.others + (tableRefs ctx + 0 + one (.chan c) + one (.chan c)) +
      one phandle⟩ := by
    have hsame : s.others + (tableRefs ctx + 0 + one (.chan c) + one (.chan c)) + one phandle =
        s.others + (tableRefs ctx + one phandle + one (.chan c) + one (.chan c)) := by
      funext y
      simp only [Pi.add_apply, Pi.zero_apply]
      omega
    rw [hsame]
    exact h.books
  rw [wp_onReg]
  refine wp_conseq (wp_drop hb hpos) ?_
  intro _ reg hreg
  exact ⟨hreg, h.ctx_eq, h.free, h.chan, h.alone⟩

theorem Installs.wp_errUuidCopy {i : HandleId} {s₀ : CallState}
    (h : Installs s₀.ctx (one phandle) c id s) (htable : s₀.ctx.handles i = some phandle)
    (hnew : tableRefs s₀.ctx (.chan c) = 0) (hr : r < 0) :
    wp (errUuidCopy accepting phandle (.chan c) id r) (fun r t => AllOrNone s₀ r t) anyStop s := by
  refine wp_seq h.wp_remove ?_
  rintro ⟨ret, removed⟩ t ⟨hremoved, ht⟩
  obtain rfl : removed = some (.chan c) := hremoved
  refine wp_seq (ht.wp_meanwhile accepting.removed) ?_
  intro _ u hu
  exact hu.wp_errInstall htable hnew hr

theorem Holds.wp_finishAccept {s₀ : CallState} (h : Holds s₀.ctx (one phandle) c s)
    (htable : s₀.ctx.handles id = some phandle) (hnew : tableRefs s₀.ctx (.chan c) = 0) :
    wp (finishAccept accepting copied phandle c) (fun r t => AllOrNone s₀ r t) anyStop s := by
  refine wp_seq (h.wp_meanwhile accepting.accepted) ?_
  intro _ t ht
  refine wp_seq ht.wp_install ?_
  rintro ⟨ret, newId⟩ u (⟨heq, hu⟩ | ⟨newId', heq, hu⟩)
  · obtain ⟨rfl, rfl⟩ := Prod.mk.inj heq
    simp only [wp_ite]
    rw [if_pos (by decide)]
    exact hu.wp_errInstall htable hnew (by decide)
  · obtain ⟨rfl, rfl⟩ := Prod.mk.inj heq
    simp only [wp_ite]
    rw [if_neg (by decide)]
    refine wp_seq (hu.wp_meanwhile accepting.installed) ?_
    intro _ v hv
    rw [wp_ite]
    split
    · refine wp_seq (hv.wp_release htable) ?_
      intro _ w hw
      exact hw.allOrNone hnew
    · exact hv.wp_errUuidCopy htable hnew (by decide)

/-- The table has the handle, and gives a reference away. -/
theorem wp_found (h : Booked s.books) (hbare : s.reg.Unhandled)
    (hid : s.ctx.handles id = some phandle) :
    wp (handleIncref phandle)
      (fun _ reg => Booked ⟨reg, s.others + (tableRefs s.ctx + one phandle)⟩ ∧ reg.Unhandled)
      anyStop s.reg := by
  have hbooks : Booked ⟨s.reg, s.others + tableRefs s.ctx⟩ := h
  have hpos : 0 < (s.others + tableRefs s.ctx) phandle := by
    have := two_le_tableRefs hid
    simp only [Pi.add_apply]
    omega
  have hkeep : wp (handleIncref phandle) (fun _ reg => reg.Unhandled) anyStop s.reg :=
    hbare.wp_run hbooks (a := .incref phandle) hpos
  refine wp_mono (wp_and (wp_gain hbooks hpos) hkeep) ?_ fun _ _ _ => trivial
  rintro _ reg ⟨hreg, hreg'⟩
  refine ⟨?_, hreg'⟩
  rwa [add_assoc] at hreg

/-- Nobody has a handle of the connection that is next. -/
theorem refs_zero_of_nextPending (h : Booked ⟨reg, refs⟩) (hbare : reg.Unhandled)
    (hnext : reg.nextPending x = some c) : refs (.chan c) = 0 := by
  cases x with
  | chan d => simp [Registry.nextPending] at hnext
  | port p =>
      obtain ⟨P, hP, hhead⟩ := Option.bind_eq_some_iff.mp hnext
      split at hhead
      · have hmem : c ∈ P.pendingList := List.mem_of_head? hhead
        obtain ⟨C, hC⟩ := Option.isSome_iff_exists.mp (h.inv.lists.pendingLive hP hmem)
        have hnode := ((h.inv.chan hC).inPending p).mpr ⟨P, hP, hmem⟩
        refine h.refs_zero ?_
        have hreg : reg.chans c = some C := hC
        simp [Registry.handleRefs, hreg, hbare c C p hC hnode]
      · cases hhead

theorem wp_sysAccept (h : Booked s.books) (hbare : s.reg.Unhandled) :
    wp (sysAccept handleId accepting copied) (fun r t => AllOrNone s r t) anyStop s := by
  rw [sysAccept, wp_bind, wp_note, wp_bind, wp_onTask, uctxHandleGet, wp_bind, wp_get]
  cases hcheck : s.ctx.checkHandleId handleId with
  | error e =>
      show wp (if e.val ≠ noError then _ else _) _ _ _
      rw [wp_ite, if_pos (ne_of_lt e.property)]
      exact allOrNone_early rfl rfl e.property
  | ok id =>
      rw [wp_bind, wp_get]
      cases hid : s.ctx.handles id with
      | none => trivial
      | some phandle =>
          rw [wp_bind, wp_inRegistry]
          refine wp_conseq (wp_found h hbare hid) ?_
          rintro _ reg ⟨hreg, hbare'⟩
          have hnext := hreg.meanwhile accepting.found
          have hbare'' := hbare'.meanwhile hreg accepting.found
          generalize hL : accepting.found.run ⟨reg, s.others⟩ = L at hnext hbare''
          have hpos : 0 < (L.refs + (tableRefs s.ctx + one phandle)) phandle := by
            simp only [Pi.add_apply, one, if_pos]
            omega
          have haccept := hnext.booked.wp_noted (a := .accept (some phandle))
            (fun x hx => Option.some.inj hx ▸ hpos) (ipcPortAccept (some phandle))
            (fun ret refs => enter refs (ret.2.map fun x => .chan x.1)) rfl
          simp only [wp_pure, wp_ite]
          rw [if_neg (by decide), wp_bind, wp_meanwhile, hL, wp_bind, wp_get, wp_bind, wp_note,
            wp_bind, wp_onReg]
          refine wp_mono (wp_and haccept wp_ipcPortAccept_taken) ?_ fun _ _ _ => trivial
          rintro ⟨ret, chan⟩ reg₁ ⟨hb, htaken⟩
          cases htaken with
          | fails herror hnothing hshut =>
              obtain rfl : chan = none := hnothing
              have hneg : ret < 0 := herror
              simp only [wp_ite]
              rw [if_pos (ne_of_lt hneg)]
              have hb' : Booked ⟨reg₁, L.refs + (tableRefs s.ctx + one phandle)⟩ := hb
              cases hpending : L.reg.nextPending phandle with
              | none =>
                  -- there was no connection to take
                  rw [wp_bind, wp_onReg]
                  refine wp_conseq (wp_any _ _) ?_
                  intro _ reg₂ _
                  exact allOrNone_early rfl rfl hneg
              | some c =>
                  have hzero := refs_zero_of_nextPending hnext.booked hbare'' hpending
                  obtain ⟨halone, hrest⟩ := Nat.add_eq_zero_iff.mp hzero
                  obtain ⟨hnew, -⟩ := Nat.add_eq_zero_iff.mp hrest
                  have hdrops : Drops s.ctx (one phandle) c
                      { s with reg := reg₁, others := L.refs, chan := some c } :=
                    ⟨hb', rfl, rfl, halone, hshut c hpending⟩
                  refine wp_seq (hdrops.wp_release hid) ?_
                  intro _ u hu
                  exact hu.allOrNone hnew rfl hneg
          | returns c uuid C hchan htaken hC hst =>
              obtain ⟨rfl, rfl⟩ := Prod.mk.inj hchan
              simp only [wp_ite]
              rw [if_neg (by decide)]
              have hzero := refs_zero_of_nextPending hnext.booked hbare'' htaken
              obtain ⟨halone, hrest⟩ := Nat.add_eq_zero_iff.mp hzero
              obtain ⟨hnew, -⟩ := Nat.add_eq_zero_iff.mp hrest
              have hb' : Booked ⟨reg₁,
                  enter (L.refs + (tableRefs s.ctx + one phandle)) (some (.chan c))⟩ := hb
              rw [enter_some, add_assoc] at hb'
              have hholds : Holds s.ctx (one phandle) c
                  { s with reg := reg₁, others := L.refs, chan := L.reg.nextPending phandle } :=
                ⟨hb', rfl, htaken, halone⟩
              exact hholds.wp_finishAccept hid hnew

end

/-- In every state of every run of the system, whatever others do meanwhile and
whatever the table holds. -/
theorem calls_allOrNone (h : ledger.Reachable anyEntry s.books) :
    (∀ env guest uuid path flags sched r t, env.HookErrs →
      sysConnect env guest uuid path flags sched s = .ok r t → AllOrNone s r t) ∧
    ∀ handleId sched copied r t, sysAccept handleId sched copied s = .ok r t → AllOrNone s r t := by
  have hbooks := booked_of_reachable h
  have hbare : s.reg.Unhandled := unhandled_of_reachable h
  constructor
  · intro env guest uuid path flags sched r t hhook hrun
    have hret := wp_ok (wp_sysConnect hbooks hhook) hrun
    exact hret
  · intro handleId sched copied r t hrun
    have hret := wp_ok (wp_sysAccept hbooks hbare) hrun
    exact hret

end

/-! ## A connection that is dropped again -/

/-- The ledger after each of these steps: a client waits for the port `p`, which is
made and published; the second reference to it is that of a table. -/
def afterSteps : List Action → Ledger
  | [] => ledgerAfterWait
  | a :: before => stateOf (a.keep (afterSteps before))

def portListed : Ledger :=
  afterSteps [.incref (.port 0), .publish (answering 0) 0, portCreated]

theorem reachable_portListed : ledger.Reachable anyEntry portListed := by
  have hwait : ledger.Reachable anyEntry ledgerAfterWait :=
    Machine.Reachable.init.step (M := ledger) (a := clientWaits) trivial trivial
      (by decide +kernel)
  have hcreate : ledger.Reachable anyEntry (afterSteps [portCreated]) :=
    hwait.step (a := portCreated) trivial trivial (by decide +kernel)
  have hport : 0 < (afterSteps [portCreated]).refs (.port 0) := by decide +kernel
  have hpublish : ledger.Reachable anyEntry (afterSteps [.publish (answering 0) 0, portCreated]) :=
    Machine.Reachable.step (M := ledger) (a := .publish (answering 0) 0) hcreate hport trivial
      (by decide +kernel)
  have hheld : 0 < (afterSteps [.publish (answering 0) 0, portCreated]).refs (.port 0) := by
    decide +kernel
  exact Machine.Reachable.step (M := ledger) (a := .incref (.port 0)) hpublish hheld trivial
    (by decide +kernel)

/-- The application with the port in its table. -/
def serving : CallState where
  reg := portListed.reg
  ctx := Uctx.empty.set 0 (some (.port 0))
  others x := portListed.refs x - tableRefs (Uctx.empty.set 0 (some (.port 0))) x
  chan := none

theorem books_serving : serving.books = portListed := by
  have htable : tableRefs serving.ctx = one (.port 0) + one (.port 0) := by
    have hempty : tableRefs Uctx.empty = 0 := by
      funext x
      exact tableRefs_eq_zero.mpr fun id => by simp [Uctx.empty]
    have hset : tableRefs (Uctx.empty.set 0 (some (.port 0))) =
        tableRefs Uctx.empty + one (.port 0) + one (.port 0) := tableRefs_set rfl
    rwa [hempty, zero_add] at hset
  have htwo : portListed.refs (.port 0) = 2 := by decide +kernel
  have hrefs : (serving.others + tableRefs serving.ctx) = portListed.refs := by
    funext x
    show portListed.refs x - tableRefs serving.ctx x + tableRefs serving.ctx x = portListed.refs x
    refine Nat.sub_add_cancel ?_
    rw [htable]
    by_cases hx : x = .port 0
    · subst hx
      rw [htwo]
      simp [one]
    · simp [one, hx]
  rw [CallState.books, hrefs]
  rfl

/-- Nobody else does anything. -/
def quietAccept : AcceptSchedule := ⟨.idle, .idle, .idle, .idle⟩

/-- The identity of the client cannot be copied to the application. -/
def faultingAccept : EStateM.Result Stop CallState Int := sysAccept 0 quietAccept false serving

/-- The connection is accepted and dropped again: the client is told. -/
theorem calls_allOrNone_faulting :
    faultingAccept = .ok errFault (stateOf faultingAccept) ∧
      AllOrNone serving errFault (stateOf faultingAccept) ∧
      (stateOf faultingAccept).chan = some 1 ∧
      ((stateOf faultingAccept).reg.chans 0).map (fun C => C.state) = some .disconnecting := by
  have hrun : faultingAccept = .ok errFault (stateOf faultingAccept) :=
    eq_ok_of_valueOf (by decide +kernel)
  have hreach : ledger.Reachable anyEntry serving.books := books_serving ▸ reachable_portListed
  exact ⟨hrun, (calls_allOrNone hreach).2 0 quietAccept false errFault _ hrun, by decide +kernel,
    by decide +kernel⟩

end TX2SecureUart.Syscall
