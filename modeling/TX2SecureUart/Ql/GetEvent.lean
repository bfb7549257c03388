/-
# `Ql.GetEvent` — the answer to `GET_EVENT`

A command that polls is answered with the event that the wait found, or with
the empty event.  The wait on one handle does that.  The wait on the list goes
on after a time-out as if a handle had been filled in, and there is none: the
command never ends when there are channels and none of them has an event.
-/
import TX2SecureUart.Ql.Inv

namespace TX2SecureUart.Ql

open Prog Ipc

/-! ## The answer -/

/-- `struct tipc_event` -/
structure TipcEvent where
  event : UInt32
  handle : UInt32
  cookie : UInt64
deriving DecidableEq

def TipcEvent.empty : TipcEvent := ⟨0, 0, 0⟩

/-- The event behind the header of the answer. -/
def eventAt (mem : Nat → UInt8) : TipcEvent where
  event := UInt32.ofNat (leNat (bytesAt mem sizeofTipcCmdHdr 4))
  handle := UInt32.ofNat (leNat (bytesAt mem (sizeofTipcCmdHdr + 4) 4))
  cookie := UInt64.ofNat (leNat (bytesAt mem (sizeofTipcCmdHdr + 8) 8))

/-- The channels that the command polls: that of its target, or all. -/
def QlState.polled (s : QlState) (addr : UInt32) : List ChanId :=
  if addr ≠ 0 then (s.dev.target addr).toList.map (·.2) else s.dev.handleList

/-- The command is refused before anything is polled. -/
def Refused (s : QlState) (payloadLen addr : UInt32) : Prop :=
  payloadLen.toNat < sizeofTipcWaitReq ∨ s.polled addr = []

/-- The event is that of an endpoint in use, whose channel was polled and
reported it. -/
def FromEndpoint (s : QlState) (addr : UInt32) (readings : List (ChanId → UInt32))
    (event : TipcEvent) : Prop :=
  ∃ slot c, s.dev.inuse slot = true ∧ (s.dev.epts slot).chan = some c ∧ c ∈ s.polled addr ∧
    (∃ poll ∈ readings, poll c = event.event) ∧ event.event ≠ 0 ∧
    event.handle = slotToAddr slot ∧ event.cookie = (s.dev.epts slot).cookie

/-- What a command answers that ends with `rc` in `t`. -/
structure Answered (s : QlState) (addr : UInt32) (readings : List (ChanId → UInt32)) (rc : Int)
    (t : QlState) : Prop where
  rc : rc = noError
  empty : eventAt t.mem = .empty ↔ ∀ poll ∈ readings, ∀ c ∈ s.polled addr, poll c = 0
  event : eventAt t.mem = .empty ∨ FromEndpoint s addr readings (eventAt t.mem)

/-- The reference counts are what they were. -/
def SameCounts (s t : QlState) : Prop :=
  ∀ c, (t.reg.chans c).map (·.handle.refcnt) = (s.reg.chans c).map (·.handle.refcnt)

/-- The command ends, is answered or refused, and gives back its references. -/
def GetEventAnswers (s : QlState) (poll : ChanId → UInt32) (polls : List (ChanId → UInt32))
    (payloadLen addr : UInt32) : Prop :=
  ∃ rc t, devGetEvent poll polls payloadLen addr s = .ok rc t ∧ SameCounts s t ∧
    (Refused s payloadLen addr → rc < 0) ∧
    (¬ Refused s payloadLen addr → Answered s addr (poll :: polls) rc t)

/-- There are channels, all of them are polled, and none reports an event
before the wait times out. -/
def ListTimesOut (s : QlState) (poll : ChanId → UInt32) (polls : List (ChanId → UInt32))
    (payloadLen addr : UInt32) : Prop :=
  sizeofTipcWaitReq ≤ payloadLen.toNat ∧ addr = 0 ∧ s.dev.handleList ≠ [] ∧
    ∀ reading ∈ poll :: polls, ∀ c ∈ s.dev.handleList, reading c = 0

/-! ## Storing the event -/

section

variable {F : Stop → QlState → Prop} {s : QlState}

theorem leNat_leBytes_toNat32 (v : UInt32) : UInt32.ofNat (leNat (leBytes 4 v.toNat)) = v := by
  rw [leNat_leBytes, Nat.mod_eq_of_lt (by exact v.toNat_lt), UInt32.ofNat_toNat]

theorem leNat_leBytes_toNat64 (v : UInt64) : UInt64.ofNat (leNat (leBytes 8 v.toNat)) = v := by
  rw [leNat_leBytes, Nat.mod_eq_of_lt (by exact v.toNat_lt), UInt64.ofNat_toNat]

theorem wp_storeEvent (handle event : UInt32) (cookie : UInt64) :
    wp (storeEvent handle event cookie) (fun _ t => ∃ mem log,
      t = { s with mem := mem, log := log } ∧ eventAt mem = ⟨event, handle, cookie⟩) F s := by
  rw [storeEvent, wp_bind, wp_store, wp_bind, wp_store, wp_store]
  refine ⟨_, _, rfl, ?_⟩
  have hevent := bytesAt_write (write s.mem (sizeofTipcCmdHdr + 4) (leBytes 4 handle.toNat))
    sizeofTipcCmdHdr (leBytes 4 event.toNat)
  have hhandle := bytesAt_write s.mem (sizeofTipcCmdHdr + 4) (leBytes 4 handle.toNat)
  rw [length_leBytes] at hevent hhandle
  have hcookie := bytesAt_write (write (write s.mem (sizeofTipcCmdHdr + 4)
    (leBytes 4 handle.toNat)) sizeofTipcCmdHdr (leBytes 4 event.toNat)) (sizeofTipcCmdHdr + 8)
    (leBytes 8 cookie.toNat)
  rw [length_leBytes] at hcookie
  rw [eventAt, hcookie, leNat_leBytes_toNat64, bytesAt_write_of_disjoint (Or.inl (by omega)), hevent,
    leNat_leBytes_toNat32, bytesAt_write_of_disjoint (Or.inl (by omega)),
    bytesAt_write_of_disjoint (Or.inr (by simp)), hhandle, leNat_leBytes_toNat32]

/-- What is written into the header leaves the event alone. -/
theorem eventAt_write {buf : Nat → UInt8} {start : Nat} {bytes : List UInt8}
    (h : start + bytes.length ≤ sizeofTipcCmdHdr) : eventAt (write buf start bytes) = eventAt buf := by
  rw [eventAt, bytesAt_write_of_disjoint (Or.inr h),
    bytesAt_write_of_disjoint (Or.inr (Nat.le_add_right_of_le h)),
    bytesAt_write_of_disjoint (Or.inr (Nat.le_add_right_of_le h)), eventAt]

theorem wp_setStatus (cmd : UInt16) (err : Int) (len : Nat) :
    wp (setStatus cmd err len) (fun rc t => rc = err ∧ ∃ mem log,
      t = { s with mem := mem, log := log } ∧ eventAt mem = eventAt s.mem) F s := by
  rw [setStatus, wp_bind, wp_store, wp_bind, wp_store, wp_bind, wp_store, wp_pure]
  refine ⟨rfl, _, _, rfl, ?_⟩
  rw [eventAt_write (by simp [sizeofTipcCmdHdr]), eventAt_write (by simp [sizeofTipcCmdHdr]),
    eventAt_write (by simp [sizeofTipcCmdHdr])]

end

/-! ## The two waits -/

section

variable {refs : HandlePtr → Nat} {s t : QlState} {c : ChanId} {slot : Nat}
  {addr payloadLen event : UInt32} {poll : ChanId → UInt32}
  {polls readings : List (ChanId → UInt32)} {rc : Int}

/-- Nothing was ready, and the answer is the empty event. -/
theorem answered_empty (hrc : rc = noError) (hnone : firstReady (s.polled addr) readings = none)
    (hmem : eventAt t.mem = .empty) : Answered s addr readings rc t where
  rc := hrc
  empty := iff_of_true hmem (firstReady_eq_none.mp hnone)
  event := Or.inl hmem

/-- A channel was ready, and the answer is its event. -/
theorem answered_event (hrc : rc = noError)
    (hsome : firstReady (s.polled addr) readings = some (c, event))
    (hslot : s.dev.inuse slot = true) (hchan : (s.dev.epts slot).chan = some c)
    (hmem : eventAt t.mem = ⟨event, slotToAddr slot, (s.dev.epts slot).cookie⟩) :
    Answered s addr readings rc t := by
  obtain ⟨hc, hne, hpoll⟩ := firstReady_eq_some hsome
  refine ⟨hrc, ?_, Or.inr ⟨slot, c, hslot, hchan, hc, ?_, ?_, ?_, ?_⟩⟩
  · rw [← firstReady_eq_none, hsome, hmem]
    simp [TipcEvent.empty, hne]
  · rwa [hmem]
  · rwa [hmem]
  · rw [hmem]
  · rw [hmem]

/-- What a command that polls changes, besides the buffer: one event is
finalized, and the list begins with another handle. -/
structure Polled (s t : QlState) : Prop where
  perm : t.dev.handleList.Perm s.dev.handleList
  inuse : t.dev.inuse = s.dev.inuse
  epts : t.dev.epts = s.dev.epts
  cookie : t.cookie = s.cookie
  waitEvent : t.waitEvent = s.waitEvent
  reg : t.reg = s.reg ∨ ∃ c C event, s.reg.chans c = some C ∧
    t.reg = s.reg.setChan c (finalizedChan C event)

theorem Polled.buffer (s : QlState) (mem : Nat → UInt8) (log : List Access) :
    Polled s { s with mem := mem, log := log } :=
  ⟨.refl _, rfl, rfl, rfl, rfl, Or.inl rfl⟩

theorem Polled.sameCounts (h : Polled s t) : SameCounts s t := by
  intro d
  rcases h.reg with hreg | ⟨c, C, event, hC, hreg⟩
  · rw [hreg]
  · rw [hreg, Registry.setChan_chans]
    by_cases hd : d = c
    · subst hd
      simp [hC, finalizedChan]
    · rw [if_neg hd]

theorem split_at {l : List ChanId} (hc : c ∈ l) :
    (l.takeWhile fun x => x ≠ c) ++ c :: l.drop ((l.takeWhile fun x => x ≠ c).length + 1) = l := by
  induction l with
  | nil => cases hc
  | cons d rest ih =>
      by_cases hd : d = c
      · subst hd
        simp
      · have hrest : c ∈ rest := (List.mem_cons.mp hc).resolve_left fun h => hd h.symm
        simpa [hd] using ih hrest

theorem perm_rotate {l : List ChanId} (hc : c ∈ l) : (rotate c l).Perm l := by
  rw [rotate, List.append_assoc]
  refine List.perm_append_comm.trans (.of_eq ?_)
  rw [List.append_assoc]
  exact split_at hc

theorem DevInv.wp_getEvent_one (h : DevInv refs s) (hlen : sizeofTipcWaitReq ≤ payloadLen.toNat)
    (haddr : addr ≠ 0) (htarget : s.dev.target addr = some (slot, c)) :
    wp (devGetEvent poll polls payloadLen addr) (fun rc t =>
      Polled s t ∧ Answered s addr (poll :: polls) rc t) (fun _ _ => False) s := by
  obtain ⟨-, hslot, hinuse, hchan⟩ := target_eq_some htarget
  obtain ⟨C, hC, -⟩ := h.chan (h.linked hchan).1
  have hpolled : s.polled addr = [c] := by simp [QlState.polled, haddr, htarget]
  rw [devGetEvent, wp_ite, if_neg (Nat.not_lt_of_le hlen), wp_ite, if_pos haddr, wp_bind, wp_get,
    htarget]
  refine wp_seq (wp_handleWait hC (h.idle c)) ?_
  intro r t ht
  cases hfirst : firstReady [c] (poll :: polls) with
  | none =>
      rw [hfirst] at ht
      obtain ⟨rfl, rfl⟩ := ht
      rw [handleEvent, wp_bind, wp_ite, if_pos rfl]
      refine wp_conseq (wp_storeEvent 0 0 0) ?_
      rintro _ _ ⟨mem, log, rfl, hmem⟩
      refine wp_conseq (wp_setStatus _ _ _) ?_
      rintro rc _ ⟨hrc, mem', log', rfl, hmem'⟩
      exact ⟨.buffer _ _ _, answered_empty hrc (hpolled ▸ hfirst) (hmem'.trans hmem)⟩
  | some x =>
      obtain ⟨d, event⟩ := x
      obtain rfl : d = c := by simpa using (firstReady_eq_some hfirst).1
      rw [hfirst] at ht
      obtain ⟨rfl, rfl⟩ := ht
      rw [handleEvent, wp_bind, wp_ite, if_neg (by simp [errTimedOut]), wp_ite, if_neg (by simp),
        wp_bind, wp_get]
      refine wp_conseq (wp_storeEvent _ _ _) ?_
      rintro _ _ ⟨mem, log, rfl, hmem⟩
      refine wp_conseq (wp_setStatus _ _ _) ?_
      rintro rc _ ⟨hrc, mem', log', rfl, hmem'⟩
      refine ⟨⟨.refl _, rfl, rfl, rfl, rfl, Or.inr ⟨d, C, event, hC, rfl⟩⟩, ?_⟩
      refine answered_event hrc (hpolled ▸ hfirst) hinuse hchan ?_
      rw [hmem', hmem, hslot]
      rfl

/-- The handle that was found gives back the reference taken for it. -/
theorem wp_chanEvent {F : Stop → QlState → Prop} {C : Chan}
    (hcnt : 2 ≤ C.handle.refcnt) (hcookie : s.cookie c = some slot) :
    wp (chanEvent (some (c, event))) (fun _ t => ∃ mem log,
      t = { s.foundReady c C event with
        reg := s.reg.setChan c (finalizedChan C event), mem := mem, log := log } ∧
      eventAt mem = ⟨event, slotToAddr slot, (s.dev.epts slot).cookie⟩) F
      (s.foundReady c C event) := by
  have hfound : (s.foundReady c C event).reg.chans c = some { finalizedChan C event with
      handle := { C.handle with refcnt := C.handle.refcnt + 1 } } := by
    simp [QlState.foundReady]
  have hcookie' : (s.foundReady c C event).cookie c = some slot := hcookie
  rw [chanEvent, wp_bind, handleGetCookie, wp_bind, wp_onReg, wp_getChan, hfound, Option.elim_some,
    wp_bind, wp_get, wp_pure, hcookie', wp_bind, wp_get]
  refine wp_seq (wp_storeEvent _ _ _) ?_
  rintro _ _ ⟨mem, log, rfl, hmem⟩
  rw [wp_onReg, handleDecref, wp_bind, wp_getChan, hfound, Option.elim_some, wp_bind,
    wp_modifyChan, hfound, Option.elim_some, wp_ite, if_neg (by dsimp only; omega), wp_pure]
  refine ⟨mem, log, ?_, hmem⟩
  simp [QlState.foundReady, finalizedChan]

theorem DevInv.wp_getEvent_list (h : DevInv refs s) (hlen : sizeofTipcWaitReq ≤ payloadLen.toNat)
    (hlist : s.dev.handleList ≠ [])
    (hfirst : firstReady s.dev.handleList (poll :: polls) = some (c, event)) :
    wp (devGetEvent poll polls payloadLen 0) (fun rc t =>
      Polled s t ∧ Answered s 0 (poll :: polls) rc t) (fun _ _ => False) s := by
  obtain ⟨slot, hchan⟩ := h.listed (firstReady_eq_some hfirst).1
  obtain ⟨C, hC, hcnt⟩ := h.chan (firstReady_eq_some hfirst).1
  have hpolled : s.polled 0 = s.dev.handleList := by simp [QlState.polled]
  have hinuse : s.dev.inuse slot = true := by rw [h.slots, hchan, Option.isSome_some]
  rw [devGetEvent, wp_ite, if_neg (Nat.not_lt_of_le hlen), wp_ite, if_neg (by simp)]
  refine wp_seq (wp_handleListWait h.live h.idle h.nodup) ?_
  intro r t ht
  rw [if_neg hlist, hfirst, Option.elim_some] at ht
  obtain ⟨rfl, C', hC', rfl⟩ := ht
  obtain rfl : C = C' := Option.some.inj (hC.symm.trans hC')
  rw [wp_ite, if_neg (by simp [errNotFound]), wp_bind, listEvent, wp_ite,
    if_neg (by simp [errTimedOut]), wp_ite, if_neg (by simp)]
  refine wp_conseq (wp_chanEvent hcnt (h.linked hchan).2) ?_
  rintro _ _ ⟨mem, log, rfl, hmem⟩
  refine wp_conseq (wp_setStatus _ _ _) ?_
  rintro rc _ ⟨hrc, mem', log', rfl, hmem'⟩
  refine ⟨⟨perm_rotate (firstReady_eq_some hfirst).1, rfl, rfl, rfl, rfl,
    Or.inr ⟨c, C, event, hC, rfl⟩⟩, ?_⟩
  exact answered_event hrc (hpolled ▸ hfirst) hinuse hchan (hmem'.trans hmem)

/-- After a time-out of the list the code goes on with a handle that is not
there. -/
theorem DevInv.wp_getEvent_timeout (h : DevInv refs s)
    (hlen : sizeofTipcWaitReq ≤ payloadLen.toNat) (hlist : s.dev.handleList ≠ [])
    (hfirst : firstReady s.dev.handleList (poll :: polls) = none) :
    wp (devGetEvent poll polls payloadLen 0) (fun _ _ => False) (fun e _ => e = .nullDeref) s := by
  rw [devGetEvent, wp_ite, if_neg (Nat.not_lt_of_le hlen), wp_ite, if_neg (by simp)]
  refine wp_seq (wp_handleListWait h.live h.idle h.nodup) ?_
  intro r t ht
  rw [if_neg hlist, hfirst, Option.elim_none] at ht
  obtain ⟨rfl, rfl⟩ := ht
  rw [wp_ite, if_neg (by simp [errTimedOut, errNotFound]), wp_bind, listEvent, wp_ite, if_pos rfl,
    wp_bind]
  refine wp_conseq (wp_storeEvent 0 0 0) ?_
  intro _ u _
  rw [wp_ite, if_neg (by simp)]
  rfl

/-- Without anything to poll the command is refused. -/
theorem DevInv.wp_getEvent_refused (h : DevInv refs s) (hrefused : Refused s payloadLen addr) :
    wp (devGetEvent poll polls payloadLen addr) (fun rc t => Polled s t ∧ rc < 0)
      (fun _ _ => False) s := by
  have hstatus : ∀ err : Int, err < 0 → wp (setStatus qlTipcDevGetEvent err 0)
      (fun rc t => Polled s t ∧ rc < 0) (fun _ _ => False) s := by
    intro err herr
    refine wp_conseq (wp_setStatus _ _ _) ?_
    rintro _ _ ⟨rfl, mem, log, rfl, -⟩
    exact ⟨.buffer _ _ _, herr⟩
  rw [devGetEvent, wp_ite]
  by_cases hlen : payloadLen.toNat < sizeofTipcWaitReq
  · rw [if_pos hlen]
    exact hstatus _ (by simp [errInvalidArgs])
  have hpolled := hrefused.resolve_left hlen
  rw [if_neg hlen, wp_ite]
  by_cases haddr : addr ≠ 0
  · have htarget : s.dev.target addr = none := by
      cases htarget : s.dev.target addr with
      | none => rfl
      | some found => simp [QlState.polled, haddr, htarget] at hpolled
    rw [if_pos haddr, wp_bind, wp_get, htarget]
    exact hstatus _ (by simp [errInvalidArgs])
  · have hlist : s.dev.handleList = [] := by simpa [QlState.polled, haddr] using hpolled
    rw [if_neg haddr]
    refine wp_seq (wp_handleListWait h.live h.idle h.nodup) ?_
    intro r t ht
    rw [if_pos hlist] at ht
    obtain ⟨rfl, rfl⟩ := ht
    rw [wp_ite, if_pos rfl]
    exact hstatus _ (by simp [errNotFound])

/-! ## When the command answers -/

theorem DevInv.wp_devGetEvent (h : DevInv refs s) :
    wp (devGetEvent poll polls payloadLen addr) (fun rc t =>
      ¬ ListTimesOut s poll polls payloadLen addr ∧ Polled s t ∧
        (Refused s payloadLen addr → rc < 0) ∧
        (¬ Refused s payloadLen addr → Answered s addr (poll :: polls) rc t))
      (fun e _ => ListTimesOut s poll polls payloadLen addr ∧ e = .nullDeref) s := by
  by_cases hrefused : Refused s payloadLen addr
  · refine wp_mono (h.wp_getEvent_refused hrefused) ?_ fun _ _ he => he.elim
    rintro rc t ⟨ht, hrc⟩
    refine ⟨?_, ht, fun _ => hrc, fun hn => absurd hrefused hn⟩
    rintro ⟨hlen, rfl, hlist, -⟩
    exact hrefused.elim (fun hlt => absurd hlt (Nat.not_lt_of_le hlen))
      fun hpolled => hlist (by simpa [QlState.polled] using hpolled)
  obtain ⟨hshort, hpolled⟩ := not_or.mp hrefused
  have hlen := Nat.le_of_not_lt hshort
  -- a command that polls and is answered
  have hanswer : ¬ ListTimesOut s poll polls payloadLen addr →
      wp (devGetEvent poll polls payloadLen addr) (fun rc t =>
        Polled s t ∧ Answered s addr (poll :: polls) rc t) (fun _ _ => False) s →
      wp (devGetEvent poll polls payloadLen addr) (fun rc t =>
        ¬ ListTimesOut s poll polls payloadLen addr ∧ Polled s t ∧
          (Refused s payloadLen addr → rc < 0) ∧
          (¬ Refused s payloadLen addr → Answered s addr (poll :: polls) rc t))
        (fun e _ => ListTimesOut s poll polls payloadLen addr ∧ e = .nullDeref) s := by
    intro hready hwp
    refine wp_mono hwp ?_ fun _ _ he => he.elim
    rintro rc t ⟨ht, hanswered⟩
    exact ⟨hready, ht, fun hr => absurd hr hrefused, fun _ => hanswered⟩
  by_cases haddr : addr ≠ 0
  · cases htarget : s.dev.target addr with
    | none => simp [QlState.polled, haddr, htarget] at hpolled
    | some found => exact hanswer (fun h => haddr h.2.1) (h.wp_getEvent_one hlen haddr htarget)
  · obtain rfl : addr = 0 := not_not.mp haddr
    have hlist : s.dev.handleList ≠ [] := by simpa [QlState.polled] using hpolled
    cases hfirst : firstReady s.dev.handleList (poll :: polls) with
    | some x =>
        refine hanswer ?_ (h.wp_getEvent_list hlen hlist hfirst)
        intro hout
        simp [firstReady_eq_none.mpr hout.2.2.2] at hfirst
    | none =>
        refine wp_mono (h.wp_getEvent_timeout hlen hlist hfirst) (fun _ _ ht => ht.elim) ?_
        intro e _ he
        exact ⟨⟨hlen, rfl, hlist, firstReady_eq_none.mp hfirst⟩, he⟩

theorem DevInv.getEventAnswers_iff (h : DevInv refs s) :
    GetEventAnswers s poll polls payloadLen addr ↔ ¬ ListTimesOut s poll polls payloadLen addr := by
  constructor
  · rintro ⟨rc, t, hrun, -⟩
    exact (wp_ok h.wp_devGetEvent hrun).1
  · intro hready
    obtain ⟨rc, t, hrun, -, ht, hrefused, hanswered⟩ :=
      wp_total (wp_mono h.wp_devGetEvent (fun _ _ ht => ht) fun _ _ he => hready he.1)
    exact ⟨rc, t, hrun, ht.sameCounts, hrefused, hanswered⟩

end

end TX2SecureUart.Ql
