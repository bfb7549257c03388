/-
# `Ql.Wait` — what a wait comes to

A wait goes through the readings in order and through the handles in the order
of the list, and ends with the first event it sees.  That is `firstReady`; the
loops of `handle.c` compute it, and put back what they changed on the way.
-/
import TX2SecureUart.Ql.Device

namespace TX2SecureUart.Ql

open Prog Ipc

/-! ## The first event -/

/-- The first handle that reports an event in one reading. -/
def readyIn (poll : ChanId → UInt32) (l : List ChanId) : Option (ChanId × UInt32) :=
  (l.find? fun c => poll c ≠ 0).map fun c => (c, poll c)

/-- The first event in a sequence of readings. -/
def firstReady (l : List ChanId) (readings : List (ChanId → UInt32)) :
    Option (ChanId × UInt32) :=
  readings.findSome? fun poll => readyIn poll l

section

variable {poll : ChanId → UInt32} {readings : List (ChanId → UInt32)} {l : List ChanId}
  {c : ChanId} {event : UInt32}

theorem readyIn_cons (rest : List ChanId) :
    readyIn poll (c :: rest) = if poll c ≠ 0 then some (c, poll c) else readyIn poll rest := by
  rw [readyIn, List.find?_cons]
  by_cases h : poll c ≠ 0
  · simp [h]
  · simp [h, readyIn]

theorem firstReady_eq_none :
    firstReady l readings = none ↔ ∀ poll ∈ readings, ∀ c ∈ l, poll c = 0 := by
  simp [firstReady, readyIn, List.findSome?_eq_none_iff]

/-- An event comes from a channel of the list, which reported it. -/
theorem firstReady_eq_some (h : firstReady l readings = some (c, event)) :
    c ∈ l ∧ event ≠ 0 ∧ ∃ poll ∈ readings, poll c = event := by
  obtain ⟨poll, hpoll, hready⟩ := List.exists_of_findSome?_eq_some h
  rw [readyIn, Option.map_eq_some_iff] at hready
  obtain ⟨d, hfind, heq⟩ := hready
  cases heq
  have hne := List.find?_some hfind
  exact ⟨List.mem_of_find?_eq_some hfind, by simpa using hne, poll, hpoll, rfl⟩

end

/-! ## Finalizing an event -/

/-- `chan_finalize_event`, on the channel. -/
def finalizedChan (C : Chan) (event : UInt32) : Chan :=
  { C with auxState := { C.auxState with
      sendUnblocked :=
        if event &&& ipcHandlePollSendUnblocked ≠ 0 then false else C.auxState.sendUnblocked
      connected := if event &&& ipcHandlePollReady ≠ 0 then false else C.auxState.connected } }

section

variable {α : Type} {E : Fault → Registry → Prop} {F : Stop → QlState → Prop} {reg : Registry}
  {s : QlState} {c : ChanId} {C : Chan} {event : UInt32} {poll : ChanId → UInt32}

theorem wp_chanFinalizeEvent {Q : Unit → Registry → Prop} (hC : reg.chans c = some C) :
    wp (chanFinalizeEvent c event) Q E reg ↔ Q () (reg.setChan c (finalizedChan C event)) := by
  simp only [chanFinalizeEvent, wp_bind, wp_ite, wp_pure, wp_modifyChan, hC, Option.elim_some,
    Registry.setChan_chans, if_true, Registry.setChan_setChan]
  by_cases hsend : event &&& ipcHandlePollSendUnblocked ≠ 0
  · by_cases hready : event &&& ipcHandlePollReady ≠ 0
    · simp [finalizedChan, hsend, hready]
    · simp [finalizedChan, hsend, hready]
  · by_cases hready : event &&& ipcHandlePollReady ≠ 0
    · simp [finalizedChan, hsend, hready]
    · have hsame : finalizedChan C event = C := by simp [finalizedChan, hsend, hready]
      simp [hsend, hready, hsame, Registry.setChan_self hC]

/-! ## One handle -/

def QlState.withWait (s : QlState) (w : ChanId → Bool) : QlState := { s with waitEvent := w }

theorem wp_prepareWaitHandle {Q : Int → QlState → Prop} (hC : s.reg.chans c = some C)
    (hidle : s.waitEvent c = false) :
    wp (prepareWaitHandle c) Q F s ↔ Q 0 (s.withWait (Function.update s.waitEvent c true)) := by
  simp only [prepareWaitHandle, wp_bind, wp_onReg, wp_getChan, hC, Option.elim_some, wp_get,
    wp_pure, wp_modify, hidle, Bool.false_eq_true, if_false]
  rfl

theorem wp_finishWaitHandle {Q : Unit → QlState → Prop} (hC : s.reg.chans c = some C) :
    wp (finishWaitHandle c) Q F s ↔ Q () (s.withWait (Function.update s.waitEvent c false)) := by
  simp only [finishWaitHandle, wp_bind, wp_onReg, wp_getChan, hC, Option.elim_some, wp_modify]
  rfl

/-- The state after an event of a channel was taken. -/
def QlState.took (s : QlState) (c : ChanId) (C : Chan) (event : UInt32) : QlState :=
  { s with reg := s.reg.setChan c (finalizedChan C event) }

theorem wp_waitLoop {readings : List (ChanId → UInt32)} (hC : s.reg.chans c = some C) :
    wp (waitLoop c readings) (fun r t =>
      (firstReady [c] readings).elim (r = (errTimedOut, 0) ∧ t = s)
        fun x => r = (noError, x.2) ∧ t = s.took c C x.2) F s := by
  induction readings with
  | nil => exact ⟨rfl, rfl⟩
  | cons poll readings ih =>
      simp only [waitLoop, wp_bind, wp_onReg, wp_getChan, hC, Option.elim_some, wp_ite]
      by_cases hready : poll c ≠ 0
      · rw [if_pos hready, wp_chanFinalizeEvent hC]
        simp [firstReady, readyIn, hready, QlState.took]
      · rw [if_neg hready]
        have hnext : firstReady [c] (poll :: readings) = firstReady [c] readings := by
          simp [firstReady, readyIn, hready]
        rw [hnext]
        exact ih

theorem wp_handleWait {readings : List (ChanId → UInt32)} (hC : s.reg.chans c = some C)
    (hidle : s.waitEvent c = false) :
    wp (handleWait c readings) (fun r t =>
      (firstReady [c] readings).elim (r = (errTimedOut, 0) ∧ t = s)
        fun x => r = (noError, x.2) ∧ t = s.took c C x.2) F s := by
  have hback : Function.update (Function.update s.waitEvent c true) c false = s.waitEvent := by
    rw [Function.update_idem, ← hidle, Function.update_eq_self]
  rw [handleWait, wp_bind, wp_prepareWaitHandle hC hidle, wp_ite, if_neg (by simp)]
  refine wp_seq (wp_waitLoop (s := s.withWait _) hC) ?_
  intro r t ht
  rw [wp_bind]
  cases hfirst : firstReady [c] readings with
  | none =>
      rw [hfirst] at ht
      obtain ⟨rfl, rfl⟩ := ht
      rw [wp_finishWaitHandle (s := s.withWait (Function.update s.waitEvent c true)) hC]
      exact ⟨rfl, by simp only [QlState.withWait, hback]⟩
  | some x =>
      rw [hfirst] at ht
      obtain ⟨rfl, rfl⟩ := ht
      rw [wp_finishWaitHandle (C := finalizedChan C x.2) (by simp [QlState.took])]
      exact ⟨rfl, by simp only [QlState.withWait, QlState.took, hback]⟩

/-! ## A list of handles -/

/-- The handles up to and with `last`. -/
def upTo (last : Option ChanId) : List ChanId → List ChanId
  | [] => []
  | c :: rest => if some c = last then [c] else c :: upTo last rest

theorem upTo_none (l : List ChanId) : upTo none l = l := by
  induction l with
  | nil => rfl
  | cons c rest ih => rw [upTo, if_neg (by simp), ih]

theorem mem_of_mem_upTo {last : Option ChanId} {l : List ChanId} {x : ChanId}
    (h : x ∈ upTo last l) : x ∈ l := by
  induction l with
  | nil => exact h
  | cons c rest ih =>
      rw [upTo] at h
      split at h
      · exact List.mem_cons.mpr (Or.inl (List.mem_singleton.mp h))
      · exact (List.mem_cons.mp h).elim (fun hx => hx ▸ List.mem_cons_self)
          fun hx => List.mem_cons_of_mem c (ih hx)

/-- All the handles exist. -/
def Live (s : QlState) (l : List ChanId) : Prop := ∀ c ∈ l, ∃ C, s.reg.chans c = some C

theorem wp_hlistFinishWait {last : Option ChanId} {l : List ChanId} :
    ∀ {s : QlState}, Live s l → wp (hlistFinishWait last l) (fun _ t =>
      t = s.withWait fun x => if x ∈ upTo last l then false else s.waitEvent x) F s := by
  induction l with
  | nil =>
      intro s _
      simp [hlistFinishWait, upTo, QlState.withWait]
  | cons c rest ih =>
      intro s hlive
      obtain ⟨C, hC⟩ := hlive c List.mem_cons_self
      rw [hlistFinishWait, wp_bind, wp_finishWaitHandle hC, wp_ite, wp_pure, upTo]
      have hone : ∀ x, Function.update s.waitEvent c false x =
          if x ∈ [c] then false else s.waitEvent x := by
        intro x
        simp [Function.update_apply]
      split
      · simp only [QlState.withWait, ← hone]
      · refine wp_conseq (ih (s := s.withWait _) fun x hx => hlive x (List.mem_cons_of_mem c hx)) ?_
        rintro _ t rfl
        simp only [QlState.withWait, hone]
        congr 1
        funext x
        by_cases hx : x ∈ upTo last rest
        · simp [hx]
        · by_cases hxc : x = c
          · simp [hxc]
          · simp [hx, hxc]

/-- A reading of all handles leaves everything as it is. -/
theorem wp_hlistPoll {last : Option ChanId} {l : List ChanId} (hlive : Live s l) :
    wp (hlistPoll poll false last l) (fun r t =>
      r = ((readyIn poll l).elim 0 fun _ => 1, readyIn poll l, last) ∧ t = s) F s := by
  induction l with
  | nil => exact ⟨rfl, rfl⟩
  | cons c rest ih =>
      obtain ⟨C, hC⟩ := hlive c List.mem_cons_self
      simp only [hlistPoll, if_false, wp_bind, wp_pure, Bool.false_eq_true, ne_eq, not_true_eq_false,
        wp_onReg, wp_getChan, hC, Option.elim_some, wp_ite]
      rw [readyIn_cons]
      by_cases hready : poll c ≠ 0
      · rw [if_pos hready, if_pos hready]
        exact ⟨rfl, trivial⟩
      · rw [if_neg hready, if_neg hready]
        exact ih fun x hx => hlive x (List.mem_cons_of_mem c hx)

/-- A reading that prepares the handles on its way marks no more than
`hlistFinishWait` clears, and all of them if nothing is ready. -/
theorem wp_hlistPoll_prepare {l : List ChanId} :
    ∀ {s : QlState} {last : Option ChanId}, Live s l → (∀ c ∈ l, s.waitEvent c = false) →
      l.Nodup → wp (hlistPoll poll true last l) (fun r t =>
        r.1 = ((readyIn poll l).elim 0 fun _ => 1) ∧ r.2.1 = readyIn poll l ∧
        (l = [] ∧ r.2.2 = last ∨ ∃ c ∈ l, r.2.2 = some c) ∧
        ∃ w, t = s.withWait w ∧
          ∀ x, w x = true → s.waitEvent x = true ∨ x ∈ upTo r.2.2 l) F s := by
  induction l with
  | nil =>
      intro s last _ _ _
      exact ⟨rfl, rfl, Or.inl ⟨rfl, rfl⟩, s.waitEvent, rfl, fun x hx => Or.inl hx⟩
  | cons c rest ih =>
      intro s last hlive hidle hnodup
      obtain ⟨C, hC⟩ := hlive c List.mem_cons_self
      obtain ⟨hc, hrest⟩ := List.nodup_cons.mp hnodup
      simp only [hlistPoll, if_true, wp_bind]
      rw [wp_prepareWaitHandle hC (hidle c List.mem_cons_self)]
      simp only [ne_eq, not_true_eq_false, if_false, wp_bind, wp_onReg, wp_getChan,
        QlState.withWait, hC, Option.elim_some, wp_ite, wp_pure]
      have hmark : ∀ x, Function.update s.waitEvent c true x = true →
          s.waitEvent x = true ∨ x = c := by
        intro x hx
        by_cases hxc : x = c
        · exact Or.inr hxc
        · exact Or.inl (by simpa [hxc] using hx)
      rw [readyIn_cons]
      by_cases hready : poll c ≠ 0
      · rw [if_pos hready, if_pos hready]
        refine ⟨rfl, rfl, Or.inr ⟨c, List.mem_cons_self, rfl⟩, _, rfl, ?_⟩
        intro x hx
        rw [upTo, if_pos rfl]
        exact (hmark x hx).imp_right fun h => by simp [h]
      · rw [if_neg hready, if_neg hready]
        refine wp_conseq (ih (s := s.withWait (Function.update s.waitEvent c true))
          (fun x hx => hlive x (List.mem_cons_of_mem c hx)) ?_ hrest) ?_
        · intro x hx
          have hxc : x ≠ c := by
            rintro rfl
            exact hc hx
          simpa [QlState.withWait, hxc] using hidle x (List.mem_cons_of_mem c hx)
        · rintro ⟨ret, found, lastPrep⟩ t ⟨hret, hfound, hlast, w, rfl, hw⟩
          refine ⟨hret, hfound, Or.inr ?_, w, rfl, ?_⟩
          · rcases hlast with ⟨-, h⟩ | ⟨d, hd, h⟩
            · exact ⟨c, List.mem_cons_self, h⟩
            · exact ⟨d, List.mem_cons_of_mem c hd, h⟩
          · intro x hx
            rw [upTo]
            rcases hw x hx with hold | hold
            · rcases hmark x hold with h | rfl
              · exact Or.inl h
              · refine Or.inr ?_
                split <;> exact List.mem_cons_self
            · refine Or.inr ?_
              rcases hlast with ⟨rfl, -⟩ | ⟨d, hd, h⟩
              · cases hold
              · rw [if_neg]
                · exact List.mem_cons_of_mem c hold
                · intro heq
                  rw [h] at heq
                  exact hc (Option.some.inj heq ▸ hd)

/-- Nobody waits. -/
def Idle (s : QlState) : Prop := ∀ c, s.waitEvent c = false

theorem Idle.withWait (h : Idle s) {w : ChanId → Bool} (hw : ∀ x, w x = false) :
    s.withWait w = s := by
  have hsame : w = s.waitEvent := funext fun x => (hw x).trans (h x).symm
  rw [QlState.withWait, hsame]

theorem wp_hlistDoPollLocked (hlist : s.dev.handleList ≠ []) (hlive : Live s s.dev.handleList) :
    wp (hlistDoPollLocked poll false) (fun r t =>
      r = ((readyIn poll s.dev.handleList).elim 0 fun _ => 1, readyIn poll s.dev.handleList) ∧
        t = s) F s := by
  rw [hlistDoPollLocked, wp_bind, wp_get, wp_ite, if_neg hlist]
  refine wp_seq (wp_hlistPoll hlive) ?_
  rintro _ _ ⟨rfl, rfl⟩
  rw [wp_ite, if_neg (by simp)]
  exact ⟨rfl, rfl⟩

/-- The reading that prepares: if nothing is ready, handles of the list are
left waiting. -/
theorem wp_hlistDoPollLocked_prepare (hlist : s.dev.handleList ≠ [])
    (hlive : Live s s.dev.handleList) (hidle : Idle s) (hnodup : s.dev.handleList.Nodup) :
    wp (hlistDoPollLocked poll true) (fun r t =>
      r = ((readyIn poll s.dev.handleList).elim 0 fun _ => 1, readyIn poll s.dev.handleList) ∧
      ∃ w, t = s.withWait w ∧ (∀ x, w x = true → x ∈ s.dev.handleList) ∧
        ((readyIn poll s.dev.handleList).isSome → ∀ x, w x = false)) F s := by
  rw [hlistDoPollLocked, wp_bind, wp_get, wp_ite, if_neg hlist]
  refine wp_seq (wp_hlistPoll_prepare hlive (fun c _ => hidle c) hnodup) ?_
  rintro ⟨ret, found, last⟩ t ⟨hret, hfound, hlast, w, rfl, hw⟩
  obtain ⟨d, -, hd⟩ := hlast.resolve_left fun h => hlist h.1
  have hmarked : ∀ x, w x = true → x ∈ upTo last s.dev.handleList := by
    intro x hx
    exact (hw x hx).resolve_left (by simp [hidle x])
  dsimp only at hret hfound hd ⊢
  rw [hret, hfound]
  cases hready : readyIn poll s.dev.handleList with
  | none =>
      rw [wp_ite, if_neg (by simp)]
      exact ⟨rfl, w, rfl, fun x hx => mem_of_mem_upTo (hmarked x hx), by simp⟩
  | some x =>
      rw [wp_ite, if_pos (by simp [hd]), wp_bind]
      refine wp_conseq (wp_hlistFinishWait (s := s.withWait w) hlive) ?_
      rintro _ t rfl
      have hclear : ∀ x, (if x ∈ upTo last s.dev.handleList then false else w x) = false := by
        intro x
        split
        · rfl
        · rename_i hx
          exact Bool.eq_false_iff.mpr fun h => hx (hmarked x h)
      refine ⟨rfl, _, rfl, ?_, fun _ => hclear⟩
      intro x hx
      exact absurd ((hclear x).symm.trans hx) (by simp)

theorem wp_listWaitLoop {readings : List (ChanId → UInt32)} (hlist : s.dev.handleList ≠ [])
    (hlive : Live s s.dev.handleList) :
    wp (listWaitLoop readings) (fun r t =>
      r = (firstReady s.dev.handleList readings).elim (errTimedOut, none) (fun x => (1, some x)) ∧
        t = s) F s := by
  induction readings with
  | nil => exact ⟨rfl, rfl⟩
  | cons poll readings ih =>
      rw [listWaitLoop]
      refine wp_seq (wp_hlistDoPollLocked hlist hlive) ?_
      rintro _ t ⟨rfl, ht⟩
      subst t
      cases hready : readyIn poll s.dev.handleList with
      | none =>
          rw [wp_ite, if_pos (by simp)]
          simpa [firstReady, hready] using ih
      | some x =>
          rw [wp_ite, if_neg (by simp)]
          simp [firstReady, hready]

/-- The list goes on behind the handle that was found. -/
def QlState.foundReady (s : QlState) (c : ChanId) (C : Chan) (event : UInt32) : QlState :=
  { s with
    reg := s.reg.setChan c { finalizedChan C event with
      handle := { C.handle with refcnt := C.handle.refcnt + 1 } }
    dev := { s.dev with handleList := rotate c s.dev.handleList } }

theorem wp_listReady (hC : s.reg.chans c = some C) :
    wp (listReady (some (c, event))) (fun r t =>
      r = (noError, some (c, event)) ∧ t = s.foundReady c C event) F s := by
  rw [listReady, wp_bind, wp_onReg, wp_chanFinalizeEvent hC]
  simp [handleIncref, QlState.foundReady, finalizedChan]

/-- A later reading is waited for, with all handles prepared, and they are
cleared again. -/
theorem wp_listWaitMore {readings : List (ChanId → UInt32)} {w : ChanId → Bool}
    (hlist : s.dev.handleList ≠ []) (hlive : Live s s.dev.handleList) (hidle : Idle s)
    (hw : ∀ x, w x = true → x ∈ s.dev.handleList) :
    wp (listWaitMore readings) (fun r t =>
      r = (firstReady s.dev.handleList readings).elim (errTimedOut, none) (fun x => (1, some x)) ∧
        t = s) F (s.withWait w) := by
  rw [listWaitMore]
  refine wp_seq (wp_listWaitLoop (s := s.withWait w) hlist hlive) ?_
  rintro _ t ⟨rfl, ht⟩
  subst t
  rw [wp_bind, wp_get, wp_bind]
  refine wp_conseq (wp_hlistFinishWait (s := s.withWait w) hlive) ?_
  rintro _ t rfl
  refine ⟨rfl, hidle.withWait ?_⟩
  intro x
  rw [upTo_none]
  split
  · rfl
  · rename_i hx
    exact Bool.eq_false_iff.mpr fun h => hx (hw x h)

/-- A wait on the list comes to its first event, if there is one in time. -/
theorem wp_handleListWait {readings : List (ChanId → UInt32)} (hlive : Live s s.dev.handleList)
    (hidle : Idle s) (hnodup : s.dev.handleList.Nodup) :
    wp (handleListWait poll readings) (fun r t =>
      if s.dev.handleList = [] then r = (errNotFound, none) ∧ t = s
      else (firstReady s.dev.handleList (poll :: readings)).elim
        (r = (errTimedOut, none) ∧ t = s)
        fun x => r = (noError, some x) ∧
          ∃ C, s.reg.chans x.1 = some C ∧ t = s.foundReady x.1 C x.2) F s := by
  by_cases hlist : s.dev.handleList = []
  · simp [handleListWait, hlistDoPollLocked, hlist]
  have hready : ∀ x, readyIn poll s.dev.handleList = some x ∨
      firstReady s.dev.handleList readings = some x → ∃ C, s.reg.chans x.1 = some C := by
    rintro ⟨c, event⟩ (h | h)
    · exact hlive c (firstReady_eq_some (show firstReady _ [poll] = _ by simpa [firstReady] using h)).1
    · exact hlive c (firstReady_eq_some h).1
  simp only [if_neg hlist]
  rw [handleListWait]
  refine wp_seq (wp_hlistDoPollLocked_prepare hlist hlive hidle hnodup) ?_
  rintro r _ ⟨hr, w, rfl, hw, hclear⟩
  cases hfound : readyIn poll s.dev.handleList with
  | some x =>
      obtain ⟨C, hC⟩ := hready x (Or.inl hfound)
      rw [hidle.withWait (hclear (by simp [hfound]))]
      have hfirst : firstReady s.dev.handleList (poll :: readings) = some x := by
        simp [firstReady, hfound]
      rw [hfound, Option.elim_some] at hr
      subst hr
      rw [hfirst, wp_ite, if_neg (by simp), wp_ite, if_neg (by simp), wp_bind, wp_pure, wp_ite,
        if_pos rfl]
      refine wp_conseq (wp_listReady hC) ?_
      rintro _ _ ⟨rfl, rfl⟩
      exact ⟨rfl, C, hC, rfl⟩
  | none =>
      have hfirst : firstReady s.dev.handleList (poll :: readings) =
          firstReady s.dev.handleList readings := by
        simp [firstReady, hfound]
      rw [hfound, Option.elim_none] at hr
      subst hr
      rw [hfirst, wp_ite, if_neg (by simp), wp_ite, if_pos rfl]
      refine wp_seq (wp_listWaitMore hlist hlive hidle hw) ?_
      rintro _ t ⟨rfl, ht⟩
      subst t
      cases hlater : firstReady s.dev.handleList readings with
      | none =>
          rw [Option.elim_none, wp_ite, if_neg (by simp [errTimedOut])]
          exact ⟨rfl, rfl⟩
      | some x =>
          obtain ⟨C, hC⟩ := hready x (Or.inr hlater)
          rw [Option.elim_some, wp_ite, if_pos rfl]
          refine wp_conseq (wp_listReady hC) ?_
          rintro _ _ ⟨rfl, rfl⟩
          exact ⟨rfl, C, hC, rfl⟩

end

end TX2SecureUart.Ql
