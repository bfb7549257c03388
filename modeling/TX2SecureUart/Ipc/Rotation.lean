/-
# `Ipc.Rotation` — a call of `handle_list_wait` rotates the list

Polls and waits leave the links of the list as they are.  A call that returns a
handle has polled zero from all the handles before it, and moves them and the handle
itself behind the others; a call that fails moves nothing.  So calls one after the
other serve the list in turns, and no handle that stays ready waits for more of them
than the list has handles.
-/
import TX2SecureUart.Ipc.HandleList
import TX2SecureUart.Lib.RoundRobin

namespace TX2SecureUart.HandleList

open Prog ListNode RoundRobin

variable {ι : Type} [DecidableEq ι] {W : World ι} {s t u : State ι} {hs : List ι}

/-- The nodes of the list are those of `hs`, in this order from the head on. -/
def Listed (s : State ι) (hs : List ι) : Prop :=
  Ring s.links .head (hs.map .handle)

/-- No more happened than polls and waits. -/
structure Kept (s t : State ι) : Prop where
  links : t.links = s.links
  event : t.listWaitEvent = s.listWaitEvent
  polls : s.polls ≤ t.polls

theorem Kept.refl (s : State ι) : Kept s s := ⟨rfl, rfl, Nat.le_refl _⟩

theorem Kept.trans (h : Kept s t) (h' : Kept t u) : Kept s u :=
  ⟨h'.links.trans h.links, h'.event.trans h.event, Nat.le_trans h.polls h'.polls⟩

/-- `h` polled zero at some poll from the `k`-th on. -/
def Idle (W : World ι) (k : Nat) (h : ι) : Prop :=
  ∃ j ≥ k, W.poll j h = 0

theorem Idle.mono {j k : Nat} {h : ι} (hjk : j ≤ k) (hi : Idle W k h) : Idle W j h := by
  obtain ⟨i, hki, hz⟩ := hi
  exact ⟨i, Nat.le_trans hjk hki, hz⟩

/-- What is found in `hs`: a handle behind idle ones, when `ret` says so. -/
def FoundIn (W : World ι) (k : Nat) (hs : List ι) (ret : Int) (found : Option (ι × UInt32)) : Prop :=
  ret = 1 → ∃ h e pre post, found = some (h, e) ∧ hs = pre ++ h :: post ∧ ∀ x ∈ pre, Idle W k x

theorem FoundIn.none {k : Nat} {ret : Int} {found : Option (ι × UInt32)} (h : ret ≠ 1) :
    FoundIn W k hs ret found :=
  fun hr => absurd hr h

/-- Nothing but the end of the given steps stops a call. -/
def OutOfSteps : Stop → State ι → Prop := fun e _ => e = .running

/-! ## A round of polls -/

theorem wp_finishWaitHandle {E : Stop → State ι → Prop} (h : ι) :
    wp (finishWaitHandle h) (fun _ t => Kept s t) E s := by
  show Kept s _
  exact ⟨rfl, rfl, Nat.le_refl _⟩

theorem wp_prepareIf {E : Stop → State ι → Prop} (prepare : Bool) (h : ι) :
    wp (prepareIf prepare h) (fun ret t => Kept s t ∧ ret ≠ 1) E s := by
  cases prepare with
  | false => exact ⟨Kept.refl s, by decide⟩
  | true =>
      simp only [prepareIf, if_true, prepareWaitHandle, wp_bind, wp_get, wp_ite, wp_pure, wp_set]
      split
      · exact ⟨Kept.refl s, by decide⟩
      · exact ⟨⟨rfl, rfl, Nat.le_refl _⟩, by decide⟩

theorem wp_finishWaitFrom {last : Option ι} {fuel : Nat} {a : Node ι}
    (hp : Path s.links.next a (hs.map .handle) .head) :
    wp (finishWaitFrom last fuel (s.links.next a)) (fun _ t => Kept s t) OutOfSteps s := by
  induction hs generalizing a fuel s with
  | nil =>
      have ha : s.links.next a = some .head := hp
      rw [ha]
      cases fuel with
      | zero => exact rfl
      | succ fuel => exact Kept.refl s
  | cons h hs ih =>
      rw [hp.1]
      cases fuel with
      | zero => exact rfl
      | succ fuel =>
          refine wp_seq (wp_finishWaitHandle h) ?_
          intro _ t ht
          rw [wp_bind, wp_get, wp_ite]
          split
          · exact ht
          · have hpt : Path t.links.next (.handle h) (hs.map .handle) .head := by
              rw [ht.links]
              exact hp.2
            exact wp_conseq (ih hpt) (fun _ u hu => ht.trans hu)

theorem wp_hlistFinishWaitLocked {last : Option ι} {fuel : Nat} (hl : Listed s hs) :
    wp (hlistFinishWaitLocked last fuel) (fun _ t => Kept s t) OutOfSteps s :=
  wp_finishWaitFrom hl.next

theorem wp_pollFrom {prepare : Bool} {fuel : Nat} {a : Node ι} {lastPrep : Option ι}
    (hp : Path s.links.next a (hs.map .handle) .head) :
    wp (pollFrom W prepare fuel (s.links.next a) lastPrep)
      (fun p t => Kept s t ∧ FoundIn W s.polls hs p.ret p.found) OutOfSteps s := by
  induction hs generalizing a fuel s lastPrep with
  | nil =>
      have ha : s.links.next a = some .head := hp
      rw [ha]
      cases fuel with
      | zero => exact rfl
      | succ fuel => exact ⟨Kept.refl s, FoundIn.none Int.zero_ne_one⟩
  | cons h hs ih =>
      rw [hp.1]
      cases fuel with
      | zero => exact rfl
      | succ fuel =>
          refine wp_seq (wp_prepareIf prepare h) ?_
          intro ret t ht
          rw [wp_ite]
          split
          · exact ⟨ht.1, FoundIn.none ht.2⟩
          · simp only [poll, wp_bind, wp_get, wp_set, wp_pure, wp_ite]
            have hu : Kept s { t with polls := t.polls + 1 } :=
              ht.1.trans ⟨rfl, rfl, Nat.le_succ _⟩
            split
            · refine ⟨hu, fun _ => ⟨h, _, [], hs, rfl, rfl, ?_⟩⟩
              intro x hx
              exact absurd hx List.not_mem_nil
            · rename_i hz
              have hz : W.poll t.polls h = 0 := not_not.mp hz
              have hpu : Path t.links.next (.handle h) (hs.map .handle) .head := by
                rw [ht.1.links]
                exact hp.2
              refine wp_conseq (ih (s := { t with polls := t.polls + 1 }) hpu) ?_
              rintro p v ⟨hv, hf⟩
              refine ⟨hu.trans hv, fun hr => ?_⟩
              obtain ⟨x, e, pre, post, hx, rfl, hidle⟩ := hf hr
              refine ⟨x, e, h :: pre, post, hx, rfl, ?_⟩
              intro y hy
              cases List.mem_cons.mp hy with
              | inl hyh => exact ⟨t.polls, ht.1.polls, hyh ▸ hz⟩
              | inr hyp => exact (hidle y hyp).mono hu.polls

omit [DecidableEq ι] in
theorem Listed.kept (hl : Listed s hs) (h : Kept s t) : Listed t hs := by
  show Ring t.links .head (hs.map .handle)
  rw [h.links]
  exact hl

theorem wp_hlistDoPollLocked {prepare : Bool} {fuel : Nat} (hl : Listed s hs)
    (he : s.listWaitEvent = true) :
    wp (hlistDoPollLocked W prepare fuel)
      (fun r t => Kept s t ∧ FoundIn W s.polls hs r.1 r.2) OutOfSteps s := by
  rw [hlistDoPollLocked, wp_bind, wp_get, wp_ite, if_neg (by rw [he]; decide), wp_ite]
  split
  · exact ⟨Kept.refl s, FoundIn.none (show errNotFound ≠ 1 by decide)⟩
  · refine wp_seq (wp_pollFrom hl.next) ?_
    rintro p t ⟨ht, hf⟩
    refine wp_seq (R := fun _ u => Kept s u) ?_ (fun _ u hu => ⟨hu, hf⟩)
    rw [undoPrepare, wp_ite]
    split
    · exact wp_conseq (wp_hlistFinishWaitLocked (hl.kept ht)) (fun _ u hu => ht.trans hu)
    · exact ht

/-! ## One call -/

theorem wp_waitLoop {size fuel : Nat} (hl : Listed s hs) (he : s.listWaitEvent = true) :
    wp (waitLoop W size fuel)
      (fun r t => Kept s t ∧ FoundIn W s.polls hs r.1 r.2 ∧ r.1 ≠ noError) OutOfSteps s := by
  induction fuel generalizing s with
  | zero => exact rfl
  | succ fuel ih =>
      simp only [waitLoop, doWait, wp_bind, wp_get, wp_set, wp_pure, wp_ite]
      have ht : Kept s { s with waits := s.waits + 1 } := ⟨rfl, rfl, Nat.le_refl _⟩
      split
      · rename_i hneg
        refine ⟨ht, FoundIn.none ?_, Int.ne_of_lt hneg⟩
        intro hr
        rw [hr] at hneg
        exact absurd hneg (by decide)
      · refine wp_conseq (wp_hlistDoPollLocked (hl.kept ht) he) ?_
        rintro r u ⟨hu, hf⟩
        split
        · refine wp_conseq (ih (hl.kept (ht.trans hu)) (hu.event.trans he)) ?_
          rintro r' v ⟨hv, hf', hne⟩
          refine ⟨(ht.trans hu).trans hv, fun hr => ?_, hne⟩
          obtain ⟨h, e, pre, post, hh, hsplit, hidle⟩ := hf' hr
          exact ⟨h, e, pre, post, hh, hsplit, fun x hx => (hidle x hx).mono hu.polls⟩
        · rename_i hne
          exact ⟨ht.trans hu, hf, hne⟩

theorem wp_waitIfNone {fuel k : Nat} {r : Int × Option (ι × UInt32)} (hl : Listed s hs)
    (he : s.listWaitEvent = true) (hk : k ≤ s.polls) (hf : FoundIn W k hs r.1 r.2) :
    wp (waitIfNone W fuel r)
      (fun r t => Kept s t ∧ FoundIn W k hs r.1 r.2 ∧ r.1 ≠ noError) OutOfSteps s := by
  rw [waitIfNone, wp_ite]
  split
  · refine wp_seq (wp_waitLoop hl he) ?_
    rintro r' t ⟨ht, hf', hne⟩
    refine wp_seq (wp_hlistFinishWaitLocked (hl.kept ht)) ?_
    intro _ u hu
    refine ⟨ht.trans hu, fun hr => ?_, hne⟩
    obtain ⟨h, e, pre, post, hh, hsplit, hidle⟩ := hf' hr
    exact ⟨h, e, pre, post, hh, hsplit, fun x hx => (hidle x hx).mono hk⟩
  · rename_i hne
    exact ⟨Kept.refl s, hf, hne⟩

/-- Deleting the head and adding it behind a handle rotates the list. -/
theorem wp_moveHead {E : Stop → State ι → Prop} {pre post : List ι} {h : ι}
    (hl : Listed s (pre ++ h :: post)) :
    wp (moveHead h) (fun _ t => t.polls = s.polls ∧ Listed t (post ++ pre ++ [h])) E s := by
  have hring : Ring s.links .head (pre.map Node.handle ++ .handle h :: post.map .handle) := by
    have hl' : Ring s.links .head ((pre ++ h :: post).map .handle) := hl
    rw [List.map_append, List.map_cons] at hl'
    exact hl'
  obtain ⟨L, hdel, hL, -⟩ := hring.rehead.listDelete
  have hout : Node.head ∉ Node.handle h :: (post.map Node.handle ++ pre.map .handle) := by
    simp
  obtain ⟨L', hadd, hL', -⟩ := hL.listAddHead hout
  have hrot : Ring L' .head ((post.map Node.handle ++ pre.map .handle) ++ [.handle h]) :=
    (show Ring L' _ ([] ++ _) from hL').rehead
  have hlinks : (s.links.listDelete .head >>= fun links => links.listAddHead (.handle h) .head) =
      some L' := by
    rw [hdel]
    exact hadd
  simp only [moveHead, wp_bind, wp_get, hlinks, wp_set]
  refine ⟨trivial, ?_⟩
  show Ring L' .head ((post ++ pre ++ [h]).map .handle)
  simpa using hrot

/-- What a call leaves: the list rotated behind the handle it returns, or as it was. -/
structure Called (W : World ι) (hs : List ι) (k : Nat) (r : Int × Option (ι × UInt32))
    (t : State ι) : Prop where
  polls : k ≤ t.polls
  found : r.1 = noError → ∃ h e pre post, r.2 = some (h, e) ∧ hs = pre ++ h :: post ∧
    (∀ x ∈ pre, Idle W k x) ∧ Listed t (post ++ pre ++ [h])
  failed : r.1 ≠ noError → Listed t hs

theorem wp_takeHandle {E : Stop → State ι → Prop} {r : Int × Option (ι × UInt32)} {k : Nat}
    (hl : Listed s hs) (hk : k ≤ s.polls) (hf : FoundIn W k hs r.1 r.2) (hr : r.1 ≠ noError) :
    wp (takeHandle W r) (Called W hs k) E s := by
  obtain ⟨ret, found⟩ := r
  rw [takeHandle, wp_ite]
  split
  · rename_i hone
    obtain ⟨h, e, pre, post, hfound, hsplit, hidle⟩ := hf hone
    obtain rfl : found = some (h, e) := hfound
    subst hsplit
    show wp (finishFound W h e >>= fun _ => pure (noError, some (h, e))) _ E s
    rw [wp_bind, finishFound, wp_bind, wp_modify]
    refine wp_conseq (wp_moveHead hl) ?_
    rintro _ t ⟨hpolls, ht⟩
    exact ⟨hpolls ▸ hk, fun _ => ⟨h, e, pre, post, rfl, rfl, hidle, ht⟩, fun hne => absurd rfl hne⟩
  · exact ⟨hk, fun h0 => absurd h0 hr, fun _ => hl⟩

theorem wp_handleListWait {fuel : Nat} (hl : Listed s hs) (he : s.listWaitEvent = false) :
    wp (handleListWait W fuel) (fun r t => t.listWaitEvent = false ∧ Called W hs s.polls r t)
      OutOfSteps s := by
  rw [handleListWait, wp_bind, wp_get, wp_ite, if_neg (by rw [he]; decide), wp_bind, wp_set]
  have hl : Listed { s with listWaitEvent := true } hs := hl
  refine wp_seq (wp_hlistDoPollLocked hl rfl) ?_
  rintro r t ⟨ht, hf⟩
  refine wp_seq (wp_waitIfNone (hl.kept ht) ht.event ht.polls hf) ?_
  rintro r' u ⟨hu, hf', hne⟩
  refine wp_seq (wp_takeHandle (hl.kept (ht.trans hu)) (ht.trans hu).polls hf' hne) ?_
  intro r'' v hv
  exact ⟨rfl, hv.polls, hv.found, hv.failed⟩

theorem wp_call (c : Call ι) (hl : Listed s hs) (he : s.listWaitEvent = false) :
    wp (c.run W) (fun r t => t.listWaitEvent = false ∧ Called W hs s.polls r t) OutOfSteps s := by
  rw [Call.run, wp_bind, wp_modify]
  exact wp_handleListWait hl he

/-! ## Calls one after the other -/

/-- A call is a turn, when it succeeds. -/
theorem Called.turns {k : Nat} {r : Int × Option (ι × UInt32)} (h : Called W hs k r t) :
    ∃ xs, Listed t xs ∧ ∀ found ys, Turns (Idle W t.polls) xs found ys →
      Turns (Idle W k) hs (returned r ++ found) ys := by
  by_cases hr : r.1 = noError
  · obtain ⟨x, e, pre, post, hx, rfl, hidle, ht⟩ := h.found hr
    have hret : returned r = [x] := by
      rw [returned, if_pos hr, hx]
      rfl
    refine ⟨_, ht, ?_⟩
    intro found ys hrest
    rw [hret]
    exact Turns.turn hidle (hrest.mono (fun y hy => hy.mono h.polls))
  · refine ⟨hs, h.failed hr, ?_⟩
    intro found ys hrest
    rw [returned, if_neg hr]
    exact hrest.mono (fun y hy => hy.mono h.polls)

theorem wp_runCalls (cs : List (Call ι)) (hl : Listed s hs) (he : s.listWaitEvent = false) :
    wp (runCalls W cs) (fun found t => ∃ ys, Turns (Idle W s.polls) hs found ys ∧ Listed t ys)
      OutOfSteps s := by
  induction cs generalizing s hs with
  | nil => exact ⟨hs, Turns.done hs, hl⟩
  | cons c cs ih =>
      refine wp_seq (wp_call c hl he) ?_
      rintro r t ⟨het, hcall⟩
      obtain ⟨xs, hlt, hturn⟩ := hcall.turns
      refine wp_seq (ih hlt het) ?_
      rintro found u ⟨ys, hturns, hlu⟩
      exact ⟨ys, hturn found ys hturns, hlu⟩

/-- A call that returns a handle rotates the list behind it, and one that fails leaves
the list alone.  Of a list of `n` handles, one that polls non-zero from some moment
in a first call on is among the first `n` handles that this call and the
following ones return. -/
theorem handleListWait_fair (c : Call ι) (cs : List (Call ι))
    (hring : Ring s.links .head (hs.map .handle)) (hfree : s.listWaitEvent = false) :
    wp (c.run W) (fun r t =>
      (r.1 = noError → ∃ h e pre post, r.2 = some (h, e) ∧ hs = pre ++ h :: post ∧
        Ring t.links .head ((post ++ pre ++ [h]).map .handle)) ∧
      (r.1 ≠ noError → Ring t.links .head (hs.map .handle)) ∧
      wp (runCalls W cs) (fun found u =>
        (∃ ys : List ι, ys.Perm hs ∧ Ring u.links .head (ys.map .handle)) ∧
        ∀ h ∈ hs, (∀ k, t.polls ≤ k → W.poll k h ≠ 0) →
          hs.length ≤ (returned r ++ found).length → h ∈ (returned r ++ found).take hs.length)
        (fun e _ => e = .running) t)
      (fun e _ => e = .running) s := by
  have hl : Listed s hs := hring
  refine wp_conseq (wp_call c hl hfree) ?_
  rintro r t ⟨het, hcall⟩
  have hready : ∀ h : ι, (∀ k, t.polls ≤ k → W.poll k h ≠ 0) → ¬Idle W t.polls h := by
    rintro h hpoll ⟨j, hj, hz⟩
    exact hpoll j hj hz
  by_cases hr : r.1 = noError
  · obtain ⟨x, e, pre, post, hx, rfl, -, ht⟩ := hcall.found hr
    have hret : returned r = [x] := by
      rw [returned, if_pos hr, hx]
      rfl
    refine ⟨fun _ => ⟨x, e, pre, post, hx, rfl, ht⟩, fun hne => absurd hr hne, ?_⟩
    refine wp_conseq (wp_runCalls cs ht het) ?_
    rintro found u ⟨ys, hturns, hlu⟩
    refine ⟨⟨ys, hturns.perm.trans (rotated_perm pre post x), hlu⟩, ?_⟩
    intro h hmem hpoll hlen
    rw [hret] at hlen ⊢
    exact hturns.fair_after hmem (hready h hpoll) hlen
  · have ht : Listed t hs := hcall.failed hr
    refine ⟨fun h0 => absurd h0 hr, fun _ => ht, ?_⟩
    refine wp_conseq (wp_runCalls cs ht het) ?_
    rintro found u ⟨ys, hturns, hlu⟩
    refine ⟨⟨ys, hturns.perm, hlu⟩, ?_⟩
    intro h hmem hpoll hlen
    rw [returned, if_neg hr] at hlen ⊢
    exact hturns.fair hmem (hready h hpoll) hlen

/-! A list of two handles, both ready; the first one is found first. -/

def pairState : State (Fin 2) where
  links :=
    { prev := fun a => match a with
        | .head => some (.handle 1)
        | .handle 0 => some .head
        | .handle 1 => some (.handle 0)
      next := fun a => match a with
        | .head => some (.handle 0)
        | .handle 0 => some (.handle 1)
        | .handle 1 => some .head }
  waitEvent := fun _ => none
  listWaitEvent := false
  refcnt := fun _ => 1
  finalized := []
  polls := 0
  waits := 0

def pairWorld : World (Fin 2) where
  poll := fun _ _ => 1
  doWait := fun _ => 0
  finalizes := fun _ => false

def pairCall : Call (Fin 2) := ⟨fun _ => false, 3⟩

theorem pair_fair :
    ∃ r t found u, pairCall.run pairWorld pairState = .ok r t ∧
      runCalls pairWorld [pairCall] t = .ok found u ∧ returned r ++ found = [0, 1] ∧
      (1 : Fin 2) ∈ (returned r ++ found).take 2 := by
  have hring : Ring pairState.links .head (([0, 1] : List (Fin 2)).map .handle) := by
    refine ⟨by decide, ⟨rfl, rfl, rfl⟩, rfl, rfl, rfl⟩
  have hfair := handleListWait_fair (W := pairWorld) pairCall [pairCall] hring rfl
  obtain ⟨r, hr⟩ := eq_ok_of_returns (r := pairCall.run pairWorld pairState) rfl
  obtain ⟨found, hfound⟩ := eq_ok_of_returns
    (r := runCalls pairWorld [pairCall] (stateOf (pairCall.run pairWorld pairState))) rfl
  have hpair : returned r ++ found = [0, 1] := by
    have hr' : valueOf (pairCall.run pairWorld pairState) = some r := by rw [hr]; rfl
    have hf' : valueOf (runCalls pairWorld [pairCall]
        (stateOf (pairCall.run pairWorld pairState))) = some found := by rw [hfound]; rfl
    obtain rfl : r = (0, some (0, 1)) := (Option.some.inj hr').symm
    obtain rfl : found = [1] := (Option.some.inj hf').symm
    rfl
  refine ⟨r, _, found, _, hr, hfound, hpair, ?_⟩
  have hcall := wp_ok (wp_ok hfair hr).2.2 hfound
  exact hcall.2 1 (by decide) (fun _ _ => show (1 : UInt32) ≠ 0 by decide) (by rw [hpair])

end TX2SecureUart.HandleList
