/-
# `Hwkey.Answers` — every request is answered once, in order

The argument follows the handler.  At each of its points the state is described
by a predicate on the two items, the flags of the service's end and the log that
no call of the client can break (`Stable`): while the service holds a request
there is no room for another one, and while the service is blocked the client
still holds a reply, or has retired one and set `SEND_UNBLOCKED`.
-/
import TX2SecureUart.Hwkey.Link

namespace TX2SecureUart.Hwkey

open Prog Ipc Service

variable {ε σ : Type}

/-! ## Requests and replies -/

def requestsIn : List Entry → List (List UInt8)
  | [] => []
  | .request m :: es => m :: requestsIn es
  | _ :: es => requestsIn es

/-- The replies to these requests, and the variables of the service after them. -/
inductive Answered (srv : Srv ε σ) (envs : Nat → ε) (v₀ : σ) :
    List (List UInt8) → List (List UInt8) → σ → Prop
  | nil : Answered srv envs v₀ [] [] v₀
  | snoc {ms rs : List (List UInt8)} {v v' : σ} {m r : List UInt8} :
      Answered srv envs v₀ ms rs v →
      srv.reply (envs ms.length) v (m.take srv.lens.sum) = some (r, v') →
      Answered srv envs v₀ (ms ++ [m]) (rs ++ [r]) v'

/-- `done` has been answered, `todo` has not. -/
structure Past (srv : Srv ε σ) (envs : Nat → ε) (v₀ : σ) (done : List (List UInt8)) (v : σ)
    (todo : List (List UInt8)) (log : List Entry) : Prop where
  requests : requestsIn log = done ++ todo
  answered : Answered srv envs v₀ done (repliesIn log) v
  /-- `wait_to_send` succeeds, and has sent the reply -/
  waits : ∀ rc sent, Entry.waited rc sent ∈ log → 0 ≤ rc ∧ sent = 1

section

variable {srv : Srv ε σ} {envs : Nat → ε} {v₀ v v' : σ} {ms rs done todo : List (List UInt8)}
  {m r : List UInt8} {es es' log : List Entry}

theorem requestsIn_append : requestsIn (es ++ es') = requestsIn es ++ requestsIn es' := by
  induction es with
  | nil => rfl
  | cons e es ih =>
      cases e with
      | request m => exact congrArg (List.cons m) ih
      | reply r => exact ih
      | waited rc sent => exact ih

theorem repliesIn_append : repliesIn (es ++ es') = repliesIn es ++ repliesIn es' := by
  induction es with
  | nil => rfl
  | cons e es ih =>
      cases e with
      | request m => exact ih
      | reply r => exact congrArg (List.cons r) ih
      | waited rc sent => exact ih

theorem Answered.length_eq (h : Answered srv envs v₀ ms rs v) : rs.length = ms.length := by
  induction h with
  | nil => rfl
  | snoc _ _ ih => rw [List.length_append, List.length_append, ih]; rfl

theorem Past.request (h : Past srv envs v₀ done v todo log) (m : List UInt8) :
    Past srv envs v₀ done v (todo ++ [m]) (log ++ [.request m]) := by
  refine ⟨?_, ?_, ?_⟩
  · rw [requestsIn_append, h.requests, List.append_assoc]
    rfl
  · rw [repliesIn_append]
    simpa [repliesIn] using h.answered
  · intro rc sent hmem
    exact h.waits rc sent (by simpa using hmem)

theorem Past.reply (h : Past srv envs v₀ done v (m :: todo) log)
    (hr : srv.reply (envs done.length) v (m.take srv.lens.sum) = some (r, v')) :
    Past srv envs v₀ (done ++ [m]) v' todo (log ++ [.reply r]) := by
  refine ⟨?_, ?_, ?_⟩
  · rw [requestsIn_append, h.requests]
    simp [requestsIn]
  · rw [repliesIn_append]
    exact .snoc h.answered hr
  · intro rc sent hmem
    exact h.waits rc sent (by simpa using hmem)

theorem Past.waited (h : Past srv envs v₀ done v todo log) {rc : Int} (hrc : 0 ≤ rc) :
    Past srv envs v₀ done v todo (log ++ [.waited rc 1]) := by
  refine ⟨?_, ?_, ?_⟩
  · rw [requestsIn_append, h.requests]
    exact List.append_nil _
  · rw [repliesIn_append]
    simpa [repliesIn] using h.answered
  · intro rc' sent hmem
    rcases List.mem_append.mp hmem with hmem | hmem
    · exact h.waits rc' sent hmem
    · cases List.mem_singleton.mp hmem
      exact ⟨hrc, rfl⟩

end

/-! ## What the client cannot break -/

/-- A predicate on the two items, the flags, and the log. -/
abbrev View := Item → Item → AuxState → List Entry → Prop

def Stable (P : View) : Prop :=
  ∀ own reply aux log es own' reply' aux', P own reply aux log →
    ClientMove own reply aux es own' reply' aux' → P own' reply' aux' (log ++ es)

/-- The channel and the log are as `P` says. -/
structure Point (c d : ChanId) (P : View) (v : σ) (k : Nat) (s : Serving σ) : Prop where
  vars : s.vars = v
  served : s.served = k
  view : ∃ own reply aux, Link c d s.reg own reply aux ∧ P own reply aux s.log

/-- No flag is set. -/
def clear : AuxState := ⟨false, false, false⟩

/-- Where the reply item and the flags stand. -/
abbrev Flags := Item → AuxState → Prop

def Clear : Flags := fun _ aux => aux = clear

/-- A send has failed; the client may have retired the message in its way. -/
def Blocked : Flags := fun reply aux =>
  (aux = blockSend clear ∧ reply ≠ .free) ∨ (aux = unblockSend (blockSend clear) ∧ reply = .free)

/-- There is room for a reply. -/
def Room (a : AuxState) : Flags := fun reply aux => aux = a ∧ reply = .free

/-- The client can get and retire what it was sent. -/
def FlagsStable (F : Flags) : Prop :=
  (∀ m aux, F (.filled m) aux → F (.read m) aux) ∧
    ∀ m aux, F (.read m) aux → F .free (unblockSend aux)

/-- The service waits for a request. -/
def Idle (srv : Srv ε σ) (envs : Nat → ε) (v₀ : σ) (done : List (List UInt8)) (v : σ) : View :=
  fun own _ aux log => aux = clear ∧
    ((own = .free ∧ Past srv envs v₀ done v [] log) ∨
      ∃ m, own = .filled m ∧ Past srv envs v₀ done v [m] log)

/-- There is a request, so there is no room for another one. -/
def Holding (srv : Srv ε σ) (envs : Nat → ε) (v₀ : σ) (it : Item) (done : List (List UInt8))
    (v : σ) (todo : List (List UInt8)) (F : Flags) : View :=
  fun own reply aux log => own = it ∧ it ≠ .free ∧ Past srv envs v₀ done v todo log ∧ F reply aux

section

variable {srv : Srv ε σ} {envs : Nat → ε} {v₀ v v' vars : σ} {done todo : List (List UInt8)}
  {it : Item} {F : Flags} {P : View} {c d : ChanId} {k : Nat} {s : Serving σ} {m r : List UInt8}
  {E : Stop → Serving σ → Prop}

theorem clear_stable : FlagsStable Clear := by
  refine ⟨fun _ _ h => h, ?_⟩
  rintro m aux rfl
  rfl

theorem blocked_stable : FlagsStable Blocked := by
  refine ⟨?_, ?_⟩
  · rintro m aux (⟨haux, _⟩ | ⟨_, hfree⟩)
    · exact .inl ⟨haux, by intro h; cases h⟩
    · cases hfree
  · rintro m aux (⟨haux, _⟩ | ⟨_, hfree⟩)
    · exact .inr ⟨by rw [haux], rfl⟩
    · cases hfree

theorem room_stable (a : AuxState) : FlagsStable (Room a) := by
  refine ⟨?_, ?_⟩
  · rintro m aux ⟨_, hfree⟩
    cases hfree
  · rintro m aux ⟨_, hfree⟩
    cases hfree

theorem idle_stable : Stable (Idle srv envs v₀ done v) := by
  rintro own reply aux log es own' reply' aux' ⟨haux, hown⟩ hmove
  cases hmove with
  | stay => exact ⟨haux, by simpa using hown⟩
  | send m =>
      rcases hown with ⟨_, hpast⟩ | ⟨m', hm', _⟩
      · exact ⟨haux, .inr ⟨m, rfl, hpast.request m⟩⟩
      · cases hm'
  | get m => exact ⟨haux, by simpa using hown⟩
  | put m =>
      subst haux
      exact ⟨rfl, by simpa using hown⟩

theorem holding_stable (hF : FlagsStable F) : Stable (Holding srv envs v₀ it done v todo F) := by
  rintro own reply aux log es own' reply' aux' ⟨hown, hit, hpast, hflags⟩ hmove
  cases hmove with
  | stay => exact ⟨hown, hit, by simpa using hpast, hflags⟩
  | send m => exact absurd hown.symm hit
  | get m => exact ⟨hown, hit, by simpa using hpast, hF.1 m aux hflags⟩
  | put m => exact ⟨hown, hit, by simpa using hpast, hF.2 m aux hflags⟩

/-! ## Turns of the client -/

theorem wp_onReg {α : Type} {n : IpcM α} {Q : α → Serving σ → Prop} :
    wp (onReg n) Q E s ↔ wp n (fun a reg => Q a { s with reg := reg })
      (fun f reg => E (.ipc f) { s with reg := reg }) s.reg :=
  wp_embed

/-- A kernel call, by what it does to the registry. -/
theorem wp_onReg_of {α : Type} {n : IpcM α} {Q : α → Serving σ → Prop}
    {R : α → Registry → Prop} (h : wp n R (fun _ _ => False) s.reg)
    (hQ : ∀ a reg, R a reg → Q a { s with reg := reg }) : wp (onReg n) Q E s := by
  refine wp_onReg.mpr (wp_mono h hQ ?_)
  intro e t hfalse
  exact hfalse.elim

theorem wp_clientStep (hP : Stable P) (h : Point c d P v k s) (step : ClientStep)
    (hfits : step.Fits) : wp (clientStep d step) (fun _ => Point c d P v k) E s := by
  obtain ⟨hvars, hserved, own, reply, aux, hlink, hview⟩ := h
  cases step with
  | call call =>
      rw [clientStep, wp_bind]
      refine wp_onReg_of (hlink.wp_clientCall call hfits) ?_
      rintro r reg ⟨own', reply', aux', hmove, hlink'⟩
      exact ⟨hvars, hserved, own', reply', aux', hlink', hP _ _ _ _ _ _ _ _ hview hmove⟩
  | finalize event =>
      refine wp_onReg_of (hlink.wp_clientFinalize event) ?_
      intro _ reg hlink'
      exact ⟨hvars, hserved, own, reply, aux, hlink', hview⟩

theorem wp_clientSteps (hP : Stable P) (turn : ClientTurn) (h : Point c d P v k s) :
    wp (clientSteps d turn) (fun _ => Point c d P v k) E s := by
  induction turn generalizing s with
  | nil => exact h
  | cons step rest ih =>
      refine wp_seq (wp_clientStep hP h step.val step.property) ?_
      intro _ t ht
      exact ih ht

theorem wp_clientTurn (hP : Stable P) (h : Point c d P v k s) :
    wp (clientTurn d) (fun _ => Point c d P v k) E s := by
  rw [clientTurn, wp_bind, wp_get]
  cases s.turns with
  | nil => exact h
  | cons turn rest =>
      dsimp only
      rw [wp_bind, wp_modify]
      exact wp_clientSteps hP turn ⟨h.vars, h.served, h.view⟩

/-- What a poll has seen. -/
structure Polled (own : Item) (aux : AuxState) (event : UInt32) : Prop where
  error : polled event ipcHandlePollError = false
  hup : polled event ipcHandlePollHup = false
  msg : polled event ipcHandlePollMsg = true ↔ ∃ m, own = .filled m
  unblocked : polled event ipcHandlePollSendUnblocked = aux.sendUnblocked

/-- The loop goes on while there is nothing to see. -/
theorem wp_pollLoop (hP : Stable P)
    (hready : ∀ own reply aux log, P own reply aux log → aux.connected = false)
    (turns : List ClientTurn) (h : Point c d P v k s) :
    wp (pollLoop c d turns)
      (fun event t => Point c d (fun own reply aux log => P own reply aux log ∧
        Polled own aux event ∧ ((∃ m, own = .filled m) ∨ aux.sendUnblocked = true)) v k t)
      (fun e t => e = .waiting ∧ Point c d (fun own reply aux log => P own reply aux log ∧
        (∀ m, own ≠ .filled m) ∧ aux.sendUnblocked = false) v k t) s := by
  induction turns generalizing s with
  | nil =>
      obtain ⟨hvars, hserved, own, reply, aux, hlink, hview⟩ := h
      rw [pollLoop, wp_bind]
      refine wp_onReg_of (hlink.wp_chanPoll (hready _ _ _ _ hview)) ?_
      rintro event reg ⟨rfl, herr, hhup, hmsg, hunblocked, hzero⟩
      by_cases h0 : event = 0
      · rw [if_neg (not_not.mpr h0), wp_throw]
        exact ⟨rfl, hvars, hserved, own, reply, aux, hlink, hview, hzero.mp h0⟩
      · rw [if_pos h0, wp_pure]
        refine ⟨hvars, hserved, own, reply, aux, hlink, hview, ⟨herr, hhup, hmsg, hunblocked⟩, ?_⟩
        by_contra hno
        rw [not_or, not_exists, Bool.not_eq_true] at hno
        exact h0 (hzero.mpr hno)
  | cons turn rest ih =>
      obtain ⟨hvars, hserved, own, reply, aux, hlink, hview⟩ := h
      rw [pollLoop, wp_bind]
      refine wp_onReg_of (hlink.wp_chanPoll (hready _ _ _ _ hview)) ?_
      rintro event reg ⟨rfl, herr, hhup, hmsg, hunblocked, hzero⟩
      by_cases h0 : event = 0
      · rw [if_neg (not_not.mpr h0), wp_bind, wp_modify]
        refine wp_seq (wp_clientSteps hP turn ⟨hvars, hserved, own, reply, aux, hlink, hview⟩) ?_
        intro _ t ht
        exact ih ht
      · rw [if_pos h0, wp_pure]
        refine ⟨hvars, hserved, own, reply, aux, hlink, hview, ⟨herr, hhup, hmsg, hunblocked⟩, ?_⟩
        by_contra hno
        rw [not_or, not_exists, Bool.not_eq_true] at hno
        exact h0 (hzero.mpr hno)

theorem stable_exists {ι : Type} {P : ι → View} (h : ∀ i, Stable (P i)) :
    Stable fun own reply aux log => ∃ i, P i own reply aux log := by
  rintro own reply aux log es own' reply' aux' ⟨i, hi⟩ hmove
  exact ⟨i, h i _ _ _ _ _ _ _ _ hi hmove⟩

theorem stable_and (q : Prop) (h : Stable P) :
    Stable fun own reply aux log => q ∧ P own reply aux log := by
  rintro own reply aux log es own' reply' aux' ⟨hq, hview⟩ hmove
  exact ⟨hq, h _ _ _ _ _ _ _ _ hview hmove⟩

/-- A wait: what was seen stays true until the event is finalized. -/
theorem wp_wait {Q R : UInt32 → View} (hP : Stable P) (hQ : ∀ event, Stable (Q event))
    (hready : ∀ own reply aux log, P own reply aux log → aux.connected = false)
    (hpoll : ∀ own reply aux log event, P own reply aux log → Polled own aux event →
      (∃ m, own = .filled m) ∨ aux.sendUnblocked = true → Q event own reply aux log)
    (hfinalize : ∀ own reply aux log event, Q event own reply aux log →
      R event own reply (finalizeAux aux event) log) (h : Point c d P v k s) :
    wp (wait c d) (fun event => Point c d (R event) v k) (fun e t => e = .waiting ∧
      Point c d (fun own reply aux log => P own reply aux log ∧ (∀ m, own ≠ .filled m) ∧
        aux.sendUnblocked = false) v k t) s := by
  rw [wait]
  refine wp_seq (wp_clientTurn hP h) ?_
  intro _ t ht
  rw [wp_bind, wp_get]
  refine wp_seq (wp_pollLoop hP hready t.turns ht) ?_
  rintro event t₁ ⟨hvars, hserved, own, reply, aux, hlink, hview, hpolled, hsome⟩
  have hq := hpoll own reply aux t₁.log event hview hpolled hsome
  refine wp_seq (wp_clientTurn (hQ event) ⟨hvars, hserved, own, reply, aux, hlink, hq⟩) ?_
  rintro _ t₂ ⟨hvars₂, hserved₂, own₂, reply₂, aux₂, hlink₂, hview₂⟩
  rw [wp_bind]
  refine wp_onReg_of (hlink₂.wp_finalize event) ?_
  intro _ reg hlink₃
  exact ⟨hvars₂, hserved₂, own₂, reply₂, _, hlink₃, hfinalize _ _ _ _ event hview₂⟩

/-! ## The handler -/

/-- How a run ends that does not go on for ever: all is answered, or the client
does not retire a reply; or the handler gives up on a request, for want of
memory, or because its reply is none. -/
def Ends (srv : Srv ε σ) (envs : Nat → ε) (v₀ : σ) (c d : ChanId) : Stop → Serving σ → Prop
  | .waiting, t => (∃ done v, Past srv envs v₀ done v [] t.log) ∨
      ∃ done v m own reply aux, Past srv envs v₀ done v [m] t.log ∧
        Link c d t.reg own reply aux ∧ reply ≠ .free
  | .closed, t => ∃ done v m, Past srv envs v₀ done v [m] t.log ∧
      srv.malloc (envs done.length) = false
  | .overwritten, t => ∃ done v m, Past srv envs v₀ done v [m] t.log ∧
      srv.reply (envs done.length) v (m.take srv.lens.sum) = none
  | .ipc _, _ => False

theorem finalize_clear (event : UInt32) : finalizeAux clear event = clear := by
  simp [finalizeAux, clear]

/-- The wait of the event loop ends with a request. -/
theorem wp_wait_idle (h : Point c d (Idle srv envs v₀ done v) vars k s) :
    wp (wait c d) (fun event => Point c d (fun own reply aux log =>
      (polled event ipcHandlePollError = false ∧ polled event ipcHandlePollHup = false ∧
        polled event ipcHandlePollMsg = true) ∧
      ∃ m, Holding srv envs v₀ (.filled m) done v [m] Clear own reply aux log) vars k)
      (Ends srv envs v₀ c d) s := by
  refine wp_mono (wp_wait (Q := fun event own reply aux log =>
    (polled event ipcHandlePollError = false ∧ polled event ipcHandlePollHup = false ∧
      polled event ipcHandlePollMsg = true) ∧
      ∃ m, Holding srv envs v₀ (.filled m) done v [m] Clear own reply aux log)
    idle_stable ?_ ?_ ?_ ?_ h) (fun _ _ ht => ht) ?_
  · intro event
    exact stable_and _ (stable_exists fun m => holding_stable clear_stable)
  · rintro own reply aux log ⟨rfl, _⟩
    rfl
  · rintro own reply aux log event ⟨rfl, hown⟩ hpolled hsome
    rcases hown with ⟨rfl, _⟩ | ⟨m, rfl, hpast⟩
    · rcases hsome with ⟨m, hm⟩ | hno
      · cases hm
      · cases hno
    · have hne : Item.filled m ≠ .free := by
        intro h
        cases h
      exact ⟨⟨hpolled.error, hpolled.hup, hpolled.msg.mpr ⟨m, rfl⟩⟩, m, rfl, hne, hpast, rfl⟩
  · rintro own reply aux log event ⟨hevent, m, hown, hne, hpast, rfl⟩
    exact ⟨hevent, m, hown, hne, hpast, finalize_clear event⟩
  · rintro e t ⟨rfl, _, _, own, reply, aux, _, ⟨_, hown⟩, hno, _⟩
    rcases hown with ⟨_, hpast⟩ | ⟨m, hm, _⟩
    · exact .inl ⟨done, v, hpast⟩
    · exact absurd hm (hno m)

/-- The wait of `wait_to_send` ends with room for the reply. -/
theorem wp_wait_blocked (h : Point c d (Holding srv envs v₀ (.read m) done v [m] Blocked) vars k s) :
    wp (wait c d) (fun event => Point c d (fun own reply aux log =>
      polled event ipcHandlePollSendUnblocked = true ∧
        Holding srv envs v₀ (.read m) done v [m] (Room clear) own reply aux log) vars k)
      (Ends srv envs v₀ c d) s := by
  refine wp_mono (wp_wait (Q := fun event own reply aux log =>
    polled event ipcHandlePollSendUnblocked = true ∧
      Holding srv envs v₀ (.read m) done v [m] (Room (unblockSend (blockSend clear))) own reply aux
        log) (holding_stable blocked_stable) ?_ ?_ ?_ ?_ h) (fun _ _ ht => ht) ?_
  · intro event
    exact stable_and _ (holding_stable (room_stable _))
  · rintro own reply aux log ⟨_, _, _, ⟨rfl, _⟩ | ⟨rfl, _⟩⟩
    · rfl
    · rfl
  · rintro own reply aux log event ⟨rfl, hne, hpast, hflags⟩ hpolled hsome
    have hunblocked : aux.sendUnblocked = true := by
      rcases hsome with ⟨m', hm'⟩ | hunblocked
      · cases hm'
      · exact hunblocked
    rcases hflags with ⟨rfl, _⟩ | ⟨rfl, hfree⟩
    · cases hunblocked
    · exact ⟨hpolled.unblocked.trans hunblocked, rfl, hne, hpast, rfl, hfree⟩
  · rintro own reply aux log event ⟨hevent, hown, hne, hpast, rfl, hfree⟩
    refine ⟨hevent, hown, hne, hpast, ?_, hfree⟩
    simp [finalizeAux, hevent, unblockSend, blockSend, clear]
  · rintro e t ⟨rfl, _, _, own, reply, aux, hlink, ⟨_, _, hpast, hflags⟩, _, hno⟩
    rcases hflags with ⟨_, hfull⟩ | ⟨rfl, _⟩
    · exact .inr ⟨done, v, m, own, reply, aux, hpast, hlink, hfull⟩
    · cases hno

/-- A reply that is sent where the client may be in the way. -/
theorem wp_sendMsg (hF : FlagsStable F) (hlen : r.length = srv.lens.sum)
    (h : Point c d (Holding srv envs v₀ (.read m) done v [m] F) vars k s)
    (hr : srv.reply (envs done.length) v (m.take srv.lens.sum) = some (r, v')) {Q : Flags}
    (hQ : ∀ reply aux, F reply aux → reply ≠ .free → Q reply (blockSend aux))
    (hclear : ∀ reply aux, F reply aux → reply = .free → aux = clear) :
    wp (sendMsg c d srv.lens r) (fun rc t =>
      (0 ≤ rc ∧ Point c d (Holding srv envs v₀ (.read m) (done ++ [m]) v' [] Clear) vars k t) ∨
        (rc = errNotEnoughBuffer ∧ (∃ reply aux, F reply aux ∧ reply ≠ .free) ∧
          Point c d (Holding srv envs v₀ (.read m) done v [m] Q) vars k t)) E s := by
  rw [sendMsg]
  refine wp_seq (wp_clientTurn (holding_stable hF) h) ?_
  rintro _ t ⟨hvars, hserved, own, reply, aux, hlink, hown, hne, hpast, hflags⟩
  rw [wp_bind]
  refine wp_onReg_of (hlink.wp_sendMsg hlen srv.fits) ?_
  rintro rc reg ⟨hfree, hfull⟩
  by_cases hreply : reply = .free
  · obtain ⟨hrc, hlink'⟩ := hfree hreply
    rw [if_pos hrc, wp_bind, record, wp_modify, wp_pure]
    exact .inl ⟨hrc, hvars, hserved, own, _, aux, hlink', hown, hne, hpast.reply hr,
      hclear _ _ hflags hreply⟩
  · obtain ⟨rfl, hlink'⟩ := hfull hreply
    rw [if_neg (by decide), wp_pure]
    exact .inr ⟨rfl, ⟨reply, aux, hflags, hreply⟩, hvars, hserved, own, reply, _, hlink', hown, hne,
      hpast, hQ _ _ hflags hreply⟩

theorem Point.length_replies
    (h : Point c d (Holding srv envs v₀ it done v todo F) vars k s) :
    (repliesIn s.log).length = done.length := by
  obtain ⟨_, _, _, _, _, _, _, _, hpast, _⟩ := h
  exact hpast.answered.length_eq

/-- `wait_to_send` returns with the reply sent. -/
theorem wp_waitToSend (hlen : r.length = srv.lens.sum)
    (h : Point c d (Holding srv envs v₀ (.read m) done v [m] Blocked) vars k s)
    (hr : srv.reply (envs done.length) v (m.take srv.lens.sum) = some (r, v')) :
    wp (waitToSend c d srv.lens r) (fun rc t => 0 ≤ rc ∧
      Point c d (Holding srv envs v₀ (.read m) (done ++ [m]) v' [] Clear) vars k t)
      (Ends srv envs v₀ c d) s := by
  rw [waitToSend, wp_bind, wp_get, h.length_replies]
  refine wp_seq (wp_wait_blocked h) ?_
  rintro event t ⟨hvars, hserved, own, reply, aux, hlink, hunblocked, hview⟩
  rw [hunblocked, if_pos rfl]
  refine wp_seq (wp_sendMsg (Q := fun _ _ => False) (room_stable clear) hlen
    ⟨hvars, hserved, own, reply, aux, hlink, hview⟩ hr ?_ ?_) ?_
  · intro _ _ hroom hne
    exact absurd hroom.2 hne
  · intro _ _ hroom _
    exact hroom.1
  · rintro rc t₁ (⟨hrc, hsent⟩ | ⟨_, ⟨_, _, hroom, hne⟩, _⟩)
    · rw [wp_bind, wp_get, hsent.length_replies, List.length_append, List.length_singleton,
        Nat.add_sub_cancel_left, wp_bind, record, wp_modify, wp_pure]
      obtain ⟨hvars₁, hserved₁, own₁, reply₁, aux₁, hlink₁, hown, hne, hpast, hflags⟩ := hsent
      exact ⟨hrc, hvars₁, hserved₁, own₁, reply₁, aux₁, hlink₁, hown, hne, hpast.waited hrc, hflags⟩
    · exact absurd hroom.2 hne

/-- The end of a handler. -/
theorem wp_replyTo (hlen : r.length = srv.lens.sum)
    (h : Point c d (Holding srv envs v₀ (.read m) done v [m] Clear) vars k s)
    (hr : srv.reply (envs done.length) v (m.take srv.lens.sum) = some (r, v')) :
    wp (replyTo c d 0 srv.lens r) (fun rc t => rc = noError ∧
      Point c d (Idle srv envs v₀ (done ++ [m]) v') vars k t) (Ends srv envs v₀ c d) s := by
  have hput : ∀ t, Point c d (Holding srv envs v₀ (.read m) (done ++ [m]) v' [] Clear) vars k t →
      wp (clientTurn d >>= fun _ => onReg (ipcPutMsg (some (.chan c)) 0) >>= fun rc =>
        if rc ≠ noError then pure rc else pure noError) (fun rc t => rc = noError ∧
        Point c d (Idle srv envs v₀ (done ++ [m]) v') vars k t) (Ends srv envs v₀ c d) t := by
    intro t ht
    refine wp_seq (wp_clientTurn (holding_stable clear_stable) ht) ?_
    rintro _ t₁ ⟨hvars, hserved, own, reply, aux, hlink, rfl, _, hpast, hflags⟩
    rw [wp_bind]
    refine wp_onReg_of hlink.wp_putMsg ?_
    rintro rc reg ⟨rfl, hlink'⟩
    rw [if_neg (not_not.mpr rfl), wp_pure]
    exact ⟨rfl, hvars, hserved, .free, reply, aux, hlink', hflags, .inl ⟨rfl, hpast⟩⟩
  rw [replyTo]
  refine wp_seq (wp_sendMsg (Q := Blocked) clear_stable hlen h hr ?_ ?_) ?_
  · rintro reply aux rfl hne
    exact .inl ⟨rfl, hne⟩
  · rintro reply aux rfl _
    rfl
  · rintro rc t (⟨hrc, ht⟩ | ⟨rfl, _, ht⟩)
    · have hne : rc ≠ errNotEnoughBuffer := by
        intro heq
        rw [heq] at hrc
        exact absurd hrc (by decide)
      rw [if_neg hne, wp_bind, wp_pure]
      dsimp only
      rw [if_neg (Int.not_lt.mpr hrc)]
      exact hput t ht
    · rw [if_pos rfl]
      refine wp_seq (wp_waitToSend hlen ht hr) ?_
      rintro rc t₁ ⟨hrc, ht₁⟩
      dsimp only
      rw [if_neg (Int.not_lt.mpr hrc)]
      exact hput t₁ ht₁

/-- A handler that is called for a request. -/
theorem wp_handleMsg
    (h : Point c d (Holding srv envs v₀ (.filled m) done v [m] Clear) v done.length s) :
    wp (handleMsg srv envs c d) (fun rc t =>
      (rc = noError ∧ ∃ v', Point c d (Idle srv envs v₀ (done ++ [m]) v') v' (done ++ [m]).length t) ∨
        (rc ≠ noError ∧ Ends srv envs v₀ c d .closed t)) (Ends srv envs v₀ c d) s := by
  rw [handleMsg]
  refine wp_seq (wp_clientTurn (holding_stable clear_stable) h) ?_
  rintro _ t ⟨hvars, hserved, own, reply, aux, hlink, rfl, _, hpast, hflags⟩
  rw [wp_bind]
  refine wp_onReg_of hlink.wp_getMsg ?_
  rintro res reg ⟨info, rfl, hid, hlink'⟩
  dsimp only
  rw [if_neg (not_not.mpr rfl), hid, wp_bind, wp_get, wp_bind, wp_modify, hserved]
  have hread : Item.read m ≠ .free := by
    intro heq
    cases heq
  have hpoint : Point c d (Holding srv envs v₀ (.read m) done v [m] Clear) v (done ++ [m]).length
      { t with reg := reg, served := done.length + 1 } :=
    ⟨hvars, by rw [List.length_append]; rfl, .read m, reply, aux, hlink', rfl, hread, hpast, hflags⟩
  cases hmalloc : srv.malloc (envs done.length) with
  | false =>
      rw [if_pos (by decide), wp_pure]
      exact .inr ⟨by decide, done, v, m, hpast, hmalloc⟩
  | true =>
      rw [if_neg (by decide)]
      refine wp_seq (wp_clientTurn (holding_stable clear_stable) hpoint) ?_
      rintro _ t₁ ⟨hvars₁, hserved₁, own₁, reply₁, aux₁, hlink₁, rfl, _, hpast₁, hflags₁⟩
      rw [wp_bind]
      refine wp_onReg_of (hlink₁.wp_readMsg (List.length_replicate ..)) ?_
      rintro ⟨rc, stored⟩ reg₁ ⟨hrc, hstored, rfl⟩
      have hst : stored = m.take srv.lens.sum := hstored
      dsimp only
      rw [if_neg (Int.not_lt.mpr hrc), hst, hvars]
      cases hr : srv.reply (envs done.length) v (m.take srv.lens.sum) with
      | none =>
          dsimp only
          rw [wp_throw]
          exact ⟨done, v, m, hpast₁, hr⟩
      | some p =>
          obtain ⟨r, v'⟩ := p
          dsimp only
          rw [wp_bind, wp_modify]
          refine wp_conseq (wp_replyTo (srv.length_reply hr) ⟨rfl, hserved₁, .read m, reply₁, aux₁,
            hlink₁, rfl, hread, hpast₁, hflags₁⟩ hr) ?_
          rintro rc' t₂ ⟨hrc', ht₂⟩
          exact .inl ⟨hrc', v', ht₂⟩

/-- The event loop: every pass answers one request. -/
theorem wp_serve (n : Nat) (h : Point c d (Idle srv envs v₀ done v) v done.length s) :
    wp (serve srv envs c d n) (fun _ t => ∃ done' v', done'.length = done.length + n ∧
      Point c d (Idle srv envs v₀ done' v') v' done'.length t) (Ends srv envs v₀ c d) s := by
  induction n generalizing done v s with
  | zero => exact ⟨done, v, rfl, h⟩
  | succ n ih =>
      rw [serve]
      refine wp_seq (wp_wait_idle h) ?_
      rintro event t ⟨hvars, hserved, own, reply, aux, hlink, ⟨herr, hhup, hmsg⟩, m, hview⟩
      rw [chanHandler, herr, hhup, hmsg, wp_bind]
      refine (wp_bind _ _).mpr (wp_conseq (wp_handleMsg
        ⟨hvars, hserved, own, reply, aux, hlink, hview⟩) ?_)
      rintro rc t₁ (⟨rfl, v', ht₁⟩ | ⟨hrc, hends⟩)
      · rw [if_neg (not_not.mpr rfl), wp_pure]
        refine wp_conseq (ih ht₁) ?_
        rintro _ t₂ ⟨done', v'', hlen, ht₂⟩
        refine ⟨done', v'', ?_, ht₂⟩
        rw [hlen, List.length_append, List.length_singleton]
        omega
      · rw [if_pos hrc, wp_throw]
        exact hends

end

/-! ## Any client -/

/-- A connection that was just accepted: the server `c`, the client `d`. -/
structure NewlyConnected (s : Registry) (c d : ChanId) : Prop where
  ne : c ≠ d
  server : ∃ buf C, Connected s c d (MsgQueue.create msgNum maxPortBufSize buf) C ∧
    C.auxState = clear
  client : ∃ buf D, Connected s d c (MsgQueue.create msgNum maxPortBufSize buf) D

theorem NewlyConnected.link {s : Registry} {c d : ChanId} (h : NewlyConnected s c d) :
    Link c d s .free .free clear := by
  obtain ⟨buf, C, hC, haux⟩ := h.server
  obtain ⟨buf', D, hD⟩ := h.client
  have hnum : msgNum ≤ 256 := by decide
  obtain ⟨_, _, _, hnumC, hszC, _⟩ := MsgQueue.create_lists msgNum maxPortBufSize buf msgNum
  obtain ⟨_, _, _, hnumD, hszD, _⟩ := MsgQueue.create_lists msgNum maxPortBufSize buf' msgNum
  refine ⟨⟨_, _, ⟨h.ne, ⟨C, hC⟩, ⟨D, hD⟩, MsgQueue.inv_create hnum _ _,
    MsgQueue.inv_create hnum _ _, hnumC, hnumD, hszC, hszD⟩, ?_, ?_⟩, ?_⟩
  · exact MsgQueue.mailbox_create ..
  · exact MsgQueue.mailbox_create ..
  · rw [auxOf_eq hC.live, haux]

/-- Whatever the client does and whatever the handler meets: the service has
answered the requests in order, each once, as many as it has made passes; and it
stops only where all is answered or the client keeps a reply, or because of the
request it could not handle. -/
def AnswersClients (srv : Srv ε σ) : Prop :=
  ∀ (envs : Nat → ε) (v₀ : σ) (reg : Registry) (c d : ChanId), NewlyConnected reg c d →
    ∀ (turns : List ClientTurn) (n : Nat),
      match serve srv envs c d n ⟨reg, turns, v₀, 0, []⟩ with
      | .ok _ t => ∃ done v todo, done.length = n ∧ Past srv envs v₀ done v todo t.log
      | .error e t => Ends srv envs v₀ c d e t

theorem answersClients (srv : Srv ε σ) : AnswersClients srv := by
  intro envs v₀ reg c d hnew turns n
  have hidle : Point c d (Idle srv envs v₀ [] v₀) v₀ 0 ⟨reg, turns, v₀, 0, []⟩ :=
    ⟨rfl, rfl, .free, .free, clear, hnew.link, rfl, .inl ⟨rfl, rfl, .nil, by simp⟩⟩
  have hserve := wp_serve n hidle
  rw [wp] at hserve
  cases hrun : serve srv envs c d n ⟨reg, turns, v₀, 0, []⟩ with
  | error e t =>
      rw [hrun] at hserve
      exact hserve
  | ok r t =>
      rw [hrun] at hserve
      obtain ⟨done, v, hlen, _, _, own, reply, aux, _, _, hown⟩ := hserve
      rw [List.length_nil, Nat.zero_add] at hlen
      rcases hown with ⟨_, hpast⟩ | ⟨m, _, hpast⟩
      · exact ⟨done, v, [], hlen, hpast⟩
      · exact ⟨done, v, [m], hlen, hpast⟩

/-- The three services. -/
theorem services_answer (aes : Aes) (key : Option Block) (ecid : Block)
    (cmac : Block → List UInt8 → Block) (keys : LuksKeys) :
    AnswersClients (cryptoSrv aes) ∧ AnswersClients (getKeySrv key ecid) ∧
      AnswersClients (luksSrv cmac keys) :=
  ⟨answersClients _, answersClients _, answersClients _⟩

/-! ## A request that cannot be handled -/

theorem newlyConnected_connectedPair : NewlyConnected connectedPair 1 0 where
  ne := by decide
  server := ⟨fun _ => 0, connectedChan 0 ipcChanFlagServer, ⟨rfl, rfl, rfl, rfl⟩, rfl⟩
  client := ⟨fun _ => 0, connectedChan 1 0, ⟨rfl, rfl, rfl, rfl⟩⟩

/-- A command of two bytes. -/
def shortRequest : MsgDesc := .user [.mapped 2 [0x01, 0x00]] 0

theorem shortRequest_fits : ClientStep.Fits (.call (.sysSend (some shortRequest))) := by
  intro msg hmsg
  cases hmsg
  decide

/-- There is no memory for the payload of the first request. -/
def outOfMemory : CryptoEnv := { cryptoEnvZero with mallocBuf := false }

/-- The service closes the channel. -/
theorem cryptoSrv_closes :
    ¬∀ (aes : Aes) (envs : Nat → CryptoEnv) (reg : Registry) (c d : ChanId),
      NewlyConnected reg c d → ∀ (turns : List ClientTurn) (n : Nat),
        faultOf (serve (cryptoSrv aes) envs c d n ⟨reg, turns, (), 0, []⟩) ≠ some .closed := by
  intro h
  refine h (fun _ => Equiv.refl _) (fun _ => outOfMemory) connectedPair 1 0
    newlyConnected_connectedPair [[⟨_, shortRequest_fits⟩]] 1 ?_
  decide +kernel

end TX2SecureUart.Hwkey
