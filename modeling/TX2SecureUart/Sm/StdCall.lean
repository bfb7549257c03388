/-
# `Sm.StdCall` — standard calls of the secure monitor

`sm.c`: a CPU that comes from the non-secure world queues a call, or restarts
the one that is in progress; one thread runs the handlers; the result is taken
by the CPU that waits for it when it becomes idle.  A CPU can be called away by
an interrupt at any moment, and another one may come back in its place.

What is done under `stdcallstate.lock` is one step.  Outside the lock the code
reads `event.signalled`, `active_cpu` and, in a handler, `args`: these reads
are steps of their own.

`calls` is no part of the program: it records what became of each call.
-/
import TX2SecureUart.Lib.Machine

namespace TX2SecureUart.Sm

open Prog

/-! ## SMC numbers and results -/

abbrev Cpu := Nat

/-- `smc32_args_t` -/
structure Smc32Args where
  smcNr : UInt32
  params : Vector UInt32 7
deriving DecidableEq

/-- `SMC_STDCALL_NR` -/
def smcStdcallNr (entity fn : UInt32) : UInt32 := ((entity &&& 0x3F) <<< 24) ||| (fn &&& 0xFFFF)

/-- `SMC_ENTITY_SECURE_MONITOR` -/
def smcEntitySecureMonitor : UInt32 := 60

/-- `SMC_SC_RESTART_LAST` -/
def smcScRestartLast : UInt32 := smcStdcallNr smcEntitySecureMonitor 0

/-- `SMC_SC_NOP` -/
def smcScNop : UInt32 := smcStdcallNr smcEntitySecureMonitor 3

/-- `TRUSTY_API_VERSION_SMP` -/
def trustyApiVersionSmp : UInt32 := 2

/-- `SM_ERR_INTERRUPTED` -/
def smErrInterrupted : Int := -3

/-- `SM_ERR_UNEXPECTED_RESTART` -/
def smErrUnexpectedRestart : Int := -4

/-- `SM_ERR_BUSY` -/
def smErrBusy : Int := -5

/-- `SM_ERR_INTERNAL_FAILURE` -/
def smErrInternalFailure : Int := -7

/-- `SM_ERR_CPU_IDLE` -/
def smErrCpuIdle : Int := -13

/-- `SM_ERR_NOP_INTERRUPTED` -/
def smErrNopInterrupted : Int := -14

/-- `SM_ERR_NOP_DONE` -/
def smErrNopDone : Int := -15

/-! ## `stdcallstate` -/

/-- `struct sm_std_call_state`; no CPU is `-1`. -/
structure StdCallState where
  /-- `event.signalled` -/
  signalled : Bool
  args : Smc32Args
  ret : Int
  done : Bool
  activeCpu : Option Cpu
  initialCpu : Option Cpu
  lastCpu : Option Cpu
  restartCount : Nat

def StdCallState.init : StdCallState where
  signalled := false
  args := ⟨0, Vector.replicate 7 0⟩
  ret := 0
  done := false
  activeCpu := none
  initialCpu := none
  lastCpu := none
  restartCount := 0

/-- `sm_queue_stdcall` -/
def smQueueStdcall (args : Smc32Args) (cpu : Cpu) (st : StdCallState) : Int × StdCallState :=
  if st.signalled ∨ st.done then
    if args.smcNr = smcScRestartLast ∧ st.activeCpu = none then
      (0, { st with restartCount := st.restartCount + 1, activeCpu := some cpu })
    else (smErrBusy, st)
  else if args.smcNr = smcScRestartLast then (smErrUnexpectedRestart, st)
  else (0, { st with
    initialCpu := some cpu, ret := smErrInternalFailure, args := args, restartCount := 0
    signalled := true, activeCpu := some cpu })

/-- `sm_irq_return_ns`, up to the return. -/
def smIrqReturnNs (cpu : Cpu) (st : StdCallState) : Int × StdCallState :=
  if st.activeCpu = some cpu then
    (smErrInterrupted, { st with lastCpu := st.activeCpu, activeCpu := none })
  else (smErrNopInterrupted, st)

/-- `sm_get_stdcall_ret`; `embedded` says whether `TRUSTY_EMBEDDED_BUILD` is
defined. -/
def smGetStdcallRet (embedded : Bool) (apiVersion : UInt32) (cpu : Cpu) (st : StdCallState) :
    Int × StdCallState :=
  if st.activeCpu ≠ some cpu then (smErrInternalFailure, st)
  else if st.done then
    (st.ret, { st with lastCpu := st.activeCpu, activeCpu := none, done := false })
  else if trustyApiVersionSmp ≤ apiVersion then
    (smErrCpuIdle, { st with lastCpu := st.activeCpu, activeCpu := none })
  else if embedded = false ∧ st.restartCount ≠ 0 then
    (smErrBusy, { st with lastCpu := st.activeCpu, activeCpu := none })
  else (smErrInterrupted, { st with lastCpu := st.activeCpu, activeCpu := none })

/-- The end of a pass of `sm_stdcall_loop`. -/
def smStdcallFinish (ret : Int) (st : StdCallState) : StdCallState :=
  { st with ret := ret, done := true, signalled := false }

/-! ## CPUs and the handler thread -/

/-- Where a CPU is. -/
inductive Pc where
  /-- in the non-secure world -/
  | ns
  /-- in the secure world; `asked` if it came to queue or to restart a call -/
  | secure (asked : Bool)
  /-- in `sm_wait_for_smcall`, after it found itself to be the active CPU -/
  | getRet
deriving DecidableEq

/-- What became of a call. -/
structure Call where
  args : Smc32Args
  /-- the CPUs that queued or restarted it -/
  askers : List Cpu
  /-- the arguments, whenever the handler looked at them -/
  seen : List Smc32Args
  /-- what the handler returned -/
  results : List Int
  /-- the results that a CPU took to the non-secure world -/
  handed : List (Cpu × Int)
  /-- what else was returned for it -/
  others : List (Cpu × Int)

structure Monitor where
  std : StdCallState
  pc : Cpu → Pc
  /-- `sm_stdcall_loop` is past `event_wait` -/
  running : Bool
  /-- the latest call first -/
  calls : List Call

/-- The latest call is written up. -/
def Monitor.record (s : Monitor) (f : Call → Call) : Monitor :=
  { s with calls := s.calls.modifyHead f }

def Monitor.goto (s : Monitor) (cpu : Cpu) (pc : Pc) : Monitor :=
  { s with pc := Function.update s.pc cpu pc }

inductive Action where
  /-- an SMC; a `NOP` returns `nopRet` from its own handler -/
  | smc (cpu : Cpu) (args : Smc32Args) (nopRet : Int)
  /-- an interrupt for the non-secure world -/
  | irq (cpu : Cpu)
  /-- the idle thread compares itself with `active_cpu` -/
  | poll (cpu : Cpu)
  | getRet (cpu : Cpu) (apiVersion : UInt32)
  /-- `event_wait` returns, and the handler is called -/
  | dispatch
  /-- the handler looks at its arguments -/
  | look
  | finish (ret : Int)

/-- An answer to a CPU that came for a call. -/
def Call.answer (cpu : Cpu) (ret : Int) (k : Call) : Call :=
  { k with others := k.others ++ [(cpu, ret)] }

def Monitor.smc (cpu : Cpu) (args : Smc32Args) (nopRet : Int) (s : Monitor) : Monitor :=
  if args.smcNr = smcScNop then
    if nopRet = 0 then s.goto cpu (.secure false) else s
  else
    let (ret, std) := smQueueStdcall args cpu s.std
    if ret ≠ 0 then
      -- the answer is about the call in progress, if there is one
      Monitor.record { s with std := std } fun k => if k.handed = [] then k.answer cpu ret else k
    else if args.smcNr = smcScRestartLast then
      (Monitor.goto { s with std := std } cpu (.secure true)).record fun k =>
        { k with askers := k.askers ++ [cpu] }
    else
      { s with
        std := std, pc := Function.update s.pc cpu (Pc.secure true)
        calls := ⟨args, [cpu], [], [], [], []⟩ :: s.calls }

def Monitor.irq (cpu : Cpu) (s : Monitor) : Monitor :=
  let (ret, std) := smIrqReturnNs cpu s.std
  (Monitor.goto { s with std := std } cpu .ns).record fun k =>
    if s.pc cpu = .secure true then k.answer cpu ret else k

def Monitor.poll (cpu : Cpu) (s : Monitor) : Monitor :=
  if s.std.activeCpu = some cpu then s.goto cpu .getRet
  else (s.goto cpu .ns).record fun k =>
    if s.pc cpu = .secure true then k.answer cpu smErrNopDone else k

def Monitor.getRet (embedded : Bool) (cpu : Cpu) (apiVersion : UInt32) (s : Monitor) : Monitor :=
  let (ret, std) := smGetStdcallRet embedded apiVersion cpu s.std
  (Monitor.goto { s with std := std } cpu .ns).record fun k =>
    if s.std.activeCpu = some cpu ∧ s.std.done then
      { k with handed := k.handed ++ [(cpu, ret)] }
    else k.answer cpu ret

def Monitor.look (s : Monitor) : Monitor :=
  s.record fun k => { k with seen := k.seen ++ [s.std.args] }

def Monitor.finish (ret : Int) (s : Monitor) : Monitor :=
  Monitor.record { s with std := smStdcallFinish ret s.std, running := false } fun k =>
    { k with results := k.results ++ [ret] }

def Action.step (embedded : Bool) : Action → Monitor → Monitor
  | .smc cpu args nopRet => Monitor.smc cpu args nopRet
  | .irq cpu => Monitor.irq cpu
  | .poll cpu => Monitor.poll cpu
  | .getRet cpu apiVersion => Monitor.getRet embedded cpu apiVersion
  | .dispatch => fun s => Monitor.look { s with running := true }
  | .look => Monitor.look
  | .finish ret => Monitor.finish ret

/-- A CPU issues SMCs in the non-secure world only, and there is one handler
thread. -/
def Action.Enabled (s : Monitor) : Action → Prop
  | .smc cpu .. => s.pc cpu = .ns
  | .irq cpu | .poll cpu => ∃ asked, s.pc cpu = .secure asked
  | .getRet cpu _ => s.pc cpu = .getRet
  | .dispatch => s.running = false ∧ s.std.signalled = true
  | .look | .finish _ => s.running = true

def Monitor.init : Monitor where
  std := .init
  pc := fun _ => .secure false
  running := false
  calls := []

def sm (embedded : Bool) : Machine Empty Monitor Action where
  init := .init
  run a := modify (a.step embedded)
  Enabled s a := a.Enabled s

/-- Any step. -/
def anyStep : Monitor → Action → Prop := fun _ _ => True

/-! ## The invariant -/

/-- What the handler saw and what the callers were told. -/
structure Call.Clean (k : Call) : Prop where
  seen : ∀ a ∈ k.seen, a = k.args
  others : ∀ x ∈ k.others, x.2 = smErrInterrupted ∨ x.2 = smErrCpuIdle ∨ x.2 = smErrBusy

/-- The handler ran once, and its result went once to a CPU that had asked for
it. -/
def Call.Served (k : Call) : Prop :=
  ∃ cpu ret, k.results = [ret] ∧ k.handed = [(cpu, ret)] ∧ cpu ∈ k.askers

/-- No call is in progress. -/
structure Idle (s : Monitor) : Prop where
  signalled : s.std.signalled = false
  done : s.std.done = false
  active : s.std.activeCpu = none
  running : s.running = false
  served : ∀ k ∈ s.calls.head?, k.Served

/-- The call `k` is in progress. -/
structure Busy (s : Monitor) (k : Call) : Prop where
  latest : s.calls.head? = some k
  args : s.std.args = k.args
  handed : k.handed = []
  askers : ∀ cpu, s.std.activeCpu = some cpu → cpu ∈ k.askers
  phase : (s.std.signalled = true ∧ s.std.done = false ∧ k.results = []) ∨
    (s.std.signalled = false ∧ s.std.done = true ∧ k.results = [s.std.ret] ∧ s.running = false)

structure MonitorInv (s : Monitor) : Prop where
  clean : ∀ k ∈ s.calls, k.Clean
  served : ∀ k ∈ s.calls.tail, k.Served
  state : Idle s ∨ ∃ k, Busy s k
  /-- a CPU is active exactly while it is there for a call -/
  active : ∀ cpu, s.std.activeCpu = some cpu ↔ s.pc cpu = .secure true ∨ s.pc cpu = .getRet

section

variable {embedded : Bool} {s t : Monitor} {k : Call} {cpu : Cpu} {asked : Bool}

theorem Monitor.record_self {f : Call → Call} (h : ∀ k ∈ s.calls.head?, f k = k) :
    s.record f = s := by
  obtain ⟨std, pc, running, calls⟩ := s
  cases calls with
  | nil => rfl
  | cons k rest =>
      have hk : f k = k := h k (by simp)
      simp [Monitor.record, hk]

theorem inv_init : MonitorInv .init where
  clean := by simp [Monitor.init]
  served := by simp [Monitor.init]
  state := Or.inl ⟨rfl, rfl, rfl, rfl, by simp [Monitor.init]⟩
  active := by
    intro cpu
    simp [Monitor.init, StdCallState.init]

/-- The latest call is written up, and the rest follows. -/
theorem MonitorInv.write (h : MonitorInv s) {f : Call → Call} (hk : s.calls.head? = some k)
    (hcalls : t.calls = s.calls.modifyHead f) (hclean : (f k).Clean)
    (hstate : t.calls.head? = some (f k) → Idle t ∨ ∃ k, Busy t k)
    (hactive : ∀ cpu, t.std.activeCpu = some cpu ↔ t.pc cpu = .secure true ∨ t.pc cpu = .getRet) :
    MonitorInv t := by
  obtain ⟨rest, hrest⟩ := List.head?_eq_some_iff.mp hk
  rw [hrest, List.modifyHead_cons] at hcalls
  refine ⟨?_, ?_, hstate (by rw [hcalls]; rfl), hactive⟩
  · intro k' hk'
    rw [hcalls] at hk'
    rcases List.mem_cons.mp hk' with rfl | hmem
    · exact hclean
    · exact h.clean k' (by simp [hrest, hmem])
  · intro k' hk'
    rw [hcalls] at hk'
    exact h.served k' (by simpa [hrest] using hk')

theorem MonitorInv.busy_clean (h : MonitorInv s) (hb : Busy s k) : k.Clean :=
  h.clean k (List.mem_of_mem_head? hb.latest)

theorem Call.Clean.answer (h : k.Clean) {ret : Int}
    (hret : ret = smErrInterrupted ∨ ret = smErrCpuIdle ∨ ret = smErrBusy) :
    (k.answer cpu ret).Clean where
  seen := h.seen
  others := by
    intro x hx
    rcases List.mem_append.mp hx with hx | hx
    · exact h.others x hx
    · rw [List.mem_singleton.mp hx]
      exact hret

/-- A CPU is busy with the call only if there is one. -/
theorem MonitorInv.busy_of_active (h : MonitorInv s) (hact : s.std.activeCpu = some cpu) :
    ∃ k, Busy s k := by
  refine h.state.resolve_left ?_
  intro hi
  simp [hi.active] at hact

theorem MonitorInv.busy_of_running (h : MonitorInv s) (hrun : s.running = true) :
    ∃ k, Busy s k := by
  refine h.state.resolve_left ?_
  intro hi
  simp [hi.running] at hrun

/-- Somebody else's place does not change. -/
theorem MonitorInv.active_goto (h : MonitorInv s) {pc : Pc} {std : StdCallState}
    (hother : ∀ d, d ≠ cpu → (std.activeCpu = some d ↔ s.std.activeCpu = some d))
    (hself : std.activeCpu = some cpu ↔ pc = .secure true ∨ pc = .getRet) (d : Cpu) :
    std.activeCpu = some d ↔
      Function.update s.pc cpu pc d = .secure true ∨ Function.update s.pc cpu pc d = .getRet := by
  by_cases hd : d = cpu
  · subst hd
    simpa using hself
  · rw [hother d hd, Function.update_of_ne hd]
    exact h.active d

/-- The call goes on: only who waits for it, and what was noted, may change. -/
theorem Busy.next (hb : Busy s k) {k' : Call} (hlatest : t.calls.head? = some k')
    (hk : k'.args = k.args ∧ k'.handed = k.handed ∧ k'.results = k.results)
    (hstd : t.std.signalled = s.std.signalled ∧ t.std.done = s.std.done ∧
      t.std.args = s.std.args ∧ t.std.ret = s.std.ret)
    (hrun : t.running = s.running ∨ s.std.signalled = true)
    (haskers : ∀ cpu, t.std.activeCpu = some cpu → cpu ∈ k'.askers) : Busy t k' := by
  obtain ⟨hargs, hhanded, hresults⟩ := hk
  obtain ⟨hsig, hdone, hargs', hret⟩ := hstd
  refine ⟨hlatest, ?_, hhanded.trans hb.handed, haskers, ?_⟩
  · rw [hargs', hargs, hb.args]
  · rw [hsig, hdone, hresults, hret]
    rcases hb.phase with hp | ⟨hs, hd, hr, hrunning⟩
    · exact Or.inl hp
    · refine Or.inr ⟨hs, hd, hr, ?_⟩
      rcases hrun with hrun | hrun
      · rw [hrun, hrunning]
      · simp [hs] at hrun

/-- A CPU that is not there for a call goes elsewhere. -/
theorem MonitorInv.goto (h : MonitorInv s) {pc : Pc}
    (hself : s.std.activeCpu = some cpu ↔ pc = .secure true ∨ pc = .getRet) :
    MonitorInv (s.goto cpu pc) := by
  refine ⟨h.clean, h.served, ?_, h.active_goto (fun _ _ => Iff.rfl) hself⟩
  rcases h.state with hi | ⟨k, hb⟩
  · exact Or.inl ⟨hi.signalled, hi.done, hi.active, hi.running, hi.served⟩
  · exact Or.inr ⟨k, hb.latest, hb.args, hb.handed, hb.askers, hb.phase⟩

/-! ## One step -/

/-- The active CPU leaves the call with an answer. -/
theorem MonitorInv.leave (h : MonitorInv s) (hact : s.std.activeCpu = some cpu) {ret : Int}
    (hret : ret = smErrInterrupted ∨ ret = smErrCpuIdle ∨ ret = smErrBusy)
    (hstd : t.std = { s.std with lastCpu := s.std.activeCpu, activeCpu := none })
    (hpc : t.pc = Function.update s.pc cpu .ns) (hrun : t.running = s.running)
    (hcalls : t.calls = s.calls.modifyHead (Call.answer cpu ret)) : MonitorInv t := by
  obtain ⟨k, hb⟩ := h.busy_of_active hact
  refine h.write hb.latest hcalls ((h.busy_clean hb).answer hret) ?_ ?_
  · intro hlatest
    refine Or.inr ⟨_, hb.next hlatest ⟨rfl, rfl, rfl⟩ ?_ (Or.inl hrun) ?_⟩
    · rw [hstd]
      exact ⟨rfl, rfl, rfl, rfl⟩
    · intro d hd
      simp [hstd] at hd
  · rw [hpc, hstd]
    refine h.active_goto ?_ (by simp)
    intro d hd
    simp [hact, Ne.symm hd]

theorem MonitorInv.irq (h : MonitorInv s) (hpc : s.pc cpu = .secure asked) :
    MonitorInv (s.irq cpu) := by
  have hask := h.active cpu
  rw [hpc] at hask
  cases asked with
  | true =>
      have hact : s.std.activeCpu = some cpu := hask.mpr (Or.inl rfl)
      exact h.leave hact (Or.inl rfl)
        (by simp [Monitor.irq, Monitor.record, Monitor.goto, smIrqReturnNs, hact])
        (by simp [Monitor.irq, Monitor.record, Monitor.goto, smIrqReturnNs, hact])
        (by simp [Monitor.irq, Monitor.record, Monitor.goto, smIrqReturnNs, hact])
        (by simp [Monitor.irq, Monitor.record, Monitor.goto, smIrqReturnNs, hact, hpc])
  | false =>
      have hact : s.std.activeCpu ≠ some cpu := by
        intro hact
        simpa using hask.mp hact
      have hsame : s.irq cpu = s.goto cpu .ns := by
        simp only [Monitor.irq, smIrqReturnNs, hact, if_false, hpc]
        refine Monitor.record_self ?_
        intro k _
        simp
      rw [hsame]
      exact h.goto (by simpa using hact)

theorem MonitorInv.poll (h : MonitorInv s) (hpc : s.pc cpu = .secure asked) :
    MonitorInv (s.poll cpu) := by
  have hask := h.active cpu
  rw [hpc] at hask
  unfold Monitor.poll
  split
  · rename_i hact
    exact h.goto (by simpa using hact)
  · rename_i hact
    have hsame : (s.goto cpu .ns).record (fun k =>
        if s.pc cpu = .secure true then k.answer cpu smErrNopDone else k) = s.goto cpu .ns := by
      refine Monitor.record_self ?_
      intro k _
      have hno : s.pc cpu ≠ .secure true := by
        intro htrue
        rw [hpc] at htrue
        exact hact (hask.mpr (Or.inl htrue))
      rw [if_neg hno]
    rw [hsame]
    exact h.goto (by simpa using hact)

/-- The result is taken, and no call is in progress any more. -/
theorem MonitorInv.take (h : MonitorInv s) (hact : s.std.activeCpu = some cpu)
    (hdone : s.std.done = true)
    (hstd : t.std = { s.std with lastCpu := s.std.activeCpu, activeCpu := none, done := false })
    (hpc : t.pc = Function.update s.pc cpu .ns) (hrun : t.running = s.running)
    (hcalls : t.calls = s.calls.modifyHead fun k =>
      { k with handed := k.handed ++ [(cpu, s.std.ret)] }) : MonitorInv t := by
  obtain ⟨k, hb⟩ := h.busy_of_active hact
  obtain ⟨hsig, -, hresults, hrunning⟩ := hb.phase.resolve_left fun hp => by simp [hdone] at hp
  have hclean := h.busy_clean hb
  refine h.write (f := fun k => { k with handed := k.handed ++ [(cpu, s.std.ret)] }) hb.latest hcalls
    ⟨hclean.seen, hclean.others⟩ ?_ ?_
  · intro hlatest
    refine Or.inl ⟨?_, ?_, ?_, hrun.trans hrunning, ?_⟩
    · rw [hstd]
      exact hsig
    · rw [hstd]
    · rw [hstd]
    · intro k' hk'
      obtain rfl := Option.some.inj (hlatest.symm.trans hk')
      exact ⟨cpu, s.std.ret, hresults, by simp [hb.handed], hb.askers cpu hact⟩
  · rw [hpc, hstd]
    refine h.active_goto ?_ (by simp)
    intro d hd
    simp [hact, Ne.symm hd]

theorem MonitorInv.getRet (h : MonitorInv s) (hpc : s.pc cpu = .getRet) (apiVersion : UInt32) :
    MonitorInv (s.getRet embedded cpu apiVersion) := by
  have hact : s.std.activeCpu = some cpu := (h.active cpu).mpr (Or.inr hpc)
  by_cases hdone : s.std.done = true
  · exact h.take hact hdone
      (by simp [Monitor.getRet, Monitor.record, Monitor.goto, smGetStdcallRet, hact, hdone])
      (by simp [Monitor.getRet, Monitor.record, Monitor.goto, smGetStdcallRet, hact, hdone])
      (by simp [Monitor.getRet, Monitor.record, Monitor.goto, smGetStdcallRet, hact, hdone])
      (by simp [Monitor.getRet, Monitor.record, Monitor.goto, smGetStdcallRet, hact, hdone])
  · -- three answers, and one thing that is done
    have hcases : ∃ ret, (ret = smErrInterrupted ∨ ret = smErrCpuIdle ∨ ret = smErrBusy) ∧
        smGetStdcallRet embedded apiVersion cpu s.std =
          (ret, { s.std with lastCpu := s.std.activeCpu, activeCpu := none }) := by
      rw [smGetStdcallRet, if_neg (not_not.mpr hact), if_neg hdone]
      split
      · exact ⟨_, Or.inr (Or.inl rfl), rfl⟩
      · split
        · exact ⟨_, Or.inr (Or.inr rfl), rfl⟩
        · exact ⟨_, Or.inl rfl, rfl⟩
    obtain ⟨ret, hret, hget⟩ := hcases
    exact h.leave hact hret
      (by simp [Monitor.getRet, Monitor.record, Monitor.goto, hget])
      (by simp [Monitor.getRet, Monitor.record, Monitor.goto, hget])
      (by simp [Monitor.getRet, Monitor.record, Monitor.goto, hget])
      (by simp [Monitor.getRet, Monitor.record, Monitor.goto, hget, hdone])

theorem MonitorInv.look (h : MonitorInv s) (hb : Busy s k) (hsig : s.std.signalled = true)
    (running : Bool) : MonitorInv (Monitor.look { s with running := running }) := by
  have hclean := h.busy_clean hb
  refine h.write (f := fun k => { k with seen := k.seen ++ [s.std.args] }) hb.latest rfl ?_ ?_
    h.active
  · refine ⟨?_, hclean.others⟩
    intro a ha
    rcases List.mem_append.mp ha with ha | ha
    · exact hclean.seen a ha
    · rw [List.mem_singleton.mp ha]
      exact hb.args
  · intro hlatest
    exact Or.inr ⟨_, hb.next hlatest ⟨rfl, rfl, rfl⟩ ⟨rfl, rfl, rfl, rfl⟩ (Or.inr hsig) hb.askers⟩

/-- While the handler runs, the event stays signalled. -/
theorem MonitorInv.signalled_of_running (h : MonitorInv s) (hrun : s.running = true) :
    ∃ k, Busy s k ∧ s.std.signalled = true ∧ k.results = [] := by
  obtain ⟨k, hb⟩ := h.busy_of_running hrun
  obtain ⟨hsig, -, hresults⟩ := hb.phase.resolve_right fun hp => by simp [hrun] at hp
  exact ⟨k, hb, hsig, hresults⟩

theorem MonitorInv.finish (h : MonitorInv s) (hrun : s.running = true) (ret : Int) :
    MonitorInv (s.finish ret) := by
  obtain ⟨k, hb, -, hresults⟩ := h.signalled_of_running hrun
  have hclean := h.busy_clean hb
  refine h.write (f := fun k => { k with results := k.results ++ [ret] }) hb.latest rfl
    ⟨hclean.seen, hclean.others⟩ ?_ h.active
  intro hlatest
  refine Or.inr ⟨_, hlatest, hb.args, hb.handed, hb.askers, Or.inr ⟨rfl, rfl, ?_, rfl⟩⟩
  simp [hresults, Monitor.finish, Monitor.record, smStdcallFinish]

/-- A call is queued when none is in progress. -/
theorem MonitorInv.queue (h : MonitorInv s) (hi : Idle s) (args : Smc32Args)
    (hstd : t.std = { s.std with
      initialCpu := some cpu, ret := smErrInternalFailure, args := args, restartCount := 0
      signalled := true, activeCpu := some cpu })
    (hgoto : t.pc = Function.update s.pc cpu (.secure true))
    (hcalls : t.calls = ⟨args, [cpu], [], [], [], []⟩ :: s.calls) : MonitorInv t := by
  refine ⟨?_, ?_, Or.inr ⟨⟨args, [cpu], [], [], [], []⟩, ?_⟩, ?_⟩
  · intro k hk
    rw [hcalls] at hk
    rcases List.mem_cons.mp hk with rfl | hk
    · exact ⟨by simp, by simp⟩
    · exact h.clean k hk
  · intro k hk
    rw [hcalls, List.tail_cons] at hk
    cases hlist : s.calls with
    | nil => simp [hlist] at hk
    | cons latest rest =>
        rw [hlist] at hk
        rcases List.mem_cons.mp hk with rfl | hk
        · exact hi.served _ (by simp [hlist])
        · exact h.served k (by simpa [hlist] using hk)
  · refine ⟨by simp [hcalls], by simp [hstd], rfl, ?_, Or.inl ⟨by simp [hstd], ?_, rfl⟩⟩
    · intro d hd
      rw [hstd] at hd
      simp [Option.some.inj hd]
    · rw [hstd]
      exact hi.done
  · rw [hgoto, hstd]
    refine h.active_goto ?_ (by simp)
    intro d hd
    simp [hi.active, Ne.symm hd]

/-- A CPU comes back for the call in progress. -/
theorem MonitorInv.restart (h : MonitorInv s) (hb : Busy s k) (hact : s.std.activeCpu = none)
    (hstd : t.std = { s.std with
      restartCount := s.std.restartCount + 1, activeCpu := some cpu })
    (hgoto : t.pc = Function.update s.pc cpu (.secure true)) (hrun : t.running = s.running)
    (hcalls : t.calls = s.calls.modifyHead fun k => { k with askers := k.askers ++ [cpu] }) :
    MonitorInv t := by
  have hclean := h.busy_clean hb
  refine h.write (f := fun k => { k with askers := k.askers ++ [cpu] }) hb.latest hcalls
    ⟨hclean.seen, hclean.others⟩ ?_ ?_
  · intro hlatest
    refine Or.inr ⟨_, hb.next hlatest ⟨rfl, rfl, rfl⟩ ?_ (Or.inl hrun) ?_⟩
    · rw [hstd]
      exact ⟨rfl, rfl, rfl, rfl⟩
    · intro d hd
      rw [hstd] at hd
      simp [Option.some.inj hd]
  · rw [hgoto, hstd]
    refine h.active_goto ?_ (by simp)
    intro d hd
    simp [hact, Ne.symm hd]

theorem MonitorInv.smc (h : MonitorInv s) (hpc : s.pc cpu = .ns) (args : Smc32Args)
    (nopRet : Int) : MonitorInv (s.smc cpu args nopRet) := by
  have hnot : s.std.activeCpu ≠ some cpu := by
    intro hact
    have := (h.active cpu).mp hact
    simp [hpc] at this
  by_cases hnop : args.smcNr = smcScNop
  · rw [Monitor.smc, if_pos hnop]
    split
    · exact h.goto (by simpa using hnot)
    · exact h
  rcases h.state with hi | ⟨k, hb⟩
  · have hfree : ¬ (s.std.signalled = true ∨ s.std.done = true) := by
      simp [hi.signalled, hi.done]
    by_cases hrestart : args.smcNr = smcScRestartLast
    · -- nothing to restart
      have hq : smQueueStdcall args cpu s.std = (smErrUnexpectedRestart, s.std) := by
        rw [smQueueStdcall, if_neg hfree, if_pos hrestart]
      have hsame : s.smc cpu args nopRet = s := by
        rw [Monitor.smc, if_neg hnop, hq]
        refine Monitor.record_self ?_
        intro k hk
        obtain ⟨_, _, -, hhanded, -⟩ := hi.served k hk
        simp [hhanded]
      rw [hsame]
      exact h
    · have hq : smQueueStdcall args cpu s.std = (0, { s.std with
          initialCpu := some cpu, ret := smErrInternalFailure, args := args, restartCount := 0
          signalled := true, activeCpu := some cpu }) := by
        rw [smQueueStdcall, if_neg hfree, if_neg hrestart]
      have hsmc : s.smc cpu args nopRet = { s with
          std := { s.std with
            initialCpu := some cpu, ret := smErrInternalFailure, args := args, restartCount := 0
            signalled := true, activeCpu := some cpu }
          pc := Function.update s.pc cpu (Pc.secure true)
          calls := ⟨args, [cpu], [], [], [], []⟩ :: s.calls } := by
        rw [Monitor.smc, if_neg hnop, hq]
        exact (if_neg (by simp)).trans (if_neg hrestart)
      rw [hsmc]
      exact h.queue hi args rfl rfl rfl
  · have hbusy : s.std.signalled = true ∨ s.std.done = true := by
      rcases hb.phase with hp | hp
      · exact Or.inl hp.1
      · exact Or.inr hp.2.1
    by_cases hrestart : args.smcNr = smcScRestartLast ∧ s.std.activeCpu = none
    · have hq : smQueueStdcall args cpu s.std = (0, { s.std with
          restartCount := s.std.restartCount + 1, activeCpu := some cpu }) := by
        rw [smQueueStdcall, if_pos hbusy, if_pos hrestart]
      have hsmc : s.smc cpu args nopRet =
          (Monitor.goto { s with std := { s.std with
            restartCount := s.std.restartCount + 1, activeCpu := some cpu } } cpu
            (.secure true)).record fun k => { k with askers := k.askers ++ [cpu] } := by
        rw [Monitor.smc, if_neg hnop, hq]
        exact (if_neg (by simp)).trans (if_pos hrestart.1)
      rw [hsmc]
      exact h.restart hb hrestart.2 rfl rfl rfl rfl
    · have hq : smQueueStdcall args cpu s.std = (smErrBusy, s.std) := by
        rw [smQueueStdcall, if_pos hbusy, if_neg hrestart]
      have hsmc : s.smc cpu args nopRet = s.record fun k =>
          if k.handed = [] then k.answer cpu smErrBusy else k := by
        rw [Monitor.smc, if_neg hnop, hq]
        rfl
      rw [hsmc]
      refine h.write (f := fun k => if k.handed = [] then k.answer cpu smErrBusy else k) hb.latest
        rfl ?_ ?_ h.active
      · rw [if_pos hb.handed]
        exact (h.busy_clean hb).answer (Or.inr (Or.inr rfl))
      · intro hlatest
        rw [if_pos hb.handed] at hlatest
        exact Or.inr ⟨_, hb.next hlatest ⟨rfl, rfl, rfl⟩ ⟨rfl, rfl, rfl, rfl⟩ (Or.inl rfl)
          hb.askers⟩

theorem MonitorInv.step (h : MonitorInv s) {a : Action} (hen : a.Enabled s) :
    MonitorInv (a.step embedded s) := by
  cases a with
  | smc cpu args nopRet => exact h.smc hen args nopRet
  | irq cpu =>
      obtain ⟨asked, hpc⟩ := hen
      exact h.irq hpc
  | poll cpu =>
      obtain ⟨asked, hpc⟩ := hen
      exact h.poll hpc
  | getRet cpu apiVersion => exact h.getRet hen apiVersion
  | dispatch =>
      obtain ⟨-, hsig⟩ := hen
      have hbusy : ∃ k, Busy s k := by
        refine h.state.resolve_left ?_
        intro hi
        simp [hi.signalled] at hsig
      obtain ⟨k, hb⟩ := hbusy
      exact h.look hb hsig true
  | look =>
      obtain ⟨k, hb, hsig, -⟩ := h.signalled_of_running hen
      exact h.look hb hsig s.running
  | finish ret => exact h.finish hen ret

/-! ## All runs -/

theorem inv_of_reachable (h : (sm embedded).Reachable anyStep s) : MonitorInv s :=
  Machine.invariant (E := fun _ _ _ _ => False) inv_init
    (fun _ _ hinv hen _ => (wp_modify _).mpr (hinv.step hen)) h

/-- In every run every call but the latest was served: its handler ran once, and
the value went once to a CPU that had asked for it.  The latest was served too,
or it is in progress, and then its arguments are still in place.  A handler sees
the arguments that were queued, and whatever else is returned for a call says
that it was interrupted, that the CPU is idle, or that the monitor is busy. -/
theorem calls_served_once (h : (sm embedded).Reachable anyStep s) :
    (∀ k ∈ s.calls.tail, k.Served) ∧
    (∀ k ∈ s.calls.head?, k.Served ∨ k.handed = [] ∧ s.std.args = k.args) ∧
    ∀ k ∈ s.calls, k.Clean := by
  have hinv := inv_of_reachable h
  refine ⟨hinv.served, ?_, hinv.clean⟩
  intro k hk
  rcases hinv.state with hi | ⟨k', hb⟩
  · exact Or.inl (hi.served k hk)
  · obtain rfl : k = k' := Option.some.inj (hk.symm.trans hb.latest)
    exact Or.inr ⟨hb.handed, hb.args⟩

end

/-- A run of one CPU: it comes back from the secure world, queues a call, is
interrupted while the handler runs, restarts the call and takes the result. -/
def oneCall (args : Smc32Args) (ret : Int) : List Action :=
  [.poll 0, .smc 0 args 0, .dispatch, .irq 0, .smc 0 ⟨smcScRestartLast, args.params⟩ 0, .finish ret,
    .poll 0, .getRet 0 3]

def runAll (embedded : Bool) (as : List Action) : Monitor :=
  as.foldl (fun s a => a.step embedded s) .init

theorem reachable_oneCall :
    (sm true).Reachable anyStep (runAll true (oneCall ⟨0x32000014, Vector.replicate 7 0⟩ 5)) := by
  have hstep : ∀ {s : Monitor} (a : Action), (sm true).Reachable anyStep s → a.Enabled s →
      (sm true).Reachable anyStep (a.step true s) := by
    intro s a h hen
    exact Relation.ReflTransGen.tail h ⟨a, hen, trivial, rfl⟩
  have h₁ := hstep (.poll 0) .refl ⟨false, rfl⟩
  have h₂ := hstep (.smc 0 ⟨0x32000014, Vector.replicate 7 0⟩ 0) h₁ rfl
  have h₃ := hstep .dispatch h₂ ⟨rfl, rfl⟩
  have h₄ := hstep (.irq 0) h₃ ⟨true, rfl⟩
  have h₅ := hstep (.smc 0 ⟨smcScRestartLast, Vector.replicate 7 0⟩ 0) h₄ rfl
  have h₆ := hstep (.finish 5) h₅ rfl
  have h₇ := hstep (.poll 0) h₆ ⟨true, rfl⟩
  exact hstep (.getRet 0 3) h₇ rfl

theorem calls_served_once_oneCall :
    let s := runAll true (oneCall ⟨0x32000014, Vector.replicate 7 0⟩ 5)
    (∀ k ∈ s.calls.tail, k.Served) ∧
    (∀ k ∈ s.calls.head?, k.Served ∨ k.handed = [] ∧ s.std.args = k.args) ∧
    ∀ k ∈ s.calls, k.Clean :=
  calls_served_once reachable_oneCall

end TX2SecureUart.Sm
