/-
# `Sm.BootArgs` — the boot arguments and the threads that wait for them

`sm_init` maps the block that the boot loader passes and takes one reference on
it, `process_boot_params` takes another while it reads the block, and
`sm_release_boot_args` drops the first at the end of the initialisation.  The
last reference to go unmaps the block and resumes the threads that switch to
the non-secure world.

The boot CPU runs these one after the other.  The other CPUs are started from
the non-secure world and run `sm_secondary_init` alone.  A read of the block
while it is not mapped stops the kernel.
-/
import TX2SecureUart.Lib.Prog
import TX2SecureUart.Lib.LeBytes
import TX2SecureUart.Lib.Mask
import TX2SecureUart.Err

namespace TX2SecureUart.BootArgs

open Prog Mask

def smpMaxCpus : Nat := 8

/-- `sizeof(boot_params_t)` -/
def sizeofBootParams : Nat := 144

/-- `32 * PAGE_SIZE` -/
def maximumEncryptedKeysSize : Nat := 32 * 4096

/-- A page of the kernel's address space: page 0 is not one. -/
structure KernelPage where
  index : Nat
  pos : 0 < index
  bound : index < 2 ^ 52

def KernelPage.base (p : KernelPage) : UInt64 := UInt64.ofNat (p.index * 4096)

/-- What the boot loader and the rest of the kernel supply. -/
structure Env where
  /-- `lk_boot_args[1]`, a physical address -/
  addr : UInt64
  /-- `lk_boot_args[2]` -/
  length : UInt64
  /-- where `vmm_alloc_physical` finds room, if it does -/
  room : Option KernelPage
  /-- what `vptr` holds before it is set -/
  stale : UInt64
  /-- the bytes from `boot_args` on -/
  bytes : Nat → UInt8
  kvaddrToPaddr : UInt64 → UInt64
  /-- the result of `partner_process_boot_params` -/
  partner : Int

structure Args where
  bootArgs : UInt64
  bootArgsRefcnt : Int
  /-- whether the block is mapped, and how often it was mapped and unmapped -/
  mapped : Bool
  maps : Nat
  unmaps : Nat

/-- The threads of each CPU, each with the number of times it was resumed. -/
structure Threads where
  nsirqthreads : Nat → Option Nat
  nsidlethreads : Nat → Option Nat
  nsThreadsStarted : Bool

/-- What `process_boot_params` takes from the block. -/
structure Parsed where
  deviceUid : List Nat
  debugUartId : Nat
  rbData : List UInt8
  eksPaddr : UInt64
  eksBlobLength : Nat

structure State where
  args : Args
  threads : Threads
  parsed : Parsed

def State.init : State where
  args := { bootArgs := 0, bootArgsRefcnt := 0, mapped := false, maps := 0, unmaps := 0 }
  threads :=
    { nsirqthreads := fun _ => none, nsidlethreads := fun _ => none, nsThreadsStarted := false }
  parsed := { deviceUid := [], debugUartId := 0, rbData := [], eksPaddr := 0, eksBlobLength := 0 }

inductive Stop where
  /-- a read of the block while it is not mapped -/
  | unmapped
deriving DecidableEq

abbrev BootM := EStateM Stop State

/-! ## `sm.c` -/

/-- `thread_resume` on one CPU's entry of a table -/
def threadResume (threads : Nat → Option Nat) (cpu : Nat) : Nat → Option Nat :=
  Function.update threads cpu ((threads cpu).map (· + 1))

/-- Both threads of a CPU, where they exist. -/
def resumeCpu (cpu : Nat) : BootM Unit :=
  modify fun s =>
    { s with threads := { s.threads with
        nsirqthreads := threadResume s.threads.nsirqthreads cpu
        nsidlethreads := threadResume s.threads.nsidlethreads cpu } }

def resumeNsthreads : BootM Unit := do
  modify fun s => { s with threads := { s.threads with nsThreadsStarted := true } }
  forM (List.range smpMaxCpus) resumeCpu

def smSecondaryInit (cpu : Nat) : BootM Unit := do
  modify fun s =>
    { s with threads := { s.threads with
        nsirqthreads := Function.update s.threads.nsirqthreads cpu (some 0)
        nsidlethreads := Function.update s.threads.nsidlethreads cpu (some 0) } }
  if (← get).threads.nsThreadsStarted then
    resumeCpu cpu
  else
    pure ()

/-- `lk_boot_args[1] & (PAGE_SIZE - 1)` -/
def Env.offset (env : Env) : UInt64 := env.addr &&& 0xfff

/-- `ROUNDUP(lk_boot_args[2] + offset, PAGE_SIZE)` -/
def Env.size (env : Env) : UInt64 := roundUp (env.length + env.offset) 4096

/-- `vmm_alloc_physical`: the result and what `vptr` then holds.  Nothing is
mapped, and `vptr` is not set, when the size is 0. -/
def vmmAllocPhysical (env : Env) : BootM (Int × UInt64) :=
  if env.size == 0 then pure (noError, env.stale)
  else
    match env.room with
    | none => pure (errNoMemory, env.stale)
    | some page => do
        modify fun s => { s with args := { s.args with mapped := true, maps := s.args.maps + 1 } }
        pure (noError, page.base)

/-- `vmm_free_region` -/
def vmmFreeRegion : BootM Unit :=
  modify fun s =>
    if s.args.mapped then
      { s with args := { s.args with mapped := false, unmaps := s.args.unmaps + 1 } }
    else s

/-- `sm_init`, as far as the boot arguments go -/
def smInit (env : Env) : BootM Unit := do
  if env.addr != 0 && env.length != 0 then
    let (err, vptr) ← vmmAllocPhysical env
    if err == noError then
      modify fun s => { s with args := { s.args with
        bootArgs := vptr + env.offset
        bootArgsRefcnt := s.args.bootArgsRefcnt + 1 } }
    else
      modify fun s => { s with args := { s.args with bootArgs := 0 } }
  else
    pure ()

/-- `sm_get_boot_args`: the pointer and the length, or the error -/
def smGetBootArgs (env : Env) : BootM (Except Int (UInt64 × UInt64)) := do
  let s ← get
  if s.args.bootArgs == 0 then
    pure (.error errNotConfigured)
  else
    set { s with args := { s.args with bootArgsRefcnt := s.args.bootArgsRefcnt + 1 } }
    pure (.ok (s.args.bootArgs, env.length))

def smPutBootArgs : BootM Unit := do
  if (← get).args.bootArgs == 0 then
    pure ()
  else
    modify fun s => { s with args := { s.args with bootArgsRefcnt := s.args.bootArgsRefcnt - 1 } }
    if (← get).args.bootArgsRefcnt == 0 then
      vmmFreeRegion
      modify fun s => { s with args := { s.args with bootArgs := 0 } }
      resumeNsthreads
    else
      pure ()

def smReleaseBootArgs : BootM Unit := do
  if (← get).args.bootArgs != 0 then
    smPutBootArgs
  else
    resumeNsthreads

/-! ## `boot.c` -/

/-- `n` bytes of the block, `off` into it -/
def readBlock (env : Env) (off n : Nat) : BootM (List UInt8) := do
  if (← get).args.mapped then
    pure ((List.range n).map fun i => env.bytes (off + i))
  else
    throw .unmapped

def parseBootargs (env : Env) : BootM Unit := do
  let uid0 ← readBlock env 8 4
  let uid1 ← readBlock env 12 4
  let uid2 ← readBlock env 16 4
  let uid3 ← readBlock env 20 4
  let uartId ← readBlock env 4 4
  let rbData ← readBlock env 80 64
  modify fun s => { s with parsed := { s.parsed with
    deviceUid := [leNat uid0, leNat uid1, leNat uid2, leNat uid3]
    debugUartId := leNat uartId
    rbData := rbData } }

def storeEksInfo (paddr : UInt64) (blobLength : Nat) : BootM Unit :=
  modify fun s => { s with parsed := { s.parsed with
    eksPaddr := paddr
    eksBlobLength := blobLength } }

def processBootParams (env : Env) : BootM Int := do
  match ← smGetBootArgs env with
  | .error ret => pure ret
  | .ok (bootParams, totalLength) =>
      if bootParams == 0 then
        smPutBootArgs
        pure errNotConfigured
      else if totalLength.toNat < sizeofBootParams then
        smPutBootArgs
        pure errBadLen
      else
        parseBootargs env
        let keysLength := leNat (← readBlock env sizeofBootParams 4)
        if keysLength > maximumEncryptedKeysSize then
          storeEksInfo 0 0
          smPutBootArgs
          pure errBadLen
        else
          storeEksInfo (env.kvaddrToPaddr (bootParams + UInt64.ofNat sizeofBootParams)) keysLength
          if env.partner != noError then
            -- the one exit that does not pass `release_bootargs`
            pure env.partner
          else
            smPutBootArgs
            pure env.partner

/-! ## The initialisation -/

/-- The CPUs that come up before each stage of the boot CPU's initialisation
and after the last. -/
structure Arrival where
  beforeInit : List Nat
  beforeParams : List Nat
  beforeRelease : List Nat
  afterRelease : List Nat
  bound : ∀ cpu ∈ beforeInit ++ beforeParams ++ beforeRelease ++ afterRelease, cpu < smpMaxCpus

def Arrival.cpus (arr : Arrival) : List Nat :=
  arr.beforeInit ++ arr.beforeParams ++ arr.beforeRelease ++ arr.afterRelease

/-- The initialisation from where `process_boot_params` has returned. -/
def finish (arr : Arrival) : BootM Unit := do
  forM arr.beforeRelease smSecondaryInit
  smReleaseBootArgs
  forM arr.afterRelease smSecondaryInit

def initialise (env : Env) (arr : Arrival) : BootM Unit := do
  forM arr.beforeInit smSecondaryInit
  smInit env
  forM arr.beforeParams smSecondaryInit
  let _ ← processBootParams env
  finish arr

/-! ## The threads -/

/-- Each CPU that has come up has its two threads, and each thread was resumed
once if the threads have been started, and not yet if they have not. -/
structure Ready (started : Bool) (cpus : List Nat) (t : Threads) : Prop where
  flag : t.nsThreadsStarted = started
  irq : ∀ cpu, t.nsirqthreads cpu = if cpu ∈ cpus then some started.toNat else none
  idle : ∀ cpu, t.nsidlethreads cpu = if cpu ∈ cpus then some started.toNat else none

/-- The program returns in `Q`. -/
abbrev always {α : Type} (m : BootM α) (Q : α → State → Prop) (s : State) : Prop :=
  wp m Q (fun _ _ => False) s

theorem update_ready {f : Nat → Option Nat} {cpus : List Nat} {n : Nat} (cpu : Nat)
    (h : ∀ c, f c = if c ∈ cpus then some n else none) (c : Nat) :
    Function.update f cpu (some n) c = if c ∈ cpus ++ [cpu] then some n else none := by
  rcases eq_or_ne c cpu with rfl | hne
  · simp
  · simp [hne, h c]

theorem smSecondaryInit_ready {started : Bool} {cpus : List Nat} {s : State} (cpu : Nat)
    (h : Ready started cpus s.threads) :
    always (smSecondaryInit cpu)
      (fun _ t => Ready started (cpus ++ [cpu]) t.threads ∧ t.args = s.args) s := by
  obtain ⟨hflag, hirq, hidle⟩ := h
  simp only [always, smSecondaryInit, resumeCpu, wp_bind, wp_modify, wp_get, wp_ite, wp_pure,
    hflag]
  cases started with
  | false => exact ⟨⟨rfl, update_ready cpu hirq, update_ready cpu hidle⟩, trivial⟩
  | true =>
      refine ⟨⟨rfl, ?_, ?_⟩, trivial⟩
      · intro c
        simpa [threadResume] using update_ready cpu hirq c
      · intro c
        simpa [threadResume] using update_ready cpu hidle c

theorem arrive_ready {started : Bool} {cpus : List Nat} {s : State} (cs : List Nat)
    (h : Ready started cpus s.threads) :
    always (forM cs smSecondaryInit)
      (fun _ t => Ready started (cpus ++ cs) t.threads ∧ t.args = s.args) s := by
  induction cs generalizing cpus s with
  | nil => exact ⟨by simpa using h, rfl⟩
  | cons c cs ih =>
      rw [List.forM_cons]
      refine wp_seq (smSecondaryInit_ready c h) ?_
      rintro _ t ⟨ht, hargs⟩
      refine wp_conseq (ih ht) ?_
      rintro _ u ⟨hu, hargs'⟩
      exact ⟨by simpa using hu, hargs'.trans hargs⟩

/-- What the loop of `resume_nsthreads` has done to one table when it still has
the CPUs `left` to visit. -/
def Resuming (cpus left : List Nat) (f : Nat → Option Nat) : Prop :=
  ∀ cpu, f cpu = if cpu ∈ cpus then some (if cpu ∈ left then 0 else 1) else none

theorem threadResume_resuming {cpus left : List Nat} {f : Nat → Option Nat} {cpu : Nat}
    (h : Resuming cpus (cpu :: left) f) (hnot : cpu ∉ left) :
    Resuming cpus left (threadResume f cpu) := by
  intro c
  have hc := h c
  rcases eq_or_ne c cpu with rfl | hne
  · rw [threadResume, Function.update_self, hc, if_neg hnot, if_pos List.mem_cons_self]
    split <;> rfl
  · rw [threadResume, Function.update_of_ne hne, hc]
    simp [hne]

theorem resumeNsthreads_ready {cpus : List Nat} {s : State} (h : Ready false cpus s.threads)
    (hbound : ∀ cpu ∈ cpus, cpu < smpMaxCpus) :
    always resumeNsthreads (fun _ t => Ready true cpus t.threads ∧ t.args = s.args) s := by
  obtain ⟨-, hirq, hidle⟩ := h
  have hfirst : ∀ {f : Nat → Option Nat},
      (∀ cpu, f cpu = if cpu ∈ cpus then some 0 else none) →
        Resuming cpus (List.range smpMaxCpus) f := by
    intro f hf cpu
    rw [hf cpu]
    split
    · rename_i hcpu
      rw [if_pos (List.mem_range.mpr (hbound cpu hcpu))]
    · rfl
  have hlast : ∀ {f : Nat → Option Nat}, Resuming cpus [] f →
      ∀ cpu, f cpu = if cpu ∈ cpus then some 1 else none := by
    intro f hf cpu
    simpa using hf cpu
  have hloop := wp_forM (f := resumeCpu) (E := fun _ _ => False)
    (I := fun left t => left.Nodup ∧ t.threads.nsThreadsStarted = true ∧
      Resuming cpus left t.threads.nsirqthreads ∧ Resuming cpus left t.threads.nsidlethreads ∧
      t.args = s.args)
    (fun cpu left t ⟨hnodup, hst, hi, hd, ha⟩ =>
      have hcons := List.nodup_cons.mp hnodup
      ⟨hcons.2, hst, threadResume_resuming hi hcons.1, threadResume_resuming hd hcons.1, ha⟩)
  simp only [always, resumeNsthreads, wp_bind, wp_modify]
  refine wp_conseq (hloop _ ⟨List.nodup_range, rfl, hfirst hirq, hfirst hidle, rfl⟩) ?_
  rintro _ t ⟨-, hst, hi, hd, ha⟩
  exact ⟨⟨hst, hlast hi, hlast hd⟩, ha⟩

/-! ## The references -/

/-- The block is mapped at `p`, and `n` references are held. -/
def Args.held (p : UInt64) (n : Int) : Args :=
  { bootArgs := p, bootArgsRefcnt := n, mapped := true, maps := 1, unmaps := 0 }

/-- The block was mapped, and the last reference is gone. -/
def Args.released : Args :=
  { bootArgs := 0, bootArgsRefcnt := 0, mapped := false, maps := 1, unmaps := 1 }

theorem smPutBootArgs_more {s : State} {p : UInt64} (hp : p ≠ 0) (hs : s.args = .held p 2) :
    always smPutBootArgs (fun _ t => t.args = .held p 1 ∧ t.threads = s.threads) s := by
  simp [always, smPutBootArgs, hs, Args.held, hp]

theorem smPutBootArgs_last {s : State} {p : UInt64} {cpus : List Nat} (hp : p ≠ 0)
    (hs : s.args = .held p 1) (h : Ready false cpus s.threads)
    (hbound : ∀ cpu ∈ cpus, cpu < smpMaxCpus) :
    always smPutBootArgs (fun _ t => t.args = .released ∧ Ready true cpus t.threads) s := by
  have hlast : ∀ t : State, t.args = .released → t.threads = s.threads →
      always resumeNsthreads (fun _ t => t.args = .released ∧ Ready true cpus t.threads) t := by
    intro t ht hth
    exact wp_conseq (resumeNsthreads_ready (s := t) (hth ▸ h) hbound)
      (fun _ _ ⟨hr, ha⟩ => ⟨ha.trans ht, hr⟩)
  simp only [always, smPutBootArgs, vmmFreeRegion, wp_bind, wp_get, wp_modify, hs, Args.held,
    beq_iff_eq, hp, if_false, if_true, sub_self]
  exact hlast _ rfl rfl

theorem parseBootargs_args {s : State} {env : Env} (h : s.args.mapped = true) :
    always (parseBootargs env) (fun _ t => t.args = s.args ∧ t.threads = s.threads) s := by
  simp [always, parseBootargs, readBlock, h]

/-- `lk_boot_args` names a block. -/
def Env.Supplied (env : Env) : Prop := env.addr ≠ 0 ∧ env.length ≠ 0

def Env.keysLength (env : Env) : Nat :=
  leNat ((List.range 4).map fun i => env.bytes (sizeofBootParams + i))

/-- `process_boot_params` gets as far as `partner_process_boot_params`. -/
def Env.PartnerReached (env : Env) : Prop :=
  sizeofBootParams ≤ env.length.toNat ∧ env.keysLength ≤ maximumEncryptedKeysSize

/-- `process_boot_params` gives back the reference that it takes, unless the
partner's function fails. -/
theorem processBootParams_held {s : State} {env : Env} {p : UInt64} (hp : p ≠ 0)
    (hs : s.args = .held p 1) :
    always (processBootParams env)
      (fun _ t => t.threads = s.threads ∧
        ((env.PartnerReached → env.partner = noError) → t.args = .held p 1) ∧
        (env.PartnerReached → env.partner ≠ noError → t.args = .held p 2)) s := by
  simp only [always, processBootParams, smGetBootArgs, wp_bind, wp_get, wp_ite, wp_set, wp_pure,
    hs, Args.held, beq_iff_eq, hp, if_false]
  split
  · rename_i hshort
    have hnot : ¬ env.PartnerReached := fun h => absurd h.1 (by omega)
    refine wp_conseq (smPutBootArgs_more hp rfl) ?_
    rintro _ t ⟨ht, hth⟩
    exact ⟨hth, fun _ => ht, fun h => absurd h hnot⟩
  · rename_i hlong
    refine wp_conseq (parseBootargs_args rfl) ?_
    rintro _ t ⟨ht, hth⟩
    have hmapped : t.args.mapped = true := by rw [ht]
    simp only [readBlock, storeEksInfo, wp_bind, wp_get, wp_ite, wp_modify, wp_pure, hmapped,
      if_true]
    split
    · rename_i hkeys
      have hnot : ¬ env.PartnerReached := fun h => absurd h.2 (by rw [Env.keysLength]; omega)
      refine wp_conseq (smPutBootArgs_more hp ht) ?_
      rintro _ u ⟨hu, huth⟩
      exact ⟨huth.trans hth, fun _ => hu, fun h => absurd h hnot⟩
    · rename_i hkeys
      have hreached : env.PartnerReached :=
        ⟨by omega, by rw [Env.keysLength]; omega⟩
      split
      · rename_i hfail
        exact ⟨hth, fun h => absurd (h hreached) (by simpa using hfail), fun _ _ => ht⟩
      · rename_i hfine
        refine wp_conseq (smPutBootArgs_more hp ht) ?_
        rintro _ u ⟨hu, huth⟩
        refine ⟨huth.trans hth, fun _ => hu, fun _ hfail => ?_⟩
        exact absurd hfail (by simpa using hfine)

/-! ## The end of the initialisation -/

def Arrival.early (arr : Arrival) : List Nat := arr.beforeInit ++ arr.beforeParams

theorem finish_unmapped {arr : Arrival} {s : State} (hs : s.args.bootArgs = 0)
    (h : Ready false arr.early s.threads) :
    always (finish arr) (fun _ t => t.args = s.args ∧ Ready true arr.cpus t.threads) s := by
  simp only [always, finish, wp_bind]
  refine wp_conseq (arrive_ready arr.beforeRelease h) ?_
  rintro _ t ⟨ht, hargs⟩
  simp only [smReleaseBootArgs, wp_bind, wp_get, hargs, hs, bne_self_eq_false, Bool.false_eq_true,
    if_false]
  refine wp_conseq (resumeNsthreads_ready ht ?_) ?_
  · intro cpu hcpu
    exact arr.bound cpu (List.mem_append_left _ hcpu)
  rintro _ u ⟨hu, hargs'⟩
  refine wp_conseq (arrive_ready arr.afterRelease hu) ?_
  rintro _ v ⟨hv, hargs''⟩
  exact ⟨hargs''.trans (hargs'.trans hargs), hv⟩

theorem finish_held {arr : Arrival} {s : State} {p : UInt64} (hp : p ≠ 0)
    (hs : s.args = .held p 1) (h : Ready false arr.early s.threads) :
    always (finish arr) (fun _ t => t.args = .released ∧ Ready true arr.cpus t.threads) s := by
  simp only [always, finish, wp_bind]
  refine wp_conseq (arrive_ready arr.beforeRelease h) ?_
  rintro _ t ⟨ht, hargs⟩
  have hboot : (t.args.bootArgs != 0) = true := by
    rw [hargs, hs]
    exact bne_iff_ne.mpr hp
  simp only [smReleaseBootArgs, wp_bind, wp_get, hboot, if_true]
  refine wp_conseq (smPutBootArgs_last hp (hargs.trans hs) ht ?_) ?_
  · intro cpu hcpu
    exact arr.bound cpu (List.mem_append_left _ hcpu)
  rintro _ u ⟨hu, hth⟩
  refine wp_conseq (arrive_ready arr.afterRelease hth) ?_
  rintro _ v ⟨hv, hargs'⟩
  exact ⟨hargs'.trans hu, hv⟩

/-- A reference too many is still there at the end. -/
theorem finish_outstanding {arr : Arrival} {s : State} {p : UInt64} (hp : p ≠ 0)
    (hs : s.args = .held p 2) (h : Ready false arr.early s.threads) :
    always (finish arr) (fun _ t => t.args = .held p 1) s := by
  simp only [always, finish, wp_bind]
  refine wp_conseq (arrive_ready arr.beforeRelease h) ?_
  rintro _ t ⟨ht, hargs⟩
  have hboot : (t.args.bootArgs != 0) = true := by
    rw [hargs, hs]
    exact bne_iff_ne.mpr hp
  simp only [smReleaseBootArgs, wp_bind, wp_get, hboot, if_true]
  refine wp_conseq (smPutBootArgs_more hp (hargs.trans hs)) ?_
  rintro _ u ⟨hu, hth⟩
  refine wp_conseq (arrive_ready arr.afterRelease (hth ▸ ht)) ?_
  rintro _ v ⟨-, hargs'⟩
  exact hargs'.trans hu

/-! ## The whole initialisation -/

/-- `sm_init` maps the block. -/
def Env.Maps (env : Env) : Prop := env.Supplied ∧ env.size ≠ 0 ∧ env.room ≠ none

/-- No reference is left, the block that was mapped was unmapped once, and every
thread was resumed once. -/
structure Settled (env : Env) (arr : Arrival) (s : State) : Prop where
  refcnt : s.args.bootArgsRefcnt = 0
  unmapped : s.args.mapped = false
  once : env.Maps → s.args.unmaps = 1
  never : ¬ env.Maps → s.args.unmaps = 0
  irq : ∀ cpu ∈ arr.cpus, s.threads.nsirqthreads cpu = some 1
  idle : ∀ cpu ∈ arr.cpus, s.threads.nsidlethreads cpu = some 1

/-- The pages of the block do not come to none, and the partner's function does
not fail. -/
def Env.Accepted (env : Env) : Prop :=
  env.Supplied → env.size ≠ 0 ∧ (env.room ≠ none → env.PartnerReached → env.partner = noError)

theorem Ready.resumed {cpus : List Nat} {t : Threads} (h : Ready true cpus t) :
    (∀ cpu ∈ cpus, t.nsirqthreads cpu = some 1) ∧ ∀ cpu ∈ cpus, t.nsidlethreads cpu = some 1 :=
  ⟨fun cpu hcpu => (h.irq cpu).trans (if_pos hcpu), fun cpu hcpu =>
    (h.idle cpu).trans (if_pos hcpu)⟩

theorem pointer_ne_zero (env : Env) (page : KernelPage) : page.base + env.offset ≠ 0 := by
  have hpos := page.pos
  have hbound := page.bound
  have hoff : env.offset.toNat < 4096 := by
    rw [Env.offset, UInt64.toNat_and]
    exact Nat.lt_succ_of_le Nat.and_le_right
  intro h
  have h' := congrArg UInt64.toNat h
  rw [UInt64.toNat_add, KernelPage.base, UInt64.toNat_ofNat'] at h'
  simp at h'
  omega

/-- What becomes of an initialisation once `sm_init` has set the arguments. -/
def Outcome (env : Env) (arr : Arrival) : Unit → State → Prop := fun _ t =>
  (env.Accepted → Settled env arr t) ∧ (¬ env.Accepted → t.args.bootArgsRefcnt ≠ 0)

theorem params_unmapped {env : Env} {arr : Arrival} {s : State} (hs : s.args.bootArgs = 0)
    (h : Ready false arr.early s.threads) :
    always (do let _ ← processBootParams env; finish arr)
      (fun _ t => t.args = s.args ∧ Ready true arr.cpus t.threads) s := by
  simp only [always, processBootParams, smGetBootArgs, wp_bind, wp_get, hs, beq_self_eq_true,
    if_true, wp_pure]
  exact finish_unmapped hs h

theorem params_held {env : Env} {arr : Arrival} {s : State} {page : KernelPage}
    (hmaps : env.Maps) (hs : s.args = .held (page.base + env.offset) 1)
    (h : Ready false arr.early s.threads) :
    always (do let _ ← processBootParams env; finish arr) (Outcome env arr) s := by
  have hp := pointer_ne_zero env page
  obtain ⟨hsup, hsize, hroom⟩ := hmaps
  rw [always, wp_bind]
  refine wp_conseq (processBootParams_held hp hs) ?_
  rintro _ t ⟨hth, hgood, hbad⟩
  have ht : Ready false arr.early t.threads := hth ▸ h
  rcases Classical.em (env.PartnerReached → env.partner = noError) with hok | hfail
  · refine wp_conseq (finish_held hp (hgood hok) ht) ?_
    rintro _ u ⟨hu, hready⟩
    refine ⟨fun _ => ?_, fun hnot => absurd (fun _ => ⟨hsize, fun _ => hok⟩) hnot⟩
    exact ⟨by rw [hu]; rfl, by rw [hu]; rfl, fun _ => by rw [hu]; rfl,
      fun hnever => absurd ⟨hsup, hsize, hroom⟩ hnever, hready.resumed.1, hready.resumed.2⟩
  · have hreached := Classical.not_imp.mp hfail
    refine wp_conseq (finish_outstanding hp (hbad hreached.1 hreached.2) ht) ?_
    intro _ u hu
    refine ⟨fun hacc => absurd ((hacc hsup).2 hroom) hfail, fun _ => ?_⟩
    rw [hu]
    exact one_ne_zero

/-- Nothing is mapped and `vptr` is used as it was. -/
theorem params_stale {env : Env} {arr : Arrival} {s : State} (hnot : ¬ env.Accepted)
    (hcnt : s.args.bootArgsRefcnt = 1) (hmap : s.args.mapped = false)
    (hlen : sizeofBootParams ≤ env.length.toNat)
    (h : Ready false arr.early s.threads) :
    wp (do let _ ← processBootParams env; finish arr) (Outcome env arr)
      (fun _ _ => ¬ env.Accepted) s := by
  rcases eq_or_ne s.args.bootArgs 0 with hzero | hne
  · refine wp_mono (params_unmapped hzero h) ?_ (fun _ _ hf => hf.elim)
    rintro _ t ⟨ht, -⟩
    exact ⟨fun hacc => absurd hacc hnot, fun _ => by rw [ht, hcnt]; exact one_ne_zero⟩
  · simpa [processBootParams, smGetBootArgs, parseBootargs, readBlock, hne, hmap,
      Nat.not_lt.mpr hlen] using hnot

/-- Pages that come to none belong to a block that nearly fills the address
space. -/
theorem length_of_size_eq_zero {env : Env} (hlen : env.length ≠ 0) (hsize : env.size = 0) :
    sizeofBootParams ≤ env.length.toNat := by
  have hoff : env.offset.toNat < 4096 := by
    rw [Env.offset, UInt64.toNat_and]
    exact Nat.lt_succ_of_le Nat.and_le_right
  have hpos : env.length.toNat ≠ 0 := fun h => hlen (UInt64.toNat_inj.mp h)
  have hround := congrArg UInt64.toNat hsize
  rw [Env.size, roundUp_toNat (k := 12) rfl, UInt64.toNat_add] at hround
  have hlt := env.length.toNat_lt
  have hzero : (0 : UInt64).toNat = 0 := rfl
  rw [sizeofBootParams]
  omega

/-- What `sm_init` leaves, from the state in which nothing is mapped. -/
inductive Mapped (env : Env) (a : Args) : Prop
  | nothing : a = State.init.args → ¬ env.Maps → env.Accepted → Mapped env a
  | block (page : KernelPage) : a = .held (page.base + env.offset) 1 → env.Maps → Mapped env a
  | stale : a = { State.init.args with bootArgs := env.stale + env.offset, bootArgsRefcnt := 1 } →
      env.length ≠ 0 → env.size = 0 → ¬ env.Accepted → Mapped env a

theorem smInit_mapped {s : State} (env : Env) (hs : s.args = State.init.args) :
    always (smInit env) (fun _ t => Mapped env t.args ∧ t.threads = s.threads) s := by
  simp only [always, smInit, vmmAllocPhysical, wp_bind, wp_ite, wp_pure]
  split
  · rename_i hsup
    obtain ⟨haddr, hlen⟩ : env.Supplied := by simpa [Env.Supplied] using hsup
    split
    · rename_i hsize
      have hsize := eq_of_beq hsize
      simp only [beq_self_eq_true, if_true, wp_modify]
      refine ⟨.stale (by rw [hs]; rfl) hlen hsize ?_, trivial⟩
      exact fun hacc => (hacc ⟨haddr, hlen⟩).1 hsize
    · rename_i hsize
      have hsize : env.size ≠ 0 := by simpa using hsize
      cases hroom : env.room with
      | none =>
          have hargs : { s.args with bootArgs := 0 } = State.init.args := by rw [hs]; rfl
          refine ⟨.nothing hargs (fun h => h.2.2 hroom) ?_, rfl⟩
          exact fun _ => ⟨hsize, fun h => absurd hroom h⟩
      | some page =>
          have hargs : { s.args with
              bootArgs := page.base + env.offset
              bootArgsRefcnt := s.args.bootArgsRefcnt + 1
              mapped := true
              maps := s.args.maps + 1 } = .held (page.base + env.offset) 1 := by rw [hs]; rfl
          refine ⟨.block page hargs ⟨⟨haddr, hlen⟩, hsize, ?_⟩, rfl⟩
          rw [hroom]
          exact Option.some_ne_none page
  · rename_i hsup
    have hsup : ¬ env.Supplied := by
      intro h
      exact hsup (by simpa [Env.Supplied] using h)
    exact ⟨.nothing hs (fun h => hsup h.1) (fun h => absurd h hsup), trivial⟩

theorem params_outcome {env : Env} {arr : Arrival} {s : State} (hs : Mapped env s.args)
    (h : Ready false arr.early s.threads) :
    wp (do let _ ← processBootParams env; finish arr) (Outcome env arr)
      (fun _ _ => ¬ env.Accepted) s := by
  cases hs with
  | nothing ha hmaps hacc =>
      have hboot : s.args.bootArgs = 0 := by rw [ha]; rfl
      refine wp_mono (params_unmapped hboot h) ?_ (fun _ _ hf => hf.elim)
      rintro _ t ⟨ht, hready⟩
      have ht := ht.trans ha
      refine ⟨fun _ => ?_, fun hnot => absurd hacc hnot⟩
      exact ⟨by rw [ht]; rfl, by rw [ht]; rfl, fun h => absurd h hmaps,
        fun _ => by rw [ht]; rfl, hready.resumed.1, hready.resumed.2⟩
  | block page ha hmaps =>
      exact wp_mono (params_held hmaps ha h) (fun _ _ ho => ho) (fun _ _ hf => hf.elim)
  | stale ha hlen hsize hnot =>
      exact params_stale hnot (by rw [ha]) (by rw [ha]; rfl)
        (length_of_size_eq_zero hlen hsize) h

theorem initialise_outcome (env : Env) (arr : Arrival) :
    wp (initialise env arr) (Outcome env arr) (fun _ _ => ¬ env.Accepted) .init := by
  have hstart : Ready false [] State.init.threads :=
    ⟨rfl, fun _ => rfl, fun _ => rfl⟩
  rw [initialise, wp_bind]
  refine wp_mono (arrive_ready arr.beforeInit hstart) ?_ (fun _ _ hf => hf.elim)
  rintro _ s ⟨hs, hargs⟩
  rw [wp_bind]
  refine wp_mono (smInit_mapped env hargs) ?_ (fun _ _ hf => hf.elim)
  rintro _ t ⟨ht, hth⟩
  rw [wp_bind]
  refine wp_mono (arrive_ready arr.beforeParams (hth ▸ hs)) ?_ (fun _ _ hf => hf.elim)
  rintro _ u ⟨hu, hargs'⟩
  exact params_outcome (hargs'.symm ▸ ht) hu

/-- The initialisation ends with no reference left, the block unmapped once and
never read after that, and every thread resumed once, exactly when the pages of
the block do not come to none and `partner_process_boot_params`, if it is
reached, does not fail. -/
theorem initialise_settles_iff (env : Env) (arr : Arrival) :
    (∃ s, initialise env arr .init = .ok ⟨⟩ s ∧ Settled env arr s) ↔ env.Accepted := by
  have hout := initialise_outcome env arr
  constructor
  · rintro ⟨s, hrun, hsettled⟩
    have ⟨_, hbad⟩ := wp_ok hout hrun
    exact Classical.not_not.mp fun hnot => hbad hnot hsettled.refcnt
  · intro hacc
    cases hrun : initialise env arr .init with
    | ok u s => exact ⟨s, rfl, (wp_ok hout hrun).1 hacc⟩
    | error e s => exact absurd hacc (wp_error hout hrun)

/-- A block of zeros, one page long. -/
def zeroBlock (partner : Int) : Env where
  addr := 0x80000000
  length := 4096
  room := some { index := 1, pos := by decide, bound := by decide }
  stale := 0
  bytes := fun _ => 0
  kvaddrToPaddr := fun v => v
  partner := partner

/-- The boot CPU alone. -/
def bootCpu : Arrival where
  beforeInit := [0]
  beforeParams := []
  beforeRelease := []
  afterRelease := []
  bound := by decide

/-- The partner's function fails: a reference is left, the block is still mapped
and the threads have not been resumed. -/
theorem partnerFails_leaks :
    ∃ s, initialise (zeroBlock errGeneric) bootCpu .init = .ok ⟨⟩ s ∧
      s.args.bootArgsRefcnt = 1 ∧ s.args.unmaps = 0 ∧
      s.threads.nsirqthreads 0 = some 0 ∧ ¬ Settled (zeroBlock errGeneric) bootCpu s := by
  refine ⟨_, rfl, rfl, rfl, rfl, ?_⟩
  intro h
  exact absurd h.refcnt (by decide)

end TX2SecureUart.BootArgs
