/-
# `Memlog.Regions` — the buffers that are registered

`memlog.c`: the non-secure side registers buffers for the log with an SMC, takes them back,
and may write into them whenever it likes.  What the secure side writes for one of them has
to stay in it, and out of the others.

The ring is at the start of its buffer, so a store into it is at a distance from `buf_pa`.
`writes` is no part of the program: it records what an operation writes, and for which log.
-/
import TX2SecureUart.Lib.Mask
import TX2SecureUart.Memlog.Ring
import TX2SecureUart.Sm.StdCall

namespace TX2SecureUart.Memlog

open Sm Mask

/-- `struct memlog`, without its callback and list node -/
structure Log where
  rbSz : UInt64
  bufPa : UInt64
  bufSz : UInt64
  /-- No part of the program: the guest that registered it. -/
  guest : UInt32
deriving DecidableEq

/-- Some bytes of a buffer. -/
structure Span where
  off : Nat
  len : Nat

structure Outcome where
  ret : Int
  logs : List Log
  writes : List (Log × Span)

/-- What the functions outside of `memlog.c` answer. -/
structure World where
  malloc : Bool
  /-- `vmm_alloc_physical` -/
  vmmAllocPhysical : Int
  /-- `vmm_free_region`, for the log that it is called for -/
  vmmFreeRegion : Log → Int

/-- `SM_ERR_UNDEFINED_SMC` -/
def smErrUndefinedSmc : Int := 0xFFFFFFFF

/-- `SM_ERR_INVALID_PARAMETERS` -/
def smErrInvalidParameters : Int := -2

/-- `SMC_ENTITY_LOGGING` -/
def smcEntityLogging : UInt32 := 51

/-- `SMC_SC_SHARED_LOG_VERSION` -/
def smcScSharedLogVersion : UInt32 := smcStdcallNr smcEntityLogging 0

/-- `SMC_SC_SHARED_LOG_ADD` -/
def smcScSharedLogAdd : UInt32 := smcStdcallNr smcEntityLogging 1

/-- `SMC_SC_SHARED_LOG_RM` -/
def smcScSharedLogRm : UInt32 := smcStdcallNr smcEntityLogging 2

/-- `TRUSTY_LOG_API_VERSION` -/
def trustyLogApiVersion : Int := 1

/-! ## The list of logs -/

/-- `memlog_get_by_pa` -/
def memlogGetByPa (logs : List Log) (pa : UInt64) : Option Log :=
  logs.find? fun log => log.bufPa = pa

/-- `memlog_is_mem_registered` -/
def memlogIsMemRegistered (pa sz : UInt64) : List Log → Bool
  | [] => false
  | log :: logs =>
      if pa + sz ≤ log.bufPa then memlogIsMemRegistered pa sz logs
      else if log.bufPa + log.bufSz ≤ pa then memlogIsMemRegistered pa sz logs
      else true

/-- `mb`, which is `1 << 20` -/
def mb : UInt64 := 0x100000

-- `trusty_hyp_check_guest_pa_valid`
variable (checkGuestPaValid : UInt64 → UInt64 → UInt32 → Int)

/-- `map_rb` -/
def mapRb (w : World) (pa sz : UInt64) (guest : UInt32) : Int :=
  let offset := pa &&& (mb - 1)
  let err := checkGuestPaValid (roundDown pa mb) (roundUp (sz + offset) mb) guest
  if err ≠ 0 then err else w.vmmAllocPhysical

/-- `memlog_add` -/
def memlogAdd (w : World) (pa sz : UInt64) (guest : UInt32) (logs : List Log) : Outcome :=
  if memlogIsMemRegistered pa sz logs = true then ⟨smErrInvalidParameters, logs, []⟩
  else if w.malloc = false then ⟨smErrInternalFailure, logs, []⟩
  else if mapRb checkGuestPaValid w pa sz guest ≠ 0 then ⟨smErrInternalFailure, logs, []⟩
  else
    let log := { rbSz := rbSize sz, bufPa := pa, bufSz := sz, guest := guest }
    -- `rb->sz`, `rb->alloc` and `rb->put`
    ⟨0, log :: logs, [(log, ⟨8, 4⟩), (log, ⟨0, 4⟩), (log, ⟨4, 4⟩)]⟩

/-- `memlog_rm` -/
def memlogRm (w : World) (pa : UInt64) (logs : List Log) : Outcome :=
  match memlogGetByPa logs pa with
  | none => ⟨smErrInvalidParameters, logs, []⟩
  | some log =>
      let left := logs.eraseP fun log => log.bufPa = pa
      if w.vmmFreeRegion log ≠ 0 then ⟨smErrInternalFailure, left, []⟩ else ⟨0, left, []⟩

/-- The loop of `memlog_rst`, which takes one log off in every round. -/
def memlogRstLoop (w : World) : Nat → List Log → Outcome
  | 0, logs => ⟨0, logs, []⟩
  | _ + 1, [] => ⟨0, [], []⟩
  | n + 1, log :: logs =>
      let out := memlogRm w log.bufPa (log :: logs)
      if out.ret = 0 then memlogRstLoop w n out.logs else out

/-- `memlog_rst` -/
def memlogRst (w : World) (logs : List Log) : Outcome := memlogRstLoop w logs.length logs

/-! ## The SMCs -/

/-- `args_get_pa` -/
def argsGetPa (args : Smc32Args) : UInt64 :=
  (args.params[1].toUInt64 <<< 32) ||| args.params[0].toUInt64

/-- `args_get_sz` -/
def argsGetSz (args : Smc32Args) : UInt64 := args.params[2].toUInt64

/-- `args_get_guest` -/
def argsGetGuest (args : Smc32Args) : UInt32 := args.params[6]

/-- `memlog_stdcall` -/
def memlogStdcall (w : World) (args : Smc32Args) (logs : List Log) : Outcome :=
  if args.smcNr = smcScSharedLogVersion then ⟨trustyLogApiVersion, logs, []⟩
  else if args.smcNr = smcScSharedLogAdd then
    memlogAdd checkGuestPaValid w (argsGetPa args) (argsGetSz args) (argsGetGuest args) logs
  else if args.smcNr = smcScSharedLogRm then memlogRm w (argsGetPa args) logs
  else ⟨smErrUndefinedSmc, logs, []⟩

/-! ## Printing -/

/-- Where a store goes. -/
def Store.span : Store → Span
  | .alloc _ => ⟨0, 4⟩
  | .put _ => ⟨4, 4⟩
  | .byte offset _ => ⟨offsetofData.toNat + offset.toNat, 1⟩

/-- The calls of `__memlog_write`, when the other side may change the ring between them: the
`n`-th of them finds `seen n`. -/
def writeChunksShared (rbSz : UInt64) (seen : Nat → LogRb) : Nat → List (List UInt8) → List Store
  | _, [] => []
  | n, str :: strs => memlogWriteChunk rbSz (seen n) str ++ writeChunksShared rbSz seen (n + 1) strs

/-- `memlog_print_callback` -/
def memlogPrintCallback (log : Log) (seen : Nat → LogRb) (str : List UInt8) : List Store :=
  writeChunksShared log.rbSz seen 0 (chunks str)

/-- A ring that nobody else writes to is one that may be written to. -/
theorem writeChunks_shared (rbSz : UInt64) (rb : LogRb) (strs : List (List UInt8)) (n : Nat) :
    ∃ seen, writeChunks rbSz rb strs = writeChunksShared rbSz seen n strs := by
  induction strs generalizing rb n with
  | nil => exact ⟨fun _ => rb, rfl⟩
  | cons str strs ih =>
    obtain ⟨seen, hseen⟩ := ih (rb.after (memlogWriteChunk rbSz rb str)) (n + 1)
    have hlater : ∀ m, n < m → writeChunksShared rbSz (Function.update seen n rb) m strs =
        writeChunksShared rbSz seen m strs := by
      clear hseen ih
      induction strs with
      | nil => intros; rfl
      | cons s strs ih =>
        intro m hm
        rw [writeChunksShared, writeChunksShared, ih (m + 1) (Nat.lt_succ_of_lt hm),
          Function.update_of_ne (Nat.ne_of_gt hm)]
    refine ⟨Function.update seen n rb, ?_⟩
    rw [writeChunks, writeChunksShared, hlater (n + 1) (Nat.lt_succ_self n), ← hseen,
      Function.update_self]

/-! ## Runs -/

inductive Action where
  | stdcall (w : World) (args : Smc32Args)
  | rst (w : World)
  /-- A registered callback is called. -/
  | print (log : Log) (seen : Nat → LogRb) (str : List UInt8)

def Action.run (logs : List Log) : Action → Outcome
  | .stdcall w args => memlogStdcall checkGuestPaValid w args logs
  | .rst w => memlogRst w logs
  | .print log seen str => ⟨0, logs, (memlogPrintCallback log seen str).map fun st => (log, st.span)⟩

def Action.Enabled (logs : List Log) : Action → Prop
  | .print log _ _ => log ∈ logs
  | _ => True

/-- A registration leaves room for data behind the header, and its end is an address. -/
def Action.Fits : Action → Prop
  | .stdcall _ args => args.smcNr = smcScSharedLogAdd →
      offsetofData < argsGetSz args ∧ (argsGetPa args).toNat + (argsGetSz args).toNat < 2 ^ 64
  | _ => True

inductive Reachable : List Log → Prop
  | init : Reachable []
  | step {logs : List Log} {a : Action} (h : Reachable logs) (hen : a.Enabled logs) (hfit : a.Fits) :
      Reachable (a.run checkGuestPaValid logs).logs

/-- A byte of physical memory is in the buffer. -/
def Log.Has (log : Log) (b : Nat) : Prop :=
  log.bufPa.toNat ≤ b ∧ b < log.bufPa.toNat + log.bufSz.toNat

/-- The bytes of a span, in physical memory. -/
def Log.Writes (log : Log) (sp : Span) (b : Nat) : Prop :=
  log.bufPa.toNat + sp.off ≤ b ∧ b < log.bufPa.toNat + sp.off + sp.len

/-! ## The invariant -/

/-- Two buffers have no byte in common. -/
def Log.Apart (x y : Log) : Prop :=
  x.bufPa.toNat + x.bufSz.toNat ≤ y.bufPa.toNat ∨ y.bufPa.toNat + y.bufSz.toNat ≤ x.bufPa.toNat

/-- A log as `memlog_add` leaves it, when the registration fits. -/
structure Log.Made (log : Log) : Prop where
  ring : log.rbSz = rbSize log.bufSz
  room : offsetofData.toNat < log.bufSz.toNat
  small : log.bufSz.toNat < 2 ^ 32
  fits : log.bufPa.toNat + log.bufSz.toNat < 2 ^ 64
  valid : checkGuestPaValid (roundDown log.bufPa mb)
    (roundUp (log.bufSz + (log.bufPa &&& (mb - 1))) mb) log.guest = 0

structure Registered (logs : List Log) : Prop where
  made : ∀ log ∈ logs, log.Made checkGuestPaValid
  apart : logs.Pairwise Log.Apart

variable {checkGuestPaValid} {logs : List Log}

theorem Registered.sublist (h : Registered checkGuestPaValid logs) {left : List Log}
    (hsub : left.Sublist logs) : Registered checkGuestPaValid left where
  made := fun log hlog => h.made log (hsub.subset hlog)
  apart := h.apart.sublist hsub

theorem memlogIsMemRegistered_apart (hmade : ∀ log ∈ logs, log.Made checkGuestPaValid) {pa sz : UInt64}
    (hfit : pa.toNat + sz.toNat < 2 ^ 64) (h : memlogIsMemRegistered pa sz logs ≠ true) :
    ∀ log ∈ logs, pa.toNat + sz.toNat ≤ log.bufPa.toNat ∨
      log.bufPa.toNat + log.bufSz.toNat ≤ pa.toNat := by
  induction logs with
  | nil => exact fun log hlog => absurd hlog List.not_mem_nil
  | cons log logs ih =>
    have hend : (pa + sz).toNat = pa.toNat + sz.toNat := by
      rw [UInt64.toNat_add, Nat.mod_eq_of_lt hfit]
    have hlogEnd : (log.bufPa + log.bufSz).toNat = log.bufPa.toNat + log.bufSz.toNat := by
      rw [UInt64.toNat_add, Nat.mod_eq_of_lt (hmade log List.mem_cons_self).fits]
    have hrest := ih fun x hx => hmade x (List.mem_cons_of_mem log hx)
    rw [memlogIsMemRegistered] at h
    intro x hx
    split at h
    · next hbelow =>
      rcases List.mem_cons.mp hx with rfl | hx
      · exact .inl (hend ▸ UInt64.le_iff_toNat_le.mp hbelow)
      · exact hrest h x hx
    · split at h
      · next habove =>
        rcases List.mem_cons.mp hx with rfl | hx
        · exact .inr (hlogEnd ▸ UInt64.le_iff_toNat_le.mp habove)
        · exact hrest h x hx
      · exact absurd rfl h

/-- What `memlog_add` does to the list, and what it writes. -/
theorem memlogAdd_cases (w : World) (pa sz : UInt64) (guest : UInt32) (logs : List Log) :
    (memlogAdd checkGuestPaValid w pa sz guest logs).logs = logs ∧
        (memlogAdd checkGuestPaValid w pa sz guest logs).writes = [] ∨
      memlogIsMemRegistered pa sz logs ≠ true ∧
        checkGuestPaValid (roundDown pa mb) (roundUp (sz + (pa &&& (mb - 1))) mb) guest = 0 ∧
        ∃ log, log = ⟨rbSize sz, pa, sz, guest⟩ ∧
          memlogAdd checkGuestPaValid w pa sz guest logs =
            ⟨0, log :: logs, [(log, ⟨8, 4⟩), (log, ⟨0, 4⟩), (log, ⟨4, 4⟩)]⟩ := by
  rw [memlogAdd]
  split
  · exact .inl ⟨rfl, rfl⟩
  · next hfree =>
    split
    · exact .inl ⟨rfl, rfl⟩
    · split
      · exact .inl ⟨rfl, rfl⟩
      · next hmap =>
        refine .inr ⟨hfree, ?_, _, rfl, rfl⟩
        by_contra hbad
        exact hmap (by rw [mapRb, if_pos hbad]; exact hbad)

theorem memlogRm_sublist (w : World) (pa : UInt64) (logs : List Log) :
    (memlogRm w pa logs).logs.Sublist logs ∧ (memlogRm w pa logs).writes = [] := by
  rw [memlogRm]
  split
  · exact ⟨List.Sublist.refl logs, rfl⟩
  · split
    · exact ⟨List.eraseP_sublist, rfl⟩
    · exact ⟨List.eraseP_sublist, rfl⟩

theorem memlogRst_sublist (w : World) (n : Nat) (logs : List Log) :
    (memlogRstLoop w n logs).logs.Sublist logs ∧ (memlogRstLoop w n logs).writes = [] := by
  induction n generalizing logs with
  | zero => exact ⟨List.Sublist.refl logs, rfl⟩
  | succ n ih =>
    cases logs with
    | nil => exact ⟨List.Sublist.refl [], rfl⟩
    | cons log logs =>
      have hrm := memlogRm_sublist w log.bufPa (log :: logs)
      show (ite _ _ _ : Outcome).logs.Sublist _ ∧ (ite _ _ _ : Outcome).writes = []
      split
      · obtain ⟨hsub, hwrites⟩ := ih (memlogRm w log.bufPa (log :: logs)).logs
        exact ⟨hsub.trans hrm.1, hwrites⟩
      · exact hrm

theorem argsGetSz_lt (args : Smc32Args) : (argsGetSz args).toNat < 2 ^ 32 := by
  rw [argsGetSz, UInt32.toNat_toUInt64]
  exact UInt32.toNat_lt _

/-- A registration that fits makes a log that is apart from the others. -/
theorem memlogAdd_registered (h : Registered checkGuestPaValid logs) (w : World) {pa sz : UInt64}
    (guest : UInt32) (hroom : offsetofData < sz) (hsmall : sz.toNat < 2 ^ 32)
    (hfit : pa.toNat + sz.toNat < 2 ^ 64) :
    Registered checkGuestPaValid (memlogAdd checkGuestPaValid w pa sz guest logs).logs := by
  rcases memlogAdd_cases w pa sz guest logs with ⟨hlogs, -⟩ | ⟨hfree, hvalid, log, rfl, hadd⟩
  · rw [hlogs]
    exact h
  · rw [hadd]
    constructor
    · intro x hx
      rcases List.mem_cons.mp hx with rfl | hx
      · exact ⟨rfl, UInt64.lt_iff_toNat_lt.mp hroom, hsmall, hfit, hvalid⟩
      · exact h.made x hx
    · exact List.pairwise_cons.mpr ⟨memlogIsMemRegistered_apart h.made hfit hfree, h.apart⟩

/-- Every action keeps the buffers apart. -/
theorem Registered.run (h : Registered checkGuestPaValid logs) (a : Action) (hfit : a.Fits) :
    Registered checkGuestPaValid (a.run checkGuestPaValid logs).logs := by
  cases a with
  | print log seen str => exact h
  | rst w => exact h.sublist (memlogRst_sublist w logs.length logs).1
  | stdcall w args =>
    show Registered checkGuestPaValid (memlogStdcall checkGuestPaValid w args logs).logs
    rw [memlogStdcall]
    split
    · exact h
    · split
      · next hadd =>
        obtain ⟨hroom, hend⟩ := hfit hadd
        exact memlogAdd_registered h w (argsGetGuest args) hroom (argsGetSz_lt args) hend
      · split
        · exact h.sublist (memlogRm_sublist w (argsGetPa args) logs).1
        · exact h

theorem Reachable.registered (h : Reachable checkGuestPaValid logs) :
    Registered checkGuestPaValid logs := by
  induction h with
  | init => exact ⟨fun log hlog => absurd hlog List.not_mem_nil, List.Pairwise.nil⟩
  | step h hen hfit ih => exact ih.run _ hfit

/-! ## Where the stores go -/

theorem lowerPow2_le {v : UInt32} (hv : v ≠ 0) : (lowerPow2 v).toNat ≤ v.toNat := by
  rw [lowerPow2_toNat hv]
  exact Nat.log2_self_le fun h => hv (UInt32.toNat_inj.mp h)

/-- The ring ends where the buffer ends, or before. -/
theorem Log.Made.rbSz_le {log : Log} (h : log.Made checkGuestPaValid) :
    (∃ k ≤ 32, log.rbSz.toNat = 2 ^ k) ∧ offsetofData.toNat + log.rbSz.toNat ≤ log.bufSz.toNat := by
  have hsub : (log.bufSz - offsetofData).toNat = log.bufSz.toNat - offsetofData.toNat :=
    UInt64.toNat_sub_of_le _ _ (UInt64.le_iff_toNat_le.mpr (Nat.le_of_lt h.room))
  have hlow : (log.bufSz - offsetofData).toUInt32.toNat = log.bufSz.toNat - offsetofData.toNat := by
    rw [UInt64.toNat_toUInt32, hsub]
    exact Nat.mod_eq_of_lt (Nat.lt_of_le_of_lt (Nat.sub_le _ _) h.small)
  have hne : (log.bufSz - offsetofData).toUInt32 ≠ 0 := by
    intro hz
    rw [hz] at hlow
    exact absurd hlow.symm (Nat.sub_ne_zero_of_lt h.room)
  rw [h.ring]
  refine ⟨rbSize_eq hne, ?_⟩
  have hle := lowerPow2_le hne
  rw [hlow] at hle
  rw [rbSize, UInt32.toNat_toUInt64]
  have := h.room
  omega

/-- Whatever the counter, a byte goes into the ring. -/
theorem offsetOf_lt {rbSz : UInt64} {k : Nat} (hk : k ≤ 32) (hsz : rbSz.toNat = 2 ^ k) (logOffset : UInt32)
    (i : Nat) : (offsetOf rbSz logOffset i).toNat < rbSz.toNat := by
  have h := offsetOf_toNat rbSz hk hsz logOffset.toNat i
  rw [UInt32.ofNat_toNat] at h
  rw [h]
  exact Nat.mod_lt _ (hsz ▸ Nat.two_pow_pos k)

/-- A span that is in a buffer of the given size. -/
def Span.In (sp : Span) (size : Nat) : Prop := sp.off + sp.len ≤ size

theorem byteStores_in {rbSz : UInt64} {k size : Nat} (hk : k ≤ 32) (hsz : rbSz.toNat = 2 ^ k)
    (hsize : offsetofData.toNat + rbSz.toNat ≤ size) (logOffset : UInt32) (i : Nat) (str : List UInt8) :
    ∀ st ∈ byteStores rbSz logOffset i str, st.span.In size := by
  induction str generalizing i with
  | nil => exact fun st hst => absurd hst List.not_mem_nil
  | cons ch str ih =>
    intro st hst
    rcases List.mem_cons.mp hst with rfl | hst
    · exact Nat.le_trans (Nat.add_le_add_left (offsetOf_lt hk hsz logOffset i) _) hsize
    · exact ih (i + 1) st hst

theorem memlogPrintCallback_in {log : Log} (h : log.Made checkGuestPaValid) (seen : Nat → LogRb)
    (str : List UInt8) : ∀ st ∈ memlogPrintCallback log seen str, st.span.In log.bufSz.toNat := by
  obtain ⟨⟨k, hk, hsz⟩, hsize⟩ := h.rbSz_le
  have hheader : ∀ sp : Span, sp.off + sp.len ≤ 12 → sp.In log.bufSz.toNat :=
    fun sp hsp => Nat.le_trans hsp (Nat.le_of_lt h.room)
  have hchunks : ∀ strs n, ∀ st ∈ writeChunksShared log.rbSz seen n strs, st.span.In log.bufSz.toNat := by
    intro strs
    induction strs with
    | nil => exact fun n st hst => absurd hst List.not_mem_nil
    | cons str strs ih =>
      intro n st hst
      rcases List.mem_append.mp hst with hst | hst
      · rcases List.mem_cons.mp hst with rfl | hst
        · exact hheader ⟨0, 4⟩ (by decide)
        · rcases List.mem_append.mp hst with hst | hst
          · exact byteStores_in hk hsz hsize _ 0 str st hst
          · obtain rfl := List.mem_singleton.mp hst
            exact hheader ⟨4, 4⟩ (by decide)
      · exact ih (n + 1) st hst
  exact hchunks (chunks str) 0

/-- The pages that are mapped hold the buffer. -/
theorem mapped_covers {pa sz : UInt64} (hsmall : sz.toNat < 2 ^ 32) {b : Nat} (hlo : pa.toNat ≤ b)
    (hhi : b < pa.toNat + sz.toNat) : (roundDown pa mb).toNat ≤ b ∧
      b < (roundDown pa mb).toNat + (roundUp (sz + (pa &&& (mb - 1))) mb).toNat := by
  have hmb : (mb - 1).toNat = 2 ^ 20 - 1 := by decide
  have hoff : (pa &&& (mb - 1)).toNat = pa.toNat % 2 ^ 20 := by
    rw [UInt64.toNat_and, hmb, Nat.and_two_pow_sub_one_eq_mod]
  have hlt : pa.toNat % 2 ^ 20 < 2 ^ 20 := Nat.mod_lt _ (by decide)
  have hsum : (sz + (pa &&& (mb - 1))).toNat = sz.toNat + pa.toNat % 2 ^ 20 := by
    rw [UInt64.toNat_add, hoff]
    omega
  rw [roundDown_toNat hmb, roundUp_toNat hmb, hsum]
  omega

/-- What an action writes, it writes to a log that is registered afterwards. -/
theorem run_writes_in {a : Action} (hreg : Registered checkGuestPaValid (a.run checkGuestPaValid logs).logs)
    (hen : a.Enabled logs) {log : Log} {sp : Span}
    (hw : (log, sp) ∈ (a.run checkGuestPaValid logs).writes) :
    log ∈ (a.run checkGuestPaValid logs).logs ∧ sp.In log.bufSz.toNat := by
  cases a with
  | print x seen str =>
    obtain ⟨st, hst, heq⟩ := List.mem_map.mp hw
    obtain ⟨rfl, rfl⟩ := Prod.mk.inj heq
    exact ⟨hen, memlogPrintCallback_in (hreg.made x hen) seen str st hst⟩
  | rst w =>
    rw [Action.run, memlogRst, (memlogRst_sublist w logs.length logs).2] at hw
    exact absurd hw List.not_mem_nil
  | stdcall w args =>
    rw [Action.run, memlogStdcall] at hw hreg ⊢
    split at hw
    · exact absurd hw List.not_mem_nil
    · next hver =>
      split at hw
      · next hnr =>
        rw [if_neg hver, if_pos hnr] at hreg ⊢
        rcases memlogAdd_cases w (argsGetPa args) (argsGetSz args) (argsGetGuest args) logs with
          ⟨-, hwrites⟩ | ⟨-, -, x, -, hadd⟩
        · rw [hwrites] at hw
          exact absurd hw List.not_mem_nil
        · rw [hadd] at hw hreg ⊢
          have hroom := (hreg.made x List.mem_cons_self).room
          have hin : ∀ off, off ≤ 8 → (⟨off, 4⟩ : Span).In x.bufSz.toNat :=
            fun off hoff => Nat.le_trans (Nat.add_le_add_right hoff 4) (Nat.le_of_lt hroom)
          simp only [List.mem_cons, Prod.mk.injEq, List.not_mem_nil, or_false] at hw
          rcases hw with ⟨rfl, rfl⟩ | ⟨rfl, rfl⟩ | ⟨rfl, rfl⟩
          · exact ⟨List.mem_cons_self, hin 8 (Nat.le_refl 8)⟩
          · exact ⟨List.mem_cons_self, hin 0 (Nat.zero_le 8)⟩
          · exact ⟨List.mem_cons_self, hin 4 (by decide)⟩
      · split at hw
        · rw [(memlogRm_sublist w (argsGetPa args) logs).2] at hw
          exact absurd hw List.not_mem_nil
        · exact absurd hw List.not_mem_nil

/-- What is written for a log is in its buffer. -/
theorem Registered.has_of_writes {a : Action} (hreg : Registered checkGuestPaValid (a.run checkGuestPaValid logs).logs)
    (hen : a.Enabled logs) {log : Log} {sp : Span} (hw : (log, sp) ∈ (a.run checkGuestPaValid logs).writes) {b : Nat}
    (hb : log.Writes sp b) : log.Has b := by
  have hin := (run_writes_in hreg hen hw).2
  refine ⟨Nat.le_trans (Nat.le_add_right _ _) hb.1, Nat.lt_of_lt_of_le hb.2 ?_⟩
  rw [Nat.add_assoc]
  exact Nat.add_le_add_left hin _

/-- The registered buffers have no byte in common, and all that is written is in them. -/
theorem buffers_hold_writes (h : Reachable checkGuestPaValid logs) :
    logs.Pairwise Log.Apart ∧
      ∀ a : Action, a.Enabled logs → a.Fits → ∀ log sp, (log, sp) ∈ (a.run checkGuestPaValid logs).writes →
        ∀ b, log.Writes sp b → log.Has b :=
  ⟨h.registered.apart, fun a hen hfit _ _ hw _ hb => (h.registered.run a hfit).has_of_writes hen hw hb⟩

instance : Std.Symm Log.Apart := ⟨fun _ _ => Or.symm⟩

/-- Whatever is registered and taken back, and whatever the other side does to the rings: a
registered log is only written inside of its buffer, so it is memory of the guest that gave
it, and no other registered buffer is touched. -/
theorem run_writes_inside (owns : UInt32 → Nat → Prop)
    (hcheck : ∀ pa sz guest, checkGuestPaValid pa sz guest = 0 →
      ∀ b, pa.toNat ≤ b → b < pa.toNat + sz.toNat → owns guest b)
    (h : Reachable checkGuestPaValid logs) (a : Action) (hen : a.Enabled logs) (hfit : a.Fits)
    {log : Log} {sp : Span} (hw : (log, sp) ∈ (a.run checkGuestPaValid logs).writes)
    {b : Nat} (hb : log.Writes sp b) :
    log.Has b ∧ owns log.guest b ∧
      ∀ other ∈ (a.run checkGuestPaValid logs).logs, other ≠ log → ¬ other.Has b := by
  have hreg := h.registered.run a hfit
  have hmem := (run_writes_in hreg hen hw).1
  have hmade := hreg.made log hmem
  have hhas : log.Has b := hreg.has_of_writes hen hw hb
  obtain ⟨hlo, hhi⟩ := mapped_covers hmade.small hhas.1 hhas.2
  refine ⟨hhas, hcheck _ _ _ hmade.valid b hlo hhi, ?_⟩
  rintro other hother hne ⟨holo, hohi⟩
  rcases hreg.apart.forall hother hmem hne with happ | happ
  · exact absurd hohi (Nat.not_lt.mpr (Nat.le_trans happ hhas.1))
  · exact absurd hhas.2 (Nat.not_lt.mpr (Nat.le_trans happ holo))

/-- A guest that has the memory of the first buffer. -/
def checkFirst (pa sz : UInt64) (guest : UInt32) : Int :=
  if guest = 1 ∧ pa = 0x80000000 ∧ sz = 0x100000 then 0 else -1

def registerFirst : Action :=
  .stdcall ⟨true, 0, fun _ => 0⟩ ⟨smcScSharedLogAdd, #v[0x80000000, 0, 4096, 0, 0, 0, 1]⟩

def firstLog : Log := ⟨2048, 0x80000000, 4096, 1⟩

theorem firstLog_registered : (registerFirst.run checkFirst []).logs = [firstLog] := by decide

theorem firstLog_reachable : Reachable checkFirst [firstLog] := by
  rw [← firstLog_registered]
  exact Reachable.init.step trivial fun _ => by decide

/-- A print into the first buffer, by a counter that says that the next byte is the last of the ring -/
def printLast : Action := .print firstLog (fun _ => ⟨2047, 0, fun _ => 0⟩) [97]

theorem printLast_writes : (firstLog, (Store.byte 2047 97).span) ∈ (printLast.run checkFirst [firstLog]).writes := by
  have hstore : Store.byte 2047 97 ∈ memlogPrintCallback firstLog (fun _ => ⟨2047, 0, fun _ => 0⟩) [97] :=
    List.mem_cons_of_mem _ List.mem_cons_self
  exact List.mem_map.mpr ⟨_, hstore, rfl⟩

theorem buffers_hold_writes_firstLog : firstLog.Has 0x8000080B :=
  (buffers_hold_writes firstLog_reachable).2 printLast List.mem_cons_self trivial _ _ printLast_writes _
    ⟨by decide, by decide⟩

/-- A buffer that is smaller than the header of the ring -/
def registerShort : Action :=
  .stdcall ⟨true, 0, fun _ => 0⟩ ⟨smcScSharedLogAdd, #v[0x80000000, 0, 4, 0, 0, 0, 1]⟩

def shortLog : Log := ⟨rbSize 4, 0x80000000, 4, 1⟩

theorem registerShort_writes :
    (registerShort.run checkFirst []).writes = [(shortLog, ⟨8, 4⟩), (shortLog, ⟨0, 4⟩), (shortLog, ⟨4, 4⟩)] := by
  rfl

theorem shortLog_overrun :
    ¬∀ check (a : Action), a.Enabled [] → ∀ log sp, (log, sp) ∈ (a.run check []).writes →
      ∀ b, log.Writes sp b → log.Has b := by
  intro hall
  have hmem : (shortLog, ⟨8, 4⟩) ∈ (registerShort.run checkFirst []).writes := by
    rw [registerShort_writes]
    exact List.mem_cons_self
  have hhas := hall checkFirst registerShort trivial shortLog ⟨8, 4⟩ hmem 0x80000008 ⟨by decide, by decide⟩
  exact absurd hhas.2 (by decide)

theorem firstLog_inside :
    firstLog.Has 0x8000080B ∧ (1 : UInt32) = 1 ∧
      ∀ other ∈ [firstLog], other ≠ firstLog → ¬ other.Has 0x8000080B := by
  refine run_writes_inside (fun guest _ => guest = 1) ?_ firstLog_reachable printLast List.mem_cons_self trivial
    printLast_writes ⟨by decide, by decide⟩
  intro pa sz guest hvalid b _ _
  by_contra hne
  rw [checkFirst, if_neg fun h => hne h.1] at hvalid
  exact absurd hvalid (by decide)

end TX2SecureUart.Memlog
