/-
# `Storage.Err` — `tegrabl_error_t`

An error has a reason, a number that the place of the error chose, the module it
comes from and the highest module that passed it on.  `TEGRABL_NO_ERROR` is a
plain return.
-/
import TX2SecureUart.Lib.Prog

namespace TX2SecureUart.Storage

open Prog

inductive ErrModule where
  /-- That of a bare reason, without `TEGRABL_ERROR`. -/
  | noModule
  | partitionManager
  | blockDev
  | gpt
  | nvblob
  | linuxboot
  | rollbackPrevention
  | fuse
  | bootloaderUpdate
  | abBootctrl
  | fastboot
  | auth
  | nct
deriving DecidableEq

inductive ErrReason where
  | notSupported
  | invalid
  | invalidVersion
  | noMemory
  | overflow
  | underflow
  | outOfRange
  | notFound
  | badParameter
  | verifyFailed
  | alreadyExists
  | tooLarge
  | notInitialized
  | badAddress
deriving DecidableEq

/-- `tegrabl_error_t`, `TEGRABL_NO_ERROR` apart. -/
structure TegrablErr where
  highest : ErrModule
  lowest : ErrModule
  aux : Nat
  reason : ErrReason
deriving DecidableEq

/-- `TEGRABL_ERROR` in a file whose `MODULE` is `m`. -/
def tegrablError (m : ErrModule) (reason : ErrReason) (aux : Nat) : TegrablErr :=
  ⟨m, m, aux, reason⟩

/-- `TEGRABL_SET_HIGHEST_MODULE` -/
def TegrablErr.setHighestModule (m : ErrModule) (e : TegrablErr) : TegrablErr :=
  { e with highest := m }

/-- Errors of a call are passed on under the name of this module. -/
def setHighestModule {σ α : Type} (m : ErrModule) (call : EStateM TegrablErr σ α) :
    EStateM TegrablErr σ α := fun s =>
  match call s with
  | .ok a t => .ok a t
  | .error e t => .error (e.setHighestModule m) t

theorem setHighestModule_ok {σ α : Type} {m : ErrModule} {call : EStateM TegrablErr σ α} {s t : σ}
    {a : α} (h : call s = .ok a t) : setHighestModule m call s = .ok a t := by
  rw [setHighestModule, h]

theorem setHighestModule_error {σ α : Type} {m : ErrModule} {call : EStateM TegrablErr σ α}
    {s t : σ} {e : TegrablErr} (h : call s = .error e t) :
    setHighestModule m call s = .error (e.setHighestModule m) t := by
  rw [setHighestModule, h]

/-! ## Errors and undefined behaviour -/

inductive Fault where
  | err (e : TegrablErr)
  /-- The shift `1U << k` for `k` of 32 or more. -/
  | undefined

/-- A call whose errors go on under the name of this module:
`TEGRABL_SET_HIGHEST_MODULE`. -/
def underModule {σ α : Type} (m : ErrModule) (call : EStateM Fault σ α) : EStateM Fault σ α := fun s =>
  match call s with
  | .error (.err e) t => .error (.err (e.setHighestModule m)) t
  | r => r

/-- Naming the module keeps an error an error. -/
theorem wp_underModule {σ α : Type} {m : ErrModule} {call : EStateM Fault σ α} {Q : α → σ → Prop}
    {E : Fault → σ → Prop} {s : σ} (h : wp call Q E s)
    (hE : ∀ e t, E (.err e) t → E (.err (e.setHighestModule m)) t) : wp (underModule m call) Q E s := by
  unfold wp at h ⊢
  rw [underModule]
  cases hc : call s with
  | ok a t =>
      rw [hc] at h
      exact h
  | error f t =>
      rw [hc] at h
      cases f with
      | err e => exact hE e t h
      | undefined => exact h

end TX2SecureUart.Storage
