/-
# `UserSpace.Map` — the mappings of a user thread

The part of `uthread.c` that decides whether a range of user addresses is
mapped.  Addresses and sizes are the kernel's 64-bit words, and every sum
wraps as it does there.
-/
import Mathlib

namespace TX2SecureUart.UserSpace

abbrev Vaddr := UInt64

/-- `uthread_map_t`, as far as lookups read it. -/
structure UthreadMap where
  vaddr : Vaddr
  size : UInt64
deriving DecidableEq

/-- `uthread_t`, as far as lookups read it. -/
structure Uthread where
  mapList : List UthreadMap
deriving DecidableEq

/-- The condition under which the walk of `uthread_map_find` stops at `mp`. -/
def UthreadMap.covers (mp : UthreadMap) (vaddr : Vaddr) (size : UInt64) : Bool :=
  mp.vaddr ≤ vaddr && vaddr < mp.vaddr + mp.size && vaddr + size ≤ mp.vaddr + mp.size

/-- `uthread_map_find` -/
def uthreadMapFind (ut : Uthread) (vaddr : Vaddr) (size : UInt64) : Option UthreadMap :=
  if vaddr + size < vaddr then none
  else ut.mapList.find? (fun mp => mp.covers vaddr size)

/-- `uthread_is_valid_range` -/
def uthreadIsValidRange (ut : Uthread) (vaddr : Vaddr) (size : UInt64) : Bool :=
  (uthreadMapFind ut vaddr size).isSome

/-- The address lies inside the mapping. -/
def UthreadMap.Holds (mp : UthreadMap) (a : Vaddr) : Prop :=
  mp.vaddr ≤ a ∧ a < mp.vaddr + mp.size

/-- The address lies inside some mapping of the thread. -/
def Mapped (ut : Uthread) (a : Vaddr) : Prop := ∃ mp ∈ ut.mapList, mp.Holds a

instance (ut : Uthread) (a : Vaddr) : Decidable (Mapped ut a) := by
  unfold Mapped UthreadMap.Holds; infer_instance

theorem uthreadIsValidRange_iff {ut : Uthread} {vaddr : Vaddr} {size : UInt64} :
    uthreadIsValidRange ut vaddr size = true ↔
      vaddr ≤ vaddr + size ∧ ∃ mp ∈ ut.mapList, mp.Holds vaddr ∧
        vaddr + size ≤ mp.vaddr + mp.size := by
  unfold uthreadIsValidRange uthreadMapFind
  by_cases hw : vaddr + size < vaddr
  · simp [hw, UInt64.not_le.mpr hw]
  · simp [hw, UthreadMap.covers, UthreadMap.Holds, UInt64.not_lt.mp hw]

/-- Every byte of a valid range is mapped. -/
theorem mapped_of_validRange {ut : Uthread} {vaddr : Vaddr} {size : UInt64}
    (h : uthreadIsValidRange ut vaddr size = true) {i : Nat} (hi : i < size.toNat) :
    Mapped ut (vaddr + UInt64.ofNat i) := by
  obtain ⟨hw, mp, hmem, ⟨hlo, -⟩, hhi⟩ := uthreadIsValidRange_iff.mp h
  have hsz : size.toNat < 2 ^ 64 := size.toNat_lt
  have hv : vaddr.toNat < 2 ^ 64 := vaddr.toNat_lt
  have hofi : (UInt64.ofNat i).toNat = i := by simp; omega
  refine ⟨mp, hmem, ?_, ?_⟩
  · rw [UInt64.le_iff_toNat_le] at hw hlo ⊢
    rw [UInt64.toNat_add] at hw ⊢
    omega
  · rw [UInt64.le_iff_toNat_le] at hw hhi
    rw [UInt64.lt_iff_toNat_lt]
    rw [UInt64.toNat_add vaddr size] at hw hhi
    rw [UInt64.toNat_add vaddr]
    omega

end TX2SecureUart.UserSpace
