/-
# `Ql.Inv` — the table, the list and the cookies of the device agree

A slot in use has a channel, the channel is in the handle list and its cookie
leads back to the slot, and the list has no other channels.  The table and the
list have a reference each, which the ledger of the IPC layer counts among
those held outside.
-/
import TX2SecureUart.Ql.Wait
import TX2SecureUart.Ipc.Ledger

namespace TX2SecureUart.Ql

open Prog Ipc

/-- `refs` counts the references outside the registry, those of the device
among them. -/
structure DevInv (refs : HandlePtr → Nat) (s : QlState) : Prop where
  booked : Booked ⟨s.reg, refs⟩
  slots : ∀ slot, s.dev.inuse slot = (s.dev.epts slot).chan.isSome
  bound : ∀ {slot}, s.dev.inuse slot = true → slot < qlTipcAddrMaxNum
  linked : ∀ {slot c}, (s.dev.epts slot).chan = some c →
    c ∈ s.dev.handleList ∧ s.cookie c = some slot
  listed : ∀ {c}, c ∈ s.dev.handleList → ∃ slot, (s.dev.epts slot).chan = some c
  nodup : s.dev.handleList.Nodup
  held : ∀ {c}, c ∈ s.dev.handleList → 2 ≤ refs (.chan c)
  idle : Idle s

section

variable {refs : HandlePtr → Nat} {s : QlState} {c : ChanId} {slot : Nat} {addr : UInt32}

/-! ## Consequences -/

theorem DevInv.chan (h : DevInv refs s) (hc : c ∈ s.dev.handleList) :
    ∃ C, s.reg.chans c = some C ∧ 2 ≤ C.handle.refcnt := by
  have hheld := h.held hc
  have hpos : 0 < (⟨s.reg, refs⟩ : Ledger).refs (.chan c) := Nat.lt_of_lt_of_le Nat.two_pos hheld
  obtain ⟨C, hC, -⟩ := h.booked.held hpos
  refine ⟨C, hC, ?_⟩
  have hcount : C.handle.refcnt = refs (.chan c) := h.booked.chan_refcnt hC
  omega

theorem DevInv.live (h : DevInv refs s) : Live s s.dev.handleList := by
  intro c hc
  obtain ⟨C, hC, -⟩ := h.chan hc
  exact ⟨C, hC⟩

/-- What is behind an address is the channel of a slot in use. -/
theorem target_eq_some (htarget : s.dev.target addr = some (slot, c)) :
    slot < qlTipcAddrMaxNum ∧ slotToAddr slot = addr ∧ s.dev.inuse slot = true ∧
      (s.dev.epts slot).chan = some c := by
  simp only [QlTipcDev.target, QlTipcDev.eptLookup, Option.bind_eq_some_iff,
    Option.map_eq_some_iff] at htarget
  obtain ⟨found, hfound, c', hc', heq⟩ := htarget
  cases heq
  split at hfound
  · rename_i hin
    cases hfound
    refine ⟨hin.1, ?_, hin.2, hc'⟩
    simp [slotToAddr, addrToSlot]
  · cases hfound

end

end TX2SecureUart.Ql
