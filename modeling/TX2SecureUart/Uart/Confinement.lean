/-
# `Uart.Confinement` — which memory the two system calls touch

`sys_std_write` checks its range with `uthread_is_valid_range` before it
touches it.  `Confined` says what that check would give a system call: every
byte touched is mapped, an invalid range is refused with no effect, and memory
the caller cannot see has no influence.  `sys_send_to_uart` and
`sys_receive_from_uart` make no check, so they are confined exactly when the
range happens to be valid, or (receiving) when no byte arrives to be stored.
-/
import TX2SecureUart.Uart.Syscall

namespace TX2SecureUart.Uart

open Prog UserSpace

/-- Nothing was read from, written to or exchanged with the outside. -/
structure NoEffect (k k' : Kernel) : Prop where
  accesses : k'.accesses = k.accesses
  mem : k'.mem = k.mem
  thr : k'.port.thr = k.port.thr
  mailboxTx : k'.port.mailboxTx = k.port.mailboxTx
  rhr : k'.port.rhr = k.port.rhr

/-- The system call `sys`, whose range is valid if `valid` says so, keeps to
the mappings of `ut` when it is run on this port and this memory. -/
structure Confined (ut : Uthread) (valid : Bool) (sys : KernelM Int) (port : SecurePort)
    (mem : Vaddr → UInt8) : Prop where
  /-- only mapped bytes are touched -/
  inside : ∀ a ∈ (stateOf (sys ⟨port, mem, []⟩)).accesses, Mapped ut a.addr
  /-- an invalid range is refused with an error and without any effect -/
  refused : valid = false →
    NoEffect ⟨port, mem, []⟩ (stateOf (sys ⟨port, mem, []⟩)) ∧
      ∀ r k', sys ⟨port, mem, []⟩ = .ok r k' → r < 0
  /-- unmapped memory influences neither the port nor the result -/
  blind : ∀ mem' : Vaddr → UInt8, (∀ a, Mapped ut a → mem' a = mem a) →
    portOf (sys ⟨port, mem', []⟩) = portOf (sys ⟨port, mem, []⟩)

/-! ## Sending -/

/-- The reads of `n` passes of the send loop, from index `i` on. -/
def readsAt (message : Vaddr) : Nat → UInt32 → List Access
  | 0, _ => []
  | n + 1, i => Access.read (message + i.toUInt64) :: readsAt message n (i + 1)

theorem mem_readsAt {message : Vaddr} {a : Access} :
    ∀ {n : Nat} {i : UInt32}, a ∈ readsAt message n i →
      ∃ t < n, a = .read (message + (i + UInt32.ofNat t).toUInt64)
  | 0, _, h => absurd h List.not_mem_nil
  | n + 1, i, h => by
      rcases List.mem_cons.mp h with rfl | h
      · exact ⟨0, Nat.succ_pos n, by simp⟩
      · obtain ⟨t, ht, rfl⟩ := mem_readsAt h
        refine ⟨t + 1, Nat.succ_lt_succ ht, ?_⟩
        rw [UInt32.ofNat_add, UInt32.add_assoc, UInt32.add_comm 1]
        rfl

/-- The send loop reads the bytes of the message in order, and as far as it
gets: at least the first one, if there is one. -/
theorem sendFrom_reads (message : Vaddr) :
    ∀ (n : Nat) (i : UInt32) (k : Kernel),
      (stateOf (sendFrom message n i k)).mem = k.mem ∧
        ∃ j ≤ n, (0 < n → 0 < j) ∧
          (stateOf (sendFrom message n i k)).accesses = k.accesses ++ readsAt message j i
  | 0, _, _ => ⟨rfl, 0, Nat.le_refl _, id, (List.append_nil _).symm⟩
  | n + 1, i, k => by
      rw [sendFrom_succ]
      cases securePlatformDputc (k.mem (message + i.toUInt64)) k.port with
      | error e p => exact ⟨rfl, 1, by omega, fun _ => Nat.one_pos, rfl⟩
      | ok u p =>
          obtain ⟨hmem, j, hj, -, hacc⟩ := sendFrom_reads message n (i + 1)
            { k with port := p, accesses := k.accesses ++ [Access.read (message + i.toUInt64)] }
          refine ⟨hmem, j + 1, Nat.succ_le_succ hj, fun _ => Nat.succ_pos j, hacc.trans ?_⟩
          rw [List.append_assoc]; rfl

theorem stateOf_sysSendToUart (uartPort : UInt32) (message : Vaddr) (msgSize : UInt32)
    (k : Kernel) :
    stateOf (sysSendToUart uartPort message msgSize k) =
      stateOf (sendFrom message msgSize.toNat 0 k) := by
  simp only [sysSendToUart, run_bind, run_pure]
  cases sendFrom message msgSize.toNat 0 k <;> rfl

theorem sysSendToUart_ret {uartPort msgSize : UInt32} {message : Vaddr} {k k' : Kernel}
    {r : Int} (h : sysSendToUart uartPort message msgSize k = .ok r k') : r = 0 := by
  simp only [sysSendToUart, run_bind, run_pure] at h
  cases hs : sendFrom message msgSize.toNat 0 k with
  | ok u t => rw [hs] at h; cases h; rfl
  | error e t => rw [hs] at h; cases h

theorem index_toUInt64 {t : Nat} {size : UInt32} (ht : t < size.toNat) :
    ((0 : UInt32) + UInt32.ofNat t).toUInt64 = UInt64.ofNat t := by
  have hs := size.toNat_lt
  apply UInt64.toNat_inj.mp
  simp
  omega

theorem mapped_message {ut : Uthread} {message : Vaddr} {size : UInt32}
    (h : uthreadIsValidRange ut message size.toUInt64 = true) {t : Nat} (ht : t < size.toNat) :
    Mapped ut (message + ((0 : UInt32) + UInt32.ofNat t).toUInt64) := by
  rw [index_toUInt64 ht]
  exact mapped_of_validRange h (by simpa using ht)

theorem bytesAt_congr {mem mem' : Vaddr → UInt8} {message : Vaddr} :
    ∀ {n : Nat} {i : UInt32},
      (∀ t < n, mem' (message + (i + UInt32.ofNat t).toUInt64) =
        mem (message + (i + UInt32.ofNat t).toUInt64)) →
      bytesAt mem' message n i = bytesAt mem message n i
  | 0, _, _ => rfl
  | n + 1, i, h => by
      have h0 : mem' (message + i.toUInt64) = mem (message + i.toUInt64) := by
        simpa using h 0 (Nat.succ_pos n)
      simp only [bytesAt, h0]
      congr 1
      refine bytesAt_congr fun t ht => ?_
      have hnext : i + 1 + UInt32.ofNat t = i + UInt32.ofNat (t + 1) := by
        rw [UInt32.ofNat_add, UInt32.add_assoc, UInt32.add_comm 1]
        rfl
      rw [hnext]
      exact h (t + 1) (Nat.succ_lt_succ ht)

theorem confined_sysSendToUart_iff (ut : Uthread) (uartPort : UInt32) (message : Vaddr)
    (msgSize : UInt32) (port : SecurePort) (mem : Vaddr → UInt8) :
    Confined ut (uthreadIsValidRange ut message msgSize.toUInt64)
        (sysSendToUart uartPort message msgSize) port mem ↔
      uthreadIsValidRange ut message msgSize.toUInt64 = true := by
  constructor
  · intro hconf
    cases hv : uthreadIsValidRange ut message msgSize.toUInt64 with
    | true => rfl
    | false =>
        exfalso
        obtain ⟨heff, hret⟩ := hconf.refused hv
        rcases Nat.eq_zero_or_pos msgSize.toNat with h0 | hpos
        · have hok : sysSendToUart uartPort message msgSize ⟨port, mem, []⟩
              = .ok 0 ⟨port, mem, []⟩ := by
            simp only [sysSendToUart, h0, sendFrom, run_bind, run_pure]
          exact absurd (hret 0 _ hok) (by decide)
        · obtain ⟨-, j, -, hj, hacc⟩ := sendFrom_reads message msgSize.toNat 0 ⟨port, mem, []⟩
          have hnil := heff.accesses
          rw [stateOf_sysSendToUart, hacc, List.nil_append] at hnil
          cases j with
          | zero => exact absurd (hj hpos) (Nat.lt_irrefl 0)
          | succ j => simp [readsAt] at hnil
  · intro hv
    refine ⟨fun a ha => ?_, fun hf => absurd (hv.symm.trans hf) (by decide), fun mem' hmem => ?_⟩
    · obtain ⟨-, j, hj, -, hacc⟩ := sendFrom_reads message msgSize.toNat 0 ⟨port, mem, []⟩
      rw [stateOf_sysSendToUart, hacc, List.nil_append] at ha
      obtain ⟨t, ht, rfl⟩ := mem_readsAt ha
      exact mapped_message hv (Nat.lt_of_lt_of_le ht hj)
    · rw [portOf_sysSendToUart, portOf_sysSendToUart]
      rw [bytesAt_congr fun t ht => hmem _ (mapped_message hv ht)]

/-! ## Receiving -/

theorem confined_sysReceiveFromUart_iff (ut : Uthread) (uartPort : UInt32) (message : Vaddr)
    (wait : UInt32) (port : SecurePort) (mem : Vaddr → UInt8) :
    Confined ut (uthreadIsValidRange ut message 1)
        (sysReceiveFromUart uartPort message wait) port mem ↔
      uthreadIsValidRange ut message 1 = true ∨ byteWaiting port (wait != 0) = false := by
  have hspec := wp_securePlatformDgetc (wait != 0) port
  have hblind : ∀ mem' : Vaddr → UInt8,
      portOf (sysReceiveFromUart uartPort message wait ⟨port, mem', []⟩) =
        portOf (sysReceiveFromUart uartPort message wait ⟨port, mem, []⟩) := by
    intro mem'
    simp only [sysReceiveFromUart_eq]
    cases securePlatformDgetc (wait != 0) port with
    | error e p => rfl
    | ok r p => obtain ⟨status, c⟩ := r; cases c <;> rfl
  have hmapped : uthreadIsValidRange ut message 1 = true → Mapped ut message := fun hv => by
    simpa using mapped_of_validRange hv (i := 0) (by decide)
  cases hw : byteWaiting port (wait != 0) with
  | true =>
      simp only [hw, if_true, Bool.true_eq_false, and_false] at hspec
      obtain ⟨r, p, hrun, -, -, b, rfl, hrhr⟩ := wp_total hspec
      have heq : sysReceiveFromUart uartPort message wait ⟨port, mem, []⟩ =
          .ok 0 ⟨p, Function.update mem message b, [Access.write message]⟩ := by
        rw [sysReceiveFromUart_eq, hrun]; rfl
      simp only [Bool.true_eq_false, or_false]
      constructor
      · intro hconf
        cases hv : uthreadIsValidRange ut message 1 with
        | true => rfl
        | false =>
            have hacc := (hconf.refused hv).1.accesses
            rw [heq] at hacc
            cases hacc
      · intro hv
        refine ⟨?_, fun hf => absurd (hv.symm.trans hf) (by decide), fun mem' _ => hblind mem'⟩
        rw [heq]
        intro a ha
        rw [List.mem_singleton.mp ha]
        exact hmapped hv
  | false =>
      simp only [hw, Bool.false_eq_true, if_false, and_true] at hspec
      refine iff_of_true ?_ (Or.inr rfl)
      have hend : NoEffect ⟨port, mem, []⟩
            (stateOf (sysReceiveFromUart uartPort message wait ⟨port, mem, []⟩)) ∧
          ∀ r k', sysReceiveFromUart uartPort message wait ⟨port, mem, []⟩ = .ok r k' → r < 0 := by
        rw [sysReceiveFromUart_eq]
        cases hrun : securePlatformDgetc (wait != 0) port with
        | error e p =>
            obtain ⟨h1, h2, h3⟩ := wp_error hspec hrun
            exact ⟨⟨rfl, rfl, h1, h2, h3⟩, fun r k' h => by cases h⟩
        | ok r p =>
            obtain ⟨h1, h2, rfl, h3⟩ := wp_ok hspec hrun
            exact ⟨⟨rfl, rfl, h1, h2, h3⟩, fun r k' h => by cases h; decide⟩
      refine ⟨fun a ha => ?_, fun _ => hend, fun mem' _ => hblind mem'⟩
      rw [hend.1.accesses] at ha
      exact absurd ha List.not_mem_nil

/-! ## Both system calls -/

/-- One page mapped at `0x8000`. -/
def onePage : Uthread := ⟨[⟨0x8000, 0x1000⟩]⟩

end TX2SecureUart.Uart
