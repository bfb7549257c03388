/-
# `Uart.Transmit` — what reaches the transmit register

`sys_send_to_uart` is a console write.  `secure_platform_dputc` puts a
carriage return before each line feed and skips zero bytes (`consoleText`),
and `secure_uart_putc` gives up on a character whose poll times out
(`transmitFlags`, read off the line status and clock values alone).  Nothing
else happens to the bytes: `sysSendToUart_transmits`.
-/
import TX2SecureUart.Uart.Syscall

namespace TX2SecureUart.Uart

open Prog UserSpace

/-! ## The two layers, as functions of their inputs -/

/-- The characters `secure_platform_dputc` hands to `secure_uart_putc`. -/
def consoleForm (c : UInt8) : List UInt8 :=
  if c = 0x0a then [0x0d, 0x0a] else if c = 0x00 then [] else [c]

def consoleText (m : List UInt8) : List UInt8 := m.flatMap consoleForm

/-- For `n` characters in a row, whether the transmit register was seen empty
before the poll for the character timed out. -/
def transmitFlags : Nat → Bool → List UInt8 → List UInt64 → Option (List Bool)
  | 0, _, _, _ => some []
  | _ + 1, _, _, [] => none
  | n + 1, timedOut, lsr, start :: clock =>
      match pollStatus txEmpty timedOut start lsr clock with
      | none => none
      | some e => (transmitFlags n e.timedOut e.status e.clock).map (e.ready :: ·)

/-- The elements whose flag is set. -/
def select : List Bool → List UInt8 → List UInt8
  | true :: fs, c :: cs => c :: select fs cs
  | false :: fs, _ :: cs => select fs cs
  | _, _ => []

theorem length_of_transmitFlags :
    ∀ {n : Nat} {timedOut : Bool} {lsr : List UInt8} {clock : List UInt64} {fs : List Bool},
      transmitFlags n timedOut lsr clock = some fs → fs.length = n
  | 0, _, _, _, _, h => by cases h; rfl
  | _ + 1, _, _, [], _, h => by cases h
  | n + 1, timedOut, lsr, start :: clock, fs, h => by
      simp only [transmitFlags] at h
      cases he : pollStatus txEmpty timedOut start lsr clock with
      | none => simp [he] at h
      | some e =>
          simp only [he, Option.map_eq_some_iff] at h
          obtain ⟨gs, hgs, rfl⟩ := h
          simp [length_of_transmitFlags hgs]

theorem select_all : ∀ {fs : List Bool} {cs : List UInt8},
    fs.length = cs.length → false ∉ fs → select fs cs = cs
  | [], [], _, _ => rfl
  | true :: fs, c :: cs, hl, hf => by
      simp only [select]
      rw [select_all (by simpa using hl) (fun h => hf (List.mem_cons_of_mem _ h))]
  | false :: _, _, _, hf => absurd List.mem_cons_self hf

/-! ## When the console form changes nothing -/

theorem zero_not_mem_consoleText (m : List UInt8) : (0x00 : UInt8) ∉ consoleText m := by
  simp only [consoleText, List.mem_flatMap, not_exists, not_and]
  intro c _ hc
  unfold consoleForm at hc
  split at hc
  · exact absurd hc (by decide)
  · split at hc
    · exact absurd hc List.not_mem_nil
    · next h => exact h (List.mem_singleton.mp hc).symm

theorem length_consoleText_of_no_zero : ∀ {m : List UInt8}, (0x00 : UInt8) ∉ m →
    (consoleText m).length = m.length + m.count 0x0a
  | [], _ => rfl
  | c :: m, h => by
      have hc : c ≠ 0x00 := fun h0 => h (h0 ▸ List.mem_cons_self)
      have ih := length_consoleText_of_no_zero (m := m) (fun hm => h (List.mem_cons_of_mem _ hm))
      have hcons : consoleText (c :: m) = consoleForm c ++ consoleText m := rfl
      by_cases hn : c = 0x0a
      · subst hn
        rw [hcons, List.length_append, ih, List.count_cons_self, List.length_cons]
        simp only [consoleForm, if_true, List.length_cons, List.length_nil]
        omega
      · rw [hcons, List.length_append, ih, List.count_cons_of_ne (by simpa using hn),
          List.length_cons]
        simp only [consoleForm, if_neg hn, if_neg hc, List.length_cons, List.length_nil]
        omega

theorem consoleText_eq_self_iff {m : List UInt8} :
    consoleText m = m ↔ (0x0a : UInt8) ∉ m ∧ (0x00 : UInt8) ∉ m := by
  constructor
  · intro h
    have h0 : (0x00 : UInt8) ∉ m := h ▸ zero_not_mem_consoleText m
    have hlen := length_consoleText_of_no_zero h0
    rw [h] at hlen
    exact ⟨List.count_eq_zero.mp (by omega), h0⟩
  · rintro ⟨hn, h0⟩
    have hone : ∀ c ∈ m, consoleForm c = [c] := fun c hc => by
      have hcn : c ≠ 0x0a := fun h => hn (h ▸ hc)
      have hc0 : c ≠ 0x00 := fun h => h0 (h ▸ hc)
      simp [consoleForm, hcn, hc0]
    rw [consoleText, List.flatMap_def, List.map_congr_left hone, ← List.flatMap_def,
      List.flatMap_singleton']

/-! ## The driver against the two functions -/

/-- Hand characters to `secure_uart_putc`, ignoring its result as
`secure_platform_dputc` does. -/
def putAll (cs : List UInt8) : PortM Unit := forM cs (fun c => do let _ ← secureUartPutc c)

theorem putAll_append (cs ds : List UInt8) :
    putAll (cs ++ ds) = (do putAll cs; putAll ds) := by
  simp [putAll, List.forM_append]

theorem realUart_conds {s : SecurePort} (h : RealUart s) :
    (s.disableSecurePort || s.securePort == tegraUartNone) = false ∧
      (s.securePort == tegraCombuartId) = false := by
  obtain ⟨hd, h1, h5⟩ := h
  have hn : s.securePort ≠ tegraUartNone := by
    intro he; rw [he] at h1; exact absurd h1 (by decide)
  have hc : s.securePort ≠ tegraCombuartId := by
    intro he; rw [he] at h5; exact absurd h5 (by decide)
  simp [hd, hn, hc]

theorem securePlatformDputc_eq {s : SecurePort} (h : RealUart s) (c : UInt8) :
    securePlatformDputc c s = putAll (consoleForm c) s := by
  obtain ⟨h1, h2⟩ := realUart_conds h
  simp only [securePlatformDputc, run_bind, run_get, h1, h2, Bool.false_eq_true, if_false]
  unfold consoleForm
  by_cases hn : c = 0x0a
  · simp [hn, putAll]
  · by_cases h0 : c = 0x00
    · simp [h0, putAll]
    · simp [hn, h0, putAll]

/-- One character: appended when its poll saw the register empty, otherwise
lost; the readings it used up are those of the poll. -/
theorem secureUartPutc_ok {s s' : SecurePort} {c : UInt8} {r : Int}
    (h : secureUartPutc c s = .ok r s') :
    ∃ start clock e, s.clock = start :: clock ∧
      pollStatus txEmpty s.putcTimedOut start s.lsr clock = some e ∧
      s' = { s with
        putcTimedOut := e.timedOut, lsr := e.status, clock := e.clock,
        thr := s.thr ++ select [e.ready] [c] } := by
  simp only [secureUartPutc, currentTimeHires, run_bind, run_get] at h
  cases hclk : s.clock with
  | nil => simp [hclk, run_throw] at h
  | cons start clock =>
      simp only [hclk, run_bind, run_set, run_pure] at h
      cases hp : pollStatus txEmpty s.putcTimedOut start s.lsr clock with
      | none => simp [hp, run_throw] at h
      | some e =>
          refine ⟨start, clock, e, rfl, hp, ?_⟩
          cases hr : e.ready with
          | true => simp only [hp, hr, if_true, run_bind, run_set, run_pure] at h; cases h; rfl
          | false =>
              simp only [hp, hr, Bool.false_eq_true, if_false, run_bind, run_set, run_pure] at h
              cases h
              simp [select]

theorem putAll_ok :
    ∀ {cs : List UInt8} {s s' : SecurePort} {u : Unit}, putAll cs s = .ok u s' →
      s'.disableSecurePort = s.disableSecurePort ∧ s'.securePort = s.securePort ∧
        ∃ fs, transmitFlags cs.length s.putcTimedOut s.lsr s.clock = some fs ∧
          s'.thr = s.thr ++ select fs cs
  | [], s, s', _, h => by cases h; exact ⟨rfl, rfl, [], rfl, by simp [select]⟩
  | c :: cs, s, s', u, h => by
      simp only [putAll, List.forM_cons, bind, EStateM.bind] at h
      cases hc : secureUartPutc c s with
      | error e t => simp [hc] at h
      | ok r t =>
          simp only [hc] at h
          obtain ⟨start, clock, e, hclk, hp, rfl⟩ := secureUartPutc_ok hc
          obtain ⟨hd, hs, fs, hfs, hthr⟩ := putAll_ok h
          refine ⟨hd, hs, e.ready :: fs, ?_, ?_⟩
          · simp only [List.length_cons, hclk, transmitFlags, hp]
            rw [hfs]; rfl
          · rw [hthr, List.append_assoc]
            cases e.ready <;> simp [select]

/-- On a real UART the send loop is `putAll` of the console text. -/
theorem forM_securePlatformDputc_eq :
    ∀ (m : List UInt8) {s : SecurePort}, RealUart s →
      (forM m securePlatformDputc : PortM Unit) s = putAll (consoleText m) s
  | [], _, _ => rfl
  | c :: m, s, h => by
      have hcons : consoleText (c :: m) = consoleForm c ++ consoleText m := rfl
      rw [List.forM_cons, hcons, putAll_append]
      simp only [bind, EStateM.bind, securePlatformDputc_eq h]
      cases hc : putAll (consoleForm c) s with
      | error e t => rfl
      | ok u t =>
          obtain ⟨hd, hp, -⟩ := putAll_ok hc
          have ht : RealUart t := by unfold RealUart at h ⊢; rw [hd, hp]; exact h
          exact forM_securePlatformDputc_eq m ht

/-! ## The system call -/

/-- What a returning `send_to_uart` puts on the wire: the console form of the
message, less the characters whose poll timed out.  Without time-outs that is
the message itself exactly when the message has no line feed and no zero. -/
theorem sysSendToUart_transmits {uartPort msgSize : UInt32} {message : Vaddr} {k k' : Kernel}
    {r : Int} (hreal : RealUart k.port)
    (h : sysSendToUart uartPort message msgSize k = .ok r k') :
    let m := bytesAt k.mem message msgSize.toNat 0
    r = 0 ∧ ∃ flags,
      transmitFlags (consoleText m).length k.port.putcTimedOut k.port.lsr k.port.clock
        = some flags ∧
      k'.port.thr = k.port.thr ++ select flags (consoleText m) ∧
      (false ∉ flags → k'.port.thr = k.port.thr ++ consoleText m ∧
        (k'.port.thr = k.port.thr ++ m ↔ (0x0a : UInt8) ∉ m ∧ (0x00 : UInt8) ∉ m)) := by
  intro m
  have hport := portOf_sysSendToUart uartPort message msgSize k
  rw [h] at hport
  simp only [portOf, bind, EStateM.bind, pure, EStateM.pure,
    forM_securePlatformDputc_eq _ hreal] at hport
  cases hput : putAll (consoleText m) k.port with
  | error e t => rw [hput] at hport; cases hport
  | ok u t =>
      rw [hput] at hport
      cases hport
      obtain ⟨-, -, flags, hflags, hthr⟩ := putAll_ok hput
      refine ⟨rfl, flags, hflags, hthr, fun hall => ?_⟩
      have hsel : select flags (consoleText m) = consoleText m :=
        select_all (length_of_transmitFlags hflags) hall
      rw [hthr, hsel]
      exact ⟨rfl, by rw [List.append_cancel_left_eq, consoleText_eq_self_iff]⟩

/-- A port whose transmit register is always seen empty. -/
def readyPort : SecurePort := (SecurePort.initial [0x20, 0x20, 0x20] [] [0, 1, 2] []).enable

/-- `"A\n"` at address 0 -/
def newlineKernel : Kernel := ⟨readyPort, fun a => if a = 0 then 0x41 else 0x0a, []⟩

theorem sysSendToUart_transmits_newline :
    ∃ r k', sysSendToUart 3 0 2 newlineKernel = .ok r k' ∧
      r = 0 ∧ k'.port.thr = [0x41, 0x0d, 0x0a] := by
  obtain ⟨r, h⟩ := eq_ok_of_returns (r := sysSendToUart 3 0 2 newlineKernel)
    (by decide +kernel)
  have hw := sysSendToUart_transmits (by decide +kernel) h
  have hm : consoleText (bytesAt newlineKernel.mem 0 (2 : UInt32).toNat 0) = [0x41, 0x0d, 0x0a] := by
    decide +kernel
  have hf : transmitFlags 3 newlineKernel.port.putcTimedOut newlineKernel.port.lsr
      newlineKernel.port.clock = some [true, true, true] := by decide +kernel
  simp only [hm, List.length_cons, List.length_nil, Nat.reduceAdd, hf, Option.some.injEq] at hw
  obtain ⟨hr, flags, rfl, hthr, -⟩ := hw
  exact ⟨r, _, h, hr, hthr⟩

/-- The bytes on the wire are not always those of the message. -/
theorem sysSendToUart_not_verbatim :
    ¬ ∀ (uartPort msgSize : UInt32) (message : Vaddr) (k k' : Kernel), RealUart k.port →
      sysSendToUart uartPort message msgSize k = .ok 0 k' →
        k'.port.thr = k.port.thr ++ bytesAt k.mem message msgSize.toNat 0 := by
  intro hall
  have h0 : ∀ r k', sysSendToUart 3 0 2 newlineKernel = .ok r k' → r = 0 := by
    intro r k' h
    simp only [sysSendToUart, run_bind, run_pure] at h
    cases hs : sendFrom 0 (2 : UInt32).toNat 0 newlineKernel with
    | ok u t => rw [hs] at h; cases h; rfl
    | error e t => rw [hs] at h; cases h
  obtain ⟨r, h⟩ := eq_ok_of_returns (r := sysSendToUart 3 0 2 newlineKernel)
    (by decide +kernel)
  obtain rfl := h0 r _ h
  have hbad := hall 3 2 0 newlineKernel _ (by decide +kernel) h
  revert hbad
  decide +kernel

end TX2SecureUart.Uart
