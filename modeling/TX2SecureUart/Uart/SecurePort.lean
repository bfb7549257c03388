/-
# `Uart.SecurePort` — the secure serial port driver

`secure_port.c`, function by function.  The hardware is the sequence of
values its registers deliver: every read of the line status register, of the
receive register and of `current_time_hires()` takes the next value of a list,
so a theorem about all lists is a theorem about every behaviour of the
hardware.  A poll loop that reaches the end of the observed values has not
returned yet; it stops with `Polling`.

The base address of the selected UART does not influence which bytes cross the
port, so the table `uart_base` is left out; `RealUart` names the indices that
are inside it.
-/
import TX2SecureUart.Lib.Prog

namespace TX2SecureUart.Uart

open Prog

/-- The only way a port function does not return: it is still polling. -/
inductive Polling where
  | polling
deriving DecidableEq

/-- The driver's variables and the registers it talks to. -/
structure SecurePort where
  /-- `disable_secure_port`, non-zero -/
  disableSecurePort : Bool
  /-- `secure_port` -/
  securePort : UInt32
  /-- `timed_out`, static in `secure_uart_putc` -/
  putcTimedOut : Bool
  /-- `timed_out`, static in `secure_uart_getc` -/
  getcTimedOut : Bool
  /-- `timed_out`, static in `comb_uart_putc` -/
  combTimedOut : Bool
  /-- line status values still to be read -/
  lsr : List UInt8
  /-- receive register values still to be read -/
  rhr : List UInt8
  /-- values of `current_time_hires()` still to be read -/
  clock : List UInt64
  /-- bytes written to the transmit register, oldest first -/
  thr : List UInt8
  /-- combined-UART mailbox values still to be read -/
  mailbox : List UInt32
  /-- words written to the combined-UART mailbox, oldest first -/
  mailboxTx : List UInt32
deriving DecidableEq

abbrev PortM := EStateM Polling SecurePort

/-- The static initialisers, in front of a given hardware behaviour. -/
def SecurePort.initial (lsr rhr : List UInt8) (clock : List UInt64) (mailbox : List UInt32) :
    SecurePort where
  disableSecurePort := true
  securePort := 3
  putcTimedOut := false
  getcTimedOut := false
  combTimedOut := false
  lsr := lsr
  rhr := rhr
  clock := clock
  thr := []
  mailbox := mailbox
  mailboxTx := []

/-- `platform_enable_secure_intf` -/
def SecurePort.enable (s : SecurePort) : SecurePort := { s with disableSecurePort := false }

/-- `TEGRA_UART_NONE` -/
def tegraUartNone : UInt32 := 0x0

/-- `TEGRA_COMBUART_ID` -/
def tegraCombuartId : UInt32 := 0xfe

/-- `UART_TIMEOUT_US` (and `TX_TIMEOUT_US` of the combined UART) -/
def uartTimeoutUs : UInt64 := 500 * 1000

/-- `LSR` bit 5: the transmit register is empty. -/
def txEmpty (lsr : UInt8) : Bool := lsr &&& ((1 : UInt8) <<< 5) != 0

/-- `LSR` bit 0: the receive register holds a byte. -/
def rxReady (lsr : UInt8) : Bool := lsr &&& ((1 : UInt8) <<< 0) != 0

/-- The port is enabled and selects an entry of `uart_base` other than
`TEGRA_UART_NONE`. -/
def RealUart (s : SecurePort) : Prop :=
  s.disableSecurePort = false ∧ 1 ≤ s.securePort ∧ s.securePort ≤ 5

instance (s : SecurePort) : Decidable (RealUart s) := by
  unfold RealUart; infer_instance

/-! ## The poll loop

`secure_uart_putc`, `secure_uart_getc` and `comb_uart_putc` wait in the same
loop, each with its own status test and its own sticky `timed_out`. -/

/-- How a poll loop ended: whether the status was seen ready, the new value of
`timed_out`, and the readings that are left. -/
structure PollEnd (ρ : Type) where
  ready : Bool
  timedOut : Bool
  status : List ρ
  clock : List UInt64

/-- `while (!(status & ready)) { if (timed_out) return -1; if (now - start >=
TIMEOUT) { timed_out = true; return -1; } }  timed_out = false;` -/
def pollStatus {ρ : Type} (ready : ρ → Bool) (timedOut : Bool) (start : UInt64) :
    List ρ → List UInt64 → Option (PollEnd ρ)
  | [], _ => none
  | r :: status, clock =>
      if ready r then some ⟨true, false, status, clock⟩
      else if timedOut then some ⟨false, true, status, clock⟩
      else
        match clock with
        | [] => none
        | now :: clock =>
            if uartTimeoutUs ≤ now - start then some ⟨false, true, status, clock⟩
            else pollStatus ready timedOut start status clock

def currentTimeHires : PortM UInt64 := do
  let s ← get
  match s.clock with
  | [] => throw .polling
  | now :: clock =>
      set { s with clock := clock }
      pure now

/-- `secure_uart_putc` -/
def secureUartPutc (c : UInt8) : PortM Int := do
  let start ← currentTimeHires
  let s ← get
  match pollStatus txEmpty s.putcTimedOut start s.lsr s.clock with
  | none => throw .polling
  | some e =>
      let s := { s with putcTimedOut := e.timedOut, lsr := e.status, clock := e.clock }
      if e.ready then
        set { s with thr := s.thr ++ [c] }
        pure 0
      else
        set s
        pure (-1)

/-- Read `UART_RHR`. -/
def readRhr : PortM UInt8 := do
  let s ← get
  match s.rhr with
  | [] => throw .polling
  | b :: rhr =>
      set { s with rhr := rhr }
      pure b

/-- `secure_uart_getc`.  Without `wait` the status is read once, and an empty
receive register leaves `timed_out` alone. -/
def secureUartGetc (wait : Bool) : PortM Int := do
  let start ← currentTimeHires
  let s ← get
  if wait then
    match pollStatus rxReady s.getcTimedOut start s.lsr s.clock with
    | none => throw .polling
    | some e =>
        set { s with getcTimedOut := e.timedOut, lsr := e.status, clock := e.clock }
        if e.ready then
          let b ← readRhr
          pure (Int.ofNat b.toNat)
        else pure (-1)
  else
    match s.lsr with
    | [] => throw .polling
    | l :: lsr =>
        if rxReady l then
          set { s with getcTimedOut := false, lsr := lsr }
          let b ← readRhr
          pure (Int.ofNat b.toNat)
        else
          set { s with lsr := lsr }
          pure (-1)

/-! ## The combined UART, selected by `TEGRA_COMBUART_ID` -/

/-- `MBOX_INTR_TRIGGER` clear: the mailbox is free. -/
def mboxFree (w : UInt32) : Bool := w &&& ((1 : UInt32) <<< 31) == 0

/-- `MBOX_INTR_TRIGGER | MBOX_BYTE_COUNT | c`, with `MBOX_FLUSH` on `'\n'`. -/
def mboxMsg (c : UInt8) : UInt32 :=
  let msg := ((1 : UInt32) <<< 31) ||| ((1 : UInt32) <<< 24) ||| c.toUInt32
  if c == 0x0a then msg ||| ((1 : UInt32) <<< 26) else msg

def combUartPutc (c : UInt8) : PortM Unit := do
  let start ← currentTimeHires
  let s ← get
  match pollStatus mboxFree s.combTimedOut start s.mailbox s.clock with
  | none => throw .polling
  | some e =>
      let s := { s with combTimedOut := e.timedOut, mailbox := e.status, clock := e.clock }
      if e.ready then set { s with mailboxTx := s.mailboxTx ++ [mboxMsg c] } else set s

def platformTegraCombUartPutc (c : UInt8) : PortM Unit := do
  if c == 0x00 then return
  if c == 0x0a then combUartPutc 0x0d
  combUartPutc c

def platformTegraCombUartGetc (_wait : Bool) : PortM Int := pure (-1)

/-! ## The port interface the system calls use -/

/-- `secure_platform_dputc` -/
def securePlatformDputc (c : UInt8) : PortM Unit := do
  let s ← get
  if s.disableSecurePort || s.securePort == tegraUartNone then return
  if s.securePort == tegraCombuartId then
    platformTegraCombUartPutc c
    return
  if c == 0x0a then
    let _ ← secureUartPutc 0x0d
  else if c == 0x00 then return
  let _ ← secureUartPutc c

/-- `secure_platform_dgetc`: the status, and what is stored through `c`, if
anything is. -/
def securePlatformDgetc (wait : Bool) : PortM (Int × Option UInt8) := do
  let s ← get
  if s.disableSecurePort || s.securePort == tegraUartNone then return (-1, none)
  let c ← if s.securePort == tegraCombuartId then platformTegraCombUartGetc wait
    else secureUartGetc wait
  if c < 0 then return (-1, none)
  return (0, some (UInt8.ofNat c.toNat))

/-! ## What a receive does -/

/-- The port has a byte to hand over: it is a UART that is switched on, and its
line status shows data (within the time-out, when `wait` is set). -/
def byteWaiting (s : SecurePort) (wait : Bool) : Bool :=
  if s.disableSecurePort || s.securePort == tegraUartNone then false
  else if s.securePort == tegraCombuartId then false
  else
    match s.clock with
    | [] => false
    | start :: clock =>
        let ready :=
          if wait then
            match pollStatus rxReady s.getcTimedOut start s.lsr clock with
            | none => false
            | some e => e.ready
          else
            match s.lsr with
            | [] => false
            | l :: _ => rxReady l
        ready && !s.rhr.isEmpty

/-- `secure_platform_dgetc` takes a byte off the receive register exactly when
one is waiting; otherwise nothing leaves or enters the port. -/
theorem wp_securePlatformDgetc (wait : Bool) (s : SecurePort) :
    wp (securePlatformDgetc wait)
      (fun r t => t.thr = s.thr ∧ t.mailboxTx = s.mailboxTx ∧
        if byteWaiting s wait then ∃ b, r = (0, some b) ∧ s.rhr = b :: t.rhr
        else r = (-1, none) ∧ t.rhr = s.rhr)
      (fun _ t => t.thr = s.thr ∧ t.mailboxTx = s.mailboxTx ∧ t.rhr = s.rhr ∧
        byteWaiting s wait = false) s := by
  have hneg : ∀ b : UInt8, ¬ (Int.ofNat b.toNat < 0) := fun b => by simp
  unfold byteWaiting securePlatformDgetc
  simp only [wp_bind, wp_get]
  by_cases hoff : (s.disableSecurePort || s.securePort == tegraUartNone) = true
  · simp [hoff]
  simp only [hoff, Bool.false_eq_true, if_false]
  by_cases hcomb : (s.securePort == tegraCombuartId) = true
  · simp [hcomb, platformTegraCombUartGetc]
  simp only [hcomb, Bool.false_eq_true, if_false, wp_bind, secureUartGetc, currentTimeHires,
    wp_get]
  cases hclk : s.clock with
  | nil => simp
  | cons start clock =>
      cases wait with
      | true =>
          cases hp : pollStatus rxReady s.getcTimedOut start s.lsr clock with
          | none => simp [hp]
          | some e =>
              cases hr : e.ready with
              | false => simp [hp, hr]
              | true => cases s.rhr <;> simp [hp, hr, readRhr]
      | false =>
          cases hl : s.lsr with
          | nil => simp
          | cons l lsr =>
              cases hr : rxReady l with
              | false => simp [hr]
              | true => cases s.rhr <;> simp [hr, readRhr]

end TX2SecureUart.Uart
