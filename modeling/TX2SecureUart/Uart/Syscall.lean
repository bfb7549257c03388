/-
# `Uart.Syscall` — `send_to_uart` and `receive_from_uart`

`secure_uart.c`.  Both system calls dereference the pointer they were given in
kernel mode, so the state is the kernel's whole memory, and every access is
recorded where the code makes it.
-/
import TX2SecureUart.Uart.SecurePort
import TX2SecureUart.UserSpace.Map

namespace TX2SecureUart.Uart

open Prog UserSpace

/-- A byte of memory touched in kernel mode. -/
inductive Access where
  | read (a : Vaddr)
  | write (a : Vaddr)
deriving DecidableEq

def Access.addr : Access → Vaddr
  | .read a => a
  | .write a => a

structure Kernel where
  port : SecurePort
  mem : Vaddr → UInt8
  /-- accesses made so far, oldest first -/
  accesses : List Access

abbrev KernelM := EStateM Polling Kernel

/-- Run a function of the port driver. -/
def onPort {α : Type} : PortM α → KernelM α :=
  zoom Kernel.port (fun p k => { k with port := p })

/-- `*a`, as a value -/
def loadByte (a : Vaddr) : KernelM UInt8 := do
  let k ← get
  set { k with accesses := k.accesses ++ [Access.read a] }
  pure (k.mem a)

/-- `*a = b` -/
def storeByte (a : Vaddr) (b : UInt8) : KernelM Unit :=
  modify fun k =>
    { k with mem := Function.update k.mem a b, accesses := k.accesses ++ [Access.write a] }

/-- The loop of `sys_send_to_uart` with `n` passes to go. -/
def sendFrom (message : Vaddr) : Nat → UInt32 → KernelM Unit
  | 0, _ => pure ()
  | n + 1, i => do
      let c ← loadByte (message + i.toUInt64)
      onPort (securePlatformDputc c)
      sendFrom message n (i + 1)

/-- `sys_send_to_uart`.  `uart_port` is not used. -/
def sysSendToUart (_uartPort : UInt32) (message : Vaddr) (msgSize : UInt32) : KernelM Int := do
  sendFrom message msgSize.toNat 0
  pure 0

/-- `sys_receive_from_uart`.  `uart_port` is not used. -/
def sysReceiveFromUart (_uartPort : UInt32) (message : Vaddr) (wait : UInt32) : KernelM Int := do
  let (status, c) ← onPort (securePlatformDgetc (wait != 0))
  match c with
  | none => pure ()
  | some b => storeByte message b
  pure status

/-! ## What the send loop does to the port

The port sees the bytes of the buffer and nothing else of the memory. -/

/-- The `n` bytes at `message + i`. -/
def bytesAt (mem : Vaddr → UInt8) (message : Vaddr) : Nat → UInt32 → List UInt8
  | 0, _ => []
  | n + 1, i => mem (message + i.toUInt64) :: bytesAt mem message n (i + 1)

/-- Forget everything but the port. -/
def portOf {α : Type} : EStateM.Result Polling Kernel α → EStateM.Result Polling SecurePort α
  | .ok a k => .ok a k.port
  | .error e k => .error e k.port

theorem sendFrom_succ (message : Vaddr) (n : Nat) (i : UInt32) (k : Kernel) :
    sendFrom message (n + 1) i k =
      match securePlatformDputc (k.mem (message + i.toUInt64)) k.port with
      | .ok _ p => sendFrom message n (i + 1)
          { k with port := p, accesses := k.accesses ++ [Access.read (message + i.toUInt64)] }
      | .error e p => .error e
          { k with port := p, accesses := k.accesses ++ [Access.read (message + i.toUInt64)] } := by
  simp only [sendFrom, bind, EStateM.bind, loadByte, get, getThe, MonadStateOf.get, EStateM.get,
    set, EStateM.set, pure, EStateM.pure, onPort, zoom]
  cases securePlatformDputc (k.mem (message + i.toUInt64)) k.port <;> rfl

theorem portOf_sendFrom (message : Vaddr) :
    ∀ (n : Nat) (i : UInt32) (k : Kernel),
      portOf (sendFrom message n i k) =
        (forM (bytesAt k.mem message n i) securePlatformDputc : PortM Unit) k.port
  | 0, _, _ => rfl
  | n + 1, i, k => by
      rw [sendFrom_succ, bytesAt, List.forM_cons]
      simp only [bind, EStateM.bind]
      cases securePlatformDputc (k.mem (message + i.toUInt64)) k.port with
      | ok u p => exact portOf_sendFrom message n (i + 1) _
      | error e p => rfl

theorem portOf_sysSendToUart (uartPort : UInt32) (message : Vaddr) (msgSize : UInt32)
    (k : Kernel) :
    portOf (sysSendToUart uartPort message msgSize k) =
      (do
        forM (bytesAt k.mem message msgSize.toNat 0) securePlatformDputc
        pure 0 : PortM Int) k.port := by
  have h := portOf_sendFrom message msgSize.toNat 0 k
  simp only [sysSendToUart, bind, EStateM.bind, pure, EStateM.pure]
  cases hs : sendFrom message msgSize.toNat 0 k with
  | ok u k' => rw [hs] at h; simp only [portOf] at h ⊢; rw [← h]
  | error e k' => rw [hs] at h; simp only [portOf] at h ⊢; rw [← h]

/-! ## What a receive does to the kernel -/

/-- The outcome of `receive_from_uart`, from the port's. -/
theorem sysReceiveFromUart_eq (uartPort : UInt32) (message : Vaddr) (wait : UInt32) (k : Kernel) :
    sysReceiveFromUart uartPort message wait k =
      match securePlatformDgetc (wait != 0) k.port with
      | .ok (status, none) p => .ok status { k with port := p }
      | .ok (status, some b) p => .ok status
          { port := p, mem := Function.update k.mem message b,
            accesses := k.accesses ++ [Access.write message] }
      | .error e p => .error e { k with port := p } := by
  simp only [sysReceiveFromUart, run_bind, onPort, run_zoom]
  cases securePlatformDgetc (wait != 0) k.port with
  | error e p => rfl
  | ok r p =>
      obtain ⟨status, c⟩ := r
      cases c <;> rfl

end TX2SecureUart.Uart
