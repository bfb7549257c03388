/-
# `Camera.Memory` — the memory a camera reply passes through

`handle_msg` from the allocation of the receive buffer to the reply, with the
string functions it uses, byte by byte.  A byte that is read or written outside
its object stops the program, and so does a byte that is read before it has a
value.  `malloc` succeeds, with anything in the memory.
-/
import TX2SecureUart.Uart.Syscall

namespace TX2SecureUart.Camera.Memory

open Prog Uart

/-! ## Objects -/

/-- An object in memory, with the bytes that have been given a value. -/
structure Obj where
  size : Nat
  val : Nat → UInt8
  init : Nat → Bool

/-- `malloc`, over memory that holds `heap`. -/
def Obj.malloc (size : Nat) (heap : Nat → UInt8) : Obj := ⟨size, heap, fun _ => false⟩

/-- After `free`, no byte is left to access. -/
def Obj.freed : Obj := ⟨0, fun _ => 0, fun _ => false⟩

inductive ObjName where
  | messageFromCamera
  | recievedByte
  | cameraResponse
deriving DecidableEq

inductive Violation where
  /-- a system call is still polling the UART -/
  | polling
  | outside
  | uninitialised
deriving DecidableEq

/-- The port, the three objects, and the other field of the reply. -/
structure Handler where
  port : SecurePort
  obj : ObjName → Obj
  additionalArgsReceivedMsgLength : Nat

abbrev HandlerM := EStateM Violation Handler

def setObj (o : ObjName) (x : Obj) : HandlerM Unit :=
  modify fun a => { a with obj := Function.update a.obj o x }

def load (o : ObjName) (i : Nat) : HandlerM UInt8 := do
  let a ← get
  if (a.obj o).size ≤ i then throw .outside
  else if !(a.obj o).init i then throw .uninitialised
  else return (a.obj o).val i

def store (o : ObjName) (i : Nat) (b : UInt8) : HandlerM Unit := do
  let a ← get
  if (a.obj o).size ≤ i then throw .outside
  else setObj o { a.obj o with
    val := Function.update (a.obj o).val i b, init := Function.update (a.obj o).init i true }

def onPort {α : Type} (m : PortM α) : HandlerM α :=
  embed Handler.port (fun p a => { a with port := p }) (fun _ => .polling) m

/-! ## String functions -/

/-- `while (*s) s++;` from `i` on.  An object has an end, so `size + 1` passes
are enough. -/
def findEnd (o : ObjName) : Nat → Nat → HandlerM Nat
  | 0, _ => throw .outside
  | n + 1, i => do
      if (← load o i) = 0 then return i else findEnd o n (i + 1)

/-- `while ((*dest++ = *src++) != '\0');` -/
def copyString (dest src : ObjName) : Nat → Nat → Nat → HandlerM Unit
  | 0, _, _ => throw .outside
  | n + 1, d, i => do
      let b ← load src i
      store dest d b
      if b = 0 then return else copyString dest src n (d + 1) (i + 1)

def strlen (o : ObjName) : HandlerM Nat := do
  findEnd o (((← get).obj o).size + 1) 0

def strcat (dest src : ObjName) : HandlerM Unit := do
  let d ← findEnd dest (((← get).obj dest).size + 1) 0
  copyString dest src (((← get).obj src).size + 1) d 0

/-- `memset(s, '\0', n)` -/
def memsetZero (o : ObjName) : Nat → HandlerM Unit
  | 0 => pure ()
  | n + 1 => do
      memsetZero o n
      store o n 0

/-! ## The handler -/

/-- `send_to_uart(DEBUG_PORT, text, 1)`: of a literal, its first byte. -/
def sendFirst (c : Char) : HandlerM Unit := onPort (securePlatformDputc (UInt8.ofNat c.toNat))

/-- `send_to_uart(DEBUG_PORT, s, 1)` -/
def sendObj (o : ObjName) : HandlerM Unit := do
  let b ← load o 0
  onPort (securePlatformDputc b)

/-- `receive_from_uart(CAMERA_PORT, s, 1)` -/
def receiveFromUart (o : ObjName) : HandlerM Int := do
  let r ← onPort (securePlatformDgetc true)
  match r.2 with
  | none => pure ()
  | some b => store o 0 b
  return r.1

/-- The loop of `receive_message_from_camera`: `found` and `size` when it ends. -/
def receiveBytes : Nat → Bool → Nat → HandlerM (Bool × Nat)
  | 0, _, _ => throw .polling
  | n + 1, found, size => do
      if (← receiveFromUart .recievedByte) = 0 then
        strcat .messageFromCamera .recievedByte
        receiveBytes n true (size + 1)
      else return (found, size)

/-- `receive_message_from_camera`, with the cell on memory that holds `heap`.
Every pass but the last takes a byte off the receive register. -/
def receiveMessageFromCamera (heap : Nat → UInt8) : HandlerM (Bool × Nat) := do
  setObj .recievedByte (.malloc 1 heap)
  let r ← receiveBytes ((← get).port.rhr.length + 1) false 0
  setObj .recievedByte .freed
  return r

/-- `send_command_to_camera`.  The command is sent with a length of 0. -/
def sendCommandToCamera (heap : Nat → UInt8) (_command : Int) : HandlerM (Bool × Nat) := do
  sendFirst 'S'
  sendFirst '5'
  sendFirst '\r'
  receiveMessageFromCamera heap

/-- `for (i = 0; i < strlen(message_from_camera); i++)`, with at most `n`
passes to go. -/
def copyResponse : Nat → Nat → HandlerM Unit
  | 0, _ => throw .outside
  | n + 1, i => do
      if (← strlen .messageFromCamera) ≤ i then return
      else
        let b ← load .messageFromCamera i
        store .cameraResponse i b
        copyResponse n (i + 1)

/-- What stands in the memory that is allocated. -/
structure Fresh where
  buffer : Nat → UInt8
  cell : Nat → UInt8
  cell' : Nat → UInt8

/-- The size of `message_from_camera` -/
def messageSize : Nat := 500

/-- `sizeof(camera_response)` -/
def responseSize : Nat := 1018 * 4

/-- What is done with a response. -/
def takeResponse (receivedSize : Nat) : HandlerM Unit := do
  sendFirst 'R'
  sendObj .messageFromCamera
  modify fun a => { a with additionalArgsReceivedMsgLength := receivedSize }
  copyResponse (messageSize + 1) 0
  sendFirst 'R'
  sendObj .cameraResponse
  sendFirst '\n'

/-- What is done when the command has been answered, or not. -/
def finish (r : Bool × Nat) : HandlerM Unit := do
  if r.1 then takeResponse r.2 else sendFirst 'F'
  sendFirst '\r'
  setObj .messageFromCamera .freed

/-- `handle_msg`, from the allocation of the receive buffer to the reply. -/
def handleMsg (fresh : Fresh) (command : Int) : HandlerM Unit := do
  setObj .messageFromCamera (.malloc messageSize fresh.buffer)
  let flushed ← receiveMessageFromCamera fresh.cell
  sendFirst (if flushed.1 then 'R' else 'F')
  memsetZero .messageFromCamera messageSize
  let r ← sendCommandToCamera fresh.cell' command
  finish r

/-- `msg_buf` is static, so all of the response has a value. -/
def start (port : SecurePort) (response : Nat → UInt8) : Handler where
  port := port
  obj
    | .cameraResponse => ⟨responseSize, response, fun _ => true⟩
    | .messageFromCamera => .freed
    | .recievedByte => .freed
  additionalArgsReceivedMsgLength := 0

/-- Every byte that is read or written is inside its object, and every byte
that is read has a value. -/
def MemorySafe (fresh : Fresh) (command : Int) (port : SecurePort) (response : Nat → UInt8) :
    Prop :=
  wp (handleMsg fresh command) (fun _ _ => True) (fun e _ => e = .polling) (start port response)

/-! ## Rules for the accesses -/

section

variable {α : Type} {E : Violation → Handler → Prop} {a t : Handler} {o : ObjName} {i n : Nat}
  {b c : UInt8} {p q : SecurePort}

@[simp] theorem wp_setObj {x : Obj} {Q : Unit → Handler → Prop} :
    wp (setObj o x) Q E a ↔ Q () { a with obj := Function.update a.obj o x } := Iff.rfl

theorem wp_load {Q : UInt8 → Handler → Prop} (hsize : i < (a.obj o).size)
    (hinit : (a.obj o).init i = true) : wp (load o i) Q E a ↔ Q ((a.obj o).val i) a := by
  rw [load, wp_bind, wp_get, wp_ite, if_neg (Nat.not_le.mpr hsize), wp_ite,
    if_neg (by simp [hinit]), wp_pure]

theorem wp_load_outside {Q : UInt8 → Handler → Prop} (hsize : (a.obj o).size ≤ i) :
    wp (load o i) Q E a ↔ E .outside a := by
  rw [load, wp_bind, wp_get, wp_ite, if_pos hsize, wp_throw]

theorem wp_load_uninitialised {Q : UInt8 → Handler → Prop} (hsize : i < (a.obj o).size)
    (hinit : (a.obj o).init i = false) : wp (load o i) Q E a ↔ E .uninitialised a := by
  rw [load, wp_bind, wp_get, wp_ite, if_neg (Nat.not_le.mpr hsize), wp_ite,
    if_pos (by simp [hinit]), wp_throw]

/-- An object with one more byte. -/
def Obj.set (x : Obj) (i : Nat) (b : UInt8) : Obj :=
  { x with val := Function.update x.val i b, init := Function.update x.init i true }

theorem wp_store {Q : Unit → Handler → Prop} (hsize : i < (a.obj o).size) :
    wp (store o i b) Q E a ↔ Q () { a with obj := Function.update a.obj o ((a.obj o).set i b) } := by
  rw [store, wp_bind, wp_get, wp_ite, if_neg (Nat.not_le.mpr hsize), wp_setObj, Obj.set]

theorem wp_onPort_ok {m : PortM α} {r : α} {Q : α → Handler → Prop} (h : m a.port = .ok r q) :
    wp (onPort m) Q E a ↔ Q r { a with port := q } := by
  rw [onPort, wp_embed, wp, h]

/-- Whatever the port does, the objects are as they were. -/
theorem wp_onPort {m : PortM α} {Q : α → Handler → Prop}
    (hQ : ∀ r q, m a.port = .ok r q → Q r { a with port := q })
    (hE : ∀ q, E .polling { a with port := q }) : wp (onPort m) Q E a := by
  rw [onPort, wp_embed, wp]
  cases hm : m a.port with
  | ok r q => exact hQ r q hm
  | error e q => exact hE q

/-! ## Appending the cell -/

/-- The buffer holds the empty string, and the response is there. -/
structure Blank (a : Handler) : Prop where
  size : (a.obj .messageFromCamera).size = messageSize
  init : (a.obj .messageFromCamera).init 0 = true
  val : (a.obj .messageFromCamera).val 0 = 0
  response : 0 < (a.obj .cameraResponse).size
  responseInit : (a.obj .cameraResponse).init 0 = true

/-- The cell holds `b`. -/
structure Cell (b : UInt8) (a : Handler) : Prop where
  size : (a.obj .recievedByte).size = 1
  init : (a.obj .recievedByte).init 0 = true
  val : (a.obj .recievedByte).val 0 = b

theorem Blank.wp_findEnd (h : Blank a) {Q : Nat → Handler → Prop} :
    wp (findEnd .messageFromCamera (n + 1) 0) Q E a ↔ Q 0 a := by
  rw [findEnd, wp_bind, wp_load (by rw [h.size]; decide) h.init, wp_ite, if_pos h.val, wp_pure]

/-- A byte that is zero leaves the string empty. -/
theorem Blank.wp_strcat_zero (h : Blank a) (hcell : Cell 0 a) :
    wp (strcat .messageFromCamera .recievedByte)
      (fun _ t => Blank t ∧ (t.obj .recievedByte).size = 1 ∧ t.port = a.port) E a := by
  rw [strcat, wp_bind, wp_get, wp_bind, h.wp_findEnd, wp_bind, wp_get, copyString, wp_bind,
    wp_load (by rw [hcell.size]; decide) hcell.init, wp_bind, wp_store (by rw [h.size]; decide),
    wp_ite, if_pos hcell.val, wp_pure]
  refine ⟨⟨h.size, ?_, ?_, h.response, h.responseInit⟩, hcell.size, rfl⟩
  · simp [Obj.set]
  · simp [Obj.set, hcell.val]

/-- Any other byte has no terminator behind it. -/
theorem Blank.wp_strcat_nonzero (h : Blank a) (hcell : Cell b a) (hb : b ≠ 0) :
    wp (strcat .messageFromCamera .recievedByte) (fun _ _ => False) (fun e _ => e = .outside) a := by
  rw [strcat, wp_bind, wp_get, wp_bind, h.wp_findEnd, wp_bind, wp_get, copyString, wp_bind,
    wp_load (by rw [hcell.size]; decide) hcell.init, wp_bind, wp_store (by rw [h.size]; decide),
    wp_ite, if_neg (by rw [hcell.val]; exact hb), hcell.size, copyString, wp_bind,
    wp_load_outside]
  exact Nat.le_of_eq hcell.size

/-- In a buffer that was allocated and not written, no terminator is looked for. -/
theorem wp_strcat_fresh (hsize : 0 < (a.obj .messageFromCamera).size)
    (hinit : (a.obj .messageFromCamera).init 0 = false) :
    wp (strcat .messageFromCamera .recievedByte) (fun _ _ => False)
      (fun e _ => e = .uninitialised) a := by
  rw [strcat, wp_bind, wp_get, wp_bind, findEnd, wp_bind, wp_load_uninitialised hsize hinit]

theorem wp_receiveFromUart_fails (h : securePlatformDgetc true a.port = .ok (-1, none) q)
    {Q : Int → Handler → Prop} :
    wp (receiveFromUart o) Q E a ↔ Q (-1) { a with port := q } := by
  rw [receiveFromUart, wp_bind, wp_onPort_ok h]
  rfl

theorem wp_receiveFromUart_byte (h : securePlatformDgetc true a.port = .ok (0, some b) q)
    (hsize : 0 < (a.obj o).size) {Q : Int → Handler → Prop} :
    wp (receiveFromUart o) Q E a ↔ Q 0
      { a with port := q, obj := Function.update a.obj o ((a.obj o).set 0 b) } := by
  rw [receiveFromUart, wp_bind, wp_onPort_ok h]
  dsimp only
  rw [wp_bind]
  exact wp_store hsize

/-! ## The loop on an empty string -/

/-- From `p` the UART delivers the bytes, and is in `q` then. -/
inductive Receives : SecurePort → List UInt8 → SecurePort → Prop
  | nil (p : SecurePort) : Receives p [] p
  | cons {p t q : SecurePort} {b : UInt8} {bs : List UInt8} :
      securePlatformDgetc true p = .ok (0, some b) t → Receives t bs q → Receives p (b :: bs) q

theorem Receives.length_le {bs : List UInt8} (h : Receives p bs q) : bs.length ≤ p.rhr.length := by
  induction h with
  | nil p => exact Nat.zero_le _
  | @cons p t q b bs hget _ ih =>
      have hspec := wp_ok (wp_securePlatformDgetc true p) hget
      have hrhr : p.rhr = b :: t.rhr := by
        cases hw : byteWaiting p true with
        | true => simpa [hw] using hspec.2.2
        | false => simp [hw] at hspec
      rw [hrhr]
      exact Nat.succ_le_succ ih

/-- A receive hands over a byte, or fails, or does not return. -/
theorem dgetc_cases (p : SecurePort) :
    (∃ b q, securePlatformDgetc true p = .ok (0, some b) q) ∨
      (∃ q, securePlatformDgetc true p = .ok (-1, none) q) ∨
      ∃ e q, securePlatformDgetc true p = .error e q := by
  cases hget : securePlatformDgetc true p with
  | error e q => exact .inr (.inr ⟨e, q, rfl⟩)
  | ok r q =>
      have hspec := wp_ok (wp_securePlatformDgetc true p) hget
      cases hw : byteWaiting p true with
      | true =>
          rw [hw] at hspec
          obtain ⟨b, rfl, _⟩ := hspec.2.2
          exact .inl ⟨b, q, rfl⟩
      | false =>
          rw [hw] at hspec
          obtain ⟨rfl, _⟩ := hspec.2.2
          exact .inr (.inl ⟨q, rfl⟩)

/-- The cell, after a byte was received. -/
theorem Blank.received (h : Blank a) : Blank { a with
    port := q, obj := Function.update a.obj .recievedByte ((a.obj .recievedByte).set 0 b) } :=
  ⟨h.size, h.init, h.val, h.response, h.responseInit⟩

theorem cell_received (hcell : (a.obj .recievedByte).size = 1) : Cell b { a with
    port := q, obj := Function.update a.obj .recievedByte ((a.obj .recievedByte).set 0 b) } := by
  constructor
  · simpa [Obj.set] using hcell
  · simp [Obj.set]
  · simp [Obj.set]

/-- Zero bytes only: the string stays empty. -/
theorem Blank.wp_receiveBytes (h : Blank a) (hcell : (a.obj .recievedByte).size = 1)
    (hzero : ∀ bs q, Receives a.port bs q → ∀ c ∈ bs, c = 0) (n : Nat) {found : Bool} {size : Nat} :
    wp (receiveBytes n found size) (fun _ t => Blank t) (fun e _ => e = .polling) a := by
  induction n generalizing a found size with
  | zero => exact rfl
  | succ n ih =>
      rw [receiveBytes, wp_bind]
      rcases dgetc_cases a.port with ⟨b, q, hget⟩ | ⟨q, hget⟩ | ⟨e, q, hget⟩
      · rw [wp_receiveFromUart_byte hget (by rw [hcell]; decide), wp_ite, if_pos rfl]
        have hb : b = 0 := hzero [b] q (.cons hget (.nil q)) b (List.mem_cons_self ..)
        subst hb
        refine wp_seq (h.received.wp_strcat_zero (cell_received hcell)) ?_
        rintro _ t ⟨hblank, hsize, hport⟩
        apply ih hblank hsize
        intro bs q' hbs c hc
        rw [hport] at hbs
        exact hzero _ q' (.cons hget hbs) c (List.mem_cons_of_mem _ hc)
      · rw [wp_receiveFromUart_fails hget, wp_ite, if_neg (by decide), wp_pure]
        exact ⟨h.size, h.init, h.val, h.response, h.responseInit⟩
      · rw [receiveFromUart, wp_bind, onPort, wp_embed, wp, hget]

/-- A byte that is not zero: its terminator is looked for behind the cell. -/
theorem Blank.wp_receiveBytes_nonzero (h : Blank a) (hcell : (a.obj .recievedByte).size = 1)
    {bs : List UInt8} (hbs : Receives a.port bs q) (hc : c ∈ bs) (hne : c ≠ 0)
    (hn : bs.length ≤ n) {found : Bool} {size : Nat} :
    wp (receiveBytes n found size) (fun _ _ => False) (fun e _ => e = .outside) a := by
  induction bs generalizing a n found size with
  | nil => cases hc
  | cons b bs ih =>
      cases n with
      | zero => exact absurd hn (Nat.not_succ_le_zero _)
      | succ n =>
          cases hbs with
          | @cons _ t _ _ _ hget hrest =>
              rw [receiveBytes, wp_bind, wp_receiveFromUart_byte hget (by rw [hcell]; decide),
                wp_ite, if_pos rfl, wp_bind]
              by_cases hb : b = 0
              · subst hb
                refine wp_conseq (h.received.wp_strcat_zero (cell_received hcell)) ?_
                rintro _ t' ⟨hblank, hsize, hport⟩
                have hmem : c ∈ bs := by
                  rcases List.mem_cons.mp hc with heq | hmem
                  · exact absurd heq hne
                  · exact hmem
                apply ih hblank hsize _ hmem (Nat.le_of_succ_le_succ hn)
                rw [hport]
                exact hrest
              · refine wp_mono (h.received.wp_strcat_nonzero (cell_received hcell) hb) ?_ ?_
                · intro _ _ hfalse
                  exact hfalse.elim
                · intro e _ he
                  exact he

/-! ## The handler -/

theorem Blank.withPort (h : Blank a) (q : SecurePort) : Blank { a with port := q } :=
  ⟨h.size, h.init, h.val, h.response, h.responseInit⟩

theorem Blank.setCell (h : Blank a) (x : Obj) :
    Blank { a with obj := Function.update a.obj .recievedByte x } :=
  ⟨h.size, h.init, h.val, h.response, h.responseInit⟩

theorem wp_memsetZero (hsize : n ≤ (a.obj o).size) :
    wp (memsetZero o n) (fun _ t => t.port = a.port ∧ (∀ o', o' ≠ o → t.obj o' = a.obj o') ∧
      (t.obj o).size = (a.obj o).size ∧ ∀ k, k < n →
        (t.obj o).init k = true ∧ (t.obj o).val k = 0) E a := by
  induction n with
  | zero =>
      refine ⟨rfl, fun _ _ => rfl, rfl, ?_⟩
      intro k hk
      exact absurd hk (Nat.not_lt_zero k)
  | succ n ih =>
      rw [memsetZero, wp_bind]
      refine wp_conseq (ih (Nat.le_of_succ_le hsize)) ?_
      rintro _ t ⟨hport, hothers, hsame, hset⟩
      rw [wp_store (by rw [hsame]; exact hsize)]
      refine ⟨hport, ?_, ?_, ?_⟩
      · intro o' ho'
        exact (Function.update_of_ne ho' _ _).trans (hothers o' ho')
      · simpa [Obj.set] using hsame
      · intro k hk
        by_cases heq : k = n
        · simp [Obj.set, heq]
        · simpa [Obj.set, heq] using hset k (by omega)

theorem Blank.wp_receive (h : Blank a) (hzero : ∀ bs q, Receives a.port bs q → ∀ c ∈ bs, c = 0)
    (heap : Nat → UInt8) :
    wp (receiveMessageFromCamera heap) (fun _ t => Blank t) (fun e _ => e = .polling) a := by
  rw [receiveMessageFromCamera, wp_bind, wp_setObj, wp_bind, wp_get, wp_bind]
  refine wp_conseq ((h.setCell _).wp_receiveBytes (by simp [Obj.malloc]) hzero _) ?_
  intro r t ht
  exact ht.setCell _

theorem Blank.wp_receive_nonzero (h : Blank a) {bs : List UInt8} (hbs : Receives a.port bs q)
    (hc : c ∈ bs) (hne : c ≠ 0) (heap : Nat → UInt8) :
    wp (receiveMessageFromCamera heap) (fun _ _ => False) (fun e _ => e = .outside) a := by
  rw [receiveMessageFromCamera, wp_bind, wp_setObj, wp_bind, wp_get, wp_bind]
  refine wp_conseq ((h.setCell _).wp_receiveBytes_nonzero (by simp [Obj.malloc]) hbs hc hne
    (Nat.le_succ_of_le hbs.length_le)) ?_
  intro r t hfalse
  exact hfalse.elim

/-- What follows the command reads the first byte of two objects. -/
theorem Blank.wp_finish (h : Blank a) (r : Bool × Nat) :
    wp (finish r) (fun _ _ => True) (fun e _ => e = .polling) a := by
  have hsend : ∀ {m : PortM Unit} {t : Handler}, Blank t →
      wp (onPort m) (fun _ t' => Blank t') (fun e _ => e = .polling) t := by
    intro m t ht
    exact wp_onPort (fun _ q _ => ht.withPort q) (fun _ => rfl)
  have hend : ∀ {t : Handler}, Blank t →
      wp (sendFirst '\r' >>= fun _ => setObj .messageFromCamera .freed) (fun _ _ => True)
        (fun e _ => e = .polling) t := fun ht => wp_seq (hsend ht) fun _ _ _ => trivial
  rw [finish, wp_ite]
  split
  · rw [wp_bind, takeResponse]
    refine wp_seq (hsend h) fun _ t ht => ?_
    rw [wp_bind, sendObj, wp_bind, wp_load (by rw [ht.size]; decide) ht.init]
    refine wp_conseq (hsend ht) fun _ t ht => ?_
    rw [wp_bind, wp_modify, wp_bind]
    have ht' : Blank { t with additionalArgsReceivedMsgLength := r.2 } :=
      ⟨ht.size, ht.init, ht.val, ht.response, ht.responseInit⟩
    -- the string is empty, so nothing is copied
    rw [copyResponse, wp_bind, strlen, wp_bind, wp_get, ht'.wp_findEnd, wp_ite, if_pos (Nat.le_refl 0),
      wp_pure]
    refine wp_seq (hsend ht') fun _ t ht => ?_
    rw [wp_bind, sendObj, wp_bind, wp_load ht.response ht.responseInit]
    refine wp_conseq (hsend ht) fun _ t ht => ?_
    exact wp_conseq (hsend ht) fun _ t ht => hend ht
  · exact wp_seq (hsend h) fun _ t ht => hend ht

/-- A flush that receives nothing. -/
theorem wp_flush {heap : Nat → UInt8} (h : securePlatformDgetc true a.port = .ok (-1, none) q) :
    wp (receiveMessageFromCamera heap) (fun r t => r.1 = false ∧ t.port = q ∧
      ∀ o, o ≠ .recievedByte → t.obj o = a.obj o) E a := by
  rw [receiveMessageFromCamera, wp_bind, wp_setObj, wp_bind, wp_get, wp_bind, receiveBytes, wp_bind]
  refine (@wp_receiveFromUart_fails _ _ _ q ?_ _).mpr ?_
  · exact h
  rw [wp_ite, if_neg (by decide), wp_pure, wp_bind, wp_setObj, wp_pure]
  refine ⟨rfl, rfl, ?_⟩
  intro o ho
  exact (Function.update_of_ne ho _ _).trans (Function.update_of_ne ho _ _)

/-- A flush that does not return. -/
theorem wp_flush_error {heap : Nat → UInt8} {e : Polling} {Q : Bool × Nat → Handler → Prop}
    (h : securePlatformDgetc true a.port = .error e q) :
    wp (receiveMessageFromCamera heap) Q (fun e _ => e = .polling) a := by
  rw [receiveMessageFromCamera, wp_bind, wp_setObj, wp_bind, wp_get, wp_bind, receiveBytes, wp_bind,
    receiveFromUart, wp_bind]
  refine wp_onPort ?_ fun _ => rfl
  intro r q' hget
  have hno := h.symm.trans hget
  cases hno

/-- A flush that receives a byte. -/
theorem wp_flush_byte {heap : Nat → UInt8}
    (h : securePlatformDgetc true a.port = .ok (0, some b) q)
    (hsize : 0 < (a.obj .messageFromCamera).size)
    (hinit : (a.obj .messageFromCamera).init 0 = false) :
    wp (receiveMessageFromCamera heap) (fun _ _ => False) (fun e _ => e = .uninitialised) a := by
  rw [receiveMessageFromCamera, wp_bind, wp_setObj, wp_bind, wp_get, wp_bind, receiveBytes, wp_bind]
  refine (@wp_receiveFromUart_byte _ _ _ b q ?_ (by simp [Obj.malloc]) _).mpr ?_
  · exact h
  rw [wp_ite, if_pos rfl, wp_bind]
  refine wp_conseq (wp_strcat_fresh ?_ ?_) ?_
  · exact hsize
  · exact hinit
  · intro _ _ hfalse
    exact hfalse.elim

/-- What is sent between the flush and the reply. -/
def beforeReply (found : Bool) : PortM Unit := do
  securePlatformDputc (UInt8.ofNat (if found then 'R' else 'F').toNat)
  securePlatformDputc (UInt8.ofNat 'S'.toNat)
  securePlatformDputc (UInt8.ofNat '5'.toNat)
  securePlatformDputc (UInt8.ofNat '\r'.toNat)

/-- The flush receives nothing, and the reply has only zero bytes. -/
def CleanStream (port : SecurePort) : Prop :=
  (∀ b q, securePlatformDgetc true port ≠ .ok (0, some b) q) ∧
    ∀ p₁ p₂ bs q, securePlatformDgetc true port = .ok (-1, none) p₁ →
      beforeReply false p₁ = .ok () p₂ → Receives p₂ bs q → ∀ c ∈ bs, c = 0

/-- When the flush receives nothing, the handler comes to the reply with an
empty string, or is still sending. -/
theorem wp_handleMsg {fresh : Fresh} {command : Int} {port p₁ : SecurePort}
    {response : Nat → UInt8} {Q : Unit → Handler → Prop}
    (hflush : securePlatformDgetc true port = .ok (-1, none) p₁)
    (hreply : ∀ a, Blank a → beforeReply false p₁ = .ok () a.port →
      wp (receiveMessageFromCamera fresh.cell' >>= finish) Q E a)
    (hE : ∀ t, (∃ e q, beforeReply false p₁ = .error e q) → E .polling t) :
    wp (handleMsg fresh command) Q E (start port response) := by
  have hsend : ∀ {c : Char} {a : Handler} {R : Unit → Handler → Prop},
      (∀ q, securePlatformDputc (UInt8.ofNat c.toNat) a.port = .ok () q → R () { a with port := q }) →
      (∀ e q, securePlatformDputc (UInt8.ofNat c.toNat) a.port = .error e q →
        ∃ e q, beforeReply false p₁ = .error e q) →
      wp (sendFirst c) R E a := by
    intro c a R hR herr
    rw [sendFirst, onPort, wp_embed, wp]
    cases hput : securePlatformDputc (UInt8.ofNat c.toNat) a.port with
    | ok r q => exact hR q hput
    | error e q => exact hE _ (herr e q hput)
  rw [handleMsg, wp_bind, wp_setObj]
  have hpos : 0 < messageSize := by decide
  -- the passes of `memset` are not unfolded
  generalize hm : messageSize = size at hpos ⊢
  refine wp_seq (wp_flush hflush) ?_
  rintro r t₁ ⟨hfound, hport, hobj⟩
  have hbuffer : (t₁.obj .messageFromCamera).size = size := by
    rw [hobj _ (by decide)]
    simp [Obj.malloc]
  have hresponse : t₁.obj .cameraResponse = ⟨responseSize, response, fun _ => true⟩ := by
    rw [hobj _ (by decide)]
    rfl
  subst hport
  rw [hfound]
  refine (wp_bind _ _).mpr (hsend ?_ ?_)
  · intro q₁ h₁
    refine wp_seq (wp_memsetZero (Nat.le_of_eq hbuffer.symm)) ?_
    rintro _ t₂ ⟨hport₂, hothers, hsize, hset⟩
    have hblank : Blank t₂ := by
      obtain ⟨hinit, hval⟩ := hset 0 hpos
      refine ⟨(hsize.trans hbuffer).trans hm.symm, hinit, hval, ?_, ?_⟩
      · rw [hothers _ (by decide)]
        show 0 < (t₁.obj .cameraResponse).size
        rw [hresponse]
        exact Nat.succ_pos _
      · rw [hothers _ (by decide)]
        show (t₁.obj .cameraResponse).init 0 = true
        rw [hresponse]
    have hport₁ : t₂.port = q₁ := hport₂
    rw [sendCommandToCamera, wp_bind, wp_bind]
    refine hsend ?_ ?_
    · intro q₂ h₂
      rw [hport₁] at h₂
      rw [wp_bind]
      refine hsend ?_ ?_
      · intro q₃ h₃
        have h5 : securePlatformDputc (UInt8.ofNat '5'.toNat) q₂ = .ok () q₃ := h₃
        rw [wp_bind]
        refine hsend ?_ ?_
        · intro q₄ h₄
          have hcr : securePlatformDputc (UInt8.ofNat '\r'.toNat) q₃ = .ok () q₄ := h₄
          refine (wp_bind _ _).mp (hreply _ (((hblank.withPort q₂).withPort q₃).withPort q₄) ?_)
          simp only [beforeReply, run_bind, h₁, h₂, h5, hcr]
        · intro e q herr
          have hcr : securePlatformDputc (UInt8.ofNat '\r'.toNat) q₃ = .error e q := herr
          exact ⟨e, q, by simp only [beforeReply, run_bind, h₁, h₂, h5, hcr]⟩
      · intro e q herr
        have h5 : securePlatformDputc (UInt8.ofNat '5'.toNat) q₂ = .error e q := herr
        exact ⟨e, q, by simp only [beforeReply, run_bind, h₁, h₂, h5]⟩
    · intro e q herr
      rw [hport₁] at herr
      exact ⟨e, q, by simp only [beforeReply, run_bind, h₁, herr]⟩
  · intro e q herr
    exact ⟨e, q, by rw [beforeReply, run_bind, herr]⟩

/-- A byte that is flushed. -/
theorem wp_handleMsg_byte {fresh : Fresh} {command : Int} {port : SecurePort}
    {response : Nat → UInt8} (hget : securePlatformDgetc true port = .ok (0, some b) q) :
    wp (handleMsg fresh command) (fun _ _ => False) (fun e _ => e = .uninitialised)
      (start port response) := by
  rw [handleMsg, wp_bind, wp_setObj, wp_bind]
  refine wp_conseq (@wp_flush_byte _ b q fresh.cell ?_ ?_ ?_) ?_
  · exact hget
  · simp [Obj.malloc, messageSize]
  · simp [Obj.malloc]
  · intro _ _ hfalse
    exact hfalse.elim

/-- A run that is safe, and one that is not. -/
theorem not_safe {m : HandlerM Unit} {v : Violation} (hv : v ≠ .polling)
    (h : wp m (fun _ _ => True) (fun e _ => e = .polling) a)
    (h' : wp m (fun _ _ => False) (fun e _ => e = v) a) : False := by
  have hboth := wp_and h h'
  rw [wp] at hboth
  cases hm : m a with
  | ok r t =>
      rw [hm] at hboth
      exact hboth.2
  | error e t =>
      rw [hm] at hboth
      exact hv (hboth.2.symm.trans hboth.1)

/-- The handler is safe exactly when it receives nothing to flush and only zero
bytes as a reply. -/
theorem handleMsg_safe_iff (fresh : Fresh) (command : Int) (port : SecurePort)
    (response : Nat → UInt8) :
    MemorySafe fresh command port response ↔ CleanStream port := by
  constructor
  · intro h
    refine ⟨?_, ?_⟩
    · intro b q hget
      exact not_safe (by decide) h (wp_handleMsg_byte hget)
    · intro p₁ p₂ bs q hflush hsend hbs c hc
      by_contra hne
      refine @not_safe _ _ .outside (by decide) h (wp_handleMsg hflush ?_ ?_)
      · intro a hblank hport
        rw [hsend] at hport
        cases hport
        rw [wp_bind]
        refine wp_conseq (hblank.wp_receive_nonzero hbs hc hne _) ?_
        intro _ _ hfalse
        exact hfalse.elim
      · rintro t ⟨e, q', herr⟩
        rw [hsend] at herr
        cases herr
  · rintro ⟨hfirst, hzero⟩
    rcases dgetc_cases port with ⟨b, q, hget⟩ | ⟨q, hget⟩ | ⟨e, q, hget⟩
    · exact absurd hget (hfirst b q)
    · refine wp_handleMsg hget ?_ ?_
      · intro a hblank hsend
        refine wp_seq (hblank.wp_receive ?_ _) ?_
        · intro bs q' hbs
          exact hzero q a.port bs q' hget hsend hbs
        · intro r t ht
          exact ht.wp_finish r
      · intro t _
        rfl
    · rw [MemorySafe, handleMsg, wp_bind, wp_setObj, wp_bind]
      exact wp_flush_error hget

end

/-- An enabled port that delivers one byte at once, and then nothing. -/
def oneByte (b : UInt8) : SecurePort :=
  (SecurePort.initial [1] [b] [0] []).enable

/-- A byte that is flushed is appended to a buffer without a value. -/
theorem oneByte_not_safe :
    ¬∀ (fresh : Fresh) (command : Int) (port : SecurePort) (response : Nat → UInt8),
      MemorySafe fresh command port response := by
  intro h
  have hsafe := h ⟨fun _ => 0, fun _ => 0, fun _ => 0⟩ 0 (oneByte 0x76) (fun _ => 0)
  have hget : securePlatformDgetc true (oneByte 0x76) = .ok (0, some 0x76)
      { oneByte 0x76 with lsr := [], rhr := [], clock := [] } := by decide +kernel
  exact not_safe (by decide) hsafe (wp_handleMsg_byte hget)

end TX2SecureUart.Camera.Memory
