/-
# `Camera.Receive` — collecting a reply of the camera

`receive_message_from_camera` of `camera_communication.c`.  The application
asks `receive_from_uart` for one byte at a time, each into the same one-byte
heap cell, and appends the cell to the caller's buffer with `strcat`.

`Delivers p b p'` is the hardware's side: starting from the port `p`, the
bytes `b` are received and then a receive fails, in `p'`.  What the buffer
holds afterwards is `b` without its zero bytes, so the reply is stored as it
was delivered exactly when all its zero bytes come last
(`receiveMessageFromCamera_stores_iff`).
-/
import TX2SecureUart.Lib.CString
import TX2SecureUart.Uart.Syscall

namespace TX2SecureUart.Camera

open Prog UserSpace Uart CString

/-! ## The program -/

inductive Stop where
  /-- a system call is still polling the UART -/
  | polling
  /-- `strcat` left the caller's buffer -/
  | overrun
deriving DecidableEq

/-- The kernel, with the application's heap cell in its memory, and the
caller's buffer. -/
structure App where
  kernel : Kernel
  receivedMsgFromCam : List UInt8

abbrev AppM := EStateM Stop App

def onKernel {α : Type} (m : KernelM α) : AppM α := fun a =>
  match m a.kernel with
  | .ok r k => .ok r { a with kernel := k }
  | .error _ k => .error .polling { a with kernel := k }

/-- `CAMERA_PORT` -/
def cameraPort : UInt32 := 3

/-- `strcat(received_msg_from_cam, recieved_byte)` -/
def appendCell (cell : Vaddr) : AppM Unit := do
  let a ← get
  match strcat a.receivedMsgFromCam (fun i => a.kernel.mem (cell + UInt64.ofNat i)) with
  | none => throw .overrun
  | some buffer => set { a with receivedMsgFromCam := buffer }

/-- The loop of `receive_message_from_camera`: `found` and `size` when it ends. -/
def receiveLoop (cell : Vaddr) : Nat → Bool → Nat → AppM (Bool × Nat)
  | 0, _, _ => throw .polling
  | n + 1, found, size => do
      let status ← onKernel (sysReceiveFromUart cameraPort cell 1)
      if status = 0 then
        appendCell cell
        receiveLoop cell n true (size + 1)
      else pure (found, size)

/-- `receive_message_from_camera`, with `cell` the address `malloc` returned:
the result, and what is stored in `*size_of_message`.  Every pass but the last
takes a value off the receive register, which bounds the loop. -/
def receiveMessageFromCamera (cell : Vaddr) : AppM (Bool × Nat) := do
  let a ← get
  receiveLoop cell (a.kernel.port.rhr.length + 1) false 0

/-! ## The delivered bytes -/

/-- From `p` the UART delivers the bytes, then a receive fails. -/
inductive Delivers : SecurePort → List UInt8 → SecurePort → Prop
  | fails {p q : SecurePort} :
      securePlatformDgetc true p = .ok (-1, none) q → Delivers p [] q
  | byte {p t q : SecurePort} {c : UInt8} {b : List UInt8} :
      securePlatformDgetc true p = .ok (0, some c) t → Delivers t b q → Delivers p (c :: b) q

theorem Delivers.length_le : ∀ {p : SecurePort} {b : List UInt8} {q : SecurePort},
    Delivers p b q → b.length ≤ p.rhr.length
  | _, _, _, .fails _ => Nat.zero_le _
  | p, c :: b, _, .byte (t := p') hget hrest => by
      have hspec := wp_ok (wp_securePlatformDgetc true p) hget
      have hrhr : p.rhr = c :: p'.rhr := by
        cases hw : byteWaiting p true with
        | true => simpa [hw] using hspec.2.2
        | false => simp [hw] at hspec
      have ih := hrest.length_le
      rw [hrhr]
      exact Nat.succ_le_succ ih

/-- The bytes an append through a one-byte C string keeps. -/
def nonzeros (b : List UInt8) : List UInt8 := b.filter (· ≠ 0)

theorem cstringAt_cell {s : Nat → UInt8} : cstringAt s 1 = nonzeros [s 0] := by
  by_cases h : s 0 = 0 <;> simp [cstringAt, nonzeros, h]

theorem nonzeros_cons (c : UInt8) (b : List UInt8) :
    nonzeros (c :: b) = nonzeros [c] ++ nonzeros b := by
  rw [← List.singleton_append, nonzeros, List.filter_append]
  rfl

theorem length_nonzeros_le (b : List UInt8) : (nonzeros b).length ≤ b.length :=
  List.length_filter_le _ _

/-! ## The loop -/

/-- Appending the cell, when the byte after it is zero. -/
theorem appendCell_eq {cell : Vaddr} {k : Kernel} {s : List UInt8} {n : Nat}
    (hnext : k.mem (cell + 1) = 0) (hs : ∀ c ∈ s, c ≠ 0)
    (hroom : (nonzeros [k.mem cell]).length ≤ n) :
    appendCell cell ⟨k, s ++ 0 :: List.replicate n 0⟩ =
      .ok () ⟨k, s ++ nonzeros [k.mem cell] ++
        0 :: List.replicate (n - (nonzeros [k.mem cell]).length) 0⟩ := by
  have hcell : cstringAt (fun i => k.mem (cell + UInt64.ofNat i)) 1 = nonzeros [k.mem cell] := by
    rw [cstringAt_cell]
    simp
  have hend : k.mem (cell + UInt64.ofNat (nonzeros [k.mem cell]).length) = 0 := by
    by_cases h0 : k.mem cell = 0
    · simp [nonzeros, h0]
    · simpa [nonzeros, h0] using hnext
  have happ := @strcat_eq 1 (fun i => k.mem (cell + UInt64.ofNat i))
    (List.replicate n 0) (by rw [hcell]; exact hend)
    (by rw [hcell, List.length_replicate]; exact hroom) s hs
  rw [hcell] at happ
  simp only [appendCell, run_bind, run_get, happ, List.drop_replicate]
  rfl

theorem cell_ne_next (cell : Vaddr) : cell + 1 ≠ cell := by
  intro h
  have := congrArg UInt64.toNat h
  have hlt := cell.toNat_lt
  simp at this
  omega

/-- The loop started with `s` in the buffer and room for the delivered bytes:
it ends, with the non-zero bytes appended and every byte counted. -/
theorem receiveLoop_eq {cell : Vaddr} :
    ∀ {b : List UInt8} {q : SecurePort} {fuel : Nat} {found : Bool} {size n : Nat} {k : Kernel}
      {s : List UInt8},
      Delivers k.port b q → b.length < fuel → k.mem (cell + 1) = 0 → (∀ c ∈ s, c ≠ 0) →
      b.length ≤ n →
      ∃ k', receiveLoop cell fuel found size ⟨k, s ++ 0 :: List.replicate n 0⟩ =
        .ok (found || !b.isEmpty, size + b.length)
          ⟨k', s ++ nonzeros b ++ 0 :: List.replicate (n - (nonzeros b).length) 0⟩
  | _, _, 0, _, _, _, _, _, _, hfuel, _, _, _ => absurd hfuel (Nat.not_lt_zero _)
  | [], q, fuel + 1, found, size, n, k, s, .fails hget, _, _, _, _ => by
      have hsys : sysReceiveFromUart cameraPort cell 1 k = .ok (-1) { k with port := q } := by
        simp [sysReceiveFromUart_eq, hget]
      refine ⟨{ k with port := q }, ?_⟩
      simp [receiveLoop, run_bind, onKernel, hsys, run_pure, nonzeros]
  | c :: b, q, fuel + 1, found, size, n, k, s, .byte (t := p) hget hrest, hfuel, hnext, hs,
      hroom => by
      simp only [List.length_cons] at hfuel hroom
      -- the cell now holds `c`; the byte after it is another one
      have hsys : sysReceiveFromUart cameraPort cell 1 k = .ok 0
          ⟨p, Function.update k.mem cell c, k.accesses ++ [Access.write cell]⟩ := by
        simp [sysReceiveFromUart_eq, hget]
      have hc : (nonzeros [c]).length ≤ 1 := length_nonzeros_le [c]
      have happ := @appendCell_eq cell
        ⟨p, Function.update k.mem cell c, k.accesses ++ [Access.write cell]⟩ s n
        (by simpa [Function.update_of_ne (cell_ne_next cell)] using hnext) hs
        (by simp only [Function.update_self]; omega)
      simp only [Function.update_self] at happ
      have hs' : ∀ d ∈ s ++ nonzeros [c], d ≠ 0 := by
        intro d hd
        rcases List.mem_append.mp hd with hd | hd
        · exact hs d hd
        · simpa using (List.mem_filter.mp hd).2
      obtain ⟨k', ih⟩ := @receiveLoop_eq cell b q fuel true (size + 1)
        (n - (nonzeros [c]).length)
        ⟨p, Function.update k.mem cell c, k.accesses ++ [Access.write cell]⟩ _
        hrest (Nat.lt_of_succ_lt_succ hfuel)
        (by simpa [Function.update_of_ne (cell_ne_next cell)] using hnext) hs' (by omega)
      refine ⟨k', ?_⟩
      simp only [receiveLoop, run_bind, onKernel, hsys, if_true, happ, ih]
      rw [nonzeros_cons c b, List.append_assoc, List.append_assoc, List.length_append,
        Nat.sub_sub]
      simp [Nat.add_assoc, Nat.add_comm 1]

/-! ## What the caller finds -/

/-- A zero byte is followed by zero bytes only. -/
def ZerosLast (b : List UInt8) : Prop := b.Pairwise (fun c d => c = 0 → d = 0)

theorem nonzeros_eq_nil {b : List UInt8} : nonzeros b = [] ↔ ∀ c ∈ b, c = 0 := by
  simp [nonzeros, List.filter_eq_nil_iff]

/-- The non-zero bytes, padded with zeros, begin with `b` itself exactly when
its zero bytes come last. -/
theorem take_nonzeros_iff :
    ∀ {b : List UInt8} {m : Nat}, b.length ≤ (nonzeros b).length + m →
      ((nonzeros b ++ List.replicate m 0).take b.length = b ↔ ZerosLast b)
  | [], _, _ => by simp [ZerosLast]
  | c :: b, m, hm => by
      by_cases hc : c = 0
      · subst hc
        have hnz : nonzeros (0 :: b) = nonzeros b := by simp [nonzeros]
        rw [hnz] at hm ⊢
        constructor
        · intro htake
          cases hb : nonzeros b with
          | nil =>
              have hall := nonzeros_eq_nil.mp hb
              refine List.pairwise_cons.mpr ⟨fun d hd _ => hall d hd, ?_⟩
              exact List.pairwise_of_forall_mem_list fun d _ e he _ => hall e he
          | cons d ds =>
              have hd : d ∈ nonzeros b := hb ▸ List.mem_cons_self
              rw [hb] at htake
              have hd0 : d = 0 := by simpa using (List.cons.inj htake).1
              exact absurd hd0 (by simpa using (List.mem_filter.mp hd).2)
        · intro hlast
          have hall : ∀ d ∈ b, d = 0 := fun d hd => (List.pairwise_cons.mp hlast).1 d hd rfl
          rw [nonzeros_eq_nil.mpr hall] at hm ⊢
          simp only [List.length_nil, Nat.zero_add, List.length_cons] at hm
          have hb : b = List.replicate b.length 0 := List.eq_replicate_of_mem hall
          rw [List.nil_append, List.take_replicate, List.length_cons, Nat.min_eq_left hm,
            List.replicate_succ, ← hb]
      · have hnz : nonzeros (c :: b) = c :: nonzeros b := by simp [nonzeros, hc]
        rw [hnz] at hm ⊢
        have hm' : b.length ≤ (nonzeros b).length + m := by
          simp only [List.length_cons] at hm
          omega
        have ih := take_nonzeros_iff hm'
        simp only [List.cons_append, List.length_cons, List.take_succ_cons, List.cons.injEq,
          true_and, ih, ZerosLast, List.pairwise_cons, hc, false_implies, implies_true]

/-- The call returns with the delivered bytes in front of the buffer, counts
them, and says whether there were any. -/
def StoresReply (cell : Vaddr) (k : Kernel) (b : List UInt8) : Prop :=
  ∃ found size a, receiveMessageFromCamera cell ⟨k, List.replicate 500 0⟩ = .ok (found, size) a ∧
    a.receivedMsgFromCam.take b.length = b ∧ size = b.length ∧ (found = true ↔ b ≠ [])

/-- The whole call, from a zero-filled buffer of 500 bytes. -/
theorem receiveMessageFromCamera_eq {cell : Vaddr} {k : Kernel} {b : List UInt8} {q : SecurePort}
    (hdel : Delivers k.port b q) (hlen : b.length ≤ 499) (hnext : k.mem (cell + 1) = 0) :
    ∃ k', receiveMessageFromCamera cell ⟨k, List.replicate 500 0⟩ =
      .ok (!b.isEmpty, b.length)
        ⟨k', nonzeros b ++ List.replicate (500 - (nonzeros b).length) 0⟩ := by
  obtain ⟨k', hrun⟩ := @receiveLoop_eq cell b q _ false 0 499 k [] hdel
    (Nat.lt_succ_of_le hdel.length_le) hnext (fun _ h => absurd h List.not_mem_nil) hlen
  have hnz := length_nonzeros_le b
  refine ⟨k', ?_⟩
  have hfill : List.replicate (500 - (nonzeros b).length) (0 : UInt8) =
      0 :: List.replicate (499 - (nonzeros b).length) 0 := by
    rw [← List.replicate_succ]
    congr 1
    omega
  simp only [Bool.false_or, Nat.zero_add, List.nil_append] at hrun
  rw [hfill, ← hrun]
  rfl

/-- The reply is stored as it was delivered exactly when no zero byte of it is
followed by a non-zero one. -/
theorem receiveMessageFromCamera_stores_iff {cell : Vaddr} {k : Kernel} {b : List UInt8}
    {q : SecurePort} (hdel : Delivers k.port b q) (hlen : b.length ≤ 499)
    (hnext : k.mem (cell + 1) = 0) :
    StoresReply cell k b ↔ ZerosLast b := by
  obtain ⟨k', hrun⟩ := receiveMessageFromCamera_eq hdel hlen hnext
  have hiff := take_nonzeros_iff (b := b) (m := 500 - (nonzeros b).length) (by omega)
  constructor
  · rintro ⟨found, size, a, hrun', hbuf, -, -⟩
    rw [hrun] at hrun'
    cases hrun'
    exact hiff.mp hbuf
  · intro hlast
    refine ⟨_, _, _, hrun, hiff.mpr hlast, rfl, ?_⟩
    cases b <;> simp

/-- An enabled port on which the bytes are ready one after the other, and then
nothing arrives for 600 ms. -/
def portWith (rhr : List UInt8) : SecurePort :=
  (SecurePort.initial (rhr.map (fun _ => 1) ++ [0]) rhr (rhr.map (fun _ => 0) ++ [0, 600000])
    []).enable

/-- The port after all of that. -/
def portTimedOut : SecurePort := { (SecurePort.initial [] [] [] []).enable with getcTimedOut := true }

theorem receiveMessageFromCamera_stores_acknowledge :
    StoresReply 0x9000 ⟨portWith [0x76, 0x00], fun _ => 0, []⟩ [0x76, 0x00] ↔
      ZerosLast [0x76, 0x00] :=
  receiveMessageFromCamera_stores_iff (q := portTimedOut)
    (.byte (t := portWith [0x00]) (by decide +kernel)
      (.byte (t := portWith []) (by decide +kernel) (.fails (by decide +kernel))))
    (by decide) rfl

/-- The reply `76 00 11` is stored as `76 11`. -/
theorem receiveMessageFromCamera_drops_zero :
    ¬ ∀ (cell : Vaddr) (k : Kernel) (b : List UInt8) (q : SecurePort),
      Delivers k.port b q → b.length ≤ 499 → k.mem (cell + 1) = 0 → StoresReply cell k b := by
  intro hall
  have hdel : Delivers (portWith [0x76, 0x00, 0x11]) [0x76, 0x00, 0x11] portTimedOut :=
    .byte (t := portWith [0x00, 0x11]) (by decide +kernel)
      (.byte (t := portWith [0x11]) (by decide +kernel)
        (.byte (t := portWith []) (by decide +kernel) (.fails (by decide +kernel))))
  obtain ⟨found, size, a, hrun, hbuf, -, -⟩ :=
    hall 0x9000 ⟨portWith [0x76, 0x00, 0x11], fun _ => 0, []⟩ _ _ hdel (by decide) rfl
  obtain ⟨k', hrun'⟩ := @receiveMessageFromCamera_eq 0x9000
    ⟨portWith [0x76, 0x00, 0x11], fun _ => 0, []⟩ _ _ hdel (by decide) rfl
  rw [hrun'] at hrun
  cases hrun
  have hstored : (nonzeros [0x76, 0x00, 0x11] ++ List.replicate 498 0).take 3 =
      [0x76, 0x00, 0x11] := hbuf
  exact absurd hstored (by decide)

end TX2SecureUart.Camera
