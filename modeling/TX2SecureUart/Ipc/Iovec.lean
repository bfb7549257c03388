/-
# `Ipc.Iovec` — copying between a message buffer and a caller's iovec

`iovec.c` with `usercopy.S`.  The kernel's buffer is a memory `Nat → UInt8`.
An entry of an iovec array is what the copy finds there: how long the entry
says it is, and which bytes can be accessed from its base on before the first
fault.  Copying out of a message (`membufTo..`) only asks how many there are.

A fault in `copy_from_user` zeroes what is left of the destination, so a
failing copy still changes the buffer, inside the range it was given.
-/
import TX2SecureUart.Err
import Mathlib

namespace TX2SecureUart.Ipc

/-! ## Memory -/

/-- `memcpy(buf + pos, bytes, |bytes|)` -/
def write (buf : Nat → UInt8) (pos : Nat) (bytes : List UInt8) : Nat → UInt8 := fun k =>
  if pos ≤ k then (bytes[k - pos]?).getD (buf k) else buf k

/-- The `len` bytes at `buf + pos`. -/
def bytesAt (buf : Nat → UInt8) (pos len : Nat) : List UInt8 :=
  (List.range len).map (fun k => buf (pos + k))

@[simp] theorem length_bytesAt (buf : Nat → UInt8) (pos len : Nat) :
    (bytesAt buf pos len).length = len := by
  simp [bytesAt]

theorem bytesAt_congr {buf buf' : Nat → UInt8} {pos len : Nat}
    (h : ∀ k, pos ≤ k → k < pos + len → buf' k = buf k) :
    bytesAt buf' pos len = bytesAt buf pos len := by
  refine List.map_congr_left fun k hk => h _ (Nat.le_add_right _ _) ?_
  have := List.mem_range.mp hk
  omega

theorem write_outside {buf : Nat → UInt8} {pos k : Nat} {bytes : List UInt8}
    (h : k < pos ∨ pos + bytes.length ≤ k) : write buf pos bytes k = buf k := by
  unfold write
  split
  · rw [List.getElem?_eq_none (by omega)]
    rfl
  · rfl

theorem bytesAt_write (buf : Nat → UInt8) (pos : Nat) (bytes : List UInt8) :
    bytesAt (write buf pos bytes) pos bytes.length = bytes := by
  refine List.ext_getElem (by simp) fun k hk _ => ?_
  simp only [length_bytesAt] at hk
  simp [bytesAt, write, hk]

theorem bytesAt_write_of_disjoint {buf : Nat → UInt8} {pos len start : Nat} {bytes : List UInt8}
    (h : pos + len ≤ start ∨ start + bytes.length ≤ pos) :
    bytesAt (write buf start bytes) pos len = bytesAt buf pos len :=
  bytesAt_congr fun _ _ _ => write_outside (by omega)

theorem write_nil (buf : Nat → UInt8) (pos : Nat) : write buf pos [] = buf := by
  funext k
  simp [write]

theorem write_write (buf : Nat → UInt8) (pos : Nat) (a b : List UInt8) :
    write (write buf pos a) (pos + a.length) b = write buf pos (a ++ b) := by
  funext k
  simp only [write]
  by_cases h1 : pos + a.length ≤ k
  · rw [if_pos h1, if_pos (by omega), if_pos (by omega), List.getElem?_append_right (by omega),
      List.getElem?_eq_none (by omega : a.length ≤ k - pos)]
    rw [Nat.sub_sub]
    rfl
  · rw [if_neg h1]
    by_cases h2 : pos ≤ k
    · rw [if_pos h2, if_pos h2, List.getElem?_append_left (by omega)]
    · rw [if_neg h2, if_neg h2]

/-! ## The caller's arrays -/

/-- `iovec_kern_t` -/
inductive KernIov where
  /-- `base == NULL` -/
  | null (len : Nat)
  | mem (bytes : List UInt8)
deriving DecidableEq

/-- `iovec_user_t`, read from user space. -/
inductive UserIov where
  /-- reading the entry itself faults -/
  | unmapped
  | mapped (len : Nat) (bytes : List UInt8)
deriving DecidableEq

/-- `msg_desc_t`.  `numIov` is the length of `iov`; `null` says that the
kernel's array pointer is `NULL`. -/
inductive MsgDesc where
  | kern (null : Bool) (iov : List KernIov) (numHandles : Nat)
  | user (iov : List UserIov) (numHandles : Nat)
deriving DecidableEq

/-! ## Into the message buffer -/

/-- The loop of `kern_iovec_to_membuf`: the result, and the buffer. -/
def kernLoop (buf : Nat → UInt8) (pos len copied : Nat) : List KernIov → Int × (Nat → UInt8)
  | [] => (copied, buf)
  | .null n :: iov =>
      if min len n = 0 then kernLoop buf pos len copied iov else (errInvalidArgs, buf)
  | .mem bytes :: iov =>
      let toCopy := min len bytes.length
      if toCopy = 0 then kernLoop buf pos len copied iov
      else
        let buf := write buf pos (bytes.take toCopy)
        if len - toCopy = 0 then (copied + toCopy, buf)
        else kernLoop buf (pos + toCopy) (len - toCopy) (copied + toCopy) iov

/-- `kern_iovec_to_membuf(buf + pos, len, ..)` -/
def kernIovecToMembuf (buf : Nat → UInt8) (pos len : Nat) (null : Bool) (iov : List KernIov) :
    Int × (Nat → UInt8) :=
  if iov.length = 0 ∨ len = 0 then (0, buf)
  else if null then (errInvalidArgs, buf)
  else kernLoop buf pos len 0 iov

/-- The loop of `user_iovec_to_membuf`. -/
def userLoop (buf : Nat → UInt8) (pos len copied : Nat) : List UserIov → Int × (Nat → UInt8)
  | [] => (copied, buf)
  | .unmapped :: _ => (errFault, buf)
  | .mapped n bytes :: iov =>
      let toCopy := min len n
      if bytes.length < toCopy then
        -- the fault handler clears the rest of the destination
        (errFault, write buf pos (bytes ++ List.replicate (toCopy - bytes.length) 0))
      else
        let buf := write buf pos (bytes.take toCopy)
        if len - toCopy = 0 then (copied + toCopy, buf)
        else userLoop buf (pos + toCopy) (len - toCopy) (copied + toCopy) iov

/-- `user_iovec_to_membuf(buf + pos, len, ..)` -/
def userIovecToMembuf (buf : Nat → UInt8) (pos len : Nat) (iov : List UserIov) :
    Int × (Nat → UInt8) :=
  if iov.length = 0 ∨ len = 0 then (0, buf) else userLoop buf pos len 0 iov

/-! ## Out of the message buffer

`data` is what is left of the message; the result comes with the bytes stored
through the entries, one after the other. -/

def toKernLoop (data : List UInt8) (copied : Nat) : List KernIov → Int × List UInt8
  | [] => (copied, [])
  | .null n :: iov =>
      if min data.length n = 0 then toKernLoop data copied iov else (errInvalidArgs, [])
  | .mem bytes :: iov =>
      let toCopy := min data.length bytes.length
      if toCopy = 0 then toKernLoop data copied iov
      else if data.length - toCopy = 0 then (copied + toCopy, data.take toCopy)
      else
        let r := toKernLoop (data.drop toCopy) (copied + toCopy) iov
        (r.1, data.take toCopy ++ r.2)

/-- `membuf_to_kern_iovec` -/
def membufToKernIovec (null : Bool) (iov : List KernIov) (data : List UInt8) :
    Int × List UInt8 :=
  if iov.length = 0 ∨ data.length = 0 then (0, [])
  else if null then (errInvalidArgs, [])
  else toKernLoop data 0 iov

def toUserLoop (data : List UInt8) (copied : Nat) : List UserIov → Int × List UInt8
  | [] => (copied, [])
  | .unmapped :: _ => (errFault, [])
  | .mapped n bytes :: iov =>
      let toCopy := min data.length n
      if bytes.length < toCopy then (errFault, data.take bytes.length)
      else if data.length - toCopy = 0 then (copied + toCopy, data.take toCopy)
      else
        let r := toUserLoop (data.drop toCopy) (copied + toCopy) iov
        (r.1, data.take toCopy ++ r.2)

/-- `membuf_to_user_iovec` -/
def membufToUserIovec (iov : List UserIov) (data : List UInt8) : Int × List UInt8 :=
  if iov.length = 0 ∨ data.length = 0 then (0, []) else toUserLoop data 0 iov

/-! ## What a copy does

Into the buffer: nothing outside the range changes, and a copy that succeeds
has stored the front of what the array describes. -/

/-- All the bytes an array describes, in order. -/
def kernPayload : List KernIov → List UInt8
  | [] => []
  | .null _ :: iov => kernPayload iov
  | .mem bytes :: iov => bytes ++ kernPayload iov

def userPayload : List UserIov → List UInt8
  | [] => []
  | .unmapped :: iov => userPayload iov
  | .mapped n bytes :: iov => bytes.take n ++ userPayload iov

/-- The outcome of copying `payload` to `buf + pos`, `len` bytes at most, with
`copied` bytes done before. -/
structure CopiesIn (buf : Nat → UInt8) (pos len copied : Nat) (payload : List UInt8)
    (r : Int × (Nat → UInt8)) : Prop where
  outside : ∀ k, k < pos ∨ pos + len ≤ k → r.2 k = buf k
  ret : 0 ≤ r.1 → r.1 = ((copied + (payload.take len).length : Nat) : Int)
  stored : 0 ≤ r.1 → r.2 = write buf pos (payload.take len)

/-- A copy that gave up, having changed the range at most. -/
theorem CopiesIn.failed {buf buf' : Nat → UInt8} {pos len copied : Nat} {payload : List UInt8}
    {e : Int} (he : e < 0) (h : ∀ k, k < pos ∨ pos + len ≤ k → buf' k = buf k) :
    CopiesIn buf pos len copied payload (e, buf') :=
  ⟨h, fun h0 => absurd h0 (by omega), fun h0 => absurd h0 (by omega)⟩

/-- A copy that filled the range. -/
theorem CopiesIn.filled {buf : Nat → UInt8} {pos len copied : Nat} {bytes rest : List UInt8}
    (h : bytes.length = len) :
    CopiesIn buf pos len copied (bytes ++ rest) ((copied + len : Nat), write buf pos bytes) := by
  have htake : (bytes ++ rest).take len = bytes := by
    rw [List.take_append_of_le_length (Nat.le_of_eq h.symm), ← h, List.take_length]
  refine ⟨fun k hk => write_outside (by omega), fun _ => ?_, fun _ => ?_⟩
  · rw [htake, h]
  · rw [htake]

/-- One entry copied in full, and then the others. -/
theorem CopiesIn.cons {buf : Nat → UInt8} {pos len copied : Nat} {bytes rest : List UInt8}
    {r : Int × (Nat → UInt8)} (h : bytes.length ≤ len)
    (hr : CopiesIn (write buf pos bytes) (pos + bytes.length) (len - bytes.length)
      (copied + bytes.length) rest r) :
    CopiesIn buf pos len copied (bytes ++ rest) r := by
  have htake : (bytes ++ rest).take len = bytes ++ rest.take (len - bytes.length) := by
    rw [List.take_append, List.take_of_length_le h]
  refine ⟨fun k hk => ?_, fun h0 => ?_, fun h0 => ?_⟩
  · rw [hr.outside k (by omega)]
    exact write_outside (by omega)
  · rw [hr.ret h0, htake, List.length_append, Nat.add_assoc]
  · rw [hr.stored h0, htake, write_write]

theorem CopiesIn.nil (buf : Nat → UInt8) (pos len copied : Nat) :
    CopiesIn buf pos len copied [] (copied, buf) :=
  ⟨fun _ _ => rfl, fun _ => by simp, fun _ => by simp [write_nil]⟩

theorem kernLoop_spec :
    ∀ (iov : List KernIov) (buf : Nat → UInt8) (pos len copied : Nat),
      CopiesIn buf pos len copied (kernPayload iov) (kernLoop buf pos len copied iov)
  | [], buf, pos, len, copied => CopiesIn.nil buf pos len copied
  | .null n :: iov, buf, pos, len, copied => by
      simp only [kernLoop, kernPayload]
      by_cases h0 : min len n = 0
      · rw [if_pos h0]
        exact kernLoop_spec iov buf pos len copied
      · rw [if_neg h0]
        exact .failed (by decide) fun _ _ => rfl
  | .mem bytes :: iov, buf, pos, len, copied => by
      simp only [kernLoop, kernPayload]
      by_cases h0 : min len bytes.length = 0
      · rw [if_pos h0]
        have ih := kernLoop_spec iov buf pos len copied
        rcases Nat.min_eq_zero_iff.mp h0 with h | h
        · subst h
          exact ⟨ih.outside, by simpa using ih.ret, by simpa using ih.stored⟩
        · rw [List.length_eq_zero_iff.mp h]
          exact ih
      · rw [if_neg h0]
        by_cases hfull : len - min len bytes.length = 0
        · -- the buffer is full: the rest of the array is not looked at
          have hlen : min len bytes.length = len := by omega
          rw [if_pos hfull, hlen, ← List.take_append_drop len bytes, List.append_assoc,
            List.take_append_drop]
          exact .filled (by rw [List.length_take]; exact hlen)
        · have hlen : min len bytes.length = bytes.length := by omega
          rw [if_neg hfull, hlen, List.take_length]
          exact .cons (by omega) (kernLoop_spec iov _ _ _ _)

theorem userLoop_spec :
    ∀ (iov : List UserIov) (buf : Nat → UInt8) (pos len copied : Nat),
      CopiesIn buf pos len copied (userPayload iov) (userLoop buf pos len copied iov)
  | [], buf, pos, len, copied => CopiesIn.nil buf pos len copied
  | .unmapped :: iov, buf, pos, len, copied => .failed (by decide) fun _ _ => rfl
  | .mapped n bytes :: iov, buf, pos, len, copied => by
      simp only [userLoop, userPayload]
      by_cases hfault : bytes.length < min len n
      · rw [if_pos hfault]
        refine .failed (by decide) fun k hk => write_outside ?_
        rw [List.length_append, List.length_replicate]
        omega
      · rw [if_neg hfault]
        by_cases hfull : len - min len n = 0
        · have hlen : min len n = len := by omega
          have hsplit := List.take_append_drop len (bytes.take n)
          rw [List.take_take, hlen] at hsplit
          rw [if_pos hfull, hlen, ← hsplit, List.append_assoc]
          exact .filled (by rw [List.length_take]; omega)
        · have hlen : min len n = n := by omega
          have hbytes : (bytes.take n).length = n := by
            rw [List.length_take]
            omega
          rw [if_neg hfull, hlen]
          refine .cons (by omega) ?_
          rw [hbytes]
          exact userLoop_spec iov _ _ _ _

/-- All the bytes a message descriptor describes. -/
def payload : MsgDesc → List UInt8
  | .kern _ iov _ => kernPayload iov
  | .user iov _ => userPayload iov

/-- The descriptor is copied to `buf + pos`, `len` bytes at most, by the copy
that its type selects.  Handles are not supported yet. -/
def copyIn (buf : Nat → UInt8) (pos len : Nat) : MsgDesc → Int × (Nat → UInt8)
  | .kern null iov numHandles =>
      if numHandles ≠ 0 then (errNotSupported, buf) else kernIovecToMembuf buf pos len null iov
  | .user iov numHandles =>
      if numHandles ≠ 0 then (errNotSupported, buf) else userIovecToMembuf buf pos len iov

theorem copyIn_spec (buf : Nat → UInt8) (pos len : Nat) (msg : MsgDesc) :
    CopiesIn buf pos len 0 (payload msg) (copyIn buf pos len msg) := by
  -- the early returns: nothing described, no room, or an error
  have hnothing : ∀ bytes : List UInt8, bytes = [] ∨ len = 0 →
      CopiesIn buf pos len 0 bytes (0, buf) := by
    rintro bytes (rfl | rfl)
    · exact CopiesIn.nil buf pos len 0
    · exact ⟨fun _ _ => rfl, fun _ => by simp, fun _ => by simp [write_nil]⟩
  cases msg with
  | kern null iov numHandles =>
      simp only [copyIn, kernIovecToMembuf, payload]
      by_cases hh : numHandles ≠ 0
      · rw [if_pos hh]
        exact .failed (by decide) fun _ _ => rfl
      rw [if_neg hh]
      by_cases h0 : iov.length = 0 ∨ len = 0
      · rw [if_pos h0]
        refine hnothing _ (h0.imp_left fun h => ?_)
        rw [List.length_eq_zero_iff.mp h]
        rfl
      rw [if_neg h0]
      cases null with
      | true => exact .failed (by decide) fun _ _ => rfl
      | false => exact kernLoop_spec iov buf pos len 0
  | user iov numHandles =>
      simp only [copyIn, userIovecToMembuf, payload]
      by_cases hh : numHandles ≠ 0
      · rw [if_pos hh]
        exact .failed (by decide) fun _ _ => rfl
      rw [if_neg hh]
      by_cases h0 : iov.length = 0 ∨ len = 0
      · rw [if_pos h0]
        refine hnothing _ (h0.imp_left fun h => ?_)
        rw [List.length_eq_zero_iff.mp h]
        rfl
      rw [if_neg h0]
      exact userLoop_spec iov buf pos len 0

/-! Out of the buffer: what is stored is the front of what is left of the message. -/

theorem take_append_prefix {k : Nat} {a data : List UInt8} (h : a <+: data.drop k) :
    data.take k ++ a <+: data := by
  obtain ⟨t, ht⟩ := h
  exact ⟨t, by rw [List.append_assoc, ht, List.take_append_drop]⟩

theorem toKernLoop_writes :
    ∀ (iov : List KernIov) (data : List UInt8) (copied : Nat),
      (toKernLoop data copied iov).2 <+: data
  | [], data, _ => List.nil_prefix
  | .null n :: iov, data, copied => by
      simp only [toKernLoop]
      split
      · exact toKernLoop_writes iov data copied
      · exact List.nil_prefix
  | .mem bytes :: iov, data, copied => by
      simp only [toKernLoop]
      split
      · exact toKernLoop_writes iov data copied
      split
      · exact List.take_prefix _ _
      · exact take_append_prefix (toKernLoop_writes iov _ _)

theorem toUserLoop_writes :
    ∀ (iov : List UserIov) (data : List UInt8) (copied : Nat),
      (toUserLoop data copied iov).2 <+: data
  | [], data, _ => List.nil_prefix
  | .unmapped :: _, data, _ => List.nil_prefix
  | .mapped n bytes :: iov, data, copied => by
      simp only [toUserLoop]
      split
      · exact List.take_prefix _ _
      split
      · exact List.take_prefix _ _
      · exact take_append_prefix (toUserLoop_writes iov _ _)

/-- What is left of a message is copied out by the copy that the descriptor's
type selects. -/
def copyOut (data : List UInt8) : MsgDesc → Int × List UInt8
  | .kern null iov numHandles =>
      if numHandles ≠ 0 then (errNotSupported, []) else membufToKernIovec null iov data
  | .user iov numHandles =>
      if numHandles ≠ 0 then (errNotSupported, []) else membufToUserIovec iov data

theorem copyOut_writes (data : List UInt8) (msg : MsgDesc) : (copyOut data msg).2 <+: data := by
  cases msg with
  | kern null iov numHandles =>
      simp only [copyOut, membufToKernIovec]
      repeat' split
      all_goals first | exact List.nil_prefix | exact toKernLoop_writes iov data 0
  | user iov numHandles =>
      simp only [copyOut, membufToUserIovec]
      repeat' split
      all_goals first | exact List.nil_prefix | exact toUserLoop_writes iov data 0

end TX2SecureUart.Ipc
