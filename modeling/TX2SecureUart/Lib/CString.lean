/-
# `Lib.CString` — C strings in fixed-size buffers

A buffer is the list of its bytes.  `strcat` walks off the end of a buffer
that has no terminator, or no room for what is appended; that is `none`, so a
specification that ends in `some` also says that no byte was written out of
bounds.

The source string is a stream of bytes, read up to its first zero.
`cstringAt s n` is that string, looked for in the first `n` bytes.
-/
import Mathlib

namespace TX2SecureUart.CString

/-- `while ((*dest++ = *src++) != '\0');` -/
def copyString : List UInt8 → (Nat → UInt8) → Option (List UInt8)
  | [], _ => none
  | _ :: dest, src =>
      if src 0 = 0 then some (0 :: dest)
      else (copyString dest (fun i => src (i + 1))).map (src 0 :: ·)

/-- `strcat`: find the terminator of `dest`, copy `src` from there on. -/
def strcat : List UInt8 → (Nat → UInt8) → Option (List UInt8)
  | [], _ => none
  | d :: dest, src =>
      if d = 0 then copyString (d :: dest) src
      else (strcat dest src).map (d :: ·)

/-- The string that starts at `s`, when it ends within `n` bytes. -/
def cstringAt (s : Nat → UInt8) : Nat → List UInt8
  | 0 => []
  | n + 1 => if s 0 = 0 then [] else s 0 :: cstringAt (fun i => s (i + 1)) n

/-- A string of fewer than `n` bytes is copied with its terminator, over as
many bytes of the destination. -/
theorem copyString_eq :
    ∀ {n : Nat} {dest : List UInt8} {src : Nat → UInt8},
      src (cstringAt src n).length = 0 → (cstringAt src n).length < dest.length →
      copyString dest src =
        some (cstringAt src n ++ 0 :: dest.drop ((cstringAt src n).length + 1))
  | _, [], _, _, hroom => absurd hroom (Nat.not_lt_zero _)
  | 0, _ :: dest, src, hend, _ => by
      have h0 : src 0 = 0 := hend
      simp [copyString, cstringAt, h0]
  | n + 1, _ :: dest, src, hend, hroom => by
      by_cases h0 : src 0 = 0
      · simp [copyString, cstringAt, h0]
      · simp only [cstringAt, h0, if_false, List.length_cons] at hend hroom ⊢
        have ih := @copyString_eq n dest (fun i => src (i + 1)) hend
          (Nat.lt_of_succ_lt_succ hroom)
        simp [copyString, h0, ih]

/-- Appending to the string `s`, held in a buffer with `rest` behind its
terminator. -/
theorem strcat_eq {n : Nat} {src : Nat → UInt8} {rest : List UInt8}
    (hend : src (cstringAt src n).length = 0) (hroom : (cstringAt src n).length ≤ rest.length) :
    ∀ {s : List UInt8}, (∀ c ∈ s, c ≠ 0) →
      strcat (s ++ 0 :: rest) src =
        some (s ++ cstringAt src n ++ 0 :: rest.drop (cstringAt src n).length)
  | [], _ => by
      have h := @copyString_eq n (0 :: rest) src hend (Nat.lt_succ_of_le hroom)
      simpa [strcat] using h
  | c :: s, hs => by
      have hc : c ≠ 0 := hs c List.mem_cons_self
      have ih := strcat_eq hend hroom (s := s) (fun d hd => hs d (List.mem_cons_of_mem _ hd))
      simp [strcat, hc, ih]

/-! ## No room -/

theorem copyString_none {n : Nat} {dest : List UInt8} {src : Nat → UInt8}
    (hroom : dest.length ≤ (cstringAt src n).length) : copyString dest src = none := by
  induction n generalizing dest src with
  | zero =>
    obtain rfl := List.length_eq_zero_iff.mp (Nat.le_zero.mp hroom)
    rfl
  | succ n ih =>
    cases dest with
    | nil => rfl
    | cons d dest =>
      by_cases h0 : src 0 = 0
      · rw [cstringAt, if_pos h0] at hroom
        exact absurd hroom (Nat.not_succ_le_zero _)
      · rw [cstringAt, if_neg h0] at hroom
        rw [copyString, if_neg h0, ih (Nat.le_of_succ_le_succ hroom)]
        rfl

/-- A string too long for what is behind the terminator leaves the buffer. -/
theorem strcat_none {n : Nat} {src : Nat → UInt8} {s rest : List UInt8} (hs : ∀ c ∈ s, c ≠ 0)
    (hroom : rest.length < (cstringAt src n).length) : strcat (s ++ 0 :: rest) src = none := by
  induction s with
  | nil =>
    rw [List.nil_append, strcat, if_pos rfl]
    exact copyString_none hroom
  | cons c s ih =>
    rw [List.cons_append, strcat, if_neg (hs c List.mem_cons_self),
      ih (fun d hd => hs d (List.mem_cons_of_mem c hd))]
    rfl

/-- `strncat` -/
def strncat (dest : List UInt8) (src : Nat → UInt8) (n : Nat) : Option (List UInt8) :=
  strcat dest (fun i => if i < n then src i else 0)

/-- The string in a list of bytes. -/
theorem cstringAt_getD {s rest : List UInt8} {n : Nat} (hs : ∀ c ∈ s, c ≠ 0) (hn : s.length ≤ n) :
    cstringAt ((s ++ 0 :: rest).getD · 0) n = s := by
  induction s generalizing n with
  | nil =>
    cases n with
    | zero => rfl
    | succ n => exact if_pos rfl
  | cons c s ih =>
    cases n with
    | zero => exact absurd hn (Nat.not_succ_le_zero _)
    | succ n =>
      rw [cstringAt, if_neg]
      · exact congrArg (c :: ·) (ih (fun d hd => hs d (List.mem_cons_of_mem c hd))
          (Nat.le_of_succ_le_succ hn))
      · exact hs c List.mem_cons_self

/-- Appending one character. -/
theorem strncat_one {c : UInt8} (hc : c ≠ 0) {s : List UInt8} (hs : ∀ d ∈ s, d ≠ 0) (x : UInt8)
    (rest : List UInt8) :
    strncat (s ++ 0 :: x :: rest) (fun _ => c) 1 = some (s ++ [c] ++ 0 :: rest) := by
  have hstr : cstringAt (fun i => if i < 1 then c else 0) 1 = [c] := by
    rw [cstringAt]
    exact if_neg hc
  have := @strcat_eq 1 (fun i => if i < 1 then c else 0) (x :: rest)
    (by rw [hstr]; rfl) (by rw [hstr]; exact Nat.le_add_left 1 _) s hs
  rw [hstr] at this
  exact this

/-- Appending the string that another buffer holds. -/
theorem strcat_buffer {s w : List UInt8} (hs : ∀ c ∈ s, c ≠ 0) (hw : ∀ c ∈ w, c ≠ 0)
    (rest tail : List UInt8) :
    strcat (s ++ 0 :: rest) ((w ++ 0 :: tail).getD · 0) =
      if w.length ≤ rest.length then some (s ++ w ++ 0 :: rest.drop w.length) else none := by
  have hstr := @cstringAt_getD w tail w.length hw (Nat.le_refl w.length)
  have hend : (w ++ 0 :: tail).getD w.length 0 = 0 := by
    rw [List.getD_append_right _ _ _ _ (Nat.le_refl _), Nat.sub_self]
    rfl
  split
  · next hroom =>
    have := @strcat_eq w.length ((w ++ 0 :: tail).getD · 0) rest (by rw [hstr]; exact hend)
      (by rw [hstr]; exact hroom) s hs
    rw [hstr] at this
    exact this
  · next hroom =>
    refine @strcat_none w.length _ s rest hs ?_
    rw [hstr]
    exact Nat.lt_of_not_le hroom

/-! ## Lengths, and copies of known length -/

/-- `strlen` of a string in an object of these bytes; it does not stop before a zero. -/
def strlen : List UInt8 → Option Nat
  | [] => none
  | c :: s => if c = 0 then some 0 else (strlen s).map (· + 1)

/-- `strnlen` -/
def strnlen : List UInt8 → Nat → Option Nat
  | _, 0 => some 0
  | [], _ + 1 => none
  | c :: s, n + 1 => if c = 0 then some 0 else (strnlen s n).map (· + 1)

/-- `memcpy` of all of `src`, to `off` in `dest`. -/
def memcpy (dest : List UInt8) (off : Nat) (src : List UInt8) : Option (List UInt8) :=
  if off + src.length ≤ dest.length then
    some (dest.take off ++ src ++ dest.drop (off + src.length))
  else none

/-- The bytes before the first zero. -/
def stringOf (b : List UInt8) : List UInt8 := b.takeWhile (· ≠ 0)

theorem stringOf_cons_zero (s : List UInt8) : stringOf (0 :: s) = [] := rfl

theorem stringOf_cons {c : UInt8} (hc : c ≠ 0) (s : List UInt8) :
    stringOf (c :: s) = c :: stringOf s :=
  List.takeWhile_cons_of_pos (decide_eq_true hc)

theorem strlen_eq (b : List UInt8) :
    strlen b = if 0 ∈ b then some (stringOf b).length else none := by
  induction b with
  | nil => rfl
  | cons c s ih =>
    by_cases hc : c = 0
    · subst hc
      rw [strlen, if_pos rfl, if_pos List.mem_cons_self]
      rfl
    · have hmem : (0 ∈ c :: s) ↔ 0 ∈ s := by
        rw [List.mem_cons]
        exact or_iff_right (Ne.symm hc)
      rw [strlen, if_neg hc, ih, stringOf_cons hc]
      simp only [hmem]
      split
      · rfl
      · rfl

theorem strnlen_eq {b : List UInt8} {n : Nat} (h : n ≤ b.length) :
    strnlen b n = some (stringOf (b.take n)).length := by
  induction b generalizing n with
  | nil =>
    obtain rfl := Nat.le_zero.mp h
    rfl
  | cons c s ih =>
    cases n with
    | zero => rfl
    | succ n =>
      rw [List.take_succ_cons]
      by_cases hc : c = 0
      · subst hc
        rfl
      · rw [strnlen, if_neg hc, ih (Nat.le_of_succ_le_succ h), stringOf_cons hc]
        rfl

theorem take_stringOf (b : List UInt8) : b.take (stringOf b).length = stringOf b :=
  List.prefix_iff_eq_take.mp (List.takeWhile_prefix _) |>.symm

/-- A copy to the end of what is written already. -/
theorem memcpy_append (written rest src : List UInt8) (h : src.length ≤ rest.length) :
    memcpy (written ++ rest) written.length src = some (written ++ src ++ rest.drop src.length) := by
  rw [memcpy, if_pos, List.take_left, List.drop_append]
  · rw [List.drop_eq_nil_of_le (Nat.le_add_right _ _), List.nil_append, Nat.add_sub_cancel_left]
  · rw [List.length_append]
    exact Nat.add_le_add_left h _

end TX2SecureUart.CString
