/-
# `Lib.StrRead` — strings read within bounds

A string is given by the bytes from its first one to the end of the object that
it lies in.  A reading that would leave these bytes is `none`, so a result also
says that no byte outside them was looked at.

`upTo n xs` is the string as far as `n` bytes go: what `strncmp` compares and
`strncpy` copies.
-/
import Mathlib

namespace TX2SecureUart.StrRead

/-- Whether `strncmp(a, b, n)` is zero. -/
def strncmp : Nat → List UInt8 → List UInt8 → Option Bool
  | 0, _, _ => some true
  | n + 1, x :: xs, y :: ys =>
      if x ≠ y then some false else if x = 0 then some true else strncmp n xs ys
  | _ + 1, _, _ => none

/-- The bytes before the terminator, as `strlen` finds it. -/
def cstring : List UInt8 → Option (List UInt8)
  | [] => none
  | x :: xs => if x = 0 then some [] else (cstring xs).map (x :: ·)

/-- The bytes that `strncpy(_, a, n)` copies, its padding apart. -/
def strncpy : Nat → List UInt8 → Option (List UInt8)
  | 0, _ => some []
  | _ + 1, [] => none
  | n + 1, x :: xs => if x = 0 then some [] else (strncpy n xs).map (x :: ·)

/-- The string, cut after `n` bytes. -/
def upTo (n : Nat) (xs : List UInt8) : List UInt8 := (xs.take n).takeWhile (· ≠ 0)

/-- The first `n` bytes of a string, or its terminator, are there. -/
def Readable (n : Nat) (xs : List UInt8) : Prop := n ≤ xs.length ∨ 0 ∈ xs

variable {n : Nat} {x : UInt8} {xs ys : List UInt8}

theorem upTo_cons (n : Nat) (x : UInt8) (xs : List UInt8) :
    upTo (n + 1) (x :: xs) = if x = 0 then [] else x :: upTo n xs := by
  rw [upTo, List.take_succ_cons, List.takeWhile_cons]
  by_cases hx : x = 0 <;> simp [hx, upTo]

theorem length_upTo_le (n : Nat) (xs : List UInt8) : (upTo n xs).length ≤ n := by
  refine le_trans (List.takeWhile_sublist _).length_le ?_
  rw [List.length_take]
  exact Nat.min_le_left _ _

theorem not_readable_nil (n : Nat) : ¬ Readable (n + 1) [] := by
  simp [Readable]

/-- What is readable stays so behind a byte that does not end the string. -/
theorem Readable.tail (h : Readable (n + 1) (x :: xs)) (hx : x ≠ 0) : Readable n xs := by
  cases h with
  | inl hlen => exact .inl (Nat.le_of_succ_le_succ hlen)
  | inr hmem => exact .inr ((List.mem_cons.mp hmem).resolve_left (fun h => hx h.symm))

theorem readable_of_mem (h : 0 ∈ xs) : Readable n xs := .inr h

/-- Two readable strings are compared as far as `n` bytes go. -/
theorem strncmp_eq : ∀ {n : Nat} {xs ys : List UInt8}, Readable n xs → Readable n ys →
    strncmp n xs ys = some (decide (upTo n xs = upTo n ys))
  | 0, _, _, _, _ => by simp [strncmp, upTo]
  | n + 1, [], _, hx, _ => absurd hx (not_readable_nil n)
  | n + 1, _ :: _, [], _, hy => absurd hy (not_readable_nil n)
  | n + 1, x :: xs, y :: ys, hx, hy => by
      rw [strncmp, upTo_cons, upTo_cons]
      by_cases hxy : x = y
      · subst hxy
        by_cases h0 : x = 0
        · simp [h0]
        · rw [if_neg (not_not.mpr rfl), if_neg h0, if_neg h0, if_neg h0,
            strncmp_eq (hx.tail h0) (hy.tail h0)]
          simp
      · rw [if_pos hxy]
        by_cases h0 : x = 0
        · have hy0 : y ≠ 0 := fun h => hxy (h0.trans h.symm)
          simp [h0, hy0]
        · by_cases hy0 : y = 0
          · simp [h0, hy0]
          · simp [h0, hy0, hxy]

theorem cstring_of_mem : ∀ {xs : List UInt8}, 0 ∈ xs → cstring xs = some (xs.takeWhile (· ≠ 0))
  | x :: xs, h => by
      rw [cstring, List.takeWhile_cons]
      by_cases hx : x = 0
      · simp [hx]
      · have hmem : 0 ∈ xs := (List.mem_cons.mp h).resolve_left (fun h => hx h.symm)
        simp [hx, cstring_of_mem hmem]

theorem cstring_of_not_mem : ∀ {xs : List UInt8}, 0 ∉ xs → cstring xs = none
  | [], _ => rfl
  | x :: xs, h => by
      have hx : x ≠ 0 := fun h0 => h (h0 ▸ List.mem_cons_self)
      rw [cstring, if_neg hx, cstring_of_not_mem (fun hm => h (List.mem_cons_of_mem x hm))]
      rfl

theorem strncpy_eq : ∀ {n : Nat} {xs : List UInt8}, Readable n xs → strncpy n xs = some (upTo n xs)
  | 0, _, _ => by simp [strncpy, upTo]
  | n + 1, [], h => absurd h (not_readable_nil n)
  | n + 1, x :: xs, h => by
      rw [strncpy, upTo_cons]
      by_cases hx : x = 0
      · simp [hx]
      · simp [hx, strncpy_eq (h.tail hx)]

/-- A terminated string that is shorter than `n` bytes is there whole. -/
theorem takeWhile_eq_upTo (h : (xs.takeWhile (· ≠ 0)).length < n) :
    xs.takeWhile (· ≠ 0) = upTo n xs := by
  induction n generalizing xs with
  | zero => exact absurd h (Nat.not_lt_zero _)
  | succ n ih =>
      cases xs with
      | nil => rfl
      | cons x xs =>
          rw [upTo_cons]
          rw [List.takeWhile_cons] at h ⊢
          by_cases hx : x = 0
          · simp [hx]
          · simp only [hx, ne_eq, not_false_eq_true, decide_true, if_true, List.length_cons] at h
            simpa [hx] using ih (by simpa using Nat.lt_of_succ_lt_succ h)

/-- A string that a copy of `n` bytes did not cut is whole. -/
theorem takeWhile_of_upTo_lt (h : (upTo n xs).length < n) : xs.takeWhile (· ≠ 0) = upTo n xs := by
  induction n generalizing xs with
  | zero => exact absurd h (Nat.not_lt_zero _)
  | succ n ih =>
      cases xs with
      | nil => rfl
      | cons x xs =>
          rw [upTo_cons] at h ⊢
          rw [List.takeWhile_cons]
          by_cases hx : x = 0
          · simp [hx]
          · rw [if_neg hx, List.length_cons] at h
            simpa [hx] using ih (Nat.lt_of_succ_lt_succ h)

/-- A string cut twice is cut at the shorter length. -/
theorem take_upTo {m : Nat} (h : m ≤ n) (xs : List UInt8) : (upTo n xs).take m = upTo m xs := by
  induction m generalizing n xs with
  | zero => rfl
  | succ m ih =>
      obtain ⟨n, rfl⟩ := Nat.exists_eq_add_of_lt h
      cases xs with
      | nil => simp [upTo]
      | cons x xs =>
          rw [upTo_cons, upTo_cons]
          by_cases hx : x = 0
          · simp [hx]
          · rw [if_neg hx, if_neg hx, List.take_succ_cons, ih (by omega)]

/-- A literal is as it is written. -/
theorem upTo_literal {s : List UInt8} (hs : 0 ∉ s) (hn : s.length ≤ n) : upTo n (s ++ [0]) = s := by
  induction s generalizing n with
  | nil =>
      cases n with
      | zero => rfl
      | succ n => simp [upTo_cons]
  | cons x s ih =>
      obtain ⟨m, rfl⟩ := Nat.exists_eq_add_of_lt (Nat.lt_of_lt_of_le (Nat.succ_pos _) hn)
      have hx : x ≠ 0 := fun h => hs (h ▸ List.mem_cons_self)
      rw [List.cons_append, Nat.zero_add, upTo_cons, if_neg hx,
        ih (fun h => hs (List.mem_cons_of_mem x h))]
      rw [List.length_cons] at hn
      omega

end TX2SecureUart.StrRead
