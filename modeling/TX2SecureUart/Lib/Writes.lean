/-
# `Lib.Writes` — writes into a buffer, none of them outside

`overwrite` replaces bytes from a place on.  `store` writes at an index, which may be
any number; outside of the buffer it is `none`.  Writes that are next to each other
are one write.
-/
import Mathlib

namespace TX2SecureUart.Writes

variable {α : Type}

/-- The bytes of `data` written from `n` on. -/
def overwrite (buf : List α) (n : Nat) (data : List α) : List α :=
  buf.take n ++ data ++ buf.drop (n + data.length)

/-- `buf[i] = c` -/
def store (buf : List α) (i : Int) (c : α) : Option (List α) :=
  if 0 ≤ i ∧ i < buf.length then some (buf.set i.toNat c) else none

/-- `buf[i++] = c` for each of them. -/
def storeAll (buf : List α) (i : Int) : List α → Option (List α)
  | [] => some buf
  | c :: cs => (store buf i c).bind fun buf => storeAll buf (i + 1) cs

variable {buf xs ys : List α} {n : Nat} {c : α}

theorem length_overwrite (h : n + xs.length ≤ buf.length) : (overwrite buf n xs).length = buf.length := by
  simp only [overwrite, List.length_append, List.length_take, List.length_drop]
  omega

theorem length_take_append (h : n ≤ buf.length) : (buf.take n ++ xs).length = n + xs.length := by
  rw [List.length_append, List.length_take_of_le h]

theorem take_overwrite (h : n ≤ buf.length) :
    (overwrite buf n xs).take (n + xs.length) = buf.take n ++ xs := by
  rw [overwrite]
  nth_rewrite 1 [← length_take_append h]
  exact List.take_left

theorem overwrite_nil : overwrite buf n [] = buf := by
  rw [overwrite, List.append_nil, List.length_nil, Nat.add_zero, List.take_append_drop]

theorem drop_overwrite (h : n ≤ buf.length) :
    (overwrite buf n xs).drop (n + xs.length) = buf.drop (n + xs.length) := by
  rw [overwrite]
  nth_rewrite 1 [← length_take_append h]
  exact List.drop_left

/-- One write behind another. -/
theorem overwrite_append (h : n + xs.length ≤ buf.length) :
    overwrite (overwrite buf n xs) (n + xs.length) ys = overwrite buf n (xs ++ ys) := by
  have hle : n ≤ buf.length := by omega
  rw [overwrite, take_overwrite hle, ← List.drop_drop, drop_overwrite hle, List.drop_drop, overwrite,
    List.length_append, Nat.add_assoc, List.append_assoc (buf.take n)]

theorem take_overwrite_before {m : Nat} (h : m ≤ n) (hn : n ≤ buf.length) :
    (overwrite buf n xs).take m = buf.take m := by
  rw [overwrite, List.append_assoc, List.take_append_of_le_length, List.take_take, Nat.min_eq_left h]
  rw [List.length_take_of_le hn]
  exact h

/-- One write in front of another. -/
theorem overwrite_before (h : n + xs.length + ys.length ≤ buf.length) :
    overwrite (overwrite buf (n + xs.length) ys) n xs = overwrite buf n (xs ++ ys) := by
  have hle : n + xs.length ≤ buf.length := by omega
  have hdrop : (overwrite buf (n + xs.length) ys).drop (n + xs.length) =
      ys ++ buf.drop (n + xs.length + ys.length) := by
    rw [overwrite, List.append_assoc]
    nth_rewrite 1 [← List.length_take_of_le hle]
    rw [List.drop_left]
  rw [overwrite, take_overwrite_before (Nat.le_add_right n _) hle, hdrop, overwrite, List.length_append,
    ← Nat.add_assoc, List.append_assoc, List.append_assoc, List.append_assoc]

/-! ## Writes inside -/

theorem store_eq (h : n < buf.length) : store buf n c = some (overwrite buf n [c]) := by
  rw [store, if_pos ⟨Int.natCast_nonneg n, Int.ofNat_lt.mpr h⟩, Int.toNat_natCast,
    List.set_eq_take_append_cons_drop, if_pos h, overwrite, List.append_assoc]
  rfl

theorem storeAll_eq (h : n + xs.length ≤ buf.length) : storeAll buf n xs = some (overwrite buf n xs) := by
  induction xs generalizing buf n with
  | nil => exact congrArg some overwrite_nil.symm
  | cons c cs ih =>
      rw [List.length_cons] at h
      have hone : n + [c].length ≤ buf.length := by
        rw [List.length_singleton]
        omega
      rw [storeAll, store_eq (by omega)]
      show storeAll (overwrite buf n [c]) ((n + 1 : Nat) : Int) cs = _
      rw [ih (by rw [length_overwrite hone]; omega)]
      exact congrArg some (overwrite_append hone)

end TX2SecureUart.Writes
