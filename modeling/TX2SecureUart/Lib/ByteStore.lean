/-
# `Lib.ByteStore` — a store of bytes read and written in ranges

`slice` reads a range of a store and `patch` overwrites one.  The rules say what
a read sees after a write to the same range or to another one, and cut a range
in two.
-/
import Mathlib

namespace TX2SecureUart.ByteStore

/-- The `len` bytes from `off` on. -/
def slice (d : Nat → UInt8) (off len : Nat) : List UInt8 :=
  (List.range len).map (fun i => d (off + i))

/-- The store with the bytes from `off` on overwritten. -/
def patch (d : Nat → UInt8) (off : Nat) (data : List UInt8) (a : Nat) : UInt8 :=
  if off ≤ a then data.getD (a - off) (d a) else d a

variable {d e : Nat → UInt8} {off off' len m n a : Nat} {data xs ys : List UInt8}

@[simp] theorem length_slice (d : Nat → UInt8) (off len : Nat) : (slice d off len).length = len := by
  rw [slice, List.length_map, List.length_range]

theorem getElem_slice {i : Nat} (h : i < (slice d off len).length) :
    (slice d off len)[i] = d (off + i) := by
  simp [slice]

theorem slice_congr (h : ∀ i < len, e (off + i) = d (off + i)) : slice e off len = slice d off len := by
  refine List.map_congr_left ?_
  intro i hi
  exact h i (List.mem_range.mp hi)

theorem slice_add (d : Nat → UInt8) (off m n : Nat) :
    slice d off (m + n) = slice d off m ++ slice d (off + m) n := by
  simp only [slice, List.range_add, List.map_append, List.map_map]
  congr 1
  refine List.map_congr_left ?_
  intro i _
  show d (off + (m + i)) = d (off + m + i)
  rw [Nat.add_assoc]

variable (d off) in
/-- A part of a range that was read. -/
theorem slice_window (h : m + n ≤ len) : ((slice d off len).drop m).take n = slice d (off + m) n := by
  refine List.ext_getElem ?_ ?_
  · simp only [List.length_take, List.length_drop, length_slice]
    omega
  · intro i hi₁ hi₂
    rw [List.getElem_take, List.getElem_drop, getElem_slice, getElem_slice]
    congr 1
    omega

theorem take_slice (h : n ≤ len) : (slice d off len).take n = slice d off n := by
  have := slice_window d off (show 0 + n ≤ len by omega)
  rwa [List.drop_zero, Nat.add_zero] at this

theorem drop_slice (h : m ≤ len) : (slice d off len).drop m = slice d (off + m) (len - m) := by
  have := slice_window d off (show m + (len - m) ≤ len by omega)
  rwa [List.take_of_length_le (by rw [List.length_drop, length_slice])] at this

theorem patch_of_lt (h : a < off) : patch d off data a = d a :=
  if_neg (Nat.not_le.mpr h)

theorem patch_of_ge (h : off + data.length ≤ a) : patch d off data a = d a := by
  have hle : off ≤ a := by omega
  rw [patch, if_pos hle, List.getD_eq_default]
  omega

theorem patch_add {i : Nat} (h : i < data.length) : patch d off data (off + i) = data[i] := by
  rw [patch, if_pos (Nat.le_add_right off i), Nat.add_sub_cancel_left, List.getD_eq_getElem _ _ h]

/-- What was written is read back. -/
theorem slice_patch (d : Nat → UInt8) (off : Nat) (data : List UInt8) :
    slice (patch d off data) off data.length = data := by
  refine List.ext_getElem (length_slice ..) ?_
  intro i _ h
  rw [getElem_slice, patch_add h]

/-- A range apart from the one written keeps its bytes. -/
theorem slice_patch_of_disjoint (h : off' + len ≤ off ∨ off + data.length ≤ off') :
    slice (patch d off data) off' len = slice d off' len := by
  refine slice_congr ?_
  intro i hi
  cases h with
  | inl h => exact patch_of_lt (by omega)
  | inr h => exact patch_of_ge (by omega)

/-- Writing back what is there changes nothing. -/
theorem patch_slice (d : Nat → UInt8) (off len : Nat) : patch d off (slice d off len) = d := by
  funext a
  by_cases h : off ≤ a ∧ a < off + len
  · obtain ⟨i, rfl⟩ := Nat.exists_eq_add_of_le h.1
    have hi : i < (slice d off len).length := by
      rw [length_slice]
      omega
    rw [patch_add hi, getElem_slice]
  · by_cases hlt : a < off
    · exact patch_of_lt hlt
    · exact patch_of_ge (by rw [length_slice]; omega)

theorem patch_append (d : Nat → UInt8) (off : Nat) (xs ys : List UInt8) :
    patch d off (xs ++ ys) = patch (patch d off xs) (off + xs.length) ys := by
  funext a
  by_cases h₁ : a < off
  · rw [patch_of_lt h₁, patch_of_lt (by omega), patch_of_lt h₁]
  · obtain ⟨i, rfl⟩ := Nat.exists_eq_add_of_le (Nat.not_lt.mp h₁)
    by_cases h₂ : i < xs.length
    · have h : i < (xs ++ ys).length := by
        rw [List.length_append]
        omega
      rw [patch_add h, patch_of_lt (by omega), patch_add h₂, List.getElem_append_left h₂]
    · by_cases h₃ : i < xs.length + ys.length
      · obtain ⟨j, rfl⟩ := Nat.exists_eq_add_of_le (Nat.not_lt.mp h₂)
        have h : xs.length + j < (xs ++ ys).length := by
          rw [List.length_append]
          omega
        have hj : j < ys.length := by omega
        rw [patch_add h, ← Nat.add_assoc, patch_add hj, List.getElem_append_right (by omega)]
        congr 1
        omega
      · rw [patch_of_ge (by rw [List.length_append]; omega), patch_of_ge (by omega),
          patch_of_ge (by omega)]

/-- Overwriting a part of a range with the rest of it read back. -/
theorem patch_within (h : m + xs.length ≤ len) :
    patch d off ((slice d off len).take m ++ xs ++ (slice d off len).drop (m + xs.length))
      = patch d (off + m) xs := by
  have hafter : slice d (off + (m + xs.length)) (len - (m + xs.length))
      = slice (patch d (off + m) xs) (off + (m + xs.length)) (len - (m + xs.length)) := by
    rw [slice_patch_of_disjoint]
    omega
  rw [take_slice (by omega), drop_slice h, patch_append, patch_append, patch_slice, length_slice,
    List.length_append, length_slice, hafter, patch_slice]

/-- A part of a range whose bytes are known. -/
theorem slice_middle {ws zs : List UInt8} (h : slice d off len = ws ++ xs ++ zs) :
    slice d (off + ws.length) xs.length = xs := by
  have hfit : ws.length + xs.length ≤ len := by
    have := congrArg List.length h
    simp only [length_slice, List.length_append] at this
    omega
  rw [← slice_window d off hfit, h, List.append_assoc, List.drop_left, List.take_left]

/-- A range whose bytes are known, after a part of it was overwritten. -/
theorem slice_patch_middle {ws zs : List UInt8} (h : slice d off len = ws ++ xs ++ zs)
    (hlen : ys.length = xs.length) :
    slice (patch d (off + ws.length) ys) off len = ws ++ ys ++ zs := by
  have hall : len = (ws ++ ys ++ zs).length := by
    have := congrArg List.length h
    simp only [length_slice, List.length_append] at this ⊢
    omega
  have hfit : ws.length + ys.length ≤ len := by
    rw [hall, List.length_append, List.length_append]
    omega
  have htake : (slice d off len).take ws.length = ws := by
    rw [h, List.append_assoc, List.take_left]
  have hdrop : (slice d off len).drop (ws.length + ys.length) = zs := by
    rw [h, hlen, ← List.length_append, List.drop_left]
  have hwhole : patch d off ((slice d off len).take ws.length ++ ys ++
      (slice d off len).drop (ws.length + ys.length)) = patch d (off + ws.length) ys :=
    patch_within hfit
  rw [htake, hdrop] at hwhole
  rw [← hwhole, hall]
  exact slice_patch ..

end TX2SecureUart.ByteStore
