/-
# `Lib.FirstBest` — the first of the highest ranks

A loop that keeps the highest rank so far, and where it has seen it, ends with the first
index of the highest rank.  Rank `0` is that of an index which does not count.
-/
import Mathlib

namespace TX2SecureUart.FirstBest

/-- The highest rank of the first `n` indices, and the first index that has it. -/
def best (rank : Nat → Nat) : Nat → Nat × Nat
  | 0 => (0, 0)
  | n + 1 =>
      if (best rank n).1 < rank n then (rank n, n) else best rank n

/-- The index counts, and is the first of the highest rank. -/
structure IsFirstBest (rank : Nat → Nat) (n s : Nat) : Prop where
  lt : s < n
  pos : 0 < rank s
  le : ∀ i < n, rank i ≤ rank s
  first : ∀ i < s, rank i < rank s

variable {rank : Nat → Nat} {n s t : Nat}

theorem best_zero_iff : (best rank n).1 = 0 ↔ ∀ i < n, rank i = 0 := by
  induction n with
  | zero => exact ⟨fun _ i hi => absurd hi (Nat.not_lt_zero i), fun _ => rfl⟩
  | succ n ih =>
    rw [best]
    split
    · rename_i hlt
      constructor
      · intro h
        exact absurd h (Nat.ne_of_gt (Nat.lt_of_le_of_lt (Nat.zero_le _) hlt))
      · intro h
        exact h n (Nat.lt_succ_self n)
    · rename_i hle
      rw [ih]
      constructor
      · intro h i hi
        rcases Nat.lt_succ_iff_lt_or_eq.mp hi with hi | rfl
        · exact h i hi
        · rw [ih.mpr h] at hle
          omega
      · intro h i hi
        exact h i (Nat.lt_succ_of_lt hi)

/-- What the loop keeps. -/
theorem best_isFirstBest (h : 0 < (best rank n).1) :
    IsFirstBest rank n (best rank n).2 ∧ rank (best rank n).2 = (best rank n).1 := by
  induction n with
  | zero => exact absurd h (Nat.lt_irrefl 0)
  | succ n ih =>
    rw [best] at h ⊢
    split
    · rename_i hlt
      have hall : ∀ i < n, rank i < rank n := by
        intro i hi
        rcases Nat.eq_zero_or_pos (best rank n).1 with h0 | hpos
        · rw [best_zero_iff.mp h0 i hi, ← h0]
          exact hlt
        · obtain ⟨hbest, hrank⟩ := ih hpos
          exact Nat.lt_of_le_of_lt (hrank ▸ hbest.le i hi) hlt
      refine ⟨⟨Nat.lt_succ_self n, Nat.lt_of_le_of_lt (Nat.zero_le _) hlt, ?_, hall⟩, rfl⟩
      intro i hi
      rcases Nat.lt_succ_iff_lt_or_eq.mp hi with hi | rfl
      · exact Nat.le_of_lt (hall i hi)
      · exact Nat.le_refl _
    · rename_i hle
      rw [if_neg hle] at h
      obtain ⟨hbest, hrank⟩ := ih h
      refine ⟨⟨Nat.lt_succ_of_lt hbest.lt, hbest.pos, ?_, hbest.first⟩, hrank⟩
      intro i hi
      rcases Nat.lt_succ_iff_lt_or_eq.mp hi with hi | rfl
      · exact hbest.le i hi
      · rw [hrank]
        exact Nat.not_lt.mp hle

theorem IsFirstBest.unique (hs : IsFirstBest rank n s) (ht : IsFirstBest rank n t) : s = t := by
  rcases Nat.lt_trichotomy s t with h | h | h
  · exact absurd (ht.first s h) (Nat.not_lt.mpr (hs.le t ht.lt))
  · exact h
  · exact absurd (hs.first t h) (Nat.not_lt.mpr (ht.le s hs.lt))

/-- The loop finds the first of the highest rank where an index counts. -/
theorem isFirstBest_iff : IsFirstBest rank n s ↔ (best rank n).1 ≠ 0 ∧ (best rank n).2 = s := by
  constructor
  · intro hs
    have hne : (best rank n).1 ≠ 0 := by
      intro h0
      exact absurd (best_zero_iff.mp h0 s hs.lt) (Nat.ne_of_gt hs.pos)
    exact ⟨hne, (best_isFirstBest (Nat.pos_of_ne_zero hne)).1.unique hs⟩
  · rintro ⟨hne, rfl⟩
    exact (best_isFirstBest (Nat.pos_of_ne_zero hne)).1

theorem exists_isFirstBest_iff : (∃ s, IsFirstBest rank n s) ↔ ∃ i < n, 0 < rank i := by
  constructor
  · rintro ⟨s, hs⟩
    exact ⟨s, hs.lt, hs.pos⟩
  · rintro ⟨i, hi, hpos⟩
    refine ⟨(best rank n).2, isFirstBest_iff.mpr ⟨?_, rfl⟩⟩
    intro h0
    exact absurd (best_zero_iff.mp h0 i hi) (Nat.ne_of_gt hpos)

end TX2SecureUart.FirstBest
