/-
# `Lib.Tiling` — ranges one behind the other

`consecutive b ns` are ranges of the sizes `ns`, each of which begins where the one
before it ends, from `b` on.  They are disjoint, and together they cover one range.
-/
import Mathlib

namespace TX2SecureUart.Tiling

/-- A range of addresses: where it begins and how long it is. -/
abbrev Range := Nat × Nat

def Range.Contains (r : Range) (p : Nat) : Prop :=
  r.1 ≤ p ∧ p < r.1 + r.2

def consecutive : Nat → List Nat → List Range
  | _, [] => []
  | b, n :: ns => (b, n) :: consecutive (b + n) ns

variable {b p : Nat} {ns ms : List Nat}

@[simp] theorem length_consecutive (b : Nat) (ns : List Nat) : (consecutive b ns).length = ns.length := by
  induction ns generalizing b with
  | nil => rfl
  | cons n ns ih => rw [consecutive, List.length_cons, List.length_cons, ih]

theorem consecutive_append (b : Nat) (ms ns : List Nat) :
    consecutive b (ms ++ ns) = consecutive b ms ++ consecutive (b + ms.sum) ns := by
  induction ms generalizing b with
  | nil => rfl
  | cons m ms ih =>
      rw [List.cons_append, consecutive, consecutive, ih, List.sum_cons, Nat.add_assoc, List.cons_append]

/-- The ranges cover one range. -/
theorem covered_iff : (∃ r ∈ consecutive b ns, Range.Contains r p) ↔ b ≤ p ∧ p < b + ns.sum := by
  induction ns generalizing b with
  | nil =>
      show (∃ r ∈ [], _) ↔ b ≤ p ∧ p < b + 0
      simp only [List.not_mem_nil, false_and, exists_false, false_iff]
      omega
  | cons n ns ih =>
      rw [consecutive, List.sum_cons]
      simp only [List.mem_cons, exists_eq_or_imp, ih]
      show (b ≤ p ∧ p < b + n) ∨ _ ↔ _
      omega

theorem le_of_mem {r : Range} (h : r ∈ consecutive b ns) : b ≤ r.1 ∧ r.1 + r.2 ≤ b + ns.sum := by
  induction ns generalizing b with
  | nil => exact absurd h List.not_mem_nil
  | cons n ns ih =>
      rw [List.sum_cons]
      cases List.mem_cons.mp h with
      | inl h =>
          subst h
          exact ⟨Nat.le_refl b, by dsimp only; omega⟩
      | inr h =>
          have := ih h
          omega

/-- Each of the ranges ends before the following ones begin. -/
theorem pairwise_consecutive (b : Nat) (ns : List Nat) :
    (consecutive b ns).Pairwise (fun r r' => r.1 + r.2 ≤ r'.1) := by
  induction ns generalizing b with
  | nil => exact List.Pairwise.nil
  | cons n ns ih =>
      refine List.Pairwise.cons ?_ (ih (b + n))
      intro r hr
      exact (le_of_mem hr).1

/-! ## Ranges in any order -/

def Range.Apart (r r' : Range) : Prop := r.1 + r.2 ≤ r'.1 ∨ r'.1 + r'.2 ≤ r.1

/-- The addresses of the ranges -/
def points : List Range → Finset Nat
  | [] => ∅
  | r :: rs => Finset.Ico r.1 (r.1 + r.2) ∪ points rs

variable {r : Range} {rs : List Range} {lo hi : Nat}

theorem mem_points : p ∈ points rs ↔ ∃ r ∈ rs, Range.Contains r p := by
  induction rs with
  | nil => simp [points]
  | cons r rs ih => simp [points, ih, Range.Contains]

theorem Range.Apart.not_mem (h : ∀ r' ∈ rs, Range.Apart r r') (hp : Range.Contains r p) : p ∉ points rs := by
  rw [mem_points]
  rintro ⟨r', hr', hle, hlt⟩
  have hpr : r.1 ≤ p ∧ p < r.1 + r.2 := hp
  rcases h r' hr' with hap | hap <;> omega

/-- Ranges that are apart have as many addresses as the sum of their sizes. -/
theorem card_points (h : rs.Pairwise Range.Apart) : (points rs).card = (rs.map Prod.snd).sum := by
  induction rs with
  | nil => rfl
  | cons r rs ih =>
      obtain ⟨hr, hrs⟩ := List.pairwise_cons.mp h
      have hdisj : Disjoint (Finset.Ico r.1 (r.1 + r.2)) (points rs) :=
        Finset.disjoint_left.mpr fun p hp => Range.Apart.not_mem hr (Finset.mem_Ico.mp hp)
      rw [points, Finset.card_union_of_disjoint hdisj, ih hrs, Nat.card_Ico, Nat.add_sub_cancel_left, List.map_cons,
        List.sum_cons]

/-- Ranges that are apart cover the range that they are in if their sizes add up to its size. -/
theorem covered_of_sum (h : rs.Pairwise Range.Apart) (hin : ∀ r ∈ rs, lo ≤ r.1 ∧ r.1 + r.2 ≤ hi)
    (hsum : hi ≤ lo + (rs.map Prod.snd).sum) : (∃ r ∈ rs, Range.Contains r p) ↔ lo ≤ p ∧ p < hi := by
  have hsub : points rs ⊆ Finset.Ico lo hi := by
    intro p hp
    obtain ⟨r, hr, hle, hlt⟩ := mem_points.mp hp
    have hr := hin r hr
    exact Finset.mem_Ico.mpr (by omega)
  have hcard : (Finset.Ico lo hi).card ≤ (points rs).card := by
    rw [card_points h, Nat.card_Ico]
    omega
  rw [← mem_points, Finset.eq_of_subset_of_card_le hsub hcard, Finset.mem_Ico]

end TX2SecureUart.Tiling
