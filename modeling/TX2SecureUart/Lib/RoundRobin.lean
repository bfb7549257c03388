/-
# `Lib.RoundRobin` — taking from a rotated list

A list is served in turns.  A turn takes the first element that is ready, and the
list is then read from behind that element on.  `Turns idle xs found ys` says that
turns from `xs` take `found`, in this order, and leave `ys`, where every element
that a turn passed over is `idle`.

An element that is never idle has a potential, the number of elements before it,
which every turn that does not take it lowers.
-/
import Mathlib

namespace TX2SecureUart.RoundRobin

variable {ι : Type}

inductive Turns (idle : ι → Prop) : List ι → List ι → List ι → Prop
  | done (xs : List ι) : Turns idle xs [] xs
  | turn {pre post found ys : List ι} {x : ι} (hidle : ∀ y ∈ pre, idle y)
      (hrest : Turns idle (post ++ pre ++ [x]) found ys) :
      Turns idle (pre ++ x :: post) (x :: found) ys

variable {idle idle' : ι → Prop} {xs ys zs found found' : List ι} {x : ι}

theorem rotated_perm (pre post : List ι) (x : ι) :
    (post ++ pre ++ [x]).Perm (pre ++ x :: post) := by
  rw [List.append_assoc, List.append_cons pre x post]
  exact List.perm_append_comm

/-- No element is lost and none is added. -/
theorem Turns.perm (h : Turns idle xs found ys) : ys.Perm xs := by
  induction h with
  | done xs => exact List.Perm.refl xs
  | turn hidle hrest ih => exact ih.trans (rotated_perm _ _ _)

theorem Turns.mono (h : Turns idle xs found ys) (hi : ∀ y, idle y → idle' y) :
    Turns idle' xs found ys := by
  induction h with
  | done xs => exact Turns.done xs
  | turn hidle hrest ih => exact Turns.turn (fun y hy => hi y (hidle y hy)) ih

/-- The potential: an element with `pre` before it is taken in the first
`pre.length + 1` turns. -/
theorem Turns.mem_take (h : Turns idle xs found ys) {pre post : List ι} (hxs : xs = pre ++ x :: post)
    (hx : ¬idle x) (hlen : pre.length < found.length) : x ∈ found.take (pre.length + 1) := by
  induction h generalizing pre post with
  | done xs => exact absurd hlen (Nat.not_lt_zero _)
  | @turn before after found ys y hidle hrest ih =>
      rw [List.take_succ_cons]
      obtain ⟨mid, rfl, hmid⟩ | ⟨mid, rfl, hmid⟩ := List.append_eq_append_iff.mp hxs
      · cases mid with
        | nil =>
            obtain ⟨rfl, -⟩ := List.cons.inj hmid
            exact List.mem_cons_self
        | cons z mid =>
            -- The turn takes `y`, which was before `x`.
            obtain ⟨rfl, rfl⟩ := List.cons.inj hmid
            have hsplit : mid ++ x :: post ++ before ++ [y] = mid ++ x :: (post ++ before ++ [y]) := by
              simp
            simp only [List.length_append, List.length_cons] at hlen ⊢
            have hmem := ih hsplit (by omega)
            refine List.mem_cons_of_mem _ ?_
            exact List.take_subset_take_left _ (by omega) hmem
      · cases mid with
        | nil =>
            obtain ⟨rfl, -⟩ := List.cons.inj hmid
            exact List.mem_cons_self
        | cons z mid =>
            obtain ⟨rfl, -⟩ := List.cons.inj hmid
            exact absurd (hidle x (by simp)) hx

/-- Every element that is never idle is taken in the first `xs.length` turns. -/
theorem Turns.fair (h : Turns idle xs found ys) (hmem : x ∈ xs) (hx : ¬idle x)
    (hlen : xs.length ≤ found.length) : x ∈ found.take xs.length := by
  obtain ⟨pre, post, rfl⟩ := List.append_of_mem hmem
  rw [List.length_append, List.length_cons] at hlen ⊢
  have htake := h.mem_take rfl hx (by omega)
  exact List.take_subset_take_left _ (by omega) htake

/-- The turn in which an element stops being idle counts among them. -/
theorem Turns.fair_after {pre post : List ι} {y : ι} (h : Turns idle (post ++ pre ++ [y]) found ys)
    (hmem : x ∈ pre ++ y :: post) (hx : ¬idle x)
    (hlen : (pre ++ y :: post).length ≤ (y :: found).length) :
    x ∈ (y :: found).take (pre ++ y :: post).length := by
  have hn : (pre ++ y :: post).length = (post ++ pre).length + 1 := by
    simp only [List.length_append, List.length_cons]
    omega
  rw [hn, List.take_succ_cons]
  rw [hn, List.length_cons] at hlen
  by_cases hxy : x = y
  · rw [hxy]
    exact List.mem_cons_self
  · have hmem' : x ∈ post ++ pre := by
      simp only [List.mem_append, List.mem_cons] at hmem ⊢
      tauto
    obtain ⟨before, after, hsplit⟩ := List.append_of_mem hmem'
    rw [hsplit] at h hlen ⊢
    rw [List.append_assoc, List.cons_append] at h
    rw [List.length_append, List.length_cons] at hlen ⊢
    have htake := h.mem_take rfl hx (by omega)
    exact List.mem_cons_of_mem _ (List.take_subset_take_left _ (by omega) htake)

end TX2SecureUart.RoundRobin
