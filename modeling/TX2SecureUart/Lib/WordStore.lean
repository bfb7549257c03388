/-
# `Lib.WordStore` — little-endian words in a store of bytes

A word is read from a range of the store and written to one.  A write is seen by a read of the same
word, and by none of a word that is apart from it; so two stores that agree on the bytes of a
word have the same word there.
-/
import TX2SecureUart.Lib.ByteStore
import TX2SecureUart.Lib.LeBytes

namespace TX2SecureUart.WordStore

open ByteStore

/-! Words are not unfolded by themselves: a condition on one would be computed byte by byte. -/

/-- The word of `n` bytes at `a`. -/
@[irreducible] def word (d : Nat → UInt8) (n a : Nat) : Nat := leNat (slice d a n)

@[irreducible] def setWord (d : Nat → UInt8) (n a v : Nat) : Nat → UInt8 := patch d a (leBytes n v)

/-- The stores agree from `a` on, for `n` bytes. -/
def Same (d e : Nat → UInt8) (a n : Nat) : Prop := ∀ x, a ≤ x → x < a + n → e x = d x

variable {d e f : Nat → UInt8} {n m a b v : Nat}

theorem word_setWord (hv : v < 256 ^ n) : word (setWord d n a v) n a = v := by
  have h := slice_patch d a (leBytes n v)
  rw [length_leBytes] at h
  rw [word, setWord, h, leNat_leBytes, Nat.mod_eq_of_lt hv]

theorem setWord_outside {x : Nat} (h : x < a ∨ a + n ≤ x) : setWord d n a v x = d x := by
  rw [setWord]
  rcases h with h | h
  · exact patch_of_lt h
  · exact patch_of_ge (by rwa [length_leBytes])

theorem Same.word_eq (h : Same d e a n) : word e n a = word d n a := by
  rw [word, word]
  refine congrArg leNat (slice_congr ?_)
  intro i hi
  exact h (a + i) (Nat.le_add_right a i) (Nat.add_lt_add_left hi a)

theorem Same.refl (d : Nat → UInt8) (a n : Nat) : Same d d a n := fun _ _ _ => rfl

theorem Same.trans (h : Same d e a n) (h' : Same e f a n) : Same d f a n :=
  fun x hx hlt => (h' x hx hlt).trans (h x hx hlt)

theorem Same.mono (h : Same d e a n) (hle : a ≤ b) (hsub : b + m ≤ a + n) : Same d e b m :=
  fun x hx hlt => h x (Nat.le_trans hle hx) (Nat.lt_of_lt_of_le hlt hsub)

theorem same_setWord (h : a + n ≤ b ∨ b + m ≤ a) : Same d (setWord d m b v) a n := by
  intro x hx hlt
  refine setWord_outside ?_
  omega

theorem word_setWord_apart (h : a + n ≤ b ∨ b + m ≤ a) :
    word (setWord d m b v) n a = word d n a :=
  (same_setWord h).word_eq

end TX2SecureUart.WordStore
