/-
# `Lib.DecimalText` — numbers as decimal text

A numeral is a word of digits; a text is a sequence of numerals, each ended by a space.
Reading the text from left to right gives the numbers back.
-/
import Mathlib

namespace TX2SecureUart.DecimalText

def space : UInt8 := 32

/-- `d + '0'` -/
def digitChar (d : Nat) : UInt8 := UInt8.ofNat (d + 48)

def IsDigit (c : UInt8) : Prop := 48 ≤ c.toNat ∧ c.toNat < 58

/-- The value of a word of digits, read after `acc`. -/
def valueFrom (acc : Nat) (word : List UInt8) : Nat :=
  word.foldl (fun a c => 10 * a + (c.toNat - 48)) acc

structure Numeral (word : List UInt8) (n : Nat) : Prop where
  nonempty : word ≠ []
  digits : ∀ c ∈ word, IsDigit c
  value : valueFrom 0 word = n

/-- The numbers of a text. -/
def readNumbers : Nat → List UInt8 → List Nat
  | _, [] => []
  | acc, c :: cs =>
      if c = space then acc :: readNumbers 0 cs else readNumbers (10 * acc + (c.toNat - 48)) cs

/-- The text of some words. -/
def textOf (words : List (List UInt8)) : List UInt8 := words.flatMap (· ++ [space])

theorem IsDigit.ne_space {c : UInt8} (h : IsDigit c) : c ≠ space := by
  rintro rfl
  exact absurd h.1 (by decide)

theorem IsDigit.ne_zero {c : UInt8} (h : IsDigit c) : c ≠ 0 := by
  rintro rfl
  exact absurd h.1 (by decide)

theorem readNumbers_word {word : List UInt8} (hdigits : ∀ c ∈ word, IsDigit c) (acc : Nat)
    (cs : List UInt8) :
    readNumbers acc (word ++ space :: cs) = valueFrom acc word :: readNumbers 0 cs := by
  induction word generalizing acc with
  | nil => rfl
  | cons c word ih =>
    have hc := (hdigits c List.mem_cons_self).ne_space
    rw [List.cons_append, readNumbers, if_neg hc, ih (fun d hd => hdigits d (List.mem_cons_of_mem c hd))]
    rfl

/-- A text is read back. -/
theorem readNumbers_textOf {words : List (List UInt8)} {ns : List Nat}
    (h : List.Forall₂ Numeral words ns) : readNumbers 0 (textOf words) = ns := by
  induction h with
  | nil => rfl
  | @cons word n words ns hword _ ih =>
    show readNumbers 0 (word ++ [space] ++ textOf words) = n :: ns
    rw [List.append_assoc, List.singleton_append, readNumbers_word hword.digits, hword.value, ih]

theorem ne_zero_of_mem_textOf {words : List (List UInt8)} {ns : List Nat}
    (h : List.Forall₂ Numeral words ns) : ∀ c ∈ textOf words, c ≠ 0 := by
  induction h with
  | nil =>
    intro c hc
    exact absurd hc List.not_mem_nil
  | @cons word n words ns hword _ ih =>
    intro c hc
    have hmem : c ∈ word ++ [space] ++ textOf words := hc
    rcases List.mem_append.mp hmem with hhead | htail
    · rcases List.mem_append.mp hhead with hdigit | hspace
      · exact (hword.digits c hdigit).ne_zero
      · rw [List.mem_singleton.mp hspace]
        decide
    · exact ih c htail

/-! ## The shortest numeral -/

/-- The digits of `n`, the highest first. -/
def numeral (n : Nat) : List UInt8 := ((Nat.digits 10 n).map digitChar).reverse

theorem digitChar_toNat {d : Nat} (h : d < 10) : (digitChar d).toNat = d + 48 :=
  UInt8.toNat_ofNat_of_lt' (show d + 48 < 256 by omega)

theorem isDigit_digitChar {d : Nat} (h : d < 10) : IsDigit (digitChar d) := by
  rw [IsDigit, digitChar_toNat h]
  omega

theorem valueFrom_reverse {ds : List Nat} (h : ∀ d ∈ ds, d < 10) :
    valueFrom 0 (ds.map digitChar).reverse = Nat.ofDigits 10 ds := by
  induction ds with
  | nil => rfl
  | cons d ds ih =>
    have hd := h d List.mem_cons_self
    have hds := ih (fun e he => h e (List.mem_cons_of_mem d he))
    rw [List.map_cons, List.reverse_cons, valueFrom, List.foldl_append]
    show 10 * valueFrom 0 (ds.map digitChar).reverse + ((digitChar d).toNat - 48) = _
    rw [hds, digitChar_toNat hd, Nat.ofDigits_cons]
    show _ = d + 10 * Nat.ofDigits 10 ds
    omega

theorem numeral_numeral {n : Nat} (hn : n ≠ 0) : Numeral (numeral n) n := by
  have hlt : ∀ d ∈ Nat.digits 10 n, d < 10 := fun d hd => Nat.digits_lt_base (by decide) hd
  constructor
  · intro h
    have := congrArg List.length h
    rw [numeral, List.length_reverse, List.length_map, List.length_nil, List.length_eq_zero_iff] at this
    exact Nat.digits_ne_nil_iff_ne_zero.mpr hn this
  · intro c hc
    obtain ⟨d, hd, rfl⟩ := List.mem_map.mp (List.mem_reverse.mp hc)
    exact isDigit_digitChar (hlt d hd)
  · exact (valueFrom_reverse hlt).trans (Nat.ofDigits_digits 10 n)

theorem length_numeral (n : Nat) : (numeral n).length = (Nat.digits 10 n).length := by
  rw [numeral, List.length_reverse, List.length_map]

/-- `n` has at most `k` digits when it is below `10 ^ k`. -/
theorem length_numeral_le_iff {k n : Nat} : (numeral n).length ≤ k ↔ n < 10 ^ k := by
  rw [length_numeral]
  exact Nat.digits_length_le_iff (by decide) n

end TX2SecureUart.DecimalText
