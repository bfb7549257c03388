/-
# `Loader.Libc` — the library functions the loader uses

`strcmp`, `strncmp`, `strtoul`, `memcpy` and `memmove` over a block of memory.
The block starts at a page, so that an address has the alignment of its
distance from the start.  `memcpy` and the upward half of `memmove` move bytes
and words from the lowest address up, whatever the two ranges have in common;
their counter of bytes is an `int`.
-/
import TX2SecureUart.Lib.Region

namespace TX2SecureUart.Loader

open Prog Region

variable {ε : Type}

/-! ## Strings -/

/-- `!strncmp(p, s, n)`, for a literal of `n` characters -/
def strncmp (p : Nat) (s : List UInt8) : RegionM ε Bool := matchBytes p s

/-- `!strcmp(p, s)`: the terminator is compared as well. -/
def strcmp (p : Nat) (s : List UInt8) : RegionM ε Bool := matchBytes p (s ++ [0])

def isspace (c : UInt8) : Bool :=
  c = 32 || c = 12 || c = 10 || c = 13 || c = 9 || c = 11

def ulongMax : Nat := 2 ^ 64 - 1

def digitVal (c : UInt8) : Option Nat :=
  if 65 ≤ c.toNat ∧ c.toNat ≤ 90 then some (c.toNat - 65 + 10)
  else if 97 ≤ c.toNat ∧ c.toNat ≤ 122 then some (c.toNat - 97 + 10)
  else if 48 ≤ c.toNat ∧ c.toNat ≤ 57 then some (c.toNat - 48)
  else none

/-- One digit: `ret * base + v`, or `ULONG_MAX` from the first overflow on. -/
def addDigit (base ret v : Nat) : Nat :=
  let newRet := ret * base % 2 ^ 64
  if newRet / base ≠ ret ∨ (newRet + v) % 2 ^ 64 < newRet ∨ ret = ulongMax then ulongMax
  else (newRet + v) % 2 ^ 64

/-- The digits from here on: the number, and the character they end at.  There
is none when the bytes run out. -/
def scanDigits (base : Nat) : Nat → List UInt8 → Option (Nat × UInt8)
  | _, [] => none
  | ret, c :: cs =>
      match digitVal c with
      | none => some (ret, c)
      | some v => if base ≤ v then some (ret, c) else scanDigits base (addDigit base ret v) cs

def signOf : List UInt8 → Bool × List UInt8
  | [] => (false, [])
  | c :: cs => if c = 43 then (false, cs) else if c = 45 then (true, cs) else (false, c :: cs)

/-- `0x` is base 16, another leading zero base 8. -/
def baseOf : List UInt8 → Nat × List UInt8
  | [] => (10, [])
  | c :: cs =>
      if c = 48 then
        match cs with
        | [] => (8, [])
        | x :: ds => if x = 120 then (16, ds) else (8, x :: ds)
      else (10, c :: cs)

/-- `strtoul(nptr, &endptr, 0)` on the bytes from `nptr` on: the value and
`*endptr`, or nothing where the bytes run out first. -/
def strtoul (nptr : List UInt8) : Option (Nat × UInt8) :=
  let signed := signOf (nptr.dropWhile isspace)
  let based := baseOf signed.2
  match scanDigits based.1 0 based.2 with
  | none => none
  | some (ret, endp) =>
      if signed.1 ∧ ret ≠ ulongMax then some ((2 ^ 64 - ret) % 2 ^ 64, endp) else some (ret, endp)

/-- More bytes after the ones that were looked at make no difference. -/
theorem scanDigits_append {base ret : Nat} {s : List UInt8} {r : Nat × UInt8} (t : List UInt8)
    (h : scanDigits base ret s = some r) : scanDigits base ret (s ++ t) = some r := by
  induction s generalizing ret with
  | nil => cases h
  | cons c cs ih =>
      rw [List.cons_append]
      simp only [scanDigits] at h ⊢
      cases hd : digitVal c with
      | none =>
          rw [hd] at h
          exact h
      | some v =>
          rw [hd] at h
          dsimp only at h ⊢
          split
          · next hv =>
              rw [if_pos hv] at h
              exact h
          · next hv =>
              rw [if_neg hv] at h
              exact ih h

theorem signOf_append {s : List UInt8} (t : List UInt8) (h : (signOf s).2 ≠ []) :
    signOf (s ++ t) = ((signOf s).1, (signOf s).2 ++ t) := by
  cases s with
  | nil => exact absurd rfl h
  | cons c cs =>
      simp only [List.cons_append, signOf]
      split
      · rfl
      · split <;> rfl

theorem baseOf_append {s : List UInt8} (t : List UInt8) (h : (baseOf s).2 ≠ []) :
    baseOf (s ++ t) = ((baseOf s).1, (baseOf s).2 ++ t) := by
  cases s with
  | nil => exact absurd rfl h
  | cons c cs =>
      by_cases hc : c = 48
      · cases cs with
        | nil =>
            subst hc
            exact absurd rfl h
        | cons x ds =>
            simp only [List.cons_append, baseOf, if_pos hc]
            split <;> rfl
      · simp only [List.cons_append, baseOf, if_neg hc]

theorem strtoul_append {s : List UInt8} {r : Nat × UInt8} (t : List UInt8)
    (h : strtoul s = some r) : strtoul (s ++ t) = some r := by
  rw [strtoul] at h ⊢
  cases hscan : scanDigits (baseOf (signOf (s.dropWhile isspace)).2).1 0
      (baseOf (signOf (s.dropWhile isspace)).2).2 with
  | none =>
      rw [hscan] at h
      cases h
  | some d =>
      have hbase : (baseOf (signOf (s.dropWhile isspace)).2).2 ≠ [] := by
        intro hnil
        rw [hnil] at hscan
        cases hscan
      have hsign : (signOf (s.dropWhile isspace)).2 ≠ [] := by
        intro hnil
        rw [hnil] at hbase
        exact hbase rfl
      have hdrop : s.dropWhile isspace ≠ [] := by
        intro hnil
        rw [hnil] at hsign
        exact hsign rfl
      have hskip : (s ++ t).dropWhile isspace = s.dropWhile isspace ++ t := by
        rw [List.dropWhile_append, if_neg]
        rw [List.isEmpty_iff]
        exact hdrop
      rw [hskip, signOf_append t hsign]
      dsimp only
      rw [baseOf_append t hbase, scanDigits_append t hscan]
      rw [hscan] at h
      exact h

/-! ## Moving memory -/

/-- What an `int` makes of a count. -/
def int32 (n : Nat) : Int :=
  if n % 2 ^ 32 < 2 ^ 31 then (n % 2 ^ 32 : Nat) else (n % 2 ^ 32 : Nat) - 2 ^ 32

/-- The bytes moved one by one before whole words can be: all of them when the
two addresses differ in alignment. -/
def headLen (dest src count : Nat) : Int :=
  if dest % 8 = 0 ∧ src % 8 = 0 then 0
  else if dest % 8 ≠ src % 8 ∨ count < 8 then int32 count
  else (8 - dest % 8 : Nat)

/-- Bytes up to a word boundary, words, and the bytes that are left. -/
def moveUp (dest src count : Nat) : RegionM ε Unit := do
  let len := headLen dest src count
  let left := ((count : Int) - len).toNat % 2 ^ 64
  let words := (int32 (left / 8)).toNat
  copyUp 1 len.toNat dest src
  copyUp 8 words (dest + len.toNat) (src + len.toNat)
  copyUp 1 (left % 8) (dest + len.toNat + words * 8) (src + len.toNat + words * 8)

def tailLen (dest src count : Nat) : Int :=
  if dest % 8 = 0 ∧ src % 8 = 0 then 0
  else if dest % 8 ≠ src % 8 ∨ count ≤ 8 then int32 count
  else (dest % 8 : Nat)

/-- The same from the ends of the two ranges down. -/
def moveDown (dest src count : Nat) : RegionM ε Unit := do
  let len := tailLen dest src count
  let left := ((count : Int) - len).toNat % 2 ^ 64
  let words := (int32 (left / 8)).toNat
  copyDown 1 len.toNat dest src
  copyDown 8 words (dest - len.toNat) (src - len.toNat)
  copyDown 1 (left % 8) (dest - len.toNat - words * 8) (src - len.toNat - words * 8)

def memcpy (dest src count : Nat) : RegionM ε Unit :=
  if count = 0 ∨ dest = src then pure () else moveUp dest src count

def memmove (dest src count : Nat) : RegionM ε Unit :=
  if count = 0 ∨ dest = src then pure ()
  else if dest < src then moveUp dest src count
  else moveDown (dest + count) (src + count) count

/-- The counts of the three loops add up, as long as the `int` holds the first. -/
theorem moveUp_counts {dest src count : Nat} (hcount : count < 2 ^ 32)
    (h : count < 2 ^ 31 ∨ dest % 8 = src % 8) :
    ∃ len left : Nat, headLen dest src count = len ∧
      ((count : Int) - len).toNat % 2 ^ 64 = left ∧ (int32 (left / 8)).toNat = left / 8 ∧
      len + left = count := by
  have hlen : ∃ len : Nat, headLen dest src count = len ∧ len ≤ count := by
    unfold headLen
    split
    · exact ⟨0, rfl, Nat.zero_le _⟩
    · next haligned =>
        split
        · next hbytes =>
            refine ⟨count, ?_, Nat.le_refl _⟩
            rw [int32, Nat.mod_eq_of_lt hcount, if_pos (by omega)]
        · next hwords => exact ⟨8 - dest % 8, rfl, by omega⟩
  obtain ⟨len, hlen, hle⟩ := hlen
  have hleft : ((count : Int) - len).toNat % 2 ^ 64 = count - len := by omega
  refine ⟨len, count - len, hlen, hleft, ?_, by omega⟩
  have hsmall : (count - len) / 8 < 2 ^ 31 := by omega
  rw [int32, Nat.mod_eq_of_lt (by omega), if_pos hsmall, Int.toNat_natCast]

/-- What lay above the gap lies below it. -/
theorem moveUp_spec (pre gap xs post : List UInt8) (hcount : xs.length < 2 ^ 32)
    (h : xs.length < 2 ^ 31 ∨ 8 ∣ gap.length) :
    ∃ gap', (moveUp pre.length (pre ++ gap).length xs.length : RegionM ε Unit)
        (pre ++ gap ++ xs ++ post) = .ok ⟨⟩ (pre ++ xs ++ gap' ++ post) ∧
      gap'.length = gap.length := by
  have halign : xs.length < 2 ^ 31 ∨ pre.length % 8 = (pre ++ gap).length % 8 := by
    rw [List.length_append]
    omega
  obtain ⟨len, left, hlen, hleft, hwords, hsum⟩ := moveUp_counts hcount halign
  obtain ⟨as, bs, rfl, has⟩ : ∃ as bs, xs = as ++ bs ∧ as.length = len :=
    ⟨xs.take len, xs.drop len, (List.take_append_drop ..).symm, List.length_take_of_le (by omega)⟩
  rw [List.length_append] at hsum
  have hbs : bs.length = left := by omega
  obtain ⟨ws, cs, rfl, hws⟩ : ∃ ws cs, bs = ws ++ cs ∧ ws.length = left / 8 * 8 :=
    ⟨bs.take (left / 8 * 8), bs.drop (left / 8 * 8), (List.take_append_drop ..).symm,
      List.length_take_of_le (by omega)⟩
  rw [List.length_append] at hbs
  have hcs : cs.length = left % 8 * 1 := by omega
  obtain ⟨gap₁, hrun₁, hgap₁⟩ :=
    copyUp_spec (ε := ε) pre gap (ws ++ cs ++ post) (has.trans (Nat.mul_one len).symm)
  obtain ⟨gap₂, hrun₂, hgap₂⟩ := copyUp_spec (ε := ε) (pre ++ as) gap₁ (cs ++ post) hws
  obtain ⟨gap₃, hrun₃, hgap₃⟩ := copyUp_spec (ε := ε) (pre ++ as ++ ws) gap₂ post hcs
  refine ⟨gap₃, ?_, hgap₃.trans (hgap₂.trans hgap₁)⟩
  rw [moveUp, hlen]
  rw [hleft, hwords, Int.toNat_natCast]
  simp only [List.length_append, has, hws, hgap₁, hgap₂] at hrun₁ hrun₂ hrun₃ ⊢
  simp only [List.append_assoc] at hrun₁ hrun₂ hrun₃ ⊢
  rw [run_bind, hrun₁]
  dsimp only
  rw [run_bind, Nat.add_right_comm pre.length gap.length len, hrun₂]
  dsimp only
  rw [Nat.add_right_comm _ gap.length, hrun₃]

/-- With two gigabytes or more the counter of single bytes is negative, and the
words that are moved instead come to four gigabytes. -/
theorem moveUp_outside {mem : List UInt8} {dest src count : Nat} (hdst : dest ≤ src)
    (hcount : count < 2 ^ 32) (hbig : 2 ^ 31 ≤ count) (halign : dest % 8 ≠ src % 8)
    (hmem : mem.length < 2 ^ 32) :
    ∃ mem', (moveUp dest src count : RegionM ε Unit) mem = .error .readOutside mem' := by
  have hlen : headLen dest src count = (count : Int) - 2 ^ 32 := by
    rw [headLen, if_neg (by omega), if_pos (.inl halign), int32, Nat.mod_eq_of_lt hcount,
      if_neg (by omega)]
  have hzero : ((count : Int) - 2 ^ 32).toNat = 0 := by omega
  have hleft : ((count : Int) - ((count : Int) - 2 ^ 32)).toNat % 2 ^ 64 = 2 ^ 32 := by omega
  have hwords : (int32 (2 ^ 32 / 8)).toNat = 2 ^ 29 := by decide
  have hout : mem.length < src + 2 ^ 29 * 8 := by omega
  obtain ⟨mem', hrun⟩ := copyUp_outside (ε := ε) (show 0 < 8 by decide) (show 0 < 2 ^ 29 by decide)
    hdst hout
  refine ⟨mem', ?_⟩
  rw [moveUp, hlen]
  rw [hzero, hleft, hwords, run_bind, copyUp, run_pure]
  dsimp only
  rw [run_bind, Nat.add_zero, Nat.add_zero, hrun]

theorem memcpy_spec (pre gap xs post : List UInt8) (hcount : xs.length < 2 ^ 32)
    (h : 8 ∣ gap.length ∨ xs.length < 2 ^ 31) :
    ∃ gap', (memcpy pre.length (pre ++ gap).length xs.length : RegionM ε Unit)
        (pre ++ gap ++ xs ++ post) = .ok ⟨⟩ (pre ++ xs ++ gap' ++ post) ∧
      gap'.length = gap.length := by
  rw [memcpy]
  by_cases hnone : xs.length = 0 ∨ pre.length = (pre ++ gap).length
  · rw [if_pos hnone]
    refine ⟨gap, ?_, rfl⟩
    rcases hnone with hxs | hgap
    · rw [List.length_eq_zero_iff.mp hxs, List.append_nil, List.append_nil]
      rfl
    · have hnil : gap = [] := by
        rw [List.length_append] at hgap
        exact List.length_eq_zero_iff.mp (by omega)
      rw [hnil, List.append_nil, List.append_nil]
      rfl
  · rw [if_neg hnone]
    exact moveUp_spec pre gap xs post hcount h.symm

theorem memcpy_outside {mem : List UInt8} {dest gap count : Nat} (hcount : count < 2 ^ 32)
    (hmem : mem.length < 2 ^ 32) (h : ¬ (8 ∣ gap ∨ count < 2 ^ 31)) :
    valueOf ((memcpy dest (dest + gap) count : RegionM ε Unit) mem) = none := by
  have hdst : dest ≤ dest + gap := Nat.le_add_right dest gap
  have hbig : 2 ^ 31 ≤ count := by omega
  have halign : dest % 8 ≠ (dest + gap) % 8 := by omega
  obtain ⟨mem', hrun⟩ := moveUp_outside (ε := ε) hdst hcount hbig halign hmem
  rw [memcpy, if_neg (by omega), hrun]
  rfl

end TX2SecureUart.Loader
