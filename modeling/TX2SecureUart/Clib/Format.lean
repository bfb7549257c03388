/-
# `Clib.Format` — formats, their arguments and the text they stand for

A format is a list of pieces, each with its argument.  `expected` is the text of
`vsnprintf`: a number is padded in front of its sign with blanks, or behind its
prefix with zeros; a width says nothing about a string or a character.

`printed` is the text of `tegrabl_vsnprintf`, which pads in front of the sign with
zeros, too, and with zeros in every directive from the first `0` flag on.
-/
import TX2SecureUart.Clib.Printf

namespace TX2SecureUart.Printf

/-! ## Numerals -/

/-- A number in a base. -/
def numeral (base n : Nat) : List UInt8 :=
  if n = 0 then [zero] else ((Nat.digits base n).map digit).reverse

section
variable {base n : Nat}

theorem numeral_lt (hbase : 1 < base) (h : n / base = 0) : numeral base n = [digit (n % base)] := by
  have hlt : n < base := (Nat.div_eq_zero_iff_lt (by omega)).mp h
  rw [Nat.mod_eq_of_lt hlt, numeral]
  by_cases hn : n = 0
  · rw [if_pos hn, hn]
    rfl
  · rw [if_neg hn, Nat.digits_of_lt base n hn hlt]
    rfl

theorem numeral_ge (hbase : 1 < base) (h : 0 < n / base) :
    numeral base n = numeral base (n / base) ++ [digit (n % base)] := by
  have hn : 0 < n := Nat.pos_of_div_pos h
  rw [numeral, if_neg hn.ne', Nat.digits_def' hbase hn, List.map_cons, List.reverse_cons, numeral,
    if_neg h.ne']

theorem digitCount_lt (h : n / base = 0) : digitCount base n = 1 := by
  rw [digitCount, if_neg (fun hand => hand.2.ne' h)]

theorem digitCount_ge (hbase : 1 < base) (h : 0 < n / base) :
    digitCount base n = digitCount base (n / base) + 1 := by
  rw [digitCount, if_pos ⟨hbase, h⟩]

/-- The length that is calculated. -/
theorem length_numeral (hbase : 1 < base) : (numeral base n).length = digitCount base n := by
  induction n using Nat.strong_induction_on with
  | h n ih =>
      rcases Nat.eq_zero_or_pos (n / base) with h | h
      · rw [numeral_lt hbase h, digitCount_lt h]
        rfl
      · rw [numeral_ge hbase h, digitCount_ge hbase h, List.length_append,
          ih (n / base) (Nat.div_lt_self (Nat.pos_of_div_pos h) hbase)]
        rfl

theorem digit_ne_nul {d : Nat} (h : d < 36) : digit d ≠ 0 := by
  revert d
  decide

theorem numeral_noNul (hbase : 1 < base) (hle : base ≤ 36) : 0 ∉ numeral base n := by
  rw [numeral]
  split
  · decide
  · intro hz
    obtain ⟨d, hd, hzero⟩ := List.mem_map.mp (List.mem_reverse.mp hz)
    exact digit_ne_nul (Nat.lt_of_lt_of_le (Nat.digits_lt_base hbase hd) hle) hzero

end

/-! ## Directives -/

inductive Length where
  | none
  | l
  | ll
  | z
deriving DecidableEq

def Length.text : Length → List UInt8
  | .none => []
  | .l => [charL]
  | .ll => [charL, charL]
  | .z => [charZ]

/-- The conversions of numbers. -/
inductive Conv where
  | d
  | i
  | u
  | o
  | p
  | x
  | upperX
deriving DecidableEq

def Conv.char : Conv → UInt8
  | .d => charD
  | .i => charI
  | .u => charU
  | .o => charO
  | .p => charP
  | .x => charX
  | .upperX => charUpperX

def Conv.signed : Conv → Bool
  | .d => true
  | .i => true
  | .u | .o | .p | .x | .upperX => false

def Conv.base : Conv → Nat
  | .d | .i | .u => 10
  | .o => 8
  | .p | .x | .upperX => 16

/-- What `#` puts in front. -/
def Conv.alternate : Conv → List UInt8
  | .d | .i | .u => []
  | .o => [zero]
  | .p | .x | .upperX => [zero, charX]

structure Flags where
  alternate : Bool
  zeroPad : Bool
  width : List (Fin 10)
  /-- A zero in front is the flag. -/
  head : zeroPad = false → width.head? ≠ some 0

def Flags.text (f : Flags) : List UInt8 :=
  (if f.alternate then [sharp] else []) ++ (if f.zeroPad then [zero] else []) ++
    f.width.map (fun d => digit d.val)

/-- The number that the width says. -/
def Flags.minimum (f : Flags) : Nat := f.width.foldl (fun n d => n * 10 + d.val) 0

/-- An `int`, or one of the types of 64 bits. -/
inductive Value where
  | int (bits : BitVec 32)
  | long (bits : BitVec 64)

def Value.isLong : Value → Bool
  | .int _ => false
  | .long _ => true

def Value.toInt : Value → Int
  | .int bits => bits.toInt
  | .long bits => bits.toInt

def Value.toNat : Value → Nat
  | .int bits => bits.toNat
  | .long bits => bits.toNat

def Value.arg : Value → Arg
  | .int bits => .int bits
  | .long bits => .long bits

structure Number where
  flags : Flags
  length : Length
  conv : Conv
  value : Value
  /-- A length is for the integers; a pointer is of 64 bits. -/
  fits : value.isLong = decide (length ≠ .none ∨ conv = .p)
  noLength : conv = .p → length = .none

/-- A part of a format with its argument. -/
inductive Piece where
  | plain (c : UInt8) (h : c ≠ 0 ∧ c ≠ percent)
  | percent
  | char (flags : Flags) (c : BitVec 32) (h : UInt8.ofNat c.toNat ≠ 0)
  | string (flags : Flags) (s : CString)
  | number (n : Number)

def Piece.format : Piece → List UInt8
  | .plain c _ => [c]
  | .percent => [Printf.percent, Printf.percent]
  | .char flags _ _ => Printf.percent :: (flags.text ++ [charC])
  | .string flags _ => Printf.percent :: (flags.text ++ [charS])
  | .number n => Printf.percent :: (n.flags.text ++ (n.length.text ++ [n.conv.char]))

def Piece.args : Piece → List Arg
  | .plain _ _ => []
  | .percent => []
  | .char _ c _ => [.int c]
  | .string _ s => [.string s]
  | .number n => [n.value.arg]

def format (ps : List Piece) : List UInt8 := ps.flatMap Piece.format

def args (ps : List Piece) : List Arg := ps.flatMap Piece.args

/-! ## The text of a number -/

def Number.negative (n : Number) : Bool := n.conv.signed && decide (n.value.toInt < 0)

def Number.magnitude (n : Number) : Nat :=
  if n.conv.signed then n.value.toInt.natAbs else n.value.toNat

def Number.sign (n : Number) : List UInt8 := if n.negative then [minus] else []

def Number.prefixed (n : Number) : List UInt8 :=
  if n.flags.alternate = true ∨ n.conv = .p then n.conv.alternate else []

def Number.digits (n : Number) : List UInt8 := numeral n.conv.base n.magnitude

/-- What is missing up to the width. -/
def Number.fill (n : Number) : Nat :=
  n.flags.minimum - (n.sign ++ n.prefixed ++ n.digits).length

def Number.expected (n : Number) : List UInt8 :=
  if n.flags.zeroPad then n.sign ++ n.prefixed ++ List.replicate n.fill zero ++ n.digits
  else List.replicate n.fill space ++ (n.sign ++ n.prefixed ++ n.digits)

def Piece.expected : Piece → List UInt8
  | .plain c _ => [c]
  | .percent => [Printf.percent]
  | .char _ c _ => [UInt8.ofNat c.toNat]
  | .string _ s => s.chars
  | .number n => n.expected

def expected (ps : List Piece) : List UInt8 := ps.flatMap Piece.expected

/-! ## The text of the code -/

/-- The character for padding, once there was a `0` flag or not. -/
def padchar (carried : Bool) : UInt8 := if carried then zero else space

def Piece.zeroPad : Piece → Bool
  | .plain _ _ => false
  | .percent => false
  | .char flags _ _ => flags.zeroPad
  | .string flags _ => flags.zeroPad
  | .number n => n.flags.zeroPad

/-- The width is cut to 32 bits. -/
def Number.printed (carried : Bool) (n : Number) : List UInt8 :=
  List.replicate (n.flags.minimum % 2 ^ 32 - (n.sign ++ n.prefixed ++ n.digits).length)
      (padchar (carried || n.flags.zeroPad)) ++
    (n.sign ++ n.prefixed ++ n.digits)

def Piece.printed (carried : Bool) : Piece → List UInt8
  | .plain c _ => [c]
  | .percent => [Printf.percent]
  | .char _ c _ => [UInt8.ofNat c.toNat]
  | .string _ s => s.chars
  | .number n => n.printed carried

def printed : Bool → List Piece → List UInt8
  | _, [] => []
  | carried, p :: ps => p.printed carried ++ printed (carried || p.zeroPad) ps

/-- The number is padded as it should be. -/
def Number.PadRight (carried : Bool) (n : Number) : Prop :=
  0 < n.fill → if n.flags.zeroPad then n.negative = false ∧ n.prefixed ≠ [zero, charX] else carried = false

def Piece.PadRight (carried : Bool) : Piece → Prop
  | .plain _ _ => True
  | .percent => True
  | .char _ _ _ => True
  | .string _ _ => True
  | .number n => n.PadRight carried

/-- So is every number of a format. -/
def PadRight : Bool → List Piece → Prop
  | _, [] => True
  | carried, p :: ps => p.PadRight carried ∧ PadRight (carried || p.zeroPad) ps

end TX2SecureUart.Printf
