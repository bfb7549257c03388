/-
# `Clib.Printf` — `tegrabl_vsnprintf`

The format is the list of its characters up to the terminator, the buffer has `size`
bytes, and a write outside of it is `none`, as an argument is that is not there or of
another type.  `int` has 32 bits, `long` and `long long` have 64, and what is cast to
32 bits is cut.
-/
import TX2SecureUart.Lib.Writes

namespace TX2SecureUart.Printf

open Writes

/-- A string, its terminator apart. -/
structure CString where
  chars : List UInt8
  noNul : 0 ∉ chars

/-- What is on the argument list. -/
inductive Arg where
  | int (bits : BitVec 32)
  | long (bits : BitVec 64)
  | string (s : CString)

abbrev percent : UInt8 := 0x25
abbrev sharp : UInt8 := 0x23
abbrev zero : UInt8 := 0x30
abbrev minus : UInt8 := 0x2D
abbrev space : UInt8 := 0x20
abbrev charC : UInt8 := 0x63
abbrev charD : UInt8 := 0x64
abbrev charI : UInt8 := 0x69
abbrev charL : UInt8 := 0x6C
abbrev charO : UInt8 := 0x6F
abbrev charP : UInt8 := 0x70
abbrev charS : UInt8 := 0x73
abbrev charU : UInt8 := 0x75
abbrev charX : UInt8 := 0x78
abbrev charUpperX : UInt8 := 0x58
abbrev charZ : UInt8 := 0x7A

/-- `(int32_t)n` -/
def toInt32 (n : Nat) : Int := (BitVec.ofNat 32 n).toInt

/-- `(uint32_t)i` -/
def toUInt32 (i : Int) : Nat := (BitVec.ofInt 32 i).toNat

/-! ## `integer_to_string` -/

/-- `0123456789abcdefghijklmnopqrstuvwxyz` -/
def digits : List UInt8 :=
  [0x30, 0x31, 0x32, 0x33, 0x34, 0x35, 0x36, 0x37, 0x38, 0x39, 0x61, 0x62, 0x63, 0x64, 0x65, 0x66, 0x67, 0x68,
    0x69, 0x6A, 0x6B, 0x6C, 0x6D, 0x6E, 0x6F, 0x70, 0x71, 0x72, 0x73, 0x74, 0x75, 0x76, 0x77, 0x78, 0x79, 0x7A]

def digit (d : Nat) : UInt8 := digits.getD d 0

/-- The loop that calculates the length; `radix` is 8, 10 or 16. -/
def digitCount (radix x : Nat) : Nat :=
  if 1 < radix ∧ 0 < x / radix then digitCount radix (x / radix) + 1 else 1
termination_by x
decreasing_by
  rename_i h
  exact Nat.div_lt_self (Nat.pos_of_div_pos h.2) h.1

def signText (sign : Int) : List UInt8 := if sign < 0 then [minus] else []

def prefixText (alternateForm : Bool) (radix : Nat) : List UInt8 :=
  if alternateForm then if radix = 8 then [zero] else if radix = 16 then [zero, charX] else [] else []

/-- The loop that writes the digits, the last one first. -/
def writeDigits (radix : Nat) : Nat → Nat → List UInt8 → Int → Option (List UInt8)
  | 0, _, buf, _ => some buf
  | len + 1, x, buf, str =>
      (store buf (str + len) (digit (x % radix))).bind fun buf => writeDigits radix len (x / radix) buf str

/-- The buffer behind and what is returned. -/
def integerToString (n : Nat) (sign : Int) (pad : Nat) (buf : List UInt8) (str : Int) (size : Nat)
    (alternateForm : Bool) (radix : Nat) (padchar : UInt8) : Option (List UInt8 × Int) :=
  let before := signText sign ++ prefixText alternateForm radix
  let len := digitCount radix n + before.length
  let total := if pad < len then len else pad
  let fill := if pad < len then 0 else pad - len
  if size < total then some (buf, -1)
  else
    (storeAll buf str (List.replicate fill padchar ++ before)).bind fun buf =>
      (writeDigits radix (digitCount radix n) n buf (str + (fill + before.length : Nat))).map fun buf =>
        (buf, toInt32 total)

/-! ## A directive -/

def isDigit (c : UInt8) : Bool := zero ≤ c && c ≤ 0x39

/-- `if (*arg == c) arg++` -/
def skip (c : UInt8) (arg : List UInt8) : List UInt8 := if arg.head? = some c then arg.tail else arg

/-- `pad` is a `uint32_t`. -/
def readPad (ds : List UInt8) : Nat := ds.foldl (fun pad c => (pad * 10 + (c - zero).toNat) % 2 ^ 32) 0

/-- What is read of a directive up to the character of the `switch`. -/
structure Parsed where
  alternateForm : Bool
  zeroPad : Bool
  pad : Nat
  longint : Nat
  /-- `temp_ptr` -/
  rest : List UInt8

def parse (arg : List UInt8) : Parsed :=
  let arg₁ := skip sharp arg
  let arg₂ := skip zero arg₁
  let arg₃ := arg₂.dropWhile isDigit
  let arg₄ := skip charZ arg₃
  let arg₅ := skip charL arg₄
  { alternateForm := arg.head? = some sharp || arg₃.head? = some charP
    zeroPad := arg₁.head? = some zero
    pad := readPad (arg₂.takeWhile isDigit)
    longint :=
      if arg₄.head? = some charL then if arg₅.head? = some charL then 2 else 1
      else if arg₃.head? = some charZ then 2
      else if arg₃.head? = some charP then 1 else 0
    rest := if arg₄.head? = some charL then skip charL arg₅ else arg₄ }

/-- `sign` and `base` of the directives for numbers. -/
def signBase (c : UInt8) : Option (Int × Nat) :=
  if c = charI ∨ c = charD then some (1, 10)
  else if c = charU then some (0, 10)
  else if c = charO then some (0, 8)
  else if c = charP ∨ c = charX ∨ c = charUpperX then some (0, 16)
  else none

/-- `val` and `sign`; the negation wraps. -/
def valSign {w : Nat} (sign : Int) (tmp : BitVec w) : Nat × Int :=
  if sign ≠ 0 ∧ tmp.toInt < 0 then ((-tmp).toNat, -1) else (tmp.toNat, sign)

/-- The argument of a number. -/
def readNumber (longint : Nat) (sign : Int) : List Arg → Option ((Nat × Int) × List Arg)
  | .int bits :: args => if longint = 0 then some (valSign sign bits, args) else none
  | .long bits :: args => if longint = 0 then none else some (valSign sign bits, args)
  | _ => none

/-! ## `tegrabl_vsnprintf` -/

structure State where
  buf : List UInt8
  out : Int
  remaining : Nat
  padchar : UInt8
  args : List Arg

/-- What the `switch` leaves. -/
structure Wrote where
  wrote : Int
  /-- whether `f = arg` by the branch for an empty string -/
  moved : Bool
  buf : List UInt8
  args : List Arg

def writeNumber (p : Parsed) (sign : Int) (base : Nat) (s : State) : Option Wrote :=
  (readNumber p.longint sign s.args).bind fun (valSign, args) =>
    (integerToString valSign.1 valSign.2 p.pad s.buf s.out s.remaining p.alternateForm base s.padchar).map
      fun (buf, wrote) => { wrote := wrote, moved := false, buf := buf, args := args }

/-- `strcpy` copies the terminator, too. -/
def writeString (s : State) : Option Wrote :=
  match s.args with
  | .string ptr :: args =>
      if s.remaining < ptr.chars.length then
        some { wrote := -1, moved := false, buf := s.buf, args := args }
      else
        (storeAll s.buf s.out (ptr.chars ++ [0])).map fun buf =>
          if toInt32 ptr.chars.length = 0 then { wrote := -2, moved := true, buf := buf, args := args }
          else { wrote := toInt32 ptr.chars.length, moved := false, buf := buf, args := args }
  | _ => none

def writeChar (s : State) : Option Wrote :=
  match s.args with
  | .int bits :: args =>
      (store s.buf s.out (UInt8.ofNat bits.toNat)).map fun buf =>
        { wrote := 1, moved := false, buf := buf, args := args }
  | _ => none

def directive (p : Parsed) (s : State) : Option Wrote :=
  match p.rest with
  | [] => some { wrote := -1, moved := false, buf := s.buf, args := s.args }
  | c :: _ =>
      match signBase c with
      | some (sign, base) => writeNumber p sign base s
      | none =>
          if c = charS then writeString s
          else if c = charC then writeChar s
          else if c = percent then
            (store s.buf s.out percent).map fun buf =>
              { wrote := 1, moved := false, buf := buf, args := s.args }
          else some { wrote := -1, moved := false, buf := s.buf, args := s.args }

/-- `remaining -= (uint32_t)wrote; out += wrote;` -/
def State.advance (s : State) (wrote : Int) : State :=
  { s with remaining := s.remaining - toUInt32 wrote, out := s.out + wrote }

/-- The loop; every round reads a character of the format. -/
def loop : Nat → List UInt8 → State → Option State
  | 0, _, _ => none
  | fuel + 1, f, s =>
      if s.remaining = 0 then some s
      else
        match f with
        | [] => some s
        | cur :: f =>
            if cur ≠ percent then
              (store s.buf s.out cur).bind fun buf => loop fuel f ({ s with buf := buf }.advance 1)
            else
              let p := parse f
              let s := { s with padchar := if p.zeroPad then zero else s.padchar }
              (directive p s).bind fun w =>
                let s := { s with buf := w.buf, args := w.args }
                if w.wrote = -1 then some s
                else loop fuel (if w.moved = true ∨ 0 ≤ w.wrote then p.rest.tail else f)
                  (s.advance (if w.wrote = -2 then 0 else w.wrote))

/-- The buffer behind, and `((int32_t)size - 1) - (int32_t)remaining`. -/
def vsnprintf (buf format : List UInt8) (args : List Arg) : Option (List UInt8 × Int) :=
  (loop (format.length + 1) format
    { buf := buf, out := 0, remaining := buf.length - 1, padchar := space, args := args }).bind fun s =>
    (store s.buf s.out 0).map fun out =>
      (out, (BitVec.ofNat 32 buf.length - 1 - BitVec.ofNat 32 s.remaining).toInt)

end TX2SecureUart.Printf
