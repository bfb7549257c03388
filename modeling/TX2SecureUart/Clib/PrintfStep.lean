/-
# `Clib.PrintfStep` — one piece of a format

What `integer_to_string` writes, how the directive of a piece is read, and what the
loop makes of the piece: its text is written if there is space for it, else the loop
ends.
-/
import TX2SecureUart.Clib.Format

namespace TX2SecureUart.Printf

open Writes

/-! ## Numbers -/

section
variable {radix x n pad size str : Nat} {buf : List UInt8} {padchar : UInt8} {alternateForm : Bool}
  {sign : Int}

/-- The digits, written from the last one on. -/
theorem writeDigits_eq (hradix : 1 < radix) (h : str + digitCount radix x ≤ buf.length) :
    writeDigits radix (digitCount radix x) x buf str = some (overwrite buf str (numeral radix x)) := by
  induction x using Nat.strong_induction_on generalizing buf with
  | h x ih =>
      rcases Nat.eq_zero_or_pos (x / radix) with hx | hx
      · rw [digitCount_lt hx] at h
        rw [digitCount_lt hx, numeral_lt hradix hx, writeDigits]
        show (store buf ((str + 0 : Nat) : Int) _).bind _ = _
        rw [Nat.add_zero, store_eq (by omega)]
        rfl
      · have hlen : (numeral radix (x / radix)).length = digitCount radix (x / radix) := length_numeral hradix
        rw [digitCount_ge hradix hx] at h
        have hone : str + digitCount radix (x / radix) + [digit (x % radix)].length ≤ buf.length := by
          rw [List.length_singleton]
          omega
        rw [digitCount_ge hradix hx, numeral_ge hradix hx, writeDigits]
        show (store buf ((str + digitCount radix (x / radix) : Nat) : Int) _).bind _ = _
        rw [store_eq (by omega)]
        show writeDigits radix _ (x / radix) (overwrite buf _ [digit (x % radix)]) str = _
        rw [ih (x / radix) (Nat.div_lt_self (Nat.pos_of_div_pos hx) hradix)
          (by rw [length_overwrite hone]; omega), ← hlen, overwrite_before (by rw [hlen]; exact hone)]

/-- The text that `integer_to_string` writes. -/
def numberText (n : Nat) (sign : Int) (pad : Nat) (alternateForm : Bool) (radix : Nat) (padchar : UInt8) :
    List UInt8 :=
  let body := signText sign ++ prefixText alternateForm radix ++ numeral radix n
  List.replicate (pad - body.length) padchar ++ body

theorem integerToString_eq (hradix : 1 < radix) (hroom : str + size ≤ buf.length) :
    integerToString n sign pad buf str size alternateForm radix padchar =
      if size < (numberText n sign pad alternateForm radix padchar).length then some (buf, -1)
      else some (overwrite buf str (numberText n sign pad alternateForm radix padchar),
        toInt32 (numberText n sign pad alternateForm radix padchar).length) := by
  have hlen : (signText sign ++ prefixText alternateForm radix ++ numeral radix n).length =
      digitCount radix n + (signText sign ++ prefixText alternateForm radix).length := by
    rw [List.length_append, length_numeral hradix, Nat.add_comm]
  have hfill : ∀ len, (if pad < len then 0 else pad - len) = pad - len := by
    intro len
    split <;> omega
  have htext : ∀ len, (if pad < len then len else pad) = pad - len + len := by
    intro len
    split <;> omega
  have hlength : (numberText n sign pad alternateForm radix padchar).length =
      pad - (digitCount radix n + (signText sign ++ prefixText alternateForm radix).length) +
        (digitCount radix n + (signText sign ++ prefixText alternateForm radix).length) := by
    rw [numberText, List.length_append, List.length_replicate, hlen]
  rw [hlength]
  simp only [integerToString, hfill, htext]
  split
  · rfl
  · rename_i hfits
    obtain ⟨front, hfront⟩ : ∃ front, front = List.replicate (pad - (digitCount radix n +
        (signText sign ++ prefixText alternateForm radix).length)) padchar ++
          (signText sign ++ prefixText alternateForm radix) := ⟨_, rfl⟩
    have hfrontlen := congrArg List.length hfront
    rw [List.length_append, List.length_replicate] at hfrontlen
    have hbefore : str + front.length ≤ buf.length := by omega
    have hwhole : numberText n sign pad alternateForm radix padchar = front ++ numeral radix n := by
      rw [hfront, List.append_assoc, ← hlen]
      rfl
    rw [← hfront, ← hfrontlen, ← Nat.cast_add, storeAll_eq hbefore, hwhole]
    show (writeDigits radix _ n (overwrite buf str front) ((str + front.length : Nat) : Int)).map _ = _
    rw [writeDigits_eq hradix (by rw [length_overwrite hbefore]; omega), overwrite_append hbefore]
    rfl

end

/-! ## The argument of a number -/

section
variable {w : Nat} {v : BitVec w} {n : Number}

/-- The negation of the most negative value is its magnitude, read without a sign. -/
theorem natAbs_toInt (h : v.toInt < 0) : (-v).toNat = v.toInt.natAbs := by
  have hlt := v.isLt
  rw [BitVec.toInt_eq_toNat_cond] at h ⊢
  split at h
  · exact absurd h (Int.not_lt.mpr (Int.natCast_nonneg _))
  · rename_i hcond
    rw [if_neg hcond, BitVec.toNat_neg, Nat.mod_eq_of_lt (by omega)]
    omega

theorem natAbs_of_nonneg (h : ¬ v.toInt < 0) : v.toNat = v.toInt.natAbs := by
  have hlt := v.isLt
  rw [BitVec.toInt_eq_toNat_cond] at h ⊢
  split at h
  · rename_i hcond
    rw [if_pos hcond]
    exact (Int.natAbs_natCast _).symm
  · exact absurd (by omega) h

theorem signBase_char (c : Conv) : signBase c.char = some (if c.signed then 1 else 0, c.base) := by
  cases c <;> rfl

theorem valSign_signed : valSign 1 v = (v.toInt.natAbs, if v.toInt < 0 then -1 else 1) := by
  rw [valSign]
  by_cases h : v.toInt < 0
  · rw [if_pos ⟨by decide, h⟩, if_pos h, natAbs_toInt h]
  · rw [if_neg (fun hand => h hand.2), if_neg h, ← natAbs_of_nonneg h]

theorem valSign_unsigned : valSign 0 v = (v.toNat, 0) := if_neg (fun hand => hand.1 rfl)

theorem valSign_eq (signed : Bool) :
    valSign (if signed then 1 else 0) v =
      (if signed then v.toInt.natAbs else v.toNat,
        if signed then (if v.toInt < 0 then -1 else 1) else 0) := by
  cases signed with
  | true => exact valSign_signed
  | false => exact valSign_unsigned

/-- The size that the directive says. -/
def Number.longint (n : Number) : Nat :=
  match n.length with
  | .none => if n.conv = .p then 1 else 0
  | .l => 1
  | .ll => 2
  | .z => 2

theorem Number.longint_eq_zero (n : Number) : n.longint = 0 ↔ n.value.isLong = false := by
  rw [n.fits, decide_eq_false_iff_not, not_or, not_not, Number.longint]
  cases n.length with
  | none => by_cases hp : n.conv = .p <;> simp [hp]
  | l => simp
  | ll => simp
  | z => simp

theorem signText_eq (n : Number) :
    signText (if n.conv.signed then (if n.value.toInt < 0 then -1 else 1) else 0) = n.sign := by
  rw [Number.sign, Number.negative]
  cases n.conv.signed with
  | false => rfl
  | true =>
      by_cases h : n.value.toInt < 0
      · rw [if_pos rfl, if_pos h, decide_eq_true h]
        rfl
      · rw [if_pos rfl, if_neg h, decide_eq_false h]
        rfl

/-- The argument is read as what it is. -/
theorem readNumber_eq (n : Number) (more : List Arg) :
    ∃ sign, readNumber n.longint (if n.conv.signed then 1 else 0) (n.value.arg :: more) =
      some ((n.magnitude, sign), more) ∧ signText sign = n.sign := by
  refine ⟨_, ?_, signText_eq n⟩
  have hlong := n.longint_eq_zero
  rw [Number.magnitude]
  cases hv : n.value with
  | int bits =>
      rw [hv] at hlong
      show (if n.longint = 0 then some (valSign _ bits, more) else none) = _
      rw [if_pos (hlong.mpr rfl), valSign_eq]
      rfl
  | long bits =>
      rw [hv] at hlong
      show (if n.longint = 0 then none else some (valSign _ bits, more)) = _
      rw [if_neg (fun h => absurd (hlong.mp h).symm Bool.false_ne_true), valSign_eq]
      rfl

end

/-! ## How a directive is read -/

section
variable {f : Flags} {c : UInt8} {arg rest : List UInt8} {d : Fin 10} {ds : List (Fin 10)}

theorem skip_self : skip c (c :: rest) = rest := if_pos rfl

theorem skip_other (h : arg.head? ≠ some c) : skip c arg = arg := if_neg h

theorem isDigit_digit (d : Fin 10) : isDigit (digit d.val) = true := by
  revert d
  decide

theorem digit_ne_sharp (d : Fin 10) : digit d.val ≠ sharp := by
  revert d
  decide

theorem digit_eq_zero (d : Fin 10) : digit d.val = zero → d = 0 := by
  revert d
  decide

theorem digit_sub (d : Fin 10) : (digit d.val - zero).toNat = d.val := by
  revert d
  decide

/-- The width, cut to 32 bits. -/
theorem readPad_eq (ds : List (Fin 10)) (n m : Nat) (h : n = m % 2 ^ 32) :
    (ds.map (fun d => digit d.val)).foldl (fun pad c => (pad * 10 + (c - zero).toNat) % 2 ^ 32) n =
      ds.foldl (fun n d => n * 10 + d.val) m % 2 ^ 32 := by
  induction ds generalizing n m with
  | nil => exact h
  | cons d ds ih =>
      rw [List.map_cons, List.foldl_cons, List.foldl_cons, digit_sub]
      refine ih _ _ ?_
      rw [h, Nat.add_mod, Nat.mul_mod, Nat.mod_mod, ← Nat.mul_mod, ← Nat.add_mod]

/-- Behind `#`. -/
def Flags.tail (f : Flags) (rest : List UInt8) : List UInt8 :=
  (if f.zeroPad then [zero] else []) ++ (f.width.map (fun d => digit d.val) ++ rest)

theorem Flags.text_append : f.text ++ rest = (if f.alternate then [sharp] else []) ++ f.tail rest := by
  rw [Flags.text, Flags.tail, List.append_assoc, List.append_assoc]

theorem Flags.tail_head (hc : c ≠ sharp) : (f.tail (c :: rest)).head? ≠ some sharp := by
  rw [Flags.tail]
  cases f.zeroPad with
  | true => exact fun h => absurd (Option.some.inj h) (by decide)
  | false =>
      cases f.width with
      | nil => exact fun h => hc (Option.some.inj h)
      | cons d ds => exact fun h => digit_ne_sharp d (Option.some.inj h)

/-- Behind the flags a directive goes on with its length. -/
structure Parsed.Reads (p : Parsed) (f : Flags) (arg : List UInt8) : Prop where
  alternateForm : p.alternateForm = (f.alternate || decide (arg.head? = some charP))
  zeroPad : p.zeroPad = f.zeroPad
  pad : p.pad = f.minimum % 2 ^ 32
  longint : p.longint =
    if (skip charZ arg).head? = some charL then
      if (skip charL (skip charZ arg)).head? = some charL then 2 else 1
    else if arg.head? = some charZ then 2
    else if arg.head? = some charP then 1 else 0
  rest : p.rest =
    if (skip charZ arg).head? = some charL then skip charL (skip charL (skip charZ arg)) else skip charZ arg

theorem Flags.tail_zero (hd : isDigit c = false) :
    (f.tail (c :: rest)).head? = some zero ↔ f.zeroPad = true := by
  have hhead := f.head
  rw [Flags.tail]
  cases hz : f.zeroPad with
  | true => exact ⟨fun _ => rfl, fun _ => rfl⟩
  | false =>
      refine ⟨fun h => ?_, fun h => absurd h Bool.false_ne_true⟩
      cases hw : f.width with
      | nil =>
          rw [hw] at h
          obtain rfl := Option.some.inj h
          cases hd
      | cons d ds =>
          rw [hw] at h
          refine absurd ?_ (hhead hz)
          rw [hw, ← digit_eq_zero d (Option.some.inj h)]
          rfl

variable (rest) in
theorem parse_reads (hc : c ≠ sharp) (hd : isDigit c = false) :
    (parse (f.text ++ c :: rest)).Reads f (c :: rest) := by
  have hsharp : skip sharp (f.text ++ c :: rest) = f.tail (c :: rest) := by
    rw [Flags.text_append]
    cases f.alternate with
    | true => exact skip_self
    | false => exact skip_other (Flags.tail_head hc)
  have halt : (f.text ++ c :: rest).head? = some sharp ↔ f.alternate = true := by
    rw [Flags.text_append]
    cases f.alternate with
    | true => exact ⟨fun _ => rfl, fun _ => rfl⟩
    | false => exact ⟨fun h => absurd h (Flags.tail_head hc), fun h => absurd h Bool.false_ne_true⟩
  have hzero : skip zero (f.tail (c :: rest)) = f.width.map (fun d => digit d.val) ++ c :: rest := by
    have hhead : (f.tail (c :: rest)).head? = some zero ↔ f.zeroPad = true := Flags.tail_zero hd
    rw [skip]
    by_cases hz : f.zeroPad = true
    · rw [if_pos (hhead.mpr hz), Flags.tail, if_pos hz]
      rfl
    · rw [if_neg (fun h => hz (hhead.mp h)), Flags.tail, if_neg hz]
      rfl
  have hdigits : ∀ x ∈ f.width.map (fun d => digit d.val), isDigit x = true := by
    intro x hx
    obtain ⟨d, -, rfl⟩ := List.mem_map.mp hx
    exact isDigit_digit d
  have htake : (f.width.map (fun d => digit d.val) ++ c :: rest).takeWhile isDigit =
      f.width.map (fun d => digit d.val) := by
    rw [List.takeWhile_append_of_pos hdigits, List.takeWhile_cons_of_neg (by rw [hd]; exact Bool.false_ne_true),
      List.append_nil]
  have hdrop : (f.width.map (fun d => digit d.val) ++ c :: rest).dropWhile isDigit = c :: rest := by
    rw [List.dropWhile_append_of_pos hdigits, List.dropWhile_cons_of_neg (by rw [hd]; exact Bool.false_ne_true)]
  constructor
  · simp only [parse, hsharp, hzero, hdrop, halt, Bool.decide_eq_true]
  · simp only [parse, hsharp, Flags.tail_zero hd, Bool.decide_eq_true]
  · simp only [parse, hsharp, hzero, htake]
    exact readPad_eq f.width 0 0 rfl
  · simp only [parse, hsharp, hzero, hdrop]
  · simp only [parse, hsharp, hzero, hdrop]

end

section
variable {rest : List UInt8} {c : UInt8} {f : Flags}

variable (rest f) in
/-- A directive without a length. -/
theorem parse_plain (hc : c ≠ sharp ∧ isDigit c = false ∧ c ≠ charZ ∧ c ≠ charL) :
    (parse (f.text ++ c :: rest)).rest = c :: rest ∧ (parse (f.text ++ c :: rest)).zeroPad = f.zeroPad := by
  obtain ⟨hsharp, hdigit, hz, hl⟩ := hc
  have hreads := parse_reads (f := f) rest hsharp hdigit
  refine ⟨?_, hreads.zeroPad⟩
  have hskip : skip charZ (c :: rest) = c :: rest := if_neg (fun h => hz (Option.some.inj h))
  rw [hreads.rest, hskip]
  exact if_neg (fun h => hl (Option.some.inj h))

/-- What is read of the directive of a number. -/
structure Parsed.IsNumber (p : Parsed) (n : Number) (rest : List UInt8) : Prop where
  alternateForm : p.alternateForm = decide (n.flags.alternate = true ∨ n.conv = .p)
  zeroPad : p.zeroPad = n.flags.zeroPad
  pad : p.pad = n.flags.minimum % 2 ^ 32
  longint : p.longint = n.longint
  rest : p.rest = n.conv.char :: rest

theorem alternate_length {n : Number} (hp : n.conv ≠ .p) :
    (n.flags.alternate || false) = decide (n.flags.alternate = true ∨ n.conv = .p) := by
  rw [Bool.or_false]
  simp only [hp, or_false, Bool.decide_eq_true]

variable (rest) in
theorem parse_number (n : Number) :
    (parse (n.flags.text ++ (n.length.text ++ n.conv.char :: rest))).IsNumber n rest := by
  have hno := n.noLength
  cases hlen : n.length with
  | none =>
      have hchar : n.conv.char ≠ sharp ∧ isDigit n.conv.char = false := by cases n.conv <;> exact ⟨by decide, rfl⟩
      have hreads := parse_reads (f := n.flags) rest hchar.1 hchar.2
      refine ⟨hreads.alternateForm.trans ?_, hreads.zeroPad, hreads.pad, hreads.longint.trans ?_,
        hreads.rest.trans ?_⟩
      · cases n.flags.alternate <;> cases n.conv <;> rfl
      · rw [Number.longint, hlen]
        cases n.conv <;> rfl
      · cases n.conv <;> rfl
  | l =>
      have hreads := parse_reads (f := n.flags) (c := charL) (n.conv.char :: rest) (by decide) rfl
      refine ⟨hreads.alternateForm.trans ?_, hreads.zeroPad, hreads.pad, hreads.longint.trans ?_,
        hreads.rest.trans ?_⟩
      · exact alternate_length (fun hp => absurd ((hno hp).symm.trans hlen) (by decide))
      · rw [Number.longint, hlen]
        cases n.conv <;> rfl
      · cases n.conv <;> rfl
  | ll =>
      have hreads := parse_reads (f := n.flags) (c := charL) (charL :: n.conv.char :: rest) (by decide) rfl
      refine ⟨hreads.alternateForm.trans ?_, hreads.zeroPad, hreads.pad, hreads.longint.trans ?_,
        hreads.rest.trans ?_⟩
      · exact alternate_length (fun hp => absurd ((hno hp).symm.trans hlen) (by decide))
      · rw [Number.longint, hlen]
        cases n.conv <;> rfl
      · cases n.conv <;> rfl
  | z =>
      have hreads := parse_reads (f := n.flags) (c := charZ) (n.conv.char :: rest) (by decide) rfl
      refine ⟨hreads.alternateForm.trans ?_, hreads.zeroPad, hreads.pad, hreads.longint.trans ?_,
        hreads.rest.trans ?_⟩
      · exact alternate_length (fun hp => absurd ((hno hp).symm.trans hlen) (by decide))
      · rw [Number.longint, hlen]
        cases n.conv <;> rfl
      · cases n.conv <;> rfl

end

end TX2SecureUart.Printf
