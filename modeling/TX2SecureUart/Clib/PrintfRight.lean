/-
# `Clib.PrintfRight` — when `tegrabl_vsnprintf` is `vsnprintf`

The loop writes the text of one piece after the other (`Filled`) and ends in front of
the first that does not fit.  So it stays in the buffer, its result is a string, and
its length is returned, always.  The text is that of `vsnprintf` just if every number
is padded as it should be.

Lengths are cut to `int`: the buffer is of at most `2 ^ 31` bytes, or the text is
shorter.
-/
import TX2SecureUart.Clib.PrintfStep

namespace TX2SecureUart.Printf

open Writes

/-- The text that is written so far. -/
structure Filled (size : Nat) (text : List UInt8) (s : State) : Prop where
  length : s.buf.length = size
  out : s.out = (text.length : Nat)
  remaining : s.remaining + text.length + 1 = size
  holds : s.buf.take text.length = text
  noNul : 0 ∉ text

section
variable {size n fuel : Nat} {text more f arg : List UInt8} {s : State} {carried : Bool} {w : Wrote}
  {p : Piece} {later : List Arg}

theorem toInt32_eq (h : n < 2 ^ 31) : toInt32 n = n := by
  rw [toInt32, BitVec.toInt_eq_toNat_cond, BitVec.toNat_ofNat, Nat.mod_eq_of_lt (by omega), if_pos (by omega)]

theorem toUInt32_eq (h : n < 2 ^ 31) : toUInt32 n = n := by
  rw [toUInt32, BitVec.toNat_ofInt]
  omega

/-- More text. -/
theorem Filled.write (h : Filled size text s) {buf : List UInt8} {padchar : UInt8} {args : List Arg}
    (hfit : more.length ≤ s.remaining) (hint : more.length < 2 ^ 31) (hnul : 0 ∉ more)
    (hsize : buf.length = size) (hbuf : buf.take (text.length + more.length) = text ++ more) :
    Filled size (text ++ more)
      (State.advance { s with buf := buf, padchar := padchar, args := args } more.length) where
  length := hsize
  out := by
    show s.out + _ = _
    rw [h.out, List.length_append, Nat.cast_add]
  remaining := by
    have hrem := h.remaining
    show s.remaining - toUInt32 more.length + _ + 1 = size
    rw [toUInt32_eq hint, List.length_append]
    omega
  holds := by
    rw [List.length_append]
    exact hbuf
  noNul := fun hz => (List.mem_append.mp hz).elim h.noNul hnul

/-- A write of the whole piece. -/
theorem Filled.replaced (h : Filled size text s) (more behind : List UInt8)
    (hfit : more.length + behind.length ≤ s.remaining + 1) :
    (overwrite s.buf text.length (more ++ behind)).length = size ∧
      (overwrite s.buf text.length (more ++ behind)).take (text.length + more.length) = text ++ more := by
  have hsize := h.length
  have hrem := h.remaining
  have hroom : text.length + (more ++ behind).length ≤ s.buf.length := by
    rw [List.length_append]
    omega
  refine ⟨(length_overwrite hroom).trans hsize, ?_⟩
  rw [Writes.overwrite, h.holds, ← List.length_append, List.append_assoc, List.append_assoc,
    ← List.append_assoc, List.take_left]

theorem Filled.room (h : Filled size text s) (hfit : n ≤ s.remaining + 1) :
    text.length + n ≤ s.buf.length := by
  have hsize := h.length
  have hrem := h.remaining
  omega

/-! ## A round of the loop -/

/-- The locals when a directive is read. -/
def State.reading (s : State) (p : Parsed) : State :=
  { s with padchar := if p.zeroPad then zero else s.padchar }

theorem loop_stop (hrem : s.remaining ≠ 0) (hw : directive (parse arg) (s.reading (parse arg)) = some w)
    (hwrote : w.wrote = -1) :
    loop (fuel + 1) (percent :: arg) s =
      some { s.reading (parse arg) with buf := w.buf, args := w.args } := by
  rw [loop, if_neg hrem]
  show (if percent ≠ percent then _ else _) = _
  rw [if_neg (fun h => h rfl)]
  show (directive (parse arg) (s.reading (parse arg))).bind _ = _
  rw [hw]
  show (if w.wrote = -1 then _ else _) = _
  rw [if_pos hwrote]
  rfl

theorem loop_go (hrem : s.remaining ≠ 0) (hw : directive (parse arg) (s.reading (parse arg)) = some w)
    (hwrote : w.wrote ≠ -1) (hmoved : w.moved = true ∨ 0 ≤ w.wrote) :
    loop (fuel + 1) (percent :: arg) s =
      loop fuel (parse arg).rest.tail
        (State.advance { s.reading (parse arg) with buf := w.buf, args := w.args }
          (if w.wrote = -2 then 0 else w.wrote)) := by
  rw [loop, if_neg hrem]
  show (if percent ≠ percent then _ else _) = _
  rw [if_neg (fun h => h rfl)]
  show (directive (parse arg) (s.reading (parse arg))).bind _ = _
  rw [hw]
  show (if w.wrote = -1 then _ else _) = _
  rw [if_neg hwrote, if_pos hmoved]
  rfl

theorem padchar_reading {q : Parsed} {z : Bool} (hpad : s.padchar = padchar carried) (hz : q.zeroPad = z) :
    (s.reading q).padchar = padchar (carried || z) := by
  show (if q.zeroPad then zero else s.padchar) = _
  rw [hz, hpad]
  cases z with
  | true => rw [Bool.or_true]; rfl
  | false => rw [Bool.or_false]; rfl

/-- What a directive has written is a part of the text. -/
structure Wrote.Is (w : Wrote) (size : Nat) (text more : List UInt8) : Prop where
  wrote : w.wrote = (more.length : Nat) ∨ more = [] ∧ w.wrote = -2 ∧ w.moved = true
  length : w.buf.length = size
  holds : w.buf.take (text.length + more.length) = text ++ more

theorem loop_done {c : UInt8} {z : Bool} (h : Filled size text s) (hrem : s.remaining ≠ 0)
    (hw : directive (parse arg) (s.reading (parse arg)) = some w) (his : w.Is size text more)
    (hfit : more.length ≤ s.remaining) (hint : more.length < 2 ^ 31) (hnul : 0 ∉ more)
    (hrest : (parse arg).rest = c :: f) (hpad : s.padchar = padchar carried)
    (hz : (parse arg).zeroPad = z) :
    ∃ s', loop (fuel + 1) (percent :: arg) s = loop fuel f s' ∧ Filled size (text ++ more) s' ∧
      s'.args = w.args ∧ s'.padchar = padchar (carried || z) := by
  have hlen : (if w.wrote = -2 then 0 else w.wrote) = (more.length : Nat) := by
    obtain hlen | ⟨rfl, hlen, -⟩ := his.wrote
    · rw [hlen]
      exact if_neg (by omega)
    · exact if_pos hlen
  have hmoved : w.moved = true ∨ 0 ≤ w.wrote := by
    obtain hlen | ⟨-, -, hmoved⟩ := his.wrote
    · exact .inr (by omega)
    · exact .inl hmoved
  have hne : w.wrote ≠ -1 := by
    obtain hlen | ⟨-, hlen, -⟩ := his.wrote <;> omega
  refine ⟨_, ?_, h.write hfit hint hnul his.length his.holds, rfl, padchar_reading hpad hz⟩
  rw [loop_go hrem hw hne hmoved, hrest, hlen]
  rfl

/-- A number. -/
theorem directive_number (n : Number) (h : Filled size text s) (hargs : s.args = n.value.arg :: later)
    (hpad : s.padchar = padchar carried) {q : Parsed} (hq : q.IsNumber n f) :
    directive q (s.reading q) = some
      (if s.remaining < (n.printed carried).length then
        { wrote := -1, moved := false, buf := s.buf, args := later }
      else
        { wrote := toInt32 (n.printed carried).length, moved := false
          buf := overwrite s.buf text.length (n.printed carried), args := later }) := by
  obtain ⟨sign, hread, hsign⟩ := readNumber_eq n later
  have hbase : 1 < n.conv.base := by cases n.conv <;> decide
  have hprefix : prefixText q.alternateForm n.conv.base = n.prefixed := by
    rw [hq.alternateForm, Number.prefixed, prefixText]
    by_cases halt : n.flags.alternate = true ∨ n.conv = .p
    · rw [decide_eq_true halt, if_pos rfl, if_pos halt]
      cases n.conv <;> rfl
    · rw [decide_eq_false halt, if_neg Bool.false_ne_true, if_neg halt]
  have htext : numberText n.magnitude sign q.pad q.alternateForm n.conv.base (s.reading q).padchar =
      n.printed carried := by
    rw [numberText, hsign, hprefix, hq.pad, padchar_reading hpad hq.zeroPad]
    rfl
  have hroom := h.room (n := s.remaining) (Nat.le_succ _)
  rw [directive, hq.rest]
  simp only [signBase_char]
  show (readNumber q.longint _ s.args).bind _ = _
  rw [hargs, hq.longint, hread]
  show (integerToString n.magnitude sign q.pad s.buf s.out s.remaining q.alternateForm n.conv.base
    (s.reading q).padchar).map _ = _
  rw [h.out, integerToString_eq hbase hroom, htext]
  by_cases hfit : s.remaining < (n.printed carried).length
  · rw [if_pos hfit, if_pos hfit]
    rfl
  · rw [if_neg hfit, if_neg hfit]
    rfl

theorem Number.printed_noNul (n : Number) : 0 ∉ n.printed carried := by
  have hdigits : 0 ∉ n.digits := by
    rw [Number.digits]
    cases n.conv
    all_goals exact numeral_noNul (by decide) (by decide)
  have hsign : 0 ∉ n.sign := by
    rw [Number.sign]
    split <;> decide
  have hprefix : 0 ∉ n.prefixed := by
    rw [Number.prefixed]
    split
    · cases n.conv <;> decide
    · exact List.not_mem_nil
  have hpad : padchar (carried || n.flags.zeroPad) ≠ 0 := by
    cases carried || n.flags.zeroPad <;> decide
  intro hz
  rw [Number.printed, List.mem_append, List.mem_append, List.mem_append] at hz
  rcases hz with hz | (hz | hz) | hz
  · exact hpad (List.mem_replicate.mp hz).2.symm
  · exact hsign hz
  · exact hprefix hz
  · exact hdigits hz

/-- What the loop makes of a piece: it writes its text, or it ends. -/
def Taken (size : Nat) (text more f : List UInt8) (later : List Arg) (carried : Bool) (fuel : Nat)
    (s : State) (r : Option State) : Prop :=
  if more.length ≤ s.remaining then
    ∃ s', r = loop fuel f s' ∧ Filled size (text ++ more) s' ∧ s'.args = later ∧ s'.padchar = padchar carried
  else ∃ s', r = some s' ∧ Filled size text s'

/-- The loop at a number. -/
theorem loop_number (n : Number) (h : Filled size text s) (hrem : s.remaining ≠ 0)
    (hargs : s.args = n.value.arg :: later) (hpad : s.padchar = padchar carried)
    (hint : (n.printed carried).length ≤ s.remaining → (n.printed carried).length < 2 ^ 31) :
    Taken size text (n.printed carried) f later (carried || n.flags.zeroPad) fuel s
      (loop (fuel + 1) (percent :: (n.flags.text ++ (n.length.text ++ n.conv.char :: f))) s) := by
  have hparse := parse_number f n
  have hw := directive_number n h hargs hpad hparse
  rw [Taken]
  by_cases hfit : (n.printed carried).length ≤ s.remaining
  · rw [if_neg (Nat.not_lt.mpr hfit)] at hw
    rw [if_pos hfit]
    have hbuf := h.replaced (n.printed carried) [] (Nat.le_succ_of_le hfit)
    rw [List.append_nil] at hbuf
    exact loop_done h hrem hw ⟨.inl (toInt32_eq (hint hfit)), hbuf.1, hbuf.2⟩ hfit (hint hfit)
      n.printed_noNul hparse.rest hpad hparse.zeroPad
  · rw [if_pos (Nat.not_le.mp hfit)] at hw
    rw [if_neg hfit]
    exact ⟨_, loop_stop hrem hw rfl, h.length, h.out, h.remaining, h.holds, h.noNul⟩

/-- `strcpy` writes the terminator behind the text, too. -/
theorem loop_string (flags : Flags) (str : CString) (h : Filled size text s) (hrem : s.remaining ≠ 0)
    (hargs : s.args = .string str :: later) (hpad : s.padchar = padchar carried)
    (hint : str.chars.length ≤ s.remaining → str.chars.length < 2 ^ 31) :
    Taken size text str.chars f later (carried || flags.zeroPad) fuel s
      (loop (fuel + 1) (percent :: (flags.text ++ charS :: f)) s) := by
  obtain ⟨hrest, hzero⟩ := parse_plain f flags (show charS ≠ sharp ∧ _ by decide)
  have hw : directive (parse (flags.text ++ charS :: f)) (s.reading (parse (flags.text ++ charS :: f))) =
      writeString (s.reading (parse (flags.text ++ charS :: f))) := by
    rw [directive, hrest]
    rfl
  rw [Taken]
  by_cases hfit : str.chars.length ≤ s.remaining
  · have hbuf := h.replaced str.chars [0] (Nat.succ_le_succ hfit)
    have hstore : storeAll s.buf s.out (str.chars ++ [0]) =
        some (overwrite s.buf text.length (str.chars ++ [0])) := by
      rw [h.out]
      exact storeAll_eq (h.room (by rw [List.length_append]; exact Nat.succ_le_succ hfit))
    have hwrite : writeString (s.reading (parse (flags.text ++ charS :: f))) = some
        (if toInt32 str.chars.length = 0 then
          { wrote := -2, moved := true, buf := overwrite s.buf text.length (str.chars ++ [0]), args := later }
        else
          { wrote := toInt32 str.chars.length, moved := false
            buf := overwrite s.buf text.length (str.chars ++ [0]), args := later }) := by
      have hread : (s.reading (parse (flags.text ++ charS :: f))).args = .string str :: later := hargs
      rw [writeString, hread]
      show (if s.remaining < str.chars.length then _ else (storeAll s.buf s.out _).map _) = _
      rw [if_neg (Nat.not_lt.mpr hfit), hstore]
      rfl
    rw [if_pos hfit]
    rw [hwrite, toInt32_eq (hint hfit)] at hw
    by_cases hempty : ((str.chars.length : Nat) : Int) = 0
    · rw [if_pos hempty] at hw
      have hnil : str.chars = [] := List.eq_nil_of_length_eq_zero (Int.ofNat_eq_zero.mp hempty)
      exact loop_done h hrem hw ⟨.inr ⟨hnil, rfl, rfl⟩, hbuf.1, hbuf.2⟩ hfit (hint hfit) str.noNul hrest hpad hzero
    · rw [if_neg hempty] at hw
      exact loop_done h hrem hw ⟨.inl rfl, hbuf.1, hbuf.2⟩ hfit (hint hfit) str.noNul hrest hpad hzero
  · have hwrite : writeString (s.reading (parse (flags.text ++ charS :: f))) =
        some { wrote := -1, moved := false, buf := s.buf, args := later } := by
      have hread : (s.reading (parse (flags.text ++ charS :: f))).args = .string str :: later := hargs
      rw [writeString, hread]
      exact if_pos (Nat.not_le.mp hfit)
    rw [if_neg hfit]
    exact ⟨_, loop_stop hrem (hw.trans hwrite) rfl, h.length, h.out, h.remaining, h.holds, h.noNul⟩

/-- One character. -/
theorem Filled.one (h : Filled size text s) (c : UInt8) :
    store s.buf s.out c = some (overwrite s.buf text.length [c]) := by
  rw [h.out]
  exact store_eq (h.room (n := 1) (by omega))

theorem loop_char (flags : Flags) (bits : BitVec 32) (hne : UInt8.ofNat bits.toNat ≠ 0)
    (h : Filled size text s) (hrem : s.remaining ≠ 0) (hargs : s.args = .int bits :: later)
    (hpad : s.padchar = padchar carried) :
    Taken size text [UInt8.ofNat bits.toNat] f later (carried || flags.zeroPad) fuel s
      (loop (fuel + 1) (percent :: (flags.text ++ charC :: f)) s) := by
  obtain ⟨hrest, hzero⟩ := parse_plain f flags (show charC ≠ sharp ∧ _ by decide)
  have hw : directive (parse (flags.text ++ charC :: f)) (s.reading (parse (flags.text ++ charC :: f))) =
      some { wrote := 1, moved := false
             buf := overwrite s.buf text.length [UInt8.ofNat bits.toNat], args := later } := by
    have hread : (s.reading (parse (flags.text ++ charC :: f))).args = .int bits :: later := hargs
    rw [directive, hrest]
    show writeChar _ = _
    rw [writeChar, hread]
    show (store s.buf s.out _).map _ = _
    rw [h.one]
    rfl
  have hfit : [UInt8.ofNat bits.toNat].length ≤ s.remaining := Nat.one_le_iff_ne_zero.mpr hrem
  have hbuf := h.replaced [UInt8.ofNat bits.toNat] [] (Nat.le_succ_of_le hfit)
  rw [Taken, if_pos hfit]
  exact loop_done h hrem hw ⟨.inl rfl, hbuf.1, hbuf.2⟩ hfit (Nat.one_lt_two_pow (by decide))
    (fun hz => hne (List.mem_singleton.mp hz).symm) hrest hpad hzero

theorem loop_percent (h : Filled size text s) (hrem : s.remaining ≠ 0) (hpad : s.padchar = padchar carried) :
    Taken size text [percent] f s.args carried fuel s (loop (fuel + 1) (percent :: percent :: f) s) := by
  have hw : directive (parse (percent :: f)) (s.reading (parse (percent :: f))) =
      some { wrote := 1, moved := false, buf := overwrite s.buf text.length [percent], args := s.args } := by
    show (store s.buf s.out percent).map _ = _
    rw [h.one]
    rfl
  have hfit : [percent].length ≤ s.remaining := Nat.one_le_iff_ne_zero.mpr hrem
  have hbuf := h.replaced [percent] [] (Nat.le_succ_of_le hfit)
  rw [Taken, if_pos hfit, ← Bool.or_false carried]
  exact loop_done h hrem hw ⟨.inl rfl, hbuf.1, hbuf.2⟩ hfit (Nat.one_lt_two_pow (by decide)) (by decide)
    (c := percent) rfl hpad rfl

theorem loop_plain {c : UInt8} (hc : c ≠ 0 ∧ c ≠ percent) (h : Filled size text s) (hrem : s.remaining ≠ 0)
    (hpad : s.padchar = padchar carried) :
    Taken size text [c] f s.args carried fuel s (loop (fuel + 1) (c :: f) s) := by
  have hfit : [c].length ≤ s.remaining := Nat.one_le_iff_ne_zero.mpr hrem
  have hbuf := h.replaced [c] [] (Nat.le_succ_of_le hfit)
  rw [Taken, if_pos hfit, loop, if_neg hrem]
  show ∃ s', (if c ≠ percent then (store s.buf s.out c).bind _ else _) = _ ∧ _
  rw [if_pos hc.2, h.one]
  exact ⟨_, rfl, h.write hfit (Nat.one_lt_two_pow (by decide))
    (fun hz => hc.1 (List.mem_singleton.mp hz).symm) hbuf.1 hbuf.2, rfl, hpad⟩

/-- The loop at any piece. -/
theorem loop_piece (h : Filled size text s) (hrem : s.remaining ≠ 0) (hargs : s.args = p.args ++ later)
    (hpad : s.padchar = padchar carried)
    (hint : (p.printed carried).length ≤ s.remaining → (p.printed carried).length < 2 ^ 31) :
    Taken size text (p.printed carried) f later (carried || p.zeroPad) fuel s
      (loop (fuel + 1) (p.format ++ f) s) := by
  cases p with
  | plain c hc =>
      rw [Piece.zeroPad, Bool.or_false, ← show s.args = later from hargs]
      exact loop_plain hc h hrem hpad
  | percent =>
      rw [Piece.zeroPad, Bool.or_false, ← show s.args = later from hargs]
      exact loop_percent h hrem hpad
  | char flags bits hne =>
      rw [Piece.format, List.cons_append, List.append_assoc]
      exact loop_char flags bits hne h hrem hargs hpad
  | string flags str =>
      rw [Piece.format, List.cons_append, List.append_assoc]
      exact loop_string flags str h hrem hargs hpad hint
  | number n =>
      rw [Piece.format, List.cons_append, List.append_assoc, List.append_assoc]
      exact loop_number n h hrem hargs hpad hint

theorem Piece.printed_noNul (p : Piece) : 0 ∉ p.printed carried := by
  cases p with
  | plain c hc => exact fun hz => hc.1 (List.mem_singleton.mp hz).symm
  | percent => exact fun hz => absurd (List.mem_singleton.mp hz) (by decide)
  | char flags bits hne => exact fun hz => hne (List.mem_singleton.mp hz).symm
  | string flags str => exact str.noNul
  | number n => exact n.printed_noNul

theorem Piece.format_length (p : Piece) : 1 ≤ p.format.length := by
  cases p with
  | plain c hc => exact Nat.le_refl 1
  | percent => exact Nat.le_succ 1
  | char flags bits hne => exact Nat.succ_le_succ (Nat.zero_le _)
  | string flags str => exact Nat.succ_le_succ (Nat.zero_le _)
  | number n => exact Nat.succ_le_succ (Nat.zero_le _)

theorem loop_full (hrem : s.remaining = 0) : loop (fuel + 1) f s = some s := by
  unfold loop
  rw [if_pos hrem]

/-- The loop ends, with as many pieces written as fit. -/
theorem loop_run {ps : List Piece} (h : Filled size text s) (hargs : s.args = args ps)
    (hpad : s.padchar = padchar carried) (hfuel : (format ps).length < fuel)
    (hint : size ≤ 2 ^ 31 ∨ (printed carried ps).length < 2 ^ 31) :
    ∃ s' text', loop fuel (format ps) s = some s' ∧ Filled size text' s' ∧
      text' <+: text ++ printed carried ps ∧
      (text.length + (printed carried ps).length < size → text' = text ++ printed carried ps) := by
  induction ps generalizing text s carried fuel with
  | nil =>
      obtain ⟨fuel, rfl⟩ := Nat.exists_eq_succ_of_ne_zero (Nat.ne_zero_of_lt hfuel)
      refine ⟨s, text, ?_, h, List.prefix_append text _, fun _ => (List.append_nil text).symm⟩
      unfold loop
      split <;> rfl
  | cons p ps ih =>
      obtain ⟨fuel, rfl⟩ := Nat.exists_eq_succ_of_ne_zero (Nat.ne_zero_of_lt hfuel)
      have hformat : format (p :: ps) = p.format ++ format ps := List.flatMap_cons
      have hprinted : printed carried (p :: ps) = p.printed carried ++ printed (carried || p.zeroPad) ps := rfl
      have hremaining := h.remaining
      rw [hprinted, List.length_append] at hint
      rw [hformat, List.length_append] at hfuel
      by_cases hrem : s.remaining = 0
      · refine ⟨s, text, loop_full hrem, h, List.prefix_append text _, fun hsize => ?_⟩
        have hnil : printed carried (p :: ps) = [] := List.eq_nil_of_length_eq_zero (by omega)
        rw [hnil, List.append_nil]
      · have hlen : (p.printed carried).length ≤ s.remaining → (p.printed carried).length < 2 ^ 31 := by
          intro hfit
          omega
        have hless : (format ps).length < fuel := by
          have hone := p.format_length
          omega
        have htaken : Taken size text (p.printed carried) (format ps) (args ps) (carried || p.zeroPad) fuel s
            (loop (fuel + 1) (p.format ++ format ps) s) :=
          loop_piece h hrem (hargs.trans (List.flatMap_cons ..)) hpad hlen
        rw [hformat, hprinted]
        rw [Taken] at htaken
        split at htaken
        · obtain ⟨s', hloop, hfilled, hargs', hpad'⟩ := htaken
          obtain ⟨s'', text', hrun, hend, hprefix, hall⟩ := ih hfilled hargs' hpad' hless (by omega)
          rw [List.append_assoc] at hprefix hall
          refine ⟨s'', text', hloop.trans hrun, hend, hprefix, fun hsize => hall ?_⟩
          rw [List.length_append] at hsize ⊢
          omega
        · obtain ⟨s', hloop, hfilled⟩ := htaken
          refine ⟨s', text, hloop, hfilled, List.prefix_append text _, fun hsize => absurd hsize ?_⟩
          rw [List.length_append]
          omega

end

/-! ## The result -/

section
variable {buf : List UInt8} {ps : List Piece} {n : Number} {carried : Bool}

theorem returned_eq {size r len : Nat} (hsize : r + len + 1 = size) (hlen : len < 2 ^ 31) :
    (BitVec.ofNat 32 size - 1 - BitVec.ofNat 32 r).toInt = (len : Nat) := by
  have hsub : BitVec.ofNat 32 size - 1 - BitVec.ofNat 32 r = BitVec.ofNat 32 len := by
    show BitVec.ofNat 32 size - 1#32 - BitVec.ofNat 32 r = _
    rw [← hsize, BitVec.ofNat_add, BitVec.ofNat_add, BitVec.add_sub_cancel, BitVec.add_comm,
      BitVec.add_sub_cancel]
  rw [hsub]
  exact toInt32_eq hlen

/-- The text of the code is a string in the buffer, and its length is returned. -/
theorem vsnprintf_prints (hne : buf ≠ []) (hint : buf.length ≤ 2 ^ 31 ∨ (printed false ps).length < 2 ^ 31) :
    ∃ buf' text, vsnprintf buf (format ps) (args ps) = some (buf', (text.length : Int)) ∧
      buf'.length = buf.length ∧ text ++ [0] <+: buf' ∧ 0 ∉ text ∧
      ((printed false ps).length < buf.length → text = printed false ps) := by
  have hpos : 0 < buf.length := List.length_pos_of_ne_nil hne
  have hstart : Filled buf.length []
      { buf := buf, out := 0, remaining := buf.length - 1, padchar := space, args := args ps } :=
    ⟨rfl, rfl, by show buf.length - 1 + 0 + 1 = _; omega, rfl, List.not_mem_nil⟩
  obtain ⟨s, text, hloop, hfilled, hprefix, hall⟩ :=
    loop_run hstart rfl (show space = padchar false from rfl) (Nat.lt_succ_self (format ps).length) hint
  have hremaining := hfilled.remaining
  have hlen : text.length < 2 ^ 31 := by
    have hle := hprefix.length_le
    rw [List.nil_append] at hle
    omega
  have hroom : text.length + [(0 : UInt8)].length ≤ s.buf.length := by
    rw [hfilled.length, List.length_singleton]
    omega
  refine ⟨overwrite s.buf text.length [0], text, ?_, (length_overwrite hroom).trans hfilled.length, ?_,
    hfilled.noNul, ?_⟩
  · rw [vsnprintf, hloop]
    show (store s.buf s.out 0).map _ = _
    rw [hfilled.one, Option.map_some, returned_eq hremaining hlen]
  · rw [overwrite, hfilled.holds]
    exact List.prefix_append _ _
  · intro hfits
    refine hall ?_
    rw [List.length_nil, Nat.zero_add]
    exact hfits

/-! ## The text -/

theorem Number.length_printed (hmin : n.flags.minimum < 2 ^ 32) :
    (n.printed carried).length = n.fill + (n.sign ++ n.prefixed ++ n.digits).length := by
  rw [Number.printed, List.length_append, List.length_replicate, Nat.mod_eq_of_lt hmin]
  rfl

theorem Number.length_expected :
    n.expected.length = n.fill + (n.sign ++ n.prefixed ++ n.digits).length := by
  rw [Number.expected]
  split
  · simp only [List.length_append, List.length_replicate]
    omega
  · simp only [List.length_append, List.length_replicate]

theorem Number.minimum_le : n.flags.minimum ≤ n.expected.length := by
  rw [Number.length_expected, Number.fill]
  omega

/-- Zeros commute with a sign and a prefix just if these are zeros. -/
theorem zeros_comm {fill : Nat} (hfill : 0 < fill) :
    List.replicate fill zero ++ (n.sign ++ n.prefixed) = n.sign ++ n.prefixed ++ List.replicate fill zero ↔
      n.negative = false ∧ n.prefixed ≠ [zero, charX] := by
  obtain ⟨fill, rfl⟩ := Nat.exists_eq_succ_of_ne_zero hfill.ne'
  rw [List.replicate_succ, Number.sign]
  cases n.negative with
  | true =>
      refine ⟨fun h => ?_, fun h => absurd h.1.symm Bool.false_ne_true⟩
      exact absurd (List.cons.inj h).1 (by decide)
  | false =>
      rw [if_neg Bool.false_ne_true, List.nil_append, and_iff_right rfl]
      have hcases : n.prefixed = [] ∨ n.prefixed = [zero] ∨ n.prefixed = [zero, charX] := by
        rw [Number.prefixed]
        split
        · cases n.conv
          · exact .inl rfl
          · exact .inl rfl
          · exact .inl rfl
          · exact .inr (.inl rfl)
          · exact .inr (.inr rfl)
          · exact .inr (.inr rfl)
          · exact .inr (.inr rfl)
        · exact .inl rfl
      obtain h | h | h := hcases
      · rw [h]
        exact ⟨fun _ => by decide, fun _ => List.append_nil _⟩
      · rw [h]
        refine ⟨fun _ => by decide, fun _ => ?_⟩
        rw [← List.replicate_succ, ← List.replicate_succ']
        rfl
      · rw [h]
        refine ⟨fun heq => ?_, fun hne => absurd rfl hne⟩
        have htail := (List.cons.inj heq).2
        cases fill with
        | zero => exact absurd (List.cons.inj htail).1 (by decide)
        | succ fill => exact absurd (List.cons.inj htail).1 (by decide)

/-- A number is printed as it should be just if it is padded so. -/
theorem Number.printed_iff (hmin : n.flags.minimum < 2 ^ 32) :
    n.printed carried = n.expected ↔ n.PadRight carried := by
  have hprinted : n.printed carried = List.replicate n.fill (padchar (carried || n.flags.zeroPad)) ++
      (n.sign ++ n.prefixed ++ n.digits) := by
    rw [Number.printed, Nat.mod_eq_of_lt hmin]
    rfl
  rw [hprinted, Number.expected, Number.PadRight]
  rcases Nat.eq_zero_or_pos n.fill with hfill | hfill
  · rw [hfill, List.replicate_zero, List.replicate_zero, List.replicate_zero, List.append_nil, List.nil_append,
      ite_self]
    exact ⟨fun _ h => absurd h (Nat.lt_irrefl 0), fun _ => rfl⟩
  · rw [imp_iff_right hfill]
    cases n.flags.zeroPad with
    | true =>
        rw [if_pos rfl, if_pos rfl, Bool.or_true, ← zeros_comm hfill, ← List.append_assoc,
          List.append_cancel_right_eq]
        rfl
    | false =>
        rw [if_neg Bool.false_ne_true, if_neg Bool.false_ne_true, Bool.or_false, List.append_cancel_right_eq]
        cases carried with
        | true =>
            refine ⟨fun h => ?_, fun h => absurd h.symm Bool.false_ne_true⟩
            exact absurd (List.replicate_right_injective hfill.ne' h) (by decide)
        | false => exact ⟨fun _ => rfl, fun _ => rfl⟩

/-- A piece whose width is not cut. -/
def Piece.Uncut : Piece → Prop
  | .plain _ _ => True
  | .percent => True
  | .char _ _ _ => True
  | .string _ _ => True
  | .number n => n.flags.minimum < 2 ^ 32

theorem Piece.uncut {p : Piece} (h : p.expected.length < 2 ^ 32) : p.Uncut := by
  cases p with
  | plain c hc => trivial
  | percent => trivial
  | char flags bits hne => trivial
  | string flags str => trivial
  | number n => exact Nat.lt_of_le_of_lt Number.minimum_le h

theorem Piece.length_printed {p : Piece} (h : p.Uncut) :
    (p.printed carried).length = p.expected.length := by
  cases p with
  | plain c hc => rfl
  | percent => rfl
  | char flags bits hne => rfl
  | string flags str => rfl
  | number n => exact (Number.length_printed h).trans Number.length_expected.symm

theorem Piece.printed_iff {p : Piece} (h : p.Uncut) :
    p.printed carried = p.expected ↔ p.PadRight carried := by
  cases p with
  | plain c hc => exact ⟨fun _ => trivial, fun _ => rfl⟩
  | percent => exact ⟨fun _ => trivial, fun _ => rfl⟩
  | char flags bits hne => exact ⟨fun _ => trivial, fun _ => rfl⟩
  | string flags str => exact ⟨fun _ => trivial, fun _ => rfl⟩
  | number n => exact Number.printed_iff h

/-- Both texts of a format. -/
theorem printed_iff (h : (expected ps).length < 2 ^ 32) :
    (printed carried ps).length = (expected ps).length ∧
      (printed carried ps = expected ps ↔ PadRight carried ps) := by
  induction ps generalizing carried with
  | nil => exact ⟨rfl, fun _ => trivial, fun _ => rfl⟩
  | cons p ps ih =>
      have hexpected : expected (p :: ps) = p.expected ++ expected ps := List.flatMap_cons
      rw [hexpected, List.length_append] at h
      have huncut : p.Uncut := Piece.uncut (by omega)
      have hlen : (p.printed carried).length = p.expected.length := Piece.length_printed huncut
      have hrest : (expected ps).length < 2 ^ 32 := by omega
      obtain ⟨hlength, hiff⟩ := @ih (carried || p.zeroPad) hrest
      rw [hexpected, printed, PadRight, List.length_append, List.length_append, hlen, hlength,
        ← Piece.printed_iff huncut, ← hiff]
      refine ⟨rfl, fun heq => List.append_inj heq hlen, ?_⟩
      rintro ⟨hp, hps⟩
      rw [hp, hps]

end

/-- The buffer has a string behind, its length is returned, and if the text of
`vsnprintf` is shorter than the buffer, that is the string. -/
def Right (buf : List UInt8) (ps : List Piece) : Prop :=
  ∃ buf' text, vsnprintf buf (format ps) (args ps) = some (buf', (text.length : Int)) ∧
    buf'.length = buf.length ∧ text ++ [0] <+: buf' ∧ 0 ∉ text ∧
    ((expected ps).length < buf.length → text = expected ps)

section
variable {buf : List UInt8} {ps : List Piece}

/-- The text of the code can be counted, if that of `vsnprintf` can be. -/
theorem printed_counts (h : buf.length ≤ 2 ^ 31 ∨ (expected ps).length < 2 ^ 31) :
    buf.length ≤ 2 ^ 31 ∨ (printed false ps).length < 2 ^ 31 := by
  refine h.imp_right (fun hlt => ?_)
  rwa [(printed_iff (by omega)).1]

/-- The text is that of `vsnprintf` only if the numbers are padded so. -/
theorem Right.padRight (h : Right buf ps) (hne : buf ≠ [])
    (hint : buf.length ≤ 2 ^ 31 ∨ (expected ps).length < 2 ^ 31)
    (hfits : (expected ps).length < buf.length) : PadRight false ps := by
  obtain ⟨buf', text, hrun, -, hpre, -, hall⟩ := vsnprintf_prints hne (printed_counts hint)
  obtain ⟨buf₁, text₁, hrun₁, -, hpre₁, -, htext₁⟩ := h
  have hboth : (printed false ps).length = (expected ps).length ∧
      (printed false ps = expected ps ↔ PadRight false ps) := printed_iff (by omega)
  rw [hrun, Option.some.injEq, Prod.mk.injEq, Int.natCast_inj] at hrun₁
  obtain ⟨rfl, hlen₁⟩ := hrun₁
  have hlength : (text ++ [0]).length = (text₁ ++ [0]).length := by
    rw [List.length_append, List.length_append, hlen₁]
  have hsame : text ++ [0] = text₁ ++ [0] :=
    (List.prefix_of_prefix_length_le hpre hpre₁ hlength.le).eq_of_length hlength
  rw [← hboth.2, ← hall (hboth.1 ▸ hfits), List.append_cancel_right hsame]
  exact htext₁ hfits

end

/-- The first two parts hold anyway, the third one as far as numbers are padded as
they should be. -/
theorem vsnprintf_right_iff (buf : List UInt8) (ps : List Piece) (hne : buf ≠ [])
    (hint : buf.length ≤ 2 ^ 31 ∨ (expected ps).length < 2 ^ 31) :
    Right buf ps ↔ ((expected ps).length < buf.length → PadRight false ps) := by
  refine ⟨fun h => h.padRight hne hint, fun hpad => ?_⟩
  obtain ⟨buf', text, hrun, hlen, hpre, hnul, hall⟩ := vsnprintf_prints hne (printed_counts hint)
  refine ⟨buf', text, hrun, hlen, hpre, hnul, fun hfits => ?_⟩
  have hboth : (printed false ps).length = (expected ps).length ∧
      (printed false ps = expected ps ↔ PadRight false ps) := printed_iff (by omega)
  rw [hall (hboth.1 ▸ hfits)]
  exact hboth.2.mpr (hpad hfits)

/-- `%02x` for 1 -/
def zeroPadded : Number where
  flags := { alternate := false, zeroPad := true, width := [2], head := fun h => absurd h.symm Bool.false_ne_true }
  length := .none
  conv := .x
  value := .int 1
  fits := rfl
  noLength := fun _ => rfl

theorem vsnprintf_right_zeroPadded : Right (List.replicate 16 0) [.number zeroPadded] :=
  (vsnprintf_right_iff (List.replicate 16 0) [.number zeroPadded] (by decide) (.inl (by decide))).mpr
    fun _ => ⟨fun _ => ⟨rfl, by decide⟩, trivial⟩

/-- `%2d` for 5 -/
def blankPadded : Number where
  flags := { alternate := false, zeroPad := false, width := [2], head := fun _ => by decide }
  length := .none
  conv := .d
  value := .int 5
  fits := rfl
  noLength := fun _ => rfl

/-- `%02x%2d` gives `0105`, not `01 5`. -/
theorem carried_zero : ¬ Right (List.replicate 16 0) [.number zeroPadded, .number blankPadded] := by
  intro h
  have hpad := h.padRight (by decide) (.inl (by decide)) (by decide)
  have hfill : 0 < blankPadded.fill := by decide
  exact absurd (hpad.2.1 hfill).symm Bool.false_ne_true

end TX2SecureUart.Printf
