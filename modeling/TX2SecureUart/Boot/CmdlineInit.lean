/-
# `Boot.CmdlineInit` — what `init_cmd_list` leaves in `s_cmdline`

`kept` is the line that the parameters make: a blank behind each, up to the first
`ignorefastboot`; the parameters behind that one run together.  The loop keeps
`At`: the parameters that are complete are in the buffer as `kept`, the one that it
reads is behind them.

The buffer is left in three ways: by a line that is too long with its last blank, by
the quote that completes a parameter, and by a single `ignorefastboot` with no blank
behind it, in front of whose place the last blank is looked for.
-/
import TX2SecureUart.Boot.Cmdline

namespace TX2SecureUart.Cmdline

open QuotedWords

/-! ## The line -/

/-- `ignorefastboot`, bare or quoted. -/
def Ignored (w : List UInt8) : Prop :=
  w = ignoreFastbootCmd ∨ w = quoteChar :: ignoreFastbootCmd ++ [quoteChar]

instance (w : List UInt8) : Decidable (Ignored w) := inferInstanceAs (Decidable (_ ∨ _))

/-- The line of parameters; `flag` is whether an `ignorefastboot` is in front. -/
def kept : Bool → List (List UInt8) → List UInt8
  | _, [] => []
  | true, w :: ws => w ++ kept true ws
  | false, w :: ws => if Ignored w then kept true ws else w ++ space :: kept false ws

/-- The line with a blank at its end. -/
def ended (line : List UInt8) : List UInt8 :=
  if line = [] ∨ line.getLast? = some space then line else line ++ [space]

/-- The parameters of a text, of which only `s_cmdline` much is read. -/
abbrev scanned (text : List UInt8) : Scan UInt8 :=
  scan isWhitespace quoteChar false [] (text.take commandLineSize)

/-- A parameter with its quote closed. -/
def closed (q : Bool) (cur : List UInt8) : List UInt8 := if q then cur ++ [quoteChar] else cur

def closedWords (r : Scan UInt8) : List (List UInt8) := withLast r.words (closed r.inQuote r.last)

/-- The line of a text. -/
def lineOf (flag : Bool) (text : List UInt8) : List UInt8 :=
  ended (kept flag (closedWords (scanned text)))

/-- The text stays inside of `s_cmdline`. -/
structure InitSafe (flag : Bool) (text : List UInt8) : Prop where
  fits : (lineOf flag text).length < commandLineSize
  /-- It is not a single `ignorefastboot` without a blank behind it. -/
  notOnlyIgnored :
    ¬ (flag = false ∧ (scanned text).words = [] ∧
      Ignored (closed (scanned text).inQuote (scanned text).last))
  /-- There is space for the quote at the end. -/
  closes : (scanned text).inQuote = true →
    (kept flag (scanned text).words ++ (scanned text).last).length < commandLineSize

/-- The parts of `InitSafe` that are tested behind the loop. -/
theorem initSafe_iff {flag : Bool} {text : List UInt8} : InitSafe flag text ↔
    (((scanned text).inQuote = true →
        (kept flag (scanned text).words ++ (scanned text).last).length < commandLineSize) ∧
      ¬ (flag = false ∧ (scanned text).words = [] ∧
        Ignored (closed (scanned text).inQuote (scanned text).last))) ∧
    (lineOf flag text).length < commandLineSize :=
  ⟨fun h => ⟨⟨h.closes, h.notOnlyIgnored⟩, h.fits⟩, fun h => ⟨h.2, h.1.2, h.1.1⟩⟩

instance (flag : Bool) (text : List UInt8) : Decidable (InitSafe flag text) :=
  decidable_of_iff _ initSafe_iff.symm

section
variable {flag : Bool} {w t cur line : List UInt8} {ws : List (List UInt8)} {c : UInt8}

theorem isWhitespace_space : isWhitespace space = true := by decide

theorem isWhitespace_quoteChar : isWhitespace quoteChar = false := by decide

theorem kept_cons : kept flag (w :: ws) = kept flag [w] ++ kept (flag || Ignored w) ws := by
  cases flag with
  | true => simp only [kept, Bool.true_or, List.append_nil]
  | false =>
      by_cases hw : Ignored w
      · simp only [kept, if_pos hw, decide_eq_true hw, Bool.false_or, List.nil_append]
      · simp only [kept, if_neg hw, decide_eq_false hw, Bool.false_or, List.append_assoc,
          List.cons_append, List.nil_append]

theorem kept_append {vs : List (List UInt8)} :
    kept flag (vs ++ ws) = kept flag vs ++ kept (flag || vs.any (fun v => decide (Ignored v))) ws := by
  induction vs generalizing flag with
  | nil => rw [List.any_nil, Bool.or_false]; cases flag <;> rfl
  | cons v vs ih =>
      have hcons : kept flag (v :: vs) = kept flag [v] ++ kept (flag || Ignored v) vs := kept_cons
      rw [List.cons_append, kept_cons, ih, hcons, List.any_cons, Bool.or_assoc, List.append_assoc]

theorem kept_true : kept true ws = ws.flatten := by
  induction ws with
  | nil => rfl
  | cons w ws ih => rw [kept, ih, List.flatten_cons]

/-- Up to the first `ignorefastboot` the line ends in a blank. -/
theorem ended_blank (h : line ≠ [] → line.getLast? = some space) : ended line = line := by
  by_cases hnil : line = []
  · exact if_pos (.inl hnil)
  · exact if_pos (.inr (h hnil))

theorem ended_append_blank : ended (line ++ [space]) = line ++ [space] :=
  if_pos (.inr List.getLast?_concat)

theorem ended_more (hc : c ≠ space) : ended (line ++ [c]) = line ++ [c] ++ [space] := by
  apply if_neg
  rintro (hnil | hlast)
  · exact List.concat_ne_nil c line hnil
  · rw [List.getLast?_concat, Option.some.injEq] at hlast
    exact hc hlast

end

/-! ## The test for `ignorefastboot` -/

section
variable {buf cmd t cur v rest : List UInt8} {c z : UInt8} {start fin : Nat}

/-- The test of a parameter that begins with a quote. -/
theorem checkIgnoreFastbootCmd_quoted :
    checkIgnoreFastbootCmd (t ++ (quoteChar :: (v ++ z :: rest))) cmd t.length
        (t.length + (v.length + 2)) =
      decide (v = cmd ∧ z = quoteChar) := by
  have hhead : (t ++ (quoteChar :: (v ++ z :: rest)))[t.length]? = some quoteChar := by
    rw [List.getElem?_append_right (Nat.le_refl _), Nat.sub_self]
    rfl
  have hlast : (t ++ (quoteChar :: (v ++ z :: rest)))[t.length + (v.length + 2) - 1]? = some z := by
    rw [List.getElem?_append_right (by omega),
      show t.length + (v.length + 2) - 1 - t.length = v.length + 1 by omega, List.getElem?_cons_succ,
      List.getElem?_append_right (Nat.le_refl _), Nat.sub_self]
    rfl
  have hdrop : (t ++ (quoteChar :: (v ++ z :: rest))).drop (t.length + 1) = v ++ z :: rest := by
    rw [List.drop_length_add_append]
    rfl
  rw [checkIgnoreFastbootCmd, if_pos hhead, hlast, hdrop, Nat.add_sub_cancel_left]
  by_cases hlen : cmd.length + 2 = v.length + 2 ∧ some z = some quoteChar
  · rw [if_pos hlen, Nat.add_right_cancel hlen.1, List.take_left]
    simp only [Option.some.inj hlen.2, and_true]
  · rw [if_neg hlen]
    refine (decide_eq_false ?_).symm
    rintro ⟨rfl, rfl⟩
    exact hlen ⟨rfl, rfl⟩

/-- The test of another parameter. -/
theorem checkIgnoreFastbootCmd_bare (hc : c ≠ quoteChar) :
    checkIgnoreFastbootCmd (t ++ (c :: v ++ rest)) cmd t.length (t.length + (v.length + 1)) =
      decide (c :: v = cmd) := by
  have hhead : (t ++ (c :: v ++ rest))[t.length]? = some c := by
    rw [List.getElem?_append_right (Nat.le_refl _), Nat.sub_self]
    rfl
  rw [checkIgnoreFastbootCmd, hhead, if_neg (fun h => hc (Option.some.inj h)),
    Nat.add_sub_cancel_left, List.drop_left]
  by_cases hlen : cmd.length = v.length + 1
  · rw [if_pos hlen, hlen, show v.length + 1 = (c :: v).length from rfl, List.take_left]
  · rw [if_neg hlen]
    refine (decide_eq_false ?_).symm
    rintro rfl
    exact hlen rfl

/-- What is compared is the parameter from `start` on. -/
theorem checkIgnoreFastbootCmd_eq (hcur : cur ≠ []) :
    checkIgnoreFastbootCmd (t ++ (cur ++ rest)) ignoreFastbootCmd t.length
      (t.length + cur.length) = decide (Ignored cur) := by
  cases cur with
  | nil => exact absurd rfl hcur
  | cons c w =>
      by_cases hc : c = quoteChar
      · subst hc
        rcases List.eq_nil_or_concat w with rfl | ⟨v, z, rfl⟩
        · have hhead : (t ++ ([quoteChar] ++ rest))[t.length]? = some quoteChar := by
            rw [List.getElem?_append_right (Nat.le_refl _), Nat.sub_self]
            rfl
          rw [checkIgnoreFastbootCmd, if_pos hhead, if_neg]
          · rfl
          · rintro ⟨hlen, -⟩
            rw [Nat.add_sub_cancel_left] at hlen
            cases hlen
        · rw [List.concat_eq_append,
            show quoteChar :: (v ++ [z]) ++ rest = quoteChar :: (v ++ z :: rest) by
              rw [List.cons_append, List.append_assoc]; rfl,
            List.length_cons, List.length_append]
          show checkIgnoreFastbootCmd _ _ _ (t.length + (v.length + 2)) = _
          rw [checkIgnoreFastbootCmd_quoted, decide_eq_decide]
          constructor
          · rintro ⟨rfl, rfl⟩
            exact .inr rfl
          · rintro (h | h)
            · exact absurd (List.cons.inj h).1 (by decide)
            · obtain ⟨hv, hz⟩ := List.append_inj' (List.cons.inj h).2 rfl
              exact ⟨hv, (List.cons.inj hz).1⟩
      · rw [List.length_cons, checkIgnoreFastbootCmd_bare hc, decide_eq_decide]
        refine ⟨.inl, ?_⟩
        rintro (h | h)
        · exact h
        · exact absurd (List.cons.inj h).1 hc

end

/-! ## The loop -/

/-- The parameters in `t` are complete, `cur` is read. -/
structure At (t cur : List UInt8) (flag q : Bool) (s : InitState) : Prop where
  holds : s.sCmdline.take s.next = t ++ cur
  next : s.next = (t ++ cur).length
  inParam : s.inParam = decide (cur ≠ [])
  quoted : s.quote = q
  flagged : s.nIgnoreFastboot = flag
  start : cur ≠ [] → s.start = t.length
  idle : cur = [] → q = false
  blank : flag = false → t ≠ [] → t.getLast? = some space
  /-- What is compared behind the loop is in front of the last blank. -/
  before : cur = [] → flag = false → t ≠ [] → s.start < t.length

section
variable {t cur xs : List UInt8} {flag q : Bool} {c : UInt8} {s s' : InitState}

theorem put_some (h : s.next < commandLineSize) :
    s.put c = some { s with
      sCmdline := s.sCmdline.set s.next c
      size := List.length_set.trans s.size
      next := s.next + 1 } := if_pos h

theorem put_none (h : ¬ s.next < commandLineSize) : s.put c = none := if_neg h

theorem take_set_succ {l : List UInt8} {n : Nat} (h : n < l.length) :
    (l.set n c).take (n + 1) = l.take n ++ [c] := by
  rw [List.take_succ_eq_append_getElem (h.trans_eq List.length_set.symm), List.getElem_set_self,
    List.take_set_of_le (Nat.le_refl n)]

/-- One more character of a parameter. -/
theorem At.put (h : At t cur flag q s) (hroom : s.next < commandLineSize) {b : Bool}
    (hcur : cur ≠ []) :
    ∃ s', InitState.put c { s with quote := b } = some s' ∧ At t (cur ++ [c]) flag b s' := by
  refine ⟨_, put_some hroom, ?_⟩
  have hne : cur ++ [c] ≠ [] := List.concat_ne_nil c cur
  constructor
  · show (s.sCmdline.set s.next c).take (s.next + 1) = _
    rw [take_set_succ (hroom.trans_eq s.size.symm), h.holds, List.append_assoc]
  · show s.next + 1 = _
    rw [← List.append_assoc, List.length_append, ← h.next]
    rfl
  · exact (h.inParam.trans (decide_eq_true hcur)).trans (decide_eq_true hne).symm
  · rfl
  · exact h.flagged
  · exact fun _ => h.start hcur
  · exact fun hnil => absurd hnil hne
  · exact h.blank
  · exact fun hnil => absurd hnil hne

/-- The first character of a parameter. -/
theorem At.first (h : At t [] flag false s) (hroom : s.next < commandLineSize) {b : Bool} :
    ∃ s', InitState.put c { s with start := s.next, quote := b, inParam := true } = some s' ∧
      At t [c] flag b s' := by
  refine ⟨_, put_some hroom, ?_⟩
  have hne : [c] ≠ [] := List.cons_ne_nil c []
  have hnext : s.next = t.length := h.next.trans (congrArg _ (List.append_nil t))
  constructor
  · show (s.sCmdline.set s.next c).take (s.next + 1) = _
    rw [take_set_succ (hroom.trans_eq s.size.symm), h.holds, List.append_nil]
  · show s.next + 1 = _
    rw [hnext, List.length_append]
    rfl
  · exact (decide_eq_true hne).symm
  · rfl
  · exact h.flagged
  · exact fun _ => hnext
  · exact fun hnil => absurd hnil hne
  · exact h.blank
  · exact fun hnil => absurd hnil hne

theorem At.next_add (h : At t cur flag q s) : s.next = t.length + cur.length :=
  h.next.trans List.length_append

theorem At.inParam_ne (h : At t cur flag q s) (hcur : cur ≠ []) : s.inParam ≠ false := by
  rw [h.inParam, decide_eq_true hcur]
  exact Bool.noConfusion

/-- The test at the end of a parameter. -/
theorem At.check (h : At t cur flag q s) (hcur : cur ≠ []) :
    checkIgnoreFastbootCmd s.sCmdline ignoreFastbootCmd s.start s.next = decide (Ignored cur) := by
  rw [← List.take_append_drop s.next s.sCmdline, h.holds, h.start hcur, h.next,
    List.append_assoc, List.length_append]
  exact checkIgnoreFastbootCmd_eq hcur

theorem At.checkIgnored_taken (h : At t cur false q s) (hcur : cur ≠ []) (hi : Ignored cur) :
    s.checkIgnored = { s with nIgnoreFastboot := true, next := t.length } := by
  unfold InitState.checkIgnored
  rw [h.check hcur, h.flagged, if_neg Bool.false_ne_true, if_pos (decide_eq_true hi), h.start hcur]

theorem At.checkIgnored_left (h : At t cur flag q s) (hcur : cur ≠ [])
    (hi : ¬ (flag = false ∧ Ignored cur)) : s.checkIgnored = s := by
  unfold InitState.checkIgnored
  rw [h.check hcur, h.flagged]
  cases flag with
  | true => rfl
  | false => rw [if_neg Bool.false_ne_true, decide_eq_false (fun h => hi ⟨rfl, h⟩), if_neg Bool.false_ne_true]

theorem At.take_left (h : At t cur flag q s) : s.sCmdline.take t.length = t := by
  have htake : (s.sCmdline.take s.next).take t.length = t := by
    rw [h.holds]
    exact List.take_left
  rwa [List.take_take, h.next_add, Nat.min_eq_left (Nat.le_add_right _ _)] at htake

/-- `ignorefastboot` is taken back. -/
theorem At.taken (h : At t cur false false s) :
    At t [] true false { s with nIgnoreFastboot := true, next := t.length, inParam := false } where
  holds := h.take_left.trans (List.append_nil t).symm
  next := congrArg _ (List.append_nil t).symm
  inParam := (decide_eq_false (fun hne => hne rfl)).symm
  quoted := h.quoted
  flagged := rfl
  start := fun hne => absurd rfl hne
  idle := fun _ => rfl
  blank := fun hflag => absurd hflag.symm Bool.false_ne_true
  before := fun _ hflag => absurd hflag.symm Bool.false_ne_true

/-- Behind `ignorefastboot` a parameter is complete without a blank. -/
theorem At.joined (h : At t cur true false s) : At (t ++ cur) [] true false { s with inParam := false } where
  holds := h.holds.trans (List.append_nil _).symm
  next := h.next.trans (congrArg _ (List.append_nil _).symm)
  inParam := (decide_eq_false (fun hne => hne rfl)).symm
  quoted := h.quoted
  flagged := h.flagged
  start := fun hne => absurd rfl hne
  idle := fun _ => rfl
  blank := fun hflag => absurd hflag.symm Bool.false_ne_true
  before := fun _ hflag => absurd hflag.symm Bool.false_ne_true

/-- In front of it there is one behind each. -/
theorem At.spaced (h : At t cur false false s) (hcur : cur ≠ []) (hroom : s.next < commandLineSize) :
    ∃ s', InitState.put space { s with inParam := false } = some s' ∧
      At (t ++ (cur ++ [space])) [] false false s' := by
  refine ⟨_, put_some hroom, ?_⟩
  constructor
  · show (s.sCmdline.set s.next space).take (s.next + 1) = _
    rw [take_set_succ (hroom.trans_eq s.size.symm), h.holds, List.append_nil, List.append_assoc]
  · show s.next + 1 = _
    rw [List.append_nil, ← List.append_assoc, List.length_append, ← h.next]
    rfl
  · exact (decide_eq_false (fun hne => hne rfl)).symm
  · exact h.quoted
  · exact h.flagged
  · exact fun hne => absurd rfl hne
  · exact fun _ => rfl
  · intro _ _
    rw [← List.append_assoc]
    exact List.getLast?_concat
  · intro _ _ _
    show s.start < _
    rw [h.start hcur, List.length_append, List.length_append]
    exact Nat.lt_add_of_pos_right (Nat.lt_of_lt_of_le Nat.zero_lt_one (Nat.le_add_left _ _))

theorem not_whitespace (hc : isWhitespace c = true) : c ≠ quoteChar := by
  rintro rfl
  rw [isWhitespace_quoteChar] at hc
  cases hc

/-- The blank behind a parameter. -/
theorem At.word (h : At t cur flag false s) (hcur : cur ≠ []) (hroom : s.next < commandLineSize)
    (hc : isWhitespace c = true) :
    ∃ s', s.step c = some s' ∧
      At (t ++ kept flag [cur]) [] (flag || Ignored cur) false s' ∧ s'.next ≤ s.next + 1 := by
  have hstep : s.step c = if s.checkIgnored.nIgnoreFastboot then
      some { s.checkIgnored with inParam := false }
      else InitState.put space { s.checkIgnored with inParam := false } := by
    rw [InitState.step, if_neg (h.inParam_ne hcur), if_pos hc, h.quoted, if_neg Bool.false_ne_true]
  have hnext := h.next_add
  cases flag with
  | true =>
      rw [hstep, h.checkIgnored_left hcur (fun hi => absurd hi.1.symm Bool.false_ne_true), if_pos h.flagged,
        kept, kept, List.append_nil, Bool.true_or]
      exact ⟨_, rfl, h.joined, Nat.le_succ _⟩
  | false =>
      by_cases hi : Ignored cur
      · rw [hstep, h.checkIgnored_taken hcur hi, if_pos rfl, kept, if_pos hi, kept, List.append_nil,
          decide_eq_true hi, Bool.false_or]
        exact ⟨_, rfl, h.taken, by show t.length ≤ _; omega⟩
      · rw [hstep, h.checkIgnored_left hcur (fun h => hi h.2), h.flagged, if_neg Bool.false_ne_true, kept,
          if_neg hi, kept, decide_eq_false hi, Bool.false_or]
        obtain ⟨s', hput, hat⟩ := h.spaced hcur hroom
        refine ⟨s', hput, hat, ?_⟩
        rw [hat.next_add, List.length_append, List.length_append, ← Nat.add_assoc, ← hnext]
        exact Nat.le_refl _

/-- A character of a parameter; a quote turns `quote` around. -/
theorem At.more (h : At t cur flag q s) (hroom : s.next < commandLineSize)
    (hc : ¬ (isWhitespace c = true ∧ q = false)) :
    ∃ s', s.step c = some s' ∧ At t (cur ++ [c]) flag (q ^^ decide (c = quoteChar)) s' := by
  by_cases hcur : cur = []
  · subst hcur
    obtain rfl : q = false := h.idle rfl
    have hblank : isWhitespace c ≠ true := fun hb => hc ⟨hb, rfl⟩
    rw [InitState.step, if_pos (h.inParam.trans (decide_eq_false (fun hne => hne rfl))), if_neg hblank,
      h.quoted]
    have hquote : (if c = quoteChar then true else false) = (false ^^ decide (c = quoteChar)) := by
      rw [Bool.false_xor]
      by_cases hq : c = quoteChar
      · rw [if_pos hq, decide_eq_true hq]
      · rw [if_neg hq, decide_eq_false hq]
    rw [hquote]
    exact h.first hroom
  · rw [InitState.step, if_neg (h.inParam_ne hcur)]
    by_cases hb : isWhitespace c = true
    · have hq : s.quote = true := h.quoted.trans ((Bool.not_eq_false q).mp fun hq => hc ⟨hb, hq⟩)
      rw [if_pos hb, if_pos hq, decide_eq_false (not_whitespace hb), Bool.xor_false, ← h.quoted]
      exact h.put hroom hcur
    · rw [if_neg hb, ← h.quoted]
      by_cases hq : c = quoteChar
      · rw [if_pos hq, decide_eq_true hq, Bool.xor_true]
        exact h.put hroom hcur
      · rw [if_neg hq, decide_eq_false hq, Bool.xor_false]
        exact h.put hroom hcur

/-- The loop reads the parameters. -/
theorem At.loop (h : At t cur flag q s) (hroom : s.next + xs.length ≤ commandLineSize) :
    ∃ s', xs.foldlM InitState.step s = some s' ∧ s'.next ≤ commandLineSize ∧
      At (t ++ kept flag (scan isWhitespace quoteChar q cur xs).words)
        (scan isWhitespace quoteChar q cur xs).last
        (flag || (scan isWhitespace quoteChar q cur xs).words.any (fun w => decide (Ignored w)))
        (scan isWhitespace quoteChar q cur xs).inQuote s' := by
  induction xs generalizing t cur flag q s with
  | nil =>
      refine ⟨s, rfl, hroom, ?_⟩
      show At (t ++ kept flag []) cur (flag || false) q s
      rw [Bool.or_false, show kept flag [] = [] by cases flag <;> rfl, List.append_nil]
      exact h
  | cons c cs ih =>
      rw [List.length_cons] at hroom
      have hlt : s.next < commandLineSize := by omega
      rw [List.foldlM_cons]
      by_cases hc : isWhitespace c = true ∧ q = false
      · obtain ⟨hb, rfl⟩ := hc
        by_cases hcur : cur = []
        · subst hcur
          rw [scan_blank hb, InitState.step, if_pos (h.inParam.trans (decide_eq_false (fun hne => hne rfl))),
            if_pos hb]
          exact ih h (by omega)
        · obtain ⟨s', hstep, hat, hnext⟩ := h.word hcur hlt hb
          rw [scan_end hb hcur, hstep]
          obtain ⟨s'', hrun, hle, hend⟩ := ih hat (by omega)
          refine ⟨s'', hrun, hle, ?_⟩
          show At (t ++ kept flag (cur :: _)) _ (flag || List.any (cur :: _) _) _ s''
          rw [kept_cons, ← List.append_assoc, List.any_cons, ← Bool.or_assoc]
          exact hend
      · obtain ⟨s', hstep, hat⟩ := h.more hlt hc
        rw [scan_more hc, hstep]
        refine ih hat ?_
        have hnext := h.next
        have hnext' := hat.next
        rw [List.length_append] at hnext
        rw [List.length_append, List.length_append, List.length_singleton] at hnext'
        omega

end

/-! ## Behind the loop -/

/-- The line is at the beginning of `s_cmdline`. -/
structure Filled (line : List UInt8) (s : InitState) : Prop where
  holds : s.sCmdline.take s.next = line
  next : s.next = line.length

/-- What `init_cmd_list` leaves. -/
structure Left (line : List UInt8) (flag : Bool) (st : Statics) : Prop where
  holds : st.sCmdline.take line.length = line
  terminated : st.sCmdline[line.length]? = some 0
  length : st.nOrigCmdlen = line.length
  flagged : st.nIgnoreFastboot = flag

/-- A line that is short enough is left. -/
def Ends (line : List UInt8) (flag : Bool) (r : Option Statics) : Prop :=
  if line.length < commandLineSize then ∃ st, r = some st ∧ Left line flag st else r = none

section
variable {t cur line : List UInt8} {flag q : Bool} {c : UInt8} {s : InitState}

theorem Filled.terminate (h : Filled line s) : Ends line s.nIgnoreFastboot s.terminate := by
  rw [Ends, ← h.next]
  by_cases hroom : s.next < commandLineSize
  · rw [if_pos hroom, InitState.terminate, dif_pos hroom]
    refine ⟨_, rfl, ?_, ?_, h.next, rfl⟩
    · show (s.sCmdline.set s.next 0).take line.length = line
      rw [← h.next, List.take_set_of_le (Nat.le_refl _), h.holds]
    · show (s.sCmdline.set s.next 0)[line.length]? = some 0
      rw [← h.next, List.getElem?_set_self (hroom.trans_eq s.size.symm)]
  · rw [if_neg hroom, InitState.terminate, dif_neg hroom]

theorem Filled.getLast (h : Filled line s) (hne : line ≠ []) :
    s.sCmdline[s.next - 1]? = line.getLast? := by
  have hpos : 0 < line.length := List.length_pos_of_ne_nil hne
  rw [List.getLast?_eq_getElem?, ← h.holds, List.getElem?_take, h.holds, ← h.next, if_pos]
  rw [h.next]
  omega

/-- The blank and the terminator. -/
theorem Filled.endBlank (h : Filled line s) (hne : line ≠ []) :
    Ends (ended line) s.nIgnoreFastboot (s.endBlank.bind InitState.terminate) := by
  have hnext : s.next ≠ 0 := by
    rw [h.next]
    exact (List.length_pos_of_ne_nil hne).ne'
  rw [InitState.endBlank, if_neg hnext, h.getLast hne]
  by_cases hlast : line.getLast? = some space
  · rw [if_pos hlast, ended_blank (fun _ => hlast)]
    exact h.terminate
  · rw [if_neg hlast, ended, if_neg (fun hor => hor.elim hne hlast)]
    by_cases hroom : s.next < commandLineSize
    · rw [put_some hroom]
      have hfilled : Filled (line ++ [space]) { s with
          sCmdline := s.sCmdline.set s.next space
          size := List.length_set.trans s.size
          next := s.next + 1 } := by
        constructor
        · show (s.sCmdline.set s.next space).take (s.next + 1) = _
          rw [take_set_succ (hroom.trans_eq s.size.symm), h.holds]
        · show s.next + 1 = _
          rw [h.next, List.length_append]
          rfl
      exact hfilled.terminate
    · rw [put_none hroom, Ends, List.length_append, List.length_singleton, ← h.next, if_neg (by omega)]
      rfl

theorem Ignored.not_blank {w v : List UInt8} (h : Ignored w) : w ≠ v ++ [space] := by
  intro hw
  have hlast : w.getLast? = some space := by rw [hw, List.getLast?_concat]
  obtain rfl | rfl := h
  · exact absurd hlast (by decide)
  · exact absurd hlast (by decide)

/-- The text between two parameters is not taken for `ignorefastboot`. -/
theorem At.checkIgnored_idle (h : At t [] flag q s) (hne : t ≠ []) : s.checkIgnored = s := by
  unfold InitState.checkIgnored
  rw [h.flagged]
  cases flag with
  | true => rfl
  | false =>
      have hstart := h.before rfl rfl hne
      have hcheck : checkIgnoreFastbootCmd s.sCmdline ignoreFastbootCmd s.start s.next =
          decide (Ignored (t.drop s.start)) := by
        have hbuf : s.sCmdline = t.take s.start ++ (t.drop s.start ++ s.sCmdline.drop s.next) := by
          rw [← List.append_assoc, List.take_append_drop, ← List.append_nil t, ← h.holds,
            List.take_append_drop]
        have hlen : (t.take s.start).length = s.start := List.length_take_of_le hstart.le
        have hnext : s.next = s.start + (t.drop s.start).length := by
          rw [h.next, List.append_nil, List.length_drop]
          omega
        have hdrop : t.drop s.start ≠ [] := fun hnil =>
          absurd (List.drop_eq_nil_iff.mp hnil) (Nat.not_le.mpr hstart)
        rw [← checkIgnoreFastbootCmd_eq (t := t.take s.start) hdrop, ← hbuf, hlen, ← hnext]
      have hnot : ¬ Ignored (t.drop s.start) := by
        obtain ⟨v, hv⟩ := List.getLast?_eq_some_iff.mp (h.blank rfl hne)
        intro hi
        refine hi.not_blank (v := v.drop s.start) ?_
        rw [hv, List.drop_append_of_le_length]
        rw [hv, List.length_append, List.length_singleton] at hstart
        omega
      rw [if_neg Bool.false_ne_true, hcheck, decide_eq_false hnot, if_neg Bool.false_ne_true]

/-- The state with `cur` completed. -/
theorem At.closeQuote (h : At t cur flag q s) (hroom : q = true → s.next < commandLineSize) :
    ∃ s', s.closeQuote = some s' ∧
      At t (closed q cur) flag q s' := by
  cases q with
  | false => exact ⟨s, by rw [InitState.closeQuote, if_neg (by rw [h.quoted]; exact Bool.noConfusion)], h⟩
  | true =>
      obtain ⟨s', hput, hat⟩ := h.put (c := quoteChar) (hroom rfl) (b := s.quote)
        (fun hnil => absurd (h.idle hnil) Bool.noConfusion)
      rw [h.quoted] at hat
      rw [InitState.closeQuote, if_pos h.quoted]
      exact ⟨s', hput, hat⟩

theorem At.filled (h : At t cur flag q s) : Filled (t ++ cur) s := ⟨h.holds, h.next⟩

/-- The end of a line whose last parameter is complete. -/
theorem At.ends (h : At t cur flag q s) (hne : t ++ cur ≠ []) (hlast : cur.getLast? ≠ some space) :
    if flag = false ∧ t = [] ∧ Ignored cur then s.checkIgnored.endBlank = none
    else Ends (ended (t ++ kept flag (withLast [] cur))) (flag || Ignored cur)
      (s.checkIgnored.endBlank.bind InitState.terminate) := by
  by_cases hcur : cur = []
  · subst hcur
    have hnot : ¬ Ignored [] := by decide
    have ht : t ≠ [] := fun hnil => hne (by rw [hnil]; rfl)
    rw [if_neg (fun hi => hnot hi.2.2), h.checkIgnored_idle ht, decide_eq_false hnot, Bool.or_false,
      withLast, if_pos rfl, show kept flag [] = [] by cases flag <;> rfl, ← h.flagged]
    exact h.filled.endBlank hne
  · have hwith : withLast [] cur = [cur] := if_neg hcur
    rw [hwith]
    by_cases hi : flag = false ∧ Ignored cur
    · obtain ⟨rfl, hi⟩ := hi
      rw [h.checkIgnored_taken hcur hi, decide_eq_true hi, Bool.or_true, kept, if_pos hi, kept, List.append_nil]
      by_cases ht : t = []
      · rw [if_pos ⟨rfl, ht, hi⟩, ht]
        rfl
      · rw [if_neg (fun h => ht h.2.1)]
        have hfilled : Filled t { s with nIgnoreFastboot := true, next := t.length } := ⟨h.take_left, rfl⟩
        exact hfilled.endBlank ht
    · rw [if_neg (fun h => hi ⟨h.1, h.2.2⟩), h.checkIgnored_left hcur hi]
      have hends := h.filled.endBlank hne
      rw [h.flagged] at hends
      cases flag with
      | true => rwa [kept, kept, List.append_nil, Bool.true_or]
      | false =>
          have hnot : ¬ Ignored cur := fun h => hi ⟨rfl, h⟩
          have hspace : ended (t ++ cur) = ended (t ++ (cur ++ [space])) := by
            rw [← List.append_assoc, ended_append_blank, ended, if_neg]
            rw [List.getLast?_append_of_ne_nil _ hcur]
            exact fun hor => hor.elim hne hlast
          rwa [kept, if_neg hnot, kept, decide_eq_false hnot, Bool.or_false, ← hspace]

theorem closed_last (hgoes : Goes isWhitespace quoteChar false cur q) :
    (closed q cur).getLast? ≠ some space := by
  intro hlast
  cases q with
  | true =>
      rw [closed, if_pos rfl, List.getLast?_concat] at hlast
      exact absurd hlast (by decide)
  | false =>
      obtain ⟨v, hv⟩ := List.getLast?_eq_some_iff.mp hlast
      rw [closed, if_neg Bool.false_ne_true] at hv
      subst hv
      exact absurd (hgoes.last_not_blank isWhitespace_quoteChar) (by decide)

/-- The end of the line. -/
theorem At.finish (h : At t cur flag q s) (hgoes : Goes isWhitespace quoteChar false cur q) :
    if (q = true → s.next < commandLineSize) ∧ ¬ (flag = false ∧ t = [] ∧ Ignored (closed q cur)) then
      Ends (ended (t ++ kept flag (withLast [] (closed q cur)))) (flag || Ignored (closed q cur))
        (s.finish.bind InitState.terminate)
    else s.finish.bind InitState.terminate = none := by
  by_cases hnext : s.next = 0
  · have hnil : t ++ cur = [] := List.eq_nil_of_length_eq_zero (h.next.symm.trans hnext)
    obtain ⟨rfl, rfl⟩ := List.append_eq_nil_iff.mp hnil
    obtain rfl : q = false := h.idle rfl
    have hnot : ¬ Ignored [] := by decide
    rw [if_pos ⟨fun hq => absurd hq.symm Bool.noConfusion, fun hi => hnot hi.2.2⟩, InitState.finish,
      if_pos hnext, ← h.flagged]
    show Ends (ended (kept s.nIgnoreFastboot [])) (s.nIgnoreFastboot || decide (Ignored [])) s.terminate
    rw [decide_eq_false hnot, Bool.or_false, show kept s.nIgnoreFastboot [] = [] by
      cases s.nIgnoreFastboot <;> rfl]
    exact h.filled.terminate
  · have hne : t ++ cur ≠ [] := fun hnil => hnext (h.next.trans (congrArg _ hnil))
    rw [InitState.finish, if_neg hnext]
    by_cases hroom : q = true → s.next < commandLineSize
    · obtain ⟨s', hclose, hat⟩ := h.closeQuote hroom
      have hne' : t ++ closed q cur ≠ [] := by
        intro hnil
        obtain ⟨rfl, hcur⟩ := List.append_eq_nil_iff.mp hnil
        cases q with
        | true => exact List.concat_ne_nil _ _ hcur
        | false => exact hne hcur
      have hends := hat.ends hne' (closed_last hgoes)
      rw [hclose]
      by_cases hi : flag = false ∧ t = [] ∧ Ignored (closed q cur)
      · rw [if_neg (fun hand => hand.2 hi)]
        rw [if_pos hi] at hends
        show s'.checkIgnored.endBlank.bind _ = none
        rw [hends]
        rfl
      · rw [if_pos ⟨hroom, hi⟩]
        rwa [if_neg hi] at hends
    · rw [if_neg (fun hand => hroom hand.1)]
      obtain ⟨rfl, hfull⟩ := Classical.not_imp.mp hroom
      rw [InitState.closeQuote, if_pos h.quoted, put_none hfull]
      rfl

end

/-! ## `init_cmd_list` -/

section
variable {st : Statics} {cmdline : CString}

variable (st) in
theorem Statics.start_at : At [] [] st.nIgnoreFastboot false st.start where
  holds := rfl
  next := rfl
  inParam := rfl
  quoted := rfl
  flagged := rfl
  start := fun hne => absurd rfl hne
  idle := fun _ => rfl
  blank := fun _ hne => absurd rfl hne
  before := fun _ _ hne => absurd rfl hne

/-- Up to the first `ignorefastboot` every parameter is in the line. -/
theorem kept_eq_nil {flag : Bool} {ws : List (List UInt8)} :
    (flag || ws.any (fun w => decide (Ignored w))) = false ∧ kept flag ws = [] ↔
      flag = false ∧ ws = [] := by
  constructor
  · rintro ⟨hflag, hkept⟩
    obtain ⟨rfl, hany⟩ := Bool.or_eq_false_iff.mp hflag
    refine ⟨rfl, ?_⟩
    cases ws with
    | nil => rfl
    | cons w ws =>
        rw [List.any_cons, Bool.or_eq_false_iff] at hany
        rw [kept, if_neg (of_decide_eq_false hany.1)] at hkept
        exact absurd (List.append_eq_nil_iff.mp hkept).2 (List.cons_ne_nil _ _)
  · rintro ⟨rfl, rfl⟩
    exact ⟨rfl, rfl⟩

theorem withLast_eq {ws : List (List UInt8)} {w : List UInt8} : withLast ws w = ws ++ withLast [] w := by
  by_cases hw : w = []
  · rw [withLast, if_pos hw, withLast, if_pos hw, List.append_nil]
  · rw [withLast, if_neg hw, withLast, if_neg hw, List.nil_append]

theorem any_ignored {ws : List (List UInt8)} {w : List UInt8} :
    (withLast ws w).any (fun w => decide (Ignored w)) =
      (ws.any (fun w => decide (Ignored w)) || decide (Ignored w)) := by
  by_cases hw : w = []
  · subst hw
    rw [withLast, if_pos rfl, decide_eq_false (by decide), Bool.or_false]
  · rw [withLast, if_neg hw, List.any_append, List.any_cons, List.any_nil, Bool.or_false]

variable (st cmdline) in
/-- `init_cmd_list` leaves the line of its parameters, or `s_cmdline`. -/
theorem initCmdList_ends :
    if InitSafe st.nIgnoreFastboot cmdline.chars then
      ∃ st', initCmdList st cmdline = some st' ∧ Left (lineOf st.nIgnoreFastboot cmdline.chars)
        (st.nIgnoreFastboot ||
          (closedWords (scanned cmdline.chars)).any (fun w => decide (Ignored w))) st'
    else initCmdList st cmdline = none := by
  have hroom : st.start.next + (cmdline.chars.take commandLineSize).length ≤ commandLineSize :=
    Nat.zero_add _ ▸ List.length_take_le _ _
  obtain ⟨s, hrun, -, hat⟩ := st.start_at.loop hroom
  have hfinish := hat.finish (scan_words (show Goes isWhitespace quoteChar false [] false from rfl)).2
  have hinit : initCmdList st cmdline = s.finish.bind InitState.terminate := by
    rw [initCmdList, hrun]
    rfl
  have hline : ended (kept st.nIgnoreFastboot (scanned cmdline.chars).words ++
      kept (st.nIgnoreFastboot ||
          (scanned cmdline.chars).words.any (fun w => decide (Ignored w)))
        (withLast [] (closed (scanned cmdline.chars).inQuote (scanned cmdline.chars).last))) =
      lineOf st.nIgnoreFastboot cmdline.chars := by
    rw [← kept_append, ← withLast_eq]
    rfl
  rw [← hinit, hat.next, List.nil_append] at hfinish
  by_cases hsafe : InitSafe st.nIgnoreFastboot cmdline.chars
  · rw [if_pos hsafe]
    rw [if_pos ⟨hsafe.closes, fun h => hsafe.notOnlyIgnored
      ((and_assoc.mp ⟨kept_eq_nil.mp ⟨h.1, h.2.1⟩, h.2.2⟩))⟩, hline, Bool.or_assoc,
      ← any_ignored, Ends, if_pos hsafe.fits] at hfinish
    exact hfinish
  · rw [if_neg hsafe]
    split at hfinish
    · rename_i hcond
      rw [hline, Ends] at hfinish
      rw [if_neg] at hfinish
      · exact hfinish
      · intro hfits
        exact hsafe ⟨hfits,
          fun h => hcond.2 (and_assoc.mp ⟨kept_eq_nil.mpr ⟨h.1, h.2.1⟩, h.2.2⟩), hcond.1⟩
    · exact hfinish

end

end TX2SecureUart.Cmdline
