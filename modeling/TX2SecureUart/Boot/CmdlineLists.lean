/-
# `Boot.CmdlineLists` — the parameters of `s_cmdline` and of the text it is made from

`init_cmd_list` keeps the parameters of its text, if what is behind an
`ignorefastboot` is at most one other parameter: from there on no blank is put between
them.  `does_command_exist` then finds the names of the parameters and those that look
like them.

Both is said of texts whose parameters are all in the first `COMMAND_LINE_SIZE`
characters, and, without an `ignorefastboot`, have no quotes that the automaton of
`does_command_exist` loses.
-/
import TX2SecureUart.Boot.CmdlinePrepare
import TX2SecureUart.Boot.CmdlineExist

namespace TX2SecureUart.Cmdline

open QuotedWords

/-- The parameters of a text. -/
abbrev params (text : List UInt8) : List (List UInt8) := words isWhitespace quoteChar text

/-- The parameters with a blank behind each. -/
def normalForm (text : List UInt8) : List UInt8 := (params text).flatMap (· ++ [space])

/-- The parameters behind the first `ignorefastboot`. -/
def behind : List (List UInt8) → List (List UInt8)
  | [] => []
  | w :: ws => if Ignored w then ws else behind ws

/-- Parameters that run together. -/
def joined (ws : List (List UInt8)) : List (List UInt8) := if ws = [] then [] else [ws.flatten]

/-- The parameters that the line has. -/
def shortened : Bool → List (List UInt8) → List (List UInt8)
  | _, [] => []
  | true, w :: ws => joined (w :: ws)
  | false, w :: ws => if Ignored w then shortened true ws else w :: shortened false ws

/-- The parameters that it should have. -/
def wanted (ws : List (List UInt8)) : List (List UInt8) := ws.filter (fun w => decide (¬ Ignored w))

section
variable {flag : Bool} {w b : List UInt8} {ws vs : List (List UInt8)}

theorem shortened_true : shortened true ws = joined ws := by
  cases ws with
  | nil => rfl
  | cons w ws => rfl

/-! ## The line has the shortened parameters -/

theorem joined_word (hws : ∀ w ∈ ws, Word isWhitespace quoteChar w) :
    ∀ w ∈ joined ws, Word isWhitespace quoteChar w := by
  by_cases hnil : ws = []
  · rw [joined, if_pos hnil]
    exact fun w hw => absurd hw List.not_mem_nil
  · rw [joined, if_neg hnil]
    intro w hw
    rw [List.mem_singleton.mp hw]
    exact word_flatten hws hnil

theorem shortened_word (hws : ∀ w ∈ ws, Word isWhitespace quoteChar w) :
    ∀ w ∈ shortened flag ws, Word isWhitespace quoteChar w := by
  cases flag with
  | true => exact shortened_true ▸ joined_word hws
  | false =>
      induction ws with
      | nil => exact fun w hw => absurd hw List.not_mem_nil
      | cons w ws ih =>
          have htail : ∀ v ∈ ws, Word isWhitespace quoteChar v := fun v hv => hws v (List.mem_cons_of_mem w hv)
          rw [shortened]
          split
          · exact shortened_true ▸ joined_word htail
          · intro v hv
            rcases List.mem_cons.mp hv with rfl | hv
            · exact hws v List.mem_cons_self
            · exact ih htail v hv

/-- A word does not end in a blank. -/
theorem Word.getLast (hw : Word isWhitespace quoteChar w) : w.getLast? ≠ some space :=
  closed_last (q := false) hw.2

theorem ended_joined (hws : ∀ w ∈ ws, Word isWhitespace quoteChar w) {line : List UInt8}
    (hline : line ≠ [] → line.getLast? = some space) :
    ended (line ++ ws.flatten) = line ++ (joined ws).flatMap (· ++ [space]) := by
  by_cases hnil : ws = []
  · subst hnil
    rw [List.flatten_nil, List.append_nil, ended_blank hline]
    exact (List.append_nil line).symm
  · have hword := word_flatten hws hnil
    rw [joined, if_neg hnil, List.flatMap_singleton, ended, if_neg, List.append_assoc]
    rw [List.getLast?_append_of_ne_nil _ hword.1]
    rintro (hempty | hlast)
    · exact hword.1 (List.append_eq_nil_iff.mp hempty).2
    · exact Word.getLast hword hlast

/-- The line behind one that ends in a blank. -/
theorem ended_kept (hws : ∀ w ∈ ws, Word isWhitespace quoteChar w) {line : List UInt8}
    (hline : line ≠ [] → line.getLast? = some space) :
    ended (line ++ kept flag ws) = line ++ (shortened flag ws).flatMap (· ++ [space]) := by
  cases flag with
  | true =>
      rw [kept_true, shortened_true]
      exact ended_joined hws hline
  | false =>
      induction ws generalizing line with
      | nil =>
          rw [kept, List.append_nil, ended_blank hline]
          exact (List.append_nil line).symm
      | cons w ws ih =>
          have htail : ∀ v ∈ ws, Word isWhitespace quoteChar v := fun v hv => hws v (List.mem_cons_of_mem w hv)
          rw [kept, shortened]
          by_cases hi : Ignored w
          · rw [if_pos hi, if_pos hi, kept_true, shortened_true]
            exact ended_joined htail hline
          · rw [if_neg hi, if_neg hi, List.flatMap_cons]
            have hblank : line ++ (w ++ [space]) ≠ [] → (line ++ (w ++ [space])).getLast? = some space := by
              intro _
              rw [← List.append_assoc]
              exact List.getLast?_concat
            have hnext := ih htail hblank
            simp only [List.append_assoc, List.cons_append, List.nil_append] at hnext ⊢
            exact hnext

theorem lineOf_words {text : List UInt8} (hws : ∀ w ∈ closedWords (scanned text), Word isWhitespace quoteChar w) :
    lineOf flag text = (shortened flag (closedWords (scanned text))).flatMap (· ++ [space]) :=
  ended_kept hws (fun hne => absurd rfl hne)

/-! ## Lengths -/

/-- The length of the parameters with a blank behind each. -/
abbrev spacedLength (ws : List (List UInt8)) : Nat := (ws.flatMap (· ++ [space])).length

theorem spacedLength_cons : spacedLength (w :: ws) = w.length + 1 + spacedLength ws := by
  rw [spacedLength, List.flatMap_cons, List.length_append, List.length_append]
  rfl

theorem flatten_length_le : ws.flatten.length ≤ spacedLength ws := by
  induction ws with
  | nil => exact Nat.le_refl _
  | cons w ws ih =>
      rw [List.flatten_cons, List.length_append, spacedLength_cons]
      omega

theorem joined_length_le : spacedLength (joined ws) ≤ spacedLength ws := by
  cases ws with
  | nil => exact Nat.le_refl _
  | cons w ws =>
      have hrest : ws.flatten.length ≤ spacedLength ws := flatten_length_le
      show ([(w :: ws).flatten].flatMap (· ++ [space])).length ≤ _
      rw [List.flatMap_singleton, List.length_append, List.flatten_cons, List.length_append, spacedLength_cons,
        List.length_singleton]
      omega

theorem shortened_length_le : spacedLength (shortened flag ws) ≤ spacedLength ws := by
  induction ws generalizing flag with
  | nil => cases flag <;> exact Nat.le_refl _
  | cons w ws ih =>
      cases flag with
      | true => exact joined_length_le
      | false =>
          rw [shortened, spacedLength_cons]
          split
          · have hrest : spacedLength (shortened true ws) ≤ spacedLength ws := ih
            omega
          · have hrest : spacedLength (shortened false ws) ≤ spacedLength ws := ih
            rw [spacedLength_cons]
            omega

theorem kept_length_le : (kept flag ws).length ≤ spacedLength ws := by
  induction ws generalizing flag with
  | nil => cases flag <;> exact Nat.le_refl _
  | cons w ws ih =>
      have htrue : (kept true ws).length ≤ spacedLength ws := ih
      have hfalse : (kept false ws).length ≤ spacedLength ws := ih
      rw [spacedLength_cons]
      cases flag with
      | true =>
          rw [kept, List.length_append]
          omega
      | false =>
          rw [kept]
          split
          · omega
          · rw [List.length_append, List.length_cons]
            omega

/-- A parameter is shorter than it is together with others. -/
theorem mem_flatten_length (hws : ∀ v ∈ ws, v ≠ []) (hb : b ∈ ws) (hlen : 2 ≤ ws.length) :
    b.length < ws.flatten.length := by
  induction ws with
  | nil => cases hb
  | cons v vs ih =>
      rw [List.flatten_cons, List.length_append]
      have hrest : 0 < vs.flatten.length := by
        cases vs with
        | nil => exact absurd hlen (Nat.not_le.mpr (Nat.lt_succ_self 1))
        | cons u us =>
            have hu : 0 < u.length :=
              List.length_pos_of_ne_nil (hws u (List.mem_cons_of_mem v List.mem_cons_self))
            rw [List.flatten_cons, List.length_append]
            omega
      have hv : 0 < v.length := List.length_pos_of_ne_nil (hws v List.mem_cons_self)
      rcases List.mem_cons.mp hb with rfl | hb
      · omega
      · have hle : b.length ≤ vs.flatten.length := (List.sublist_flatten_of_mem hb).length_le
        omega

/-! ## When nothing is lost -/

/-- At most one other parameter is behind an `ignorefastboot`. -/
def FewBehind (ws : List (List UInt8)) : Prop := ws = [] ∨ ∃ b, ws = [b] ∧ ¬ Ignored b

theorem wanted_ignored (hi : Ignored w) : wanted (w :: ws) = wanted ws :=
  List.filter_cons_of_neg (by rw [decide_eq_true_eq]; exact fun h => h hi)

theorem wanted_other (hi : ¬ Ignored w) : wanted (w :: ws) = w :: wanted ws :=
  List.filter_cons_of_pos (decide_eq_true hi)

theorem joined_eq_wanted_iff (hws : ∀ v ∈ ws, v ≠ []) : joined ws = wanted ws ↔ FewBehind ws := by
  constructor
  · intro heq
    by_cases hnil : ws = []
    · exact .inl hnil
    · rw [joined, if_neg hnil] at heq
      have hmem : ws.flatten ∈ ws.filter (fun w => decide (¬ Ignored w)) := by
        rw [show ws.filter _ = _ from heq.symm]
        exact List.mem_cons_self
      obtain ⟨hin, hnot⟩ := List.mem_filter.mp hmem
      have hshort : ws.length < 2 := Nat.not_le.mp fun hlen =>
        absurd (mem_flatten_length hws hin hlen) (Nat.lt_irrefl _)
      obtain ⟨b, rfl⟩ : ∃ b, ws = [b] := by
        refine List.length_eq_one_iff.mp ?_
        have hpos : 0 < ws.length := List.length_pos_of_ne_nil hnil
        omega
      refine .inr ⟨b, rfl, ?_⟩
      rw [List.flatten_cons, List.flatten_nil, List.append_nil] at hnot
      exact of_decide_eq_true hnot
  · rintro (rfl | ⟨b, rfl, hb⟩)
    · rfl
    · rw [wanted_other hb]
      show [b ++ []] = [b]
      rw [List.append_nil]

theorem shortened_eq_wanted_iff (hws : ∀ v ∈ ws, v ≠ []) :
    shortened false ws = wanted ws ↔ FewBehind (behind ws) := by
  induction ws with
  | nil => exact ⟨fun _ => .inl rfl, fun _ => rfl⟩
  | cons w ws ih =>
      have htail : ∀ v ∈ ws, v ≠ [] := fun v hv => hws v (List.mem_cons_of_mem w hv)
      rw [shortened, behind]
      by_cases hi : Ignored w
      · rw [if_pos hi, if_pos hi, shortened_true, wanted_ignored hi]
        exact joined_eq_wanted_iff htail
      · rw [if_neg hi, if_neg hi, wanted_other hi, ← ih htail, List.cons.injEq]
        exact and_iff_right rfl

/-- Without `ignorefastboot` all parameters are in the line. -/
theorem shortened_none (hnone : ∀ w ∈ ws, ¬ Ignored w) : shortened false ws = ws := by
  induction ws with
  | nil => rfl
  | cons w ws ih =>
      rw [shortened, if_neg (hnone w List.mem_cons_self),
        ih (fun v hv => hnone v (List.mem_cons_of_mem w hv))]

theorem any_ignored_none (hnone : ∀ w ∈ ws, ¬ Ignored w) :
    ws.any (fun w => decide (Ignored w)) = false :=
  List.any_eq_false.mpr fun w hw => by rw [decide_eq_true_eq]; exact hnone w hw

end

/-! ## Both functions together -/

/-- `s_cmdline` as a string. -/
def Statics.line (st : Statics) : List UInt8 := st.sCmdline.takeWhile (fun c => decide (c ≠ 0))

/-- The parameters of `text` but `ignorefastboot` are in `s_cmdline`, and without it
their names are found. -/
structure Lists (text : List UInt8) (st : Statics) : Prop where
  params_eq : params st.line = wanted (params text)
  finds : (∀ w ∈ params text, ¬ Ignored w) → ∀ p : CString, Plain p.chars →
    (doesCommandExist st p.chars = true ↔ ∃ w ∈ params text, Names p.chars w)

/-- What is found is there: no name is looked like only, and none is empty. -/
def NoLooks (ws : List (List UInt8)) : Prop :=
  (∀ w ∈ ws, ¬ Names [] w) ∧
    ∀ p : CString, Plain p.chars → p.chars ≠ [] → (∃ w ∈ ws, LooksLike p.chars w) →
      ∃ w ∈ ws, Names p.chars w

/-- A single `ignorefastboot` without a blank behind it. -/
def OnlyIgnored (text : List UInt8) : Prop :=
  (scanned text).words = [] ∧ Ignored (closed (scanned text).inQuote (scanned text).last)

/-- The parameters are all among the first characters, and without `ignorefastboot`
the quotes of none of them are lost. -/
structure Readable (text : List UInt8) : Prop where
  reads : closedWords (scanned text) = params text
  keepsUp : (∀ w ∈ params text, ¬ Ignored w) → ∀ w ∈ params text, ∀ p : CString, Plain p.chars →
    ¬ Derails p.chars w

section
variable {st st' : Statics} {cmdline : CString} {text line : List UInt8} {flag : Bool}

theorem Left.line_eq (h : Left line flag st) (hline : 0 ∉ line) : st.line = line := by
  have hbuf : st.sCmdline = line ++ 0 :: st.sCmdline.drop (line.length + 1) := by
    obtain ⟨hlt, hzero⟩ := List.getElem?_eq_some_iff.mp h.terminated
    rw [← hzero, ← List.drop_eq_getElem_cons hlt]
    exact (List.take_append_drop line.length st.sCmdline).symm.trans (congrArg (· ++ _) h.holds)
  rw [Statics.line, hbuf, List.takeWhile_append_of_pos, List.takeWhile_cons_of_neg, List.append_nil]
  · exact fun h => absurd rfl (of_decide_eq_true h)
  · exact fun c hc => decide_eq_true fun hz => hline (hz ▸ hc)

theorem mem_kept {ws : List (List UInt8)} {c : UInt8} (hc : c ∈ kept flag ws) :
    c = space ∨ ∃ w ∈ ws, c ∈ w := by
  induction ws generalizing flag with
  | nil => cases flag <;> cases hc
  | cons w ws ih =>
      have hlater : (c = space ∨ ∃ v ∈ ws, c ∈ v) → c = space ∨ ∃ v ∈ w :: ws, c ∈ v :=
        fun h => h.imp_right (fun ⟨v, hv, hcv⟩ => ⟨v, List.mem_cons_of_mem w hv, hcv⟩)
      cases flag with
      | true =>
          rcases List.mem_append.mp hc with hw | hrest
          · exact .inr ⟨w, List.mem_cons_self, hw⟩
          · exact hlater (ih hrest)
      | false =>
          rw [kept] at hc
          split at hc
          · exact hlater (ih hc)
          · rcases List.mem_append.mp hc with hw | hrest
            · exact .inr ⟨w, List.mem_cons_self, hw⟩
            · rcases List.mem_cons.mp hrest with rfl | hrest
              · exact .inl rfl
              · exact hlater (ih hrest)

/-- The line is a string. -/
theorem lineOf_noNul (hreads : closedWords (scanned text) = params text) (hnul : 0 ∉ text) :
    0 ∉ lineOf flag text := by
  have hkept : 0 ∉ kept flag (closedWords (scanned text)) := by
    rw [hreads]
    intro hz
    obtain hsp | ⟨w, hw, hzw⟩ := mem_kept hz
    · exact absurd hsp (by decide)
    · exact hnul (mem_of_words hw hzw)
  rw [lineOf, ended]
  split
  · exact hkept
  · intro hz
    rcases List.mem_append.mp hz with hz | hz
    · exact hkept hz
    · exact absurd (List.mem_singleton.mp hz) (by decide)

/-- The parameters of `s_cmdline`. -/
theorem Left.params_eq {f : Bool} (h : Left (lineOf flag text) f st)
    (hbalanced : Balanced isWhitespace quoteChar text)
    (hreads : closedWords (scanned text) = params text) (hnul : 0 ∉ text) :
    params st.line = shortened flag (params text) := by
  have hwords := words_word hbalanced
  rw [h.line_eq (lineOf_noNul hreads hnul), lineOf_words (hreads ▸ hwords), hreads]
  exact words_flatMap (shortened_word hwords) isWhitespace_space

theorem spacedLength_append {ws vs : List (List UInt8)} :
    spacedLength (ws ++ vs) = spacedLength ws + spacedLength vs := by
  rw [spacedLength, List.flatMap_append, List.length_append]

/-- A normal form that fits leaves one way out of the buffer. -/
theorem initSafe_of_fits (hbalanced : Balanced isWhitespace quoteChar text)
    (hreads : closedWords (scanned text) = params text)
    (hfits : (normalForm text).length < commandLineSize) :
    InitSafe flag text ↔ ¬ (flag = false ∧ OnlyIgnored text) := by
  have hwords := words_word hbalanced
  refine ⟨fun h => h.notOnlyIgnored, fun honly => ⟨?_, honly, ?_⟩⟩
  · rw [lineOf_words (hreads ▸ hwords), hreads]
    exact Nat.lt_of_le_of_lt shortened_length_le hfits
  · intro hquote
    have hall : params text = (scanned text).words ++ [(scanned text).last ++ [quoteChar]] := by
      rw [← hreads, closedWords, hquote, closed, if_pos rfl, withLast, if_neg (List.concat_ne_nil _ _)]
    have hlen : spacedLength (params text) < commandLineSize := hfits
    have hkept : (kept flag (scanned text).words).length ≤ spacedLength (scanned text).words := kept_length_le
    rw [hall, spacedLength_append, spacedLength_cons, List.length_append] at hlen
    rw [List.length_append]
    omega

/-- Without `ignorefastboot` the line is searched for the names. -/
theorem Left.finds (h : Left (lineOf false text) false st)
    (hbalanced : Balanced isWhitespace quoteChar text) (hread : Readable text)
    (hnone : ∀ w ∈ params text, ¬ Ignored w) {p : CString} (hp : Plain p.chars) (hne : p.chars ≠ []) :
    doesCommandExist st p.chars = true ↔
      ∃ w ∈ params text, Names p.chars w ∨ LooksLike p.chars w := by
  have hwords := words_word hbalanced
  have hline : st.sCmdline.take st.nOrigCmdlen = (params text).flatMap (· ++ [space]) := by
    rw [h.length, h.holds, lineOf_words (hread.reads ▸ hwords), hread.reads, shortened_none hnone]
  rw [doesCommandExist, h.flagged, if_neg Bool.false_ne_true, if_neg hne, hline,
    existLoop_words hwords hp hne (fun w hw => hread.keepsUp hnone w hw p hp)]
  refine exists_congr fun w => and_congr_right fun hw => ?_
  exact hits_iff hp hne (hwords w hw)

theorem Names.length_le {p w : List UInt8} (h : Names p w) : p.length ≤ w.length := by
  have hunquoted : (unquoted w).length ≤ w.length := by
    rw [unquoted]
    split
    · rw [List.length_dropLast, List.length_tail]
      omega
    · exact Nat.le_refl _
  obtain rfl | hpre := h
  · exact hunquoted
  · have hle := hpre.length_le
    rw [List.length_append] at hle
    omega

/-- When an earlier call has found an `ignorefastboot`, something is lost. -/
theorem Left.not_lists (h : Left (lineOf true text) true st)
    (hbalanced : Balanced isWhitespace quoteChar text)
    (hreads : closedWords (scanned text) = params text) (hnul : 0 ∉ text) : ¬ Lists text st := by
  intro hlists
  by_cases hnone : ∀ w ∈ params text, ¬ Ignored w
  · -- a name that is longer than every parameter is found, too
    have hplain : ∀ c ∈ List.replicate ((params text).flatten.length + 1) (0x61 : UInt8), c = 0x61 :=
      fun c hc => (List.mem_replicate.mp hc).2
    have hfound := hlists.finds hnone ⟨_, fun hz => absurd (hplain 0 hz) (by decide)⟩ (fun c hc => by
      rw [hplain c hc]
      exact ⟨by decide, by decide, by decide⟩)
    obtain ⟨w, hw, hnames⟩ := hfound.mp (by rw [doesCommandExist, if_pos h.flagged])
    have hle := hnames.length_le
    have hin : w.length ≤ (params text).flatten.length := (List.sublist_flatten_of_mem hw).length_le
    rw [List.length_replicate] at hle
    omega
  · obtain ⟨w, hw⟩ := not_forall.mp hnone
    obtain ⟨hmem, hi⟩ := Classical.not_imp.mp hw
    have heq : joined (params text) = wanted (params text) := by
      rw [← shortened_true, ← h.params_eq hbalanced hreads hnul]
      exact hlists.params_eq
    have hfew : FewBehind (params text) :=
      (joined_eq_wanted_iff (fun v hv => (words_word hbalanced v hv).1)).mp heq
    obtain hnil | ⟨b, hb, hnot⟩ := hfew
    · rw [hnil] at hmem
      exact absurd hmem List.not_mem_nil
    · rw [hb, List.mem_singleton] at hmem
      rw [hmem] at hi
      exact hi hnot

theorem initCmdList_left (h : initCmdList st cmdline = some st') :
    InitSafe st.nIgnoreFastboot cmdline.chars ∧ Left (lineOf st.nIgnoreFastboot cmdline.chars)
      (st.nIgnoreFastboot ||
        (closedWords (scanned cmdline.chars)).any (fun w => decide (Ignored w))) st' := by
  have hends := initCmdList_ends st cmdline
  by_cases hsafe : InitSafe st.nIgnoreFastboot cmdline.chars
  · rw [if_pos hsafe] at hends
    obtain ⟨st'', hinit, hleft⟩ := hends
    rw [hinit, Option.some.injEq] at h
    exact ⟨hsafe, h ▸ hleft⟩
  · rw [if_neg hsafe, h] at hends
    cases hends

end

/-- `a b` -/
def twoWords : CString := ⟨[0x61, 0x20, 0x62], by decide⟩

/-- `a ignorefastboot b c` -/
def joinedText : CString := ⟨[0x61, 0x20] ++ ignoreFastbootCmd ++ [0x20, 0x62, 0x20, 0x63], by decide⟩

end TX2SecureUart.Cmdline
