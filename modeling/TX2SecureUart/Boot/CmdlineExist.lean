/-
# `Boot.CmdlineExist` — what `does_command_exist` finds

The automaton is followed parameter by parameter: at the blank behind each it starts
again, so that a line gives a match just if one of its parameters does (`Hits`).

It does not keep up with two kinds of parameters, those that begin with an empty
quote and those where the quoted name is followed by another quote (`Derails`): a
quote is read there without turning `quote` around.
-/
import TX2SecureUart.Boot.CmdlineInit

namespace TX2SecureUart.Cmdline

open QuotedWords

/-- A name has no blank, quote or `=` in it. -/
def Plain (p : List UInt8) : Prop := ∀ c ∈ p, isWhitespace c = false ∧ c ≠ quoteChar ∧ c ≠ equals

/-- What has to follow the name, inside of quotes or not. -/
def Follows : Bool → List UInt8 → Prop
  | true, tail => tail.head? = some equals ∨ tail = [quoteChar] ∨ [quoteChar, equals] <+: tail
  | false, tail => tail = [] ∨ tail.head? = some equals

/-- The automaton takes the parameter `w` for `p`. -/
def Hits (p w : List UInt8) : Prop :=
  (∃ tail, w = quoteChar :: (p ++ tail) ∧ Follows true tail) ∨ ∃ tail, w = p ++ tail ∧ Follows false tail

/-- The automaton loses the quotes in the parameter `w`, when it looks for `p`. -/
def Derails (p w : List UInt8) : Prop :=
  [quoteChar, quoteChar] <+: w ∨ quoteChar :: (p ++ [quoteChar, quoteChar]) <+: w

section
variable {command p w tail rest : List UInt8} {q : Bool} {c d : UInt8} {s t : ExistState}

theorem existLoop_go (h : existStep command s c = some t) :
    existLoop command s (c :: rest) = existLoop command t rest := by
  rw [existLoop, h]

theorem existLoop_hit (h : existStep command s c = none) : existLoop command s (c :: rest) = true := by
  rw [existLoop, h]

/-- The automaton in front of a parameter. -/
abbrev fresh (command : List UInt8) : ExistState := ⟨.skip, false, command⟩

/-- In a parameter an unquoted character is not a blank. -/
theorem Goes.not_space (h : Goes isWhitespace quoteChar q (c :: w) false) : ¬ (q = false ∧ c = space) := by
  rintro ⟨rfl, rfl⟩
  exact h.1 ⟨isWhitespace_space, rfl⟩

theorem toggled (c : UInt8) : (if c = quoteChar then !q else q) = (q ^^ decide (c = quoteChar)) := by
  by_cases hc : c = quoteChar
  · rw [if_pos hc, decide_eq_true hc, Bool.xor_true]
  · rw [if_neg hc, decide_eq_false hc, Bool.xor_false]

/-- Once there is no match, the rest of the parameter is skipped. -/
theorem existLoop_wait (h : Goes isWhitespace quoteChar q w false) :
    existLoop command ⟨.wait, q, p⟩ (w ++ space :: rest) = existLoop command (fresh command) rest := by
  induction w generalizing q with
  | nil =>
      obtain rfl : q = false := h
      exact existLoop_go rfl
  | cons c w ih =>
      have hstep : existStep command ⟨.wait, q, p⟩ c = some ⟨.wait, q ^^ decide (c = quoteChar), p⟩ := by
        show (if c = quoteChar then some _ else _) = _
        by_cases hc : c = quoteChar
        · rw [if_pos hc, decide_eq_true hc, Bool.xor_true]
        · rw [if_neg hc, if_neg (Goes.not_space h), decide_eq_false hc, Bool.xor_false]
      exact (existLoop_go hstep).trans (ih h.2)

theorem not_follows_bare (hc : c ≠ equals) : ¬ Follows false (c :: tail) := by
  rintro (hnil | hhead)
  · cases hnil
  · exact hc (Option.some.inj hhead)

/-- Behind a bare name. -/
theorem existLoop_bare (h : Goes isWhitespace quoteChar false tail false) :
    existLoop command ⟨.matching, false, []⟩ (tail ++ space :: rest) = true ↔
      Follows false tail ∨ existLoop command (fresh command) rest = true := by
  cases tail with
  | nil => exact ⟨fun _ => .inl (.inl rfl), fun _ => existLoop_hit rfl⟩
  | cons c tail =>
      by_cases hc : c = equals
      · subst hc
        exact ⟨fun _ => .inl (.inr rfl), fun _ => existLoop_hit rfl⟩
      · have hspace : c ≠ space := fun hs => Goes.not_space h ⟨rfl, hs⟩
        have hstep : existStep command ⟨.matching, false, []⟩ c =
            some ⟨.wait, false ^^ decide (c = quoteChar), []⟩ := by
          show (if c = space ∨ c = equals then none else some _) = _
          rw [if_neg (fun hor => hor.elim hspace hc), ← toggled]
          rfl
        rw [List.cons_append, existLoop_go hstep, existLoop_wait h.2]
        exact ⟨.inr, fun hor => hor.elim (fun hf => absurd hf (not_follows_bare hc)) id⟩

/-- Behind the quote that closes a name. -/
theorem existLoop_quoted (h : Goes isWhitespace quoteChar false tail false)
    (hsync : tail.head? ≠ some quoteChar) :
    existLoop command ⟨.quoted, false, []⟩ (tail ++ space :: rest) = true ↔
      Follows false tail ∨ existLoop command (fresh command) rest = true := by
  cases tail with
  | nil => exact ⟨fun _ => .inl (.inl rfl), fun _ => existLoop_hit rfl⟩
  | cons c tail =>
      by_cases hc : c = equals
      · subst hc
        exact ⟨fun _ => .inl (.inr rfl), fun _ => existLoop_hit rfl⟩
      · have hspace : c ≠ space := fun hs => Goes.not_space h ⟨rfl, hs⟩
        have hquote : c ≠ quoteChar := fun hq => hsync (congrArg some hq)
        have hstep : existStep command ⟨.quoted, false, []⟩ c =
            some ⟨.wait, false ^^ decide (c = quoteChar), []⟩ := by
          show (if c = equals ∨ c = space then none else some _) = _
          rw [if_neg (fun hor => hor.elim hc hspace), decide_eq_false hquote]
          rfl
        rw [List.cons_append, existLoop_go hstep, existLoop_wait h.2]
        exact ⟨.inr, fun hor => hor.elim (fun hf => absurd hf (not_follows_bare hc)) id⟩

theorem follows_quote : Follows true (quoteChar :: tail) ↔ Follows false tail := by
  constructor
  · rintro (hhead | hnil | ⟨more, hmore⟩)
    · exact absurd (Option.some.inj hhead) (by decide)
    · exact .inl (List.cons.inj hnil).2
    · exact .inr (by rw [← (List.cons.inj hmore).2]; rfl)
  · rintro (rfl | hhead)
    · exact .inr (.inl rfl)
    · obtain ⟨more, rfl⟩ := List.head?_eq_some_iff.mp hhead
      exact .inr (.inr ⟨more, rfl⟩)

/-- Behind a name, it is decided whether it is a match. -/
theorem existLoop_follows (h : Goes isWhitespace quoteChar q tail false)
    (hsync : ¬ (q = true ∧ [quoteChar, quoteChar] <+: tail)) :
    existLoop command ⟨.matching, q, []⟩ (tail ++ space :: rest) = true ↔
      Follows q tail ∨ existLoop command (fresh command) rest = true := by
  cases q with
  | false => exact existLoop_bare h
  | true =>
      cases tail with
      | nil => cases h
      | cons c tail =>
          by_cases hc : c = equals
          · subst hc
            exact ⟨fun _ => .inl (.inl rfl), fun _ => existLoop_hit rfl⟩
          · by_cases hq : c = quoteChar
            · subst hq
              have hhead : tail.head? ≠ some quoteChar := by
                intro hhead
                obtain ⟨more, rfl⟩ := List.head?_eq_some_iff.mp hhead
                exact hsync ⟨rfl, more, rfl⟩
              rw [follows_quote, ← existLoop_quoted h.2 hhead]
              rfl
            · have hnot : ¬ Follows true (c :: tail) := by
                rintro (hhead | hone | ⟨more, hmore⟩)
                · exact hc (Option.some.inj hhead)
                · exact hq (List.cons.inj hone).1
                · exact hq (List.cons.inj hmore).1.symm
              have hstep : existStep command ⟨.matching, true, []⟩ c =
                  some ⟨.wait, true ^^ decide (c = quoteChar), []⟩ := by
                show (if c = equals then none else if c = quoteChar then some _ else some _) = _
                rw [if_neg hc, if_neg hq, decide_eq_false hq]
                rfl
              rw [List.cons_append, existLoop_go hstep, existLoop_wait h.2]
              exact ⟨.inr, fun hor => hor.elim (fun hf => absurd hf hnot) id⟩

/-- The name is compared. -/
theorem existLoop_matching (h : Goes isWhitespace quoteChar q w false) (hp : Plain p)
    (hsync : ¬ (q = true ∧ p ++ [quoteChar, quoteChar] <+: w)) :
    existLoop command ⟨.matching, q, p⟩ (w ++ space :: rest) = true ↔
      (∃ tail, w = p ++ tail ∧ Follows q tail) ∨ existLoop command (fresh command) rest = true := by
  induction p generalizing q w with
  | nil =>
      rw [existLoop_follows h hsync]
      constructor
      · rintro (hf | hrest)
        · exact .inl ⟨w, rfl, hf⟩
        · exact .inr hrest
      · rintro (⟨tail, rfl, hf⟩ | hrest)
        · exact .inl hf
        · exact .inr hrest
  | cons d p ih =>
      obtain ⟨hblank, hquote, -⟩ := hp d List.mem_cons_self
      have hnot : ∀ {c v}, d ≠ c → ¬ ∃ tail, c :: v = d :: p ++ tail ∧ Follows q tail := by
        rintro c v hc ⟨tail, heq, -⟩
        exact hc (List.cons.inj heq).1.symm
      cases w with
      | nil =>
          obtain rfl : q = false := h
          have hspace : d ≠ space := by
            rintro rfl
            rw [isWhitespace_space] at hblank
            cases hblank
          have hstep : existStep command ⟨.matching, false, d :: p⟩ space = some (fresh command) := by
            show (if some d = some space then some _ else if d :: p ≠ [] then _ else _) = _
            rw [if_neg (fun heq => hspace (Option.some.inj heq)), if_pos (List.cons_ne_nil d p)]
            rfl
          rw [List.nil_append, existLoop_go hstep]
          refine ⟨.inr, fun hor => hor.elim ?_ id⟩
          rintro ⟨tail, hnil, -⟩
          cases hnil
      | cons c w =>
          by_cases hc : d = c
          · subst hc
            have hstep : existStep command ⟨.matching, q, d :: p⟩ d = some ⟨.matching, q, p⟩ := by
              show (if some d = some d then some _ else _) = _
              rw [if_pos rfl, if_neg hquote]
              rfl
            have hgoes := h.2
            rw [decide_eq_false hquote, Bool.xor_false] at hgoes
            rw [List.cons_append, existLoop_go hstep,
              ih hgoes (fun c hc => hp c (List.mem_cons_of_mem d hc))
                (fun hand => hsync ⟨hand.1, List.cons_prefix_cons.mpr ⟨rfl, hand.2⟩⟩)]
            simp only [List.cons_append, List.cons.injEq, true_and]
          · have hstep : existStep command ⟨.matching, q, d :: p⟩ c =
                some ⟨.wait, q ^^ decide (c = quoteChar), d :: p⟩ := by
              show (if some d = some c then some _ else if d :: p ≠ [] then _ else _) = _
              rw [if_neg (fun heq => hc (Option.some.inj heq)), if_pos (List.cons_ne_nil d p)]
              by_cases hs : c = space
              · have hq : q = true := (Bool.not_eq_false q).mp fun hq => Goes.not_space h ⟨hq, hs⟩
                subst hs
                rw [if_pos rfl, hq]
                rfl
              · rw [if_neg hs, ← toggled]
                rfl
            rw [List.cons_append, existLoop_go hstep, existLoop_wait h.2]
            exact ⟨.inr, fun hor => hor.elim (fun htail => absurd htail (hnot hc)) id⟩

/-- Behind the quote at the beginning of a parameter. -/
theorem existLoop_opened (h : Goes isWhitespace quoteChar true w false) (hp : Plain (d :: p))
    (hempty : w.head? ≠ some quoteChar) (hsync : ¬ d :: p ++ [quoteChar, quoteChar] <+: w) :
    existLoop command ⟨.opened, true, d :: p⟩ (w ++ space :: rest) = true ↔
      (∃ tail, w = d :: p ++ tail ∧ Follows true tail) ∨ existLoop command (fresh command) rest = true := by
  cases w with
  | nil => cases h
  | cons c w =>
      have hquote : c ≠ quoteChar := fun hc => hempty (congrArg some hc)
      have hgoes := h.2
      rw [decide_eq_false hquote, Bool.xor_false] at hgoes
      by_cases hd : d = c
      · subst hd
        have hstep : existStep command ⟨.opened, true, d :: p⟩ d = some ⟨.matching, true, p⟩ := if_pos rfl
        rw [List.cons_append, existLoop_go hstep,
          existLoop_matching hgoes (fun c hc => hp c (List.mem_cons_of_mem d hc))
            (fun hand => hsync (List.cons_prefix_cons.mpr ⟨rfl, hand.2⟩))]
        simp only [List.cons_append, List.cons.injEq, true_and]
      · have hstep : existStep command ⟨.opened, true, d :: p⟩ c = some ⟨.wait, true, d :: p⟩ :=
          if_neg (fun heq => hd (Option.some.inj heq))
        rw [List.cons_append, existLoop_go hstep, existLoop_wait hgoes]
        refine ⟨.inr, fun hor => hor.elim ?_ id⟩
        rintro ⟨tail, heq, -⟩
        exact absurd (List.cons.inj heq).1.symm hd

/-- A parameter and the blank behind it. -/
theorem existLoop_word (hw : Word isWhitespace quoteChar w) (hp : Plain p) (hne : p ≠ [])
    (hsync : ¬ Derails p w) :
    existLoop p (fresh p) (w ++ space :: rest) = true ↔
      Hits p w ∨ existLoop p (fresh p) rest = true := by
  obtain ⟨hnil, hgoes⟩ := hw
  cases p with
  | nil => exact absurd rfl hne
  | cons d p =>
      obtain ⟨hblank, hquote, -⟩ := hp d List.mem_cons_self
      have htail : Plain p := fun c hc => hp c (List.mem_cons_of_mem d hc)
      cases w with
      | nil => exact absurd rfl hnil
      | cons c w =>
          by_cases hc : c = quoteChar
          · subst hc
            have hempty : w.head? ≠ some quoteChar := by
              intro hhead
              obtain ⟨more, rfl⟩ := List.head?_eq_some_iff.mp hhead
              exact hsync (.inl ⟨more, rfl⟩)
            have hnot : ¬ ∃ tail, quoteChar :: w = d :: p ++ tail ∧ Follows false tail := by
              rintro ⟨tail, heq, -⟩
              exact hquote (List.cons.inj heq).1.symm
            have hstep : existStep (d :: p) (fresh (d :: p)) quoteChar = some ⟨.opened, true, d :: p⟩ := rfl
            rw [List.cons_append, existLoop_go hstep, existLoop_opened hgoes.2 hp hempty
              (fun hpre => hsync (.inr (List.cons_prefix_cons.mpr ⟨rfl, hpre⟩))), Hits, or_iff_left hnot]
            simp only [List.cons.injEq, true_and]
          · have hnot : ¬ ∃ tail, c :: w = quoteChar :: (d :: p ++ tail) ∧ Follows true tail := by
              rintro ⟨tail, heq, -⟩
              exact hc (List.cons.inj heq).1
            have hgoes' := hgoes.2
            rw [decide_eq_false hc, Bool.xor_false] at hgoes'
            rw [Hits, or_iff_right hnot]
            by_cases hd : d = c
            · subst hd
              have hstep : existStep (d :: p) (fresh (d :: p)) d = some ⟨.matching, false, p⟩ := by
                show (if d = quoteChar then some _ else if some d = some d then some _ else _) = _
                rw [if_neg hc, if_pos rfl]
                rfl
              rw [List.cons_append, existLoop_go hstep,
                existLoop_matching hgoes' htail (fun hand => absurd hand.1.symm Bool.noConfusion)]
              simp only [List.cons_append, List.cons.injEq, true_and]
            · have hstep : existStep (d :: p) (fresh (d :: p)) c = some ⟨.wait, false, d :: p⟩ := by
                show (if c = quoteChar then some _ else if some d = some c then some _ else _) = _
                rw [if_neg hc, if_neg (fun heq => hd (Option.some.inj heq))]
              rw [List.cons_append, existLoop_go hstep, existLoop_wait hgoes']
              refine ⟨.inr, fun hor => hor.elim ?_ id⟩
              rintro ⟨tail, heq, -⟩
              exact absurd (List.cons.inj heq).1.symm hd

/-- A line of parameters. -/
theorem existLoop_words {ws : List (List UInt8)} (hws : ∀ w ∈ ws, Word isWhitespace quoteChar w)
    (hp : Plain p) (hne : p ≠ []) (hsync : ∀ w ∈ ws, ¬ Derails p w) :
    existLoop p (fresh p) (ws.flatMap (· ++ [space])) = true ↔ ∃ w ∈ ws, Hits p w := by
  induction ws with
  | nil => exact ⟨fun h => absurd h (by exact Bool.noConfusion), fun ⟨w, hw, _⟩ => absurd hw List.not_mem_nil⟩
  | cons w ws ih =>
      rw [List.flatMap_cons, List.append_assoc]
      show existLoop p (fresh p) (w ++ space :: ws.flatMap (· ++ [space])) = true ↔ _
      rw [existLoop_word (hws w List.mem_cons_self) hp hne (hsync w List.mem_cons_self),
        ih (fun v hv => hws v (List.mem_cons_of_mem w hv)) (fun v hv => hsync v (List.mem_cons_of_mem w hv))]
      simp only [List.mem_cons, exists_eq_or_imp]

end

/-! ## Names -/

/-- A parameter without the quotes around it. -/
def unquoted (w : List UInt8) : List UInt8 :=
  if w.head? = some quoteChar ∧ w.tail.getLast? = some quoteChar then w.tail.dropLast else w

/-- `p` is the parameter `w` or its name. -/
def Names (p w : List UInt8) : Prop := unquoted w = p ∨ p ++ [equals] <+: unquoted w

/-- A name in quotes of its own, or in quotes that are closed before the end. -/
def LooksLike (p w : List UInt8) : Prop :=
  quoteChar :: (p ++ [quoteChar, equals]) <+: w ∨
    quoteChar :: (p ++ [equals]) <+: w ∧ w.getLast? ≠ some quoteChar

section
variable {p w v : List UInt8}

theorem unquoted_quoted : unquoted (quoteChar :: (v ++ [quoteChar])) = v := by
  rw [unquoted, if_pos ⟨rfl, List.getLast?_concat⟩]
  exact List.dropLast_concat

theorem unquoted_bare (h : w.head? ≠ some quoteChar) : unquoted w = w := if_neg (fun hand => h hand.1)

theorem head_ne_quote (hp : Plain p) (hne : p ≠ []) : ∀ {tail}, quoteChar :: w ≠ p ++ tail := by
  intro tail heq
  cases p with
  | nil => exact hne rfl
  | cons d p => exact (hp d List.mem_cons_self).2.1 (List.cons.inj heq).1.symm

/-- A parameter without a quote in front. -/
theorem hits_bare (hhead : w.head? ≠ some quoteChar) : Hits p w ↔ Names p w ∨ LooksLike p w := by
  rw [Names, unquoted_bare hhead]
  constructor
  · rintro (⟨tail, rfl, -⟩ | ⟨tail, rfl, rfl | hequals⟩)
    · exact absurd rfl hhead
    · exact .inl (.inl (List.append_nil p))
    · obtain ⟨more, rfl⟩ := List.head?_eq_some_iff.mp hequals
      exact .inl (.inr ⟨more, List.append_assoc p [equals] more⟩)
  · rintro ((rfl | ⟨more, rfl⟩) | (⟨more, rfl⟩ | ⟨⟨more, rfl⟩, -⟩))
    · exact .inr ⟨[], (List.append_nil w).symm, .inl rfl⟩
    · exact .inr ⟨equals :: more, List.append_assoc p [equals] more, .inr rfl⟩
    · exact absurd rfl hhead
    · exact absurd rfl hhead

/-- A parameter in quotes. -/
theorem hits_quoted (hp : Plain p) (hne : p ≠ []) :
    Hits p (quoteChar :: (v ++ [quoteChar])) ↔
      Names p (quoteChar :: (v ++ [quoteChar])) ∨ LooksLike p (quoteChar :: (v ++ [quoteChar])) := by
  rw [Names, unquoted_quoted, Hits, or_iff_left (fun ⟨tail, heq, _⟩ => head_ne_quote hp hne heq)]
  constructor
  · rintro ⟨tail, heq, hequals | rfl | ⟨more, rfl⟩⟩
    · obtain ⟨more, rfl⟩ := List.head?_eq_some_iff.mp hequals
      have hpre : p ++ [equals] <+: v ++ [quoteChar] :=
        ⟨more, (List.append_assoc p [equals] more).trans (List.cons.inj heq).2.symm⟩
      obtain hall | hpre := List.prefix_concat_iff.mp hpre
      · exact absurd (List.append_inj' hall rfl).2 (by decide)
      · exact .inl (.inr hpre)
    · exact .inl (.inl (List.append_inj' (List.cons.inj heq).2 rfl).1)
    · refine .inr (.inl ⟨more, ?_⟩)
      rw [heq, List.cons_append, List.append_assoc]
  · rintro ((rfl | ⟨more, rfl⟩) | (⟨more, heq⟩ | ⟨-, hlast⟩))
    · exact ⟨[quoteChar], rfl, .inr (.inl rfl)⟩
    · refine ⟨equals :: (more ++ [quoteChar]), ?_, .inl rfl⟩
      rw [List.append_assoc, List.append_assoc]
      rfl
    · refine ⟨quoteChar :: equals :: more, ?_, .inr (.inr ⟨more, rfl⟩)⟩
      rw [← heq, List.cons_append, List.append_assoc]
      rfl
    · exact absurd (List.getLast?_concat (l := quoteChar :: v)) hlast

/-- A parameter that begins in quotes. -/
theorem hits_opened (hp : Plain p) (hne : p ≠ []) (hlast : (quoteChar :: w).getLast? ≠ some quoteChar) :
    Hits p (quoteChar :: w) ↔ Names p (quoteChar :: w) ∨ LooksLike p (quoteChar :: w) := by
  have hwhole : unquoted (quoteChar :: w) = quoteChar :: w := by
    rw [unquoted, if_neg]
    rintro ⟨-, htail⟩
    cases w with
    | nil => cases htail
    | cons c w => exact hlast htail
  have hnot : ¬ Names p (quoteChar :: w) := by
    rw [Names, hwhole]
    rintro (heq | ⟨more, heq⟩)
    · exact head_ne_quote hp hne (heq.trans (List.append_nil p).symm)
    · exact head_ne_quote hp hne (heq.symm.trans (List.append_assoc p [equals] more))
  rw [or_iff_right hnot, Hits, or_iff_left (fun ⟨tail, heq, _⟩ => head_ne_quote hp hne heq)]
  constructor
  · rintro ⟨tail, heq, hequals | rfl | ⟨more, rfl⟩⟩
    · obtain ⟨more, rfl⟩ := List.head?_eq_some_iff.mp hequals
      refine .inr ⟨⟨more, ?_⟩, hlast⟩
      rw [heq, List.cons_append, List.append_assoc]
      rfl
    · rw [heq] at hlast
      exact absurd (List.getLast?_concat (l := quoteChar :: p)) hlast
    · refine .inl ⟨more, ?_⟩
      rw [heq, List.cons_append, List.append_assoc]
  · rintro (⟨more, heq⟩ | ⟨⟨more, heq⟩, -⟩)
    · refine ⟨quoteChar :: equals :: more, ?_, .inr (.inr ⟨more, rfl⟩)⟩
      rw [← heq, List.cons_append, List.append_assoc]
      rfl
    · refine ⟨equals :: more, ?_, .inl rfl⟩
      rw [← heq, List.cons_append, List.append_assoc]
      rfl

/-- What is taken for a name is one, or looks like one. -/
theorem hits_iff (hp : Plain p) (hne : p ≠ []) (hw : Word isWhitespace quoteChar w) :
    Hits p w ↔ Names p w ∨ LooksLike p w := by
  by_cases hhead : w.head? = some quoteChar
  · obtain ⟨r, rfl⟩ := List.head?_eq_some_iff.mp hhead
    by_cases hlast : (quoteChar :: r).getLast? = some quoteChar
    · obtain ⟨v, hv⟩ := List.getLast?_eq_some_iff.mp hlast
      cases v with
      | nil =>
          rw [hv] at hw
          have hgoes : (false ^^ decide (quoteChar = quoteChar)) = false := hw.2.2
          cases hgoes
      | cons c v =>
          rw [hv, (List.cons.inj hv).1.symm]
          exact hits_quoted hp hne
    · exact hits_opened hp hne hlast
  · exact hits_bare hhead

end

end TX2SecureUart.Cmdline
