/-
# `Lib.QuotedWords` — words between blanks, with quotes

A word is a maximal run without a blank outside of quotes; every quote character
opens or closes them.  `scan` reads a text once and keeps the word that it ends in
apart, since nothing says yet that this one is complete.

`Goes q xs q'` says that the text `xs`, read inside of quotes if `q`, is a part of
one word, and that what follows it is inside of quotes if `q'`.
-/
import Mathlib

namespace TX2SecureUart.QuotedWords

variable {α : Type} [DecidableEq α] (blank : α → Bool) (quote : α)

structure Scan (α : Type) where
  words : List (List α)
  /-- What is behind the last unquoted blank. -/
  last : List α
  inQuote : Bool

/-- The scan of a text behind the word `w`. -/
def Scan.cons (w : List α) (s : Scan α) : Scan α := { s with words := w :: s.words }

/-- `cur` is the beginning of a word. -/
def scan : Bool → List α → List α → Scan α
  | q, cur, [] => ⟨[], cur, q⟩
  | q, cur, c :: cs =>
      if blank c = true ∧ q = false then
        if cur = [] then scan false [] cs else (scan false [] cs).cons cur
      else scan (q ^^ decide (c = quote)) (cur ++ [c]) cs

/-- `last` is a word, too, if there is anything of it. -/
def withLast (words : List (List α)) (last : List α) : List (List α) :=
  if last = [] then words else words ++ [last]

/-- The words of a text. -/
def words (xs : List α) : List (List α) :=
  withLast (scan blank quote false [] xs).words (scan blank quote false [] xs).last

/-- Every quote is closed. -/
def Balanced (xs : List α) : Prop := (scan blank quote false [] xs).inQuote = false

def Goes : Bool → List α → Bool → Prop
  | q, [], q' => q = q'
  | q, c :: cs, q' => ¬ (blank c = true ∧ q = false) ∧ Goes (q ^^ decide (c = quote)) cs q'

/-- A word on its own. -/
def Word (w : List α) : Prop := w ≠ [] ∧ Goes blank quote false w false

variable {blank quote} {q q' r : Bool} {c sep : α} {cur cs xs ys w : List α} {ws : List (List α)}

/-! ## Reading on -/

theorem scan_blank (hb : blank c = true) :
    scan blank quote false [] (c :: cs) = scan blank quote false [] cs := by
  rw [scan, if_pos ⟨hb, rfl⟩, if_pos rfl]

theorem scan_end (hb : blank c = true) (hcur : cur ≠ []) :
    scan blank quote false cur (c :: cs) = (scan blank quote false [] cs).cons cur := by
  rw [scan, if_pos ⟨hb, rfl⟩, if_neg hcur]

theorem scan_more (h : ¬ (blank c = true ∧ q = false)) :
    scan blank quote q cur (c :: cs) =
      scan blank quote (q ^^ decide (c = quote)) (cur ++ [c]) cs := if_neg h

theorem Goes.append (h : Goes blank quote q xs q') (hys : Goes blank quote q' ys r) :
    Goes blank quote q (xs ++ ys) r := by
  induction xs generalizing q with
  | nil => exact (show q = q' from h) ▸ hys
  | cons c cs ih => exact ⟨h.1, ih h.2⟩

/-- A part of a word is read as one. -/
theorem scan_goes (h : Goes blank quote q xs q') :
    scan blank quote q cur (xs ++ ys) = scan blank quote q' (cur ++ xs) ys := by
  induction xs generalizing q cur with
  | nil =>
      obtain rfl : q = q' := h
      rw [List.append_nil]
      rfl
  | cons c cs ih =>
      rw [List.cons_append, scan_more h.1, ih h.2, List.append_assoc]
      rfl

/-- Every word that was read is one, and the last goes as far as it was read. -/
theorem scan_words (h : Goes blank quote false cur q) :
    (∀ w ∈ (scan blank quote q cur xs).words, Word blank quote w) ∧
      Goes blank quote false (scan blank quote q cur xs).last (scan blank quote q cur xs).inQuote := by
  induction xs generalizing q cur with
  | nil =>
      refine ⟨?_, h⟩
      intro w hw
      cases hw
  | cons c cs ih =>
      by_cases hb : blank c = true ∧ q = false
      · obtain ⟨hb, rfl⟩ := hb
        obtain ⟨hwords, hlast⟩ := ih (show Goes blank quote false ([] : List α) false from rfl)
        by_cases hcur : cur = []
        · rw [hcur, scan_blank hb]
          exact ⟨hwords, hlast⟩
        · rw [scan_end hb hcur]
          refine ⟨fun w hw => ?_, hlast⟩
          rcases List.mem_cons.mp hw with rfl | hw
          · exact ⟨hcur, h⟩
          · exact hwords w hw
      · rw [scan_more hb]
        exact ih (h.append ⟨hb, rfl⟩)

/-- Every character of a word was read. -/
theorem scan_mem :
    (∀ w ∈ (scan blank quote q cur xs).words, ∀ c ∈ w, c ∈ cur ∨ c ∈ xs) ∧
      ∀ c ∈ (scan blank quote q cur xs).last, c ∈ cur ∨ c ∈ xs := by
  induction xs generalizing q cur with
  | nil =>
      refine ⟨?_, fun c hc => .inl hc⟩
      intro w hw
      cases hw
  | cons d ds ih =>
      have hlater : ∀ {c}, c ∈ ([] : List α) ∨ c ∈ ds → c ∈ cur ∨ c ∈ d :: ds := by
        rintro c (hc | hc)
        · cases hc
        · exact .inr (List.mem_cons_of_mem d hc)
      by_cases hb : blank d = true ∧ q = false
      · obtain ⟨hb, rfl⟩ := hb
        have hrest : (∀ w ∈ (scan blank quote false [] ds).words, ∀ c ∈ w, c ∈ [] ∨ c ∈ ds) ∧
            ∀ c ∈ (scan blank quote false [] ds).last, c ∈ [] ∨ c ∈ ds := ih
        obtain ⟨hwords, hlast⟩ := hrest
        by_cases hcur : cur = []
        · subst hcur
          rw [scan_blank hb]
          exact ⟨fun w hw c hc => hlater (hwords w hw c hc), fun c hc => hlater (hlast c hc)⟩
        · rw [scan_end hb hcur]
          refine ⟨fun w hw c hc => ?_, fun c hc => hlater (hlast c hc)⟩
          rcases List.mem_cons.mp hw with rfl | hw
          · exact .inl hc
          · exact hlater (hwords w hw c hc)
      · rw [scan_more hb]
        have hnow : ∀ {c}, c ∈ cur ++ [d] ∨ c ∈ ds → c ∈ cur ∨ c ∈ d :: ds := by
          intro c hc
          simp only [List.mem_append, List.mem_cons, List.not_mem_nil, or_false] at hc ⊢
          tauto
        exact ⟨fun w hw c hc => hnow (ih.1 w hw c hc), fun c hc => hnow (ih.2 c hc)⟩

omit [DecidableEq α] in
theorem mem_withLast {v : List α} : v ∈ withLast ws w ↔ v ∈ ws ∨ v = w ∧ w ≠ [] := by
  by_cases hw : w = []
  · rw [withLast, if_pos hw]
    exact ⟨.inl, fun h => h.resolve_right (fun hand => hand.2 hw)⟩
  · rw [withLast, if_neg hw, List.mem_append, List.mem_singleton, and_iff_left hw]

/-- What `words` finds are words, if every quote is closed. -/
theorem words_word (h : Balanced blank quote xs) : ∀ w ∈ words blank quote xs, Word blank quote w := by
  have hscan : (∀ w ∈ (scan blank quote false [] xs).words, Word blank quote w) ∧
      Goes blank quote false (scan blank quote false [] xs).last (scan blank quote false [] xs).inQuote :=
    scan_words (show Goes blank quote false ([] : List α) false from rfl)
  rw [show (scan blank quote false [] xs).inQuote = false from h] at hscan
  intro w hw
  rcases mem_withLast.mp hw with hw | ⟨rfl, hne⟩
  · exact hscan.1 w hw
  · exact ⟨hne, hscan.2⟩

theorem mem_of_words (hw : w ∈ words blank quote xs) (hc : c ∈ w) : c ∈ xs := by
  have hor : c ∈ ([] : List α) ∨ c ∈ xs := by
    rcases mem_withLast.mp hw with hw | ⟨rfl, -⟩
    · exact scan_mem.1 w hw c hc
    · exact scan_mem.2 c hc
  exact hor.resolve_left List.not_mem_nil

/-! ## Texts made of words -/

/-- A word and a blank behind it. -/
theorem scan_word (hw : Word blank quote w) (hsep : blank sep = true) :
    scan blank quote false [] (w ++ sep :: cs) = (scan blank quote false [] cs).cons w := by
  rw [scan_goes hw.2, List.nil_append, scan_end hsep hw.1]

/-- Words with a blank behind each are the words of their text. -/
theorem words_flatMap (hws : ∀ w ∈ ws, Word blank quote w) (hsep : blank sep = true) :
    words blank quote (ws.flatMap (· ++ [sep])) = ws := by
  have hscan : scan blank quote false [] (ws.flatMap (· ++ [sep])) = ⟨ws, [], false⟩ := by
    induction ws with
    | nil => rfl
    | cons w ws ih =>
        rw [List.flatMap_cons, List.append_assoc]
        show scan blank quote false [] (w ++ sep :: ws.flatMap (· ++ [sep])) = _
        rw [scan_word (hws w List.mem_cons_self) hsep,
          ih (fun v hv => hws v (List.mem_cons_of_mem w hv))]
        rfl
  rw [words, hscan]
  rfl

/-- Words without anything between them are one. -/
theorem word_flatten (hws : ∀ w ∈ ws, Word blank quote w) (hne : ws ≠ []) :
    Word blank quote ws.flatten := by
  have hgoes : Goes blank quote false ws.flatten false := by
    clear hne
    induction ws with
    | nil => rfl
    | cons w ws ih =>
        rw [List.flatten_cons]
        exact (hws w List.mem_cons_self).2.append
          (ih (fun v hv => hws v (List.mem_cons_of_mem w hv)))
  refine ⟨?_, hgoes⟩
  cases ws with
  | nil => exact absurd rfl hne
  | cons w ws =>
      rw [List.flatten_cons]
      exact fun h => (hws w List.mem_cons_self).1 (List.append_eq_nil_iff.mp h).1

/-- A word does not end in a blank. -/
theorem Goes.last_not_blank (h : Goes blank quote q (xs ++ [c]) false) (hquote : blank quote = false) :
    blank c = false := by
  induction xs generalizing q with
  | nil =>
      obtain ⟨hb, hend⟩ := h
      have hq : (q ^^ decide (c = quote)) = false := hend
      by_contra hblank
      rw [Bool.not_eq_false] at hblank
      have hcq : c ≠ quote := by
        rintro rfl
        rw [hblank] at hquote
        cases hquote
      rw [decide_eq_false hcq, Bool.xor_false] at hq
      exact hb ⟨hblank, hq⟩
  | cons d ds ih => exact ih h.2

end TX2SecureUart.QuotedWords
