/-
# `Lib.StrSearch` — a pattern searched for in a string, a text copied to a delimiter

As in `Lib.StrRead`, a string is given by the bytes from its first one to the
end of its object, and so is the room of a copy.  A read or a write outside of
them is `none`.
-/
import Mathlib

namespace TX2SecureUart.StrSearch

/-- The inner loop of `strstr`: whether `sub` stands here. -/
def standsHere : List UInt8 → List UInt8 → Option Bool
  | _, [] => some true
  | [], _ :: _ => none
  | a :: as, b :: bs => if a = b then standsHere as bs else some false

/-- The outer loop, to the terminator; a match is the bytes from there on. -/
def strstrLoop (sub : List UInt8) : List UInt8 → Option (Option (List UInt8))
  | [] => none
  | c :: cs =>
      if c = 0 then some none else
      match standsHere (c :: cs) sub with
      | none => none
      | some true => some (some (c :: cs))
      | some false => strstrLoop sub cs

def strstr (str sub : List UInt8) : Option (Option (List UInt8)) :=
  if sub = [] then some (some str) else strstrLoop sub str

/-- `while (*p != stop) *dest++ = *p++; *dest = '\0';` -/
def copyTo (stop : UInt8) : List UInt8 → List UInt8 → Option (List UInt8)
  | c :: cs, _ :: dest => if c = stop then some (0 :: dest) else (copyTo stop cs dest).map (c :: ·)
  | _, _ => none

/-- In the string `xs` the first `sub` is followed by `after`. -/
inductive Finds (sub : List UInt8) : List UInt8 → List UInt8 → Prop
  | here (after : List UInt8) : Finds sub (sub ++ after) after
  | later {c : UInt8} {cs after : List UInt8} : c ≠ 0 → ¬ sub <+: c :: cs → Finds sub cs after →
      Finds sub (c :: cs) after

/-- A delimiter ends a text that leaves room for a terminator in `n` bytes. -/
def Closed (stop : UInt8) (n : Nat) (xs : List UInt8) : Prop :=
  ∃ v rest, xs = v ++ stop :: rest ∧ stop ∉ v ∧ v.length < n

/-- A terminator or the pattern ends the search. -/
def Searchable (sub xs : List UInt8) : Prop := 0 ∈ xs ∨ sub <:+: xs

variable {stop c : UInt8} {sub xs ys cs v rest after after' dest r : List UInt8}

/-! ## The search -/

theorem standsHere_append (sub after : List UInt8) : standsHere (sub ++ after) sub = some true := by
  induction sub with
  | nil => cases after <;> rfl
  | cons b bs ih => rw [List.cons_append, standsHere, if_pos rfl, ih]

theorem standsHere_true (h : standsHere xs sub = some true) : ∃ after, xs = sub ++ after := by
  induction sub generalizing xs with
  | nil => exact ⟨xs, rfl⟩
  | cons b bs ih =>
      cases xs with
      | nil => cases h
      | cons a as =>
          rw [standsHere] at h
          by_cases hab : a = b
          · rw [if_pos hab] at h
            obtain ⟨after, rfl⟩ := ih h
            exact ⟨after, by rw [hab, List.cons_append]⟩
          · rw [if_neg hab] at h
            cases h

/-- The comparison leaves the bytes only with a beginning of the pattern. -/
theorem standsHere_none (h : standsHere xs sub = none) : xs <+: sub ∧ xs.length < sub.length := by
  induction sub generalizing xs with
  | nil => cases xs <;> cases h
  | cons b bs ih =>
      cases xs with
      | nil => exact ⟨List.nil_prefix, Nat.succ_pos _⟩
      | cons a as =>
          rw [standsHere] at h
          by_cases hab : a = b
          · rw [if_pos hab] at h
            obtain ⟨hpre, hlen⟩ := ih h
            exact ⟨by rw [hab]; exact (List.prefix_cons_inj b).mpr hpre, Nat.succ_lt_succ hlen⟩
          · rw [if_neg hab] at h
            cases h

theorem standsHere_false (h : standsHere xs sub = some false) : ¬ sub <+: xs := by
  rintro ⟨after, rfl⟩
  rw [standsHere_append] at h
  cases h

/-- A match is where the pattern stands first. -/
theorem strstrLoop_finds {p : List UInt8} (h : strstrLoop sub xs = some (some p)) :
    ∃ after, p = sub ++ after ∧ Finds sub xs after := by
  induction xs with
  | nil => cases h
  | cons c cs ih =>
      rw [strstrLoop] at h
      by_cases h0 : c = 0
      · rw [if_pos h0] at h
        cases h
      · rw [if_neg h0] at h
        cases hs : standsHere (c :: cs) sub with
        | none =>
            rw [hs] at h
            cases h
        | some b =>
            rw [hs] at h
            cases b with
            | true =>
                obtain ⟨after, hafter⟩ := standsHere_true hs
                cases h
                exact ⟨after, hafter, hafter ▸ .here after⟩
            | false =>
                obtain ⟨after, hp, hfinds⟩ := ih h
                exact ⟨after, hp, .later h0 (standsHere_false hs) hfinds⟩

theorem Finds.infix (h : Finds sub xs after) : sub <:+: xs := by
  induction h with
  | here after => exact ⟨[], after, rfl⟩
  | later _ _ _ ih => exact ih.trans (List.suffix_cons _ _).isInfix

theorem Finds.strstrLoop (h : Finds sub xs after) (hne : sub ≠ []) (h0 : 0 ∉ sub) :
    strstrLoop sub xs = some (some (sub ++ after)) := by
  induction h with
  | here after =>
      cases sub with
      | nil => exact absurd rfl hne
      | cons b bs =>
          have hb : b ≠ 0 := fun hb => h0 (hb ▸ List.mem_cons_self)
          have hs := standsHere_append (b :: bs) after
          rw [List.cons_append] at hs ⊢
          rw [StrSearch.strstrLoop, if_neg hb, hs]
  | @later c cs after hc hnot hfinds ih =>
      rw [StrSearch.strstrLoop, if_neg hc]
      cases hs : standsHere (c :: cs) sub with
      | none =>
          have hlong := (standsHere_none hs).2
          have := hfinds.infix.length_le
          rw [List.length_cons] at hlong
          omega
      | some b =>
          cases b with
          | true =>
              obtain ⟨rest, hrest⟩ := standsHere_true hs
              exact absurd ⟨rest, hrest.symm⟩ hnot
          | false => exact ih

/-- What follows the first place is one text. -/
theorem Finds.unique (h : Finds sub xs after) (h' : Finds sub xs after') (hne : sub ≠ [])
    (h0 : 0 ∉ sub) : after' = after := by
  have hr := h.strstrLoop hne h0
  rw [h'.strstrLoop hne h0] at hr
  exact List.append_cancel_left (Option.some.inj (Option.some.inj hr))

/-- The search stays inside exactly when something ends it. -/
theorem strstrLoop_ne_none_iff (hne : sub ≠ []) (h0 : 0 ∉ sub) :
    strstrLoop sub xs ≠ none ↔ Searchable sub xs := by
  induction xs with
  | nil =>
      constructor
      · intro h
        exact absurd rfl h
      · rintro (h | h)
        · cases h
        · exact absurd (List.infix_nil.mp h) hne
  | cons c cs ih =>
      rw [strstrLoop]
      by_cases hc : c = 0
      · rw [if_pos hc]
        exact ⟨fun _ => .inl (hc ▸ List.mem_cons_self), fun _ h => by cases h⟩
      · rw [if_neg hc]
        cases hs : standsHere (c :: cs) sub with
        | none =>
            obtain ⟨hpre, hlen⟩ := standsHere_none hs
            refine ⟨fun h => absurd rfl h, ?_⟩
            rintro (h | h)
            · exact absurd (hpre.subset h) h0
            · have := h.length_le
              omega
        | some b =>
            cases b with
            | true =>
                obtain ⟨after, hafter⟩ := standsHere_true hs
                exact ⟨fun _ => .inr ⟨[], after, hafter.symm⟩, fun _ h => by cases h⟩
            | false =>
                show StrSearch.strstrLoop sub cs ≠ none ↔ _
                rw [ih]
                constructor
                · rintro (h | h)
                  · exact .inl (List.mem_cons_of_mem c h)
                  · exact .inr (h.trans (List.suffix_cons c cs).isInfix)
                · rintro (h | h)
                  · exact .inl ((List.mem_cons.mp h).resolve_left (fun h => hc h.symm))
                  · exact .inr ((List.infix_cons_iff.mp h).resolve_left (standsHere_false hs))

/-- The three ends of a search. -/
theorem strstr_cases (hne : sub ≠ []) (h0 : 0 ∉ sub) (xs : List UInt8) :
    (strstr xs sub = none ∧ ¬ Searchable sub xs) ∨
      (strstr xs sub = some none ∧ Searchable sub xs ∧ ∀ after, ¬ Finds sub xs after) ∨
      ∃ after, strstr xs sub = some (some (sub ++ after)) ∧ Searchable sub xs ∧
        ∀ after', Finds sub xs after' ↔ after' = after := by
  rw [strstr, if_neg hne]
  have hiff : strstrLoop sub xs ≠ none ↔ Searchable sub xs := strstrLoop_ne_none_iff hne h0
  cases hr : strstrLoop sub xs with
  | none => exact .inl ⟨rfl, fun h => hiff.mpr h hr⟩
  | some m =>
      have hsearch : Searchable sub xs := hiff.mp (by rw [hr]; intro h; cases h)
      cases m with
      | none =>
          refine .inr (.inl ⟨rfl, hsearch, fun after h => ?_⟩)
          rw [h.strstrLoop hne h0] at hr
          cases hr
      | some p =>
          obtain ⟨after, rfl, hfinds⟩ := strstrLoop_finds hr
          exact .inr (.inr ⟨after, rfl, hsearch,
            fun after' => ⟨fun h => hfinds.unique h hne h0, fun h => h ▸ hfinds⟩⟩)

/-! ## The copy -/

theorem copyTo_append (hv : stop ∉ v) (hlen : v.length < dest.length) :
    copyTo stop (v ++ stop :: rest) dest = some (v ++ 0 :: dest.drop (v.length + 1)) := by
  induction v generalizing dest with
  | nil =>
      cases dest with
      | nil => exact absurd hlen (Nat.not_lt_zero _)
      | cons d ds => rw [List.nil_append, copyTo, if_pos rfl]; rfl
  | cons a as ih =>
      cases dest with
      | nil => exact absurd hlen (Nat.not_lt_zero _)
      | cons d ds =>
          have ha : a ≠ stop := fun ha => hv (ha ▸ List.mem_cons_self)
          rw [List.cons_append, copyTo, if_neg ha,
            ih (fun h => hv (List.mem_cons_of_mem a h)) (Nat.lt_of_succ_lt_succ hlen)]
          rfl

theorem copyTo_closed (h : copyTo stop xs dest = some r) : Closed stop dest.length xs := by
  induction xs generalizing dest r with
  | nil => cases h
  | cons c cs ih =>
      cases dest with
      | nil => cases h
      | cons d ds =>
          rw [copyTo] at h
          by_cases hc : c = stop
          · exact ⟨[], cs, by rw [hc, List.nil_append], List.not_mem_nil, Nat.succ_pos _⟩
          · rw [if_neg hc] at h
            obtain ⟨r', hr', -⟩ := Option.map_eq_some_iff.mp h
            obtain ⟨v, rest, rfl, hv, hlen⟩ := ih hr'
            refine ⟨c :: v, rest, rfl, ?_, Nat.succ_lt_succ hlen⟩
            rintro (_ | ⟨_, hmem⟩)
            · exact hc rfl
            · exact hv hmem

theorem copyTo_ne_none_iff : copyTo stop xs dest ≠ none ↔ Closed stop dest.length xs := by
  constructor
  · intro h
    obtain ⟨r, hr⟩ := Option.ne_none_iff_exists'.mp h
    exact copyTo_closed hr
  · rintro ⟨v, rest, rfl, hv, hlen⟩ h
    rw [copyTo_append hv hlen] at h
    cases h

end TX2SecureUart.StrSearch
