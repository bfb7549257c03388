/-
# `Lib.Mailbox` — bounded first-in first-out mailboxes

What a message queue is for.  Messages wait in the order they were sent; the
receiver obtains the oldest one under an identifier that no message it still
holds has, may look at it as long as it holds it, and then retires the
identifier, which makes room for another message.  Waiting and held messages
together never exceed the capacity.

A run is described by its `Label`s; a label that the mailbox does not allow
has no step.  The laws at the end are about whole runs: nothing is lost,
duplicated or reordered, and what an identifier stands for stays the same from
the moment it is obtained until it is retired.
-/
import Mathlib

namespace TX2SecureUart

structure Mailbox (ι β : Type) where
  capacity : Nat
  /-- sent and not obtained, oldest first -/
  waiting : List β
  /-- obtained and not retired -/
  held : List (ι × β)

namespace Mailbox

variable {ι β : Type} [DecidableEq ι]

inductive Label (ι β : Type) where
  | send (m : β)
  | get (i : ι) (m : β)
  | put (i : ι)

/-- The messages neither waiting to be obtained nor retired. -/
def unretired (b : Mailbox ι β) : Nat := b.waiting.length + b.held.length

/-- The message held under `i`. -/
def look (b : Mailbox ι β) (i : ι) : Option β := b.held.lookup i

def empty (capacity : Nat) : Mailbox ι β := ⟨capacity, [], []⟩

inductive Step : Mailbox ι β → Label ι β → Mailbox ι β → Prop
  | send {b : Mailbox ι β} {m : β} : b.unretired < b.capacity →
      Step b (.send m) { b with waiting := b.waiting ++ [m] }
  | get {b : Mailbox ι β} {m : β} {i : ι} {rest : List β} : b.waiting = m :: rest →
      b.look i = none →
      Step b (.get i m) { b with waiting := rest, held := b.held ++ [(i, m)] }
  | put {b : Mailbox ι β} {i : ι} : (b.look i).isSome →
      Step b (.put i) { b with held := b.held.filter (fun x => x.1 != i) }

inductive Run : Mailbox ι β → List (Label ι β) → Mailbox ι β → Prop
  | nil (b : Mailbox ι β) : Run b [] b
  | cons {b b' b'' : Mailbox ι β} {l : Label ι β} {ls : List (Label ι β)} :
      Step b l b' → Run b' ls b'' → Run b (l :: ls) b''

theorem Run.append {b b' b'' : Mailbox ι β} {ls ls' : List (Label ι β)} (h : Run b ls b')
    (h' : Run b' ls' b'') : Run b (ls ++ ls') b'' := by
  induction h with
  | nil => exact h'
  | cons hstep _ ih => exact .cons hstep (ih h')

/-- A mailbox and a label determine what comes next. -/
theorem Step.det {b b₁ b₂ : Mailbox ι β} {l : Label ι β} (h₁ : Step b l b₁) (h₂ : Step b l b₂) :
    b₁ = b₂ := by
  cases h₁ with
  | send _ => cases h₂; rfl
  | get hw _ =>
      cases h₂ with
      | get hw' _ =>
          obtain rfl := (List.cons.inj (hw.symm.trans hw')).2
          rfl
  | put _ => cases h₂; rfl

/-- A run can be cut anywhere. -/
theorem Run.drop {b b₁ b' : Mailbox ι β} {ls₁ ls₂ : List (Label ι β)} (h₁ : Run b ls₁ b₁)
    (h : Run b (ls₁ ++ ls₂) b') : Run b₁ ls₂ b' := by
  induction h₁ with
  | nil b => exact h
  | cons hstep _ ih =>
      cases h with
      | cons hstep' hrest => exact ih (hstep.det hstep' ▸ hrest)

/-! ## Runs of one label -/

theorem Run.nil_eq {b b' : Mailbox ι β} (h : Run b [] b') : b' = b := by
  cases h
  rfl

theorem Run.step {b b' : Mailbox ι β} {l : Label ι β} (h : Run b [l] b') : Step b l b' := by
  cases h with
  | cons hstep hrest =>
      cases hrest
      exact hstep

theorem Step.held_get {b b' : Mailbox ι β} {i : ι} {m : β} (h : Step b (.get i m) b') :
    b'.held = b.held ++ [(i, m)] := by
  cases h
  rfl

theorem Step.eq_get {b b' : Mailbox ι β} {i : ι} {m : β} (h : Step b (.get i m) b') :
    ∃ rest, b.waiting = m :: rest ∧ b.look i = none ∧
      b' = { b with waiting := rest, held := b.held ++ [(i, m)] } := by
  cases h with
  | get hwait hlook => exact ⟨_, hwait, hlook, rfl⟩

theorem Step.eq_put {b b' : Mailbox ι β} {i : ι} (h : Step b (.put i) b') :
    b' = { b with held := b.held.filter (fun x => x.1 != i) } := by
  cases h
  rfl

theorem Step.waiting_send {b b' : Mailbox ι β} {m : β} (h : Step b (.send m) b') :
    b'.waiting = b.waiting ++ [m] := by
  cases h
  rfl

/-! ## Looking at a held message -/

theorem look_append (b : Mailbox ι β) (i j : ι) (m : β) (w : List β) :
    ({ b with waiting := w, held := b.held ++ [(i, m)] } : Mailbox ι β).look j =
      (b.look j).or (if j = i then some m else none) := by
  by_cases h : j = i
  · simp [look, List.lookup_append, h]
  · have hji : (j == i) = false := beq_eq_false_iff_ne.mpr h
    simp [look, List.lookup_append, List.lookup_cons, h, hji]

theorem lookup_filter_ne {i j : ι} (h : j ≠ i) :
    ∀ l : List (ι × β), (l.filter (fun x => x.1 != i)).lookup j = l.lookup j
  | [] => rfl
  | (k, m) :: l => by
      have ih := lookup_filter_ne h l
      by_cases hk : k = i
      · have hjk : (j == k) = false := beq_eq_false_iff_ne.mpr (hk ▸ h)
        rw [List.lookup_cons, hjk, List.filter_cons_of_neg (by simp [hk])]
        exact ih
      · rw [List.filter_cons_of_pos (by simp [hk]), List.lookup_cons, List.lookup_cons, ih]

theorem lookup_filter_self (i : ι) :
    ∀ l : List (ι × β), (l.filter (fun x => x.1 != i)).lookup i = none
  | [] => rfl
  | (k, m) :: l => by
      have ih := lookup_filter_self i l
      by_cases hk : k = i
      · rw [List.filter_cons_of_neg (by simp [hk])]
        exact ih
      · have hik : (i == k) = false := beq_eq_false_iff_ne.mpr (Ne.symm hk)
        rw [List.filter_cons_of_pos (by simp [hk]), List.lookup_cons, hik]
        exact ih

/-- One step changes what is held under `i` only by obtaining or retiring `i`. -/
theorem Step.look_eq {b b' : Mailbox ι β} {l : Label ι β} (h : Step b l b') {i : ι} {m : β}
    (hi : b.look i = some m) (hput : l ≠ .put i) : b'.look i = some m := by
  cases h with
  | send _ => exact hi
  | @get m' j rest _ _ => rw [look_append, hi]; rfl
  | @put j _ =>
      have hij : i ≠ j := fun h => hput (h ▸ rfl)
      exact (lookup_filter_ne hij b.held).trans hi

/-! ## The laws of a run -/

/-- The messages sent in a run, in order. -/
def sent : List (Label ι β) → List β
  | [] => []
  | .send m :: ls => m :: sent ls
  | _ :: ls => sent ls

/-- The messages obtained in a run, in order. -/
def obtained : List (Label ι β) → List β
  | [] => []
  | .get _ m :: ls => m :: obtained ls
  | _ :: ls => obtained ls

omit [DecidableEq ι] in
theorem sent_append (ls ls' : List (Label ι β)) : sent (ls ++ ls') = sent ls ++ sent ls' := by
  induction ls with
  | nil => rfl
  | cons l ls ih => cases l <;> simp [sent, ih]

/-- First in, first out: the messages obtained are the first ones that were
there, each once, and the others are still waiting. -/
theorem Run.fifo {b b' : Mailbox ι β} {ls : List (Label ι β)} (h : Run b ls b') :
    b.waiting ++ sent ls = obtained ls ++ b'.waiting := by
  induction h with
  | nil b => simp [sent, obtained]
  | cons hstep _ ih =>
      cases hstep with
      | send _ => simpa [sent, obtained] using ih
      | get hw _ => simpa [sent, obtained, hw] using ih
      | put _ => simpa [sent, obtained] using ih

/-- What is held under an identifier stays the same until it is retired. -/
theorem Run.look_eq {b b' : Mailbox ι β} {ls : List (Label ι β)} (h : Run b ls b') {i : ι} {m : β}
    (hi : b.look i = some m) (hput : Label.put i ∉ ls) : b'.look i = some m := by
  induction h with
  | nil b => exact hi
  | cons hstep _ ih =>
      exact ih (hstep.look_eq hi fun h => hput (h ▸ List.mem_cons_self))
        (fun h => hput (List.mem_cons_of_mem _ h))

theorem Run.capacity {b b' : Mailbox ι β} {ls : List (Label ι β)} (h : Run b ls b') :
    b'.capacity = b.capacity := by
  induction h with
  | nil b => rfl
  | cons hstep _ ih => rw [ih]; cases hstep <;> rfl

theorem Step.room {b b' : Mailbox ι β} {l : Label ι β} (h : Step b l b')
    (hb : b.unretired ≤ b.capacity) : b'.unretired ≤ b'.capacity := by
  cases h with
  | send hlt =>
      simp only [unretired, List.length_append, List.length_singleton] at hlt ⊢
      omega
  | get hw _ =>
      simp only [unretired, hw, List.length_append, List.length_cons, List.length_nil] at hb ⊢
      omega
  | @put i _ =>
      have := List.length_filter_le (fun x : ι × β => x.1 != i) b.held
      simp only [unretired] at hb ⊢
      omega

/-- A mailbox that starts within its capacity stays within it. -/
theorem Run.room {b b' : Mailbox ι β} {ls : List (Label ι β)} (h : Run b ls b')
    (hb : b.unretired ≤ b.capacity) : b'.unretired ≤ b'.capacity := by
  induction h with
  | nil b => exact hb
  | cons hstep _ ih => exact ih (hstep.room hb)

end Mailbox

end TX2SecureUart
