/-
# `Lib.Prog` — stateful programs that may stop abnormally, and their preconditions

A program over the state `σ` is an `EStateM ε σ α`: it returns a value and a
new state, or it stops with an `ε` in the state it had reached.  What `ε`
means is up to the instance: a kernel panic, a dangling pointer, a poll loop
whose readings have run out.

`wp m Q E s` reads "from `s`, the program `m` either returns and satisfies
`Q`, or stops and satisfies `E`".  Total correctness is `E := fun _ _ =>
False`, partial correctness is `E := fun _ _ => True`, and everything between
is a statement about *which* stops are possible.  The rules are stated as
equivalences, so `simp` executes a program symbolically up to its calls, and
`wp_mono` applies the specification of a call.
-/
import Mathlib

namespace TX2SecureUart.Prog

variable {ε δ σ τ α β : Type}

instance decEqResult [DecidableEq ε] [DecidableEq σ] [DecidableEq α] :
    DecidableEq (EStateM.Result ε σ α)
  | .ok a s, .ok b t => decidable_of_iff (a = b ∧ s = t) (by simp)
  | .error e s, .error f t => decidable_of_iff (e = f ∧ s = t) (by simp)
  | .ok _ _, .error _ _ => .isFalse nofun
  | .error _ _, .ok _ _ => .isFalse nofun

/-- From `s`, the program returns in `Q` or stops in `E`. -/
def wp (m : EStateM ε σ α) (Q : α → σ → Prop) (E : ε → σ → Prop) (s : σ) : Prop :=
  match m s with
  | .ok a s' => Q a s'
  | .error e s' => E e s'

variable {Q : α → σ → Prop} {E : ε → σ → Prop} {s : σ}

/-! ## Running one construct

The equations a concrete run is computed with. -/

theorem run_pure (a : α) (s : σ) : (pure a : EStateM ε σ α) s = .ok a s := rfl

theorem run_throw (e : ε) (s : σ) : (throw e : EStateM ε σ α) s = .error e s := rfl

theorem run_get (s : σ) : (get : EStateM ε σ σ) s = .ok s s := rfl

theorem run_set (s t : σ) : (set t : EStateM ε σ PUnit) s = .ok ⟨⟩ t := rfl

theorem run_modify (f : σ → σ) (s : σ) :
    (modify f : EStateM ε σ PUnit) s = .ok ⟨⟩ (f s) := rfl

theorem run_bind (m : EStateM ε σ β) (f : β → EStateM ε σ α) (s : σ) :
    (m >>= f) s =
      match m s with
      | .ok b t => f b t
      | .error e t => .error e t := rfl

theorem run_ite (c : Prop) [Decidable c] (m n : EStateM ε σ α) (s : σ) :
    (if c then m else n) s = if c then m s else n s := by
  split <;> rfl

/-! ## The rules, one per program construct -/

@[simp] theorem wp_pure (a : α) : wp (pure a) Q E s ↔ Q a s := Iff.rfl

@[simp] theorem wp_throw (e : ε) : wp (throw e) Q E s ↔ E e s := Iff.rfl

@[simp] theorem wp_bind (m : EStateM ε σ β) (f : β → EStateM ε σ α) :
    wp (m >>= f) Q E s ↔ wp m (fun b => wp (f b) Q E) E s := by
  simp only [wp, bind, EStateM.bind]
  cases m s <;> rfl

@[simp] theorem wp_map (m : EStateM ε σ β) (f : β → α) :
    wp (f <$> m) Q E s ↔ wp m (fun b => Q (f b)) E s := by
  simp only [wp, Functor.map, EStateM.map]
  cases m s <;> rfl

@[simp] theorem wp_get {Q : σ → σ → Prop} :
    wp (get : EStateM ε σ σ) Q E s ↔ Q s s := Iff.rfl

@[simp] theorem wp_set (t : σ) {Q : PUnit → σ → Prop} :
    wp (set t : EStateM ε σ PUnit) Q E s ↔ Q ⟨⟩ t := Iff.rfl

@[simp] theorem wp_modify (f : σ → σ) {Q : PUnit → σ → Prop} :
    wp (modify f : EStateM ε σ PUnit) Q E s ↔ Q ⟨⟩ (f s) := Iff.rfl

@[simp] theorem wp_ite (c : Prop) [Decidable c] (m n : EStateM ε σ α) :
    wp (if c then m else n) Q E s ↔ if c then wp m Q E s else wp n Q E s := by
  split <;> rfl

/-! ## Using a specification -/

theorem wp_mono {m : EStateM ε σ α} {Q' : α → σ → Prop} {E' : ε → σ → Prop}
    (h : wp m Q E s) (hQ : ∀ a t, Q a t → Q' a t) (hE : ∀ e t, E e t → E' e t) :
    wp m Q' E' s := by
  unfold wp at h ⊢
  cases hm : m s with
  | ok a t => exact hQ a t (by simpa [hm] using h)
  | error e t => exact hE e t (by simpa [hm] using h)

/-- The everyday form: only the postcondition is weakened. -/
theorem wp_conseq {m : EStateM ε σ α} {Q' : α → σ → Prop}
    (h : wp m Q E s) (hQ : ∀ a t, Q a t → Q' a t) : wp m Q' E s :=
  wp_mono h hQ (fun _ _ he => he)

/-- A program goes on from wherever the specification of its first part leads. -/
theorem wp_seq {m : EStateM ε σ β} {f : β → EStateM ε σ α} {R : β → σ → Prop}
    (h : wp m R E s) (hf : ∀ b t, R b t → wp (f b) Q E t) : wp (m >>= f) Q E s :=
  (wp_bind m f).mpr (wp_conseq h hf)

theorem wp_and {m : EStateM ε σ α} {Q' : α → σ → Prop} {E' : ε → σ → Prop}
    (h : wp m Q E s) (h' : wp m Q' E' s) :
    wp m (fun a t => Q a t ∧ Q' a t) (fun e t => E e t ∧ E' e t) s := by
  unfold wp at h h' ⊢
  cases hm : m s with
  | ok a t => simp only [hm] at h h' ⊢; exact ⟨h, h'⟩
  | error e t => simp only [hm] at h h' ⊢; exact ⟨h, h'⟩

theorem wp_ok {m : EStateM ε σ α} {a : α} {t : σ} (h : wp m Q E s)
    (hm : m s = .ok a t) : Q a t := by
  simpa [wp, hm] using h

theorem wp_error {m : EStateM ε σ α} {e : ε} {t : σ} (h : wp m Q E s)
    (hm : m s = .error e t) : E e t := by
  simpa [wp, hm] using h

/-- Nothing is said of the runs that stop: partial correctness. -/
def anyStop : ε → σ → Prop := fun _ _ => True

theorem wp_any (m : EStateM ε σ α) (s : σ) : wp m (fun _ _ => True) anyStop s := by
  rw [wp]
  cases m s <;> trivial

/-- A program whose run is known. -/
theorem wp_run {m : EStateM ε σ α} {a : α} {t : σ} (hm : m s = .ok a t) (hQ : Q a t) :
    wp m Q E s := by
  rw [wp, hm]
  exact hQ

/-- A total specification: the program does return. -/
theorem wp_total {m : EStateM ε σ α} (h : wp m Q (fun _ _ => False) s) :
    ∃ a t, m s = .ok a t ∧ Q a t := by
  unfold wp at h
  cases hm : m s with
  | ok a t => exact ⟨a, t, rfl, by simpa [hm] using h⟩
  | error e t => simp [hm] at h

/-- Whether a run returned. -/
def returns : EStateM.Result ε σ α → Bool
  | .ok _ _ => true
  | .error _ _ => false

/-- The state in which a run returned or stopped. -/
def stateOf : EStateM.Result ε σ α → σ
  | .ok _ s => s
  | .error _ s => s

/-- What holds however the program ends holds of the state it ends in. -/
theorem wp_stateOf {m : EStateM ε σ α} {P : σ → Prop} :
    wp m (fun _ t => P t) (fun _ t => P t) s ↔ P (stateOf (m s)) := by
  rw [wp]
  cases m s <;> rfl

theorem eq_ok_of_returns {r : EStateM.Result ε σ α} (h : returns r = true) :
    ∃ a, r = .ok a (stateOf r) := by
  cases r with
  | ok a s => exact ⟨a, rfl⟩
  | error e s => cases h

/-- What a run returned. -/
def valueOf : EStateM.Result ε σ α → Option α
  | .ok a _ => some a
  | .error _ _ => none

theorem eq_ok_of_valueOf {r : EStateM.Result ε σ α} {a : α} (h : valueOf r = some a) :
    r = .ok a (stateOf r) := by
  cases r with
  | ok a' s => cases h; rfl
  | error e s => cases h

/-- A program does not return when its first part does not. -/
theorem valueOf_bind {m : EStateM ε σ β} {f : β → EStateM ε σ α} (h : valueOf (m s) = none) :
    valueOf ((m >>= f) s) = none := by
  rw [run_bind]
  cases hm : m s with
  | ok b t =>
      rw [hm] at h
      cases h
  | error e t => rfl

/-- What a run stopped with. -/
def faultOf : EStateM.Result ε σ α → Option ε
  | .ok _ _ => none
  | .error e _ => some e

theorem eq_error_of_faultOf {r : EStateM.Result ε σ α} {e : ε} (h : faultOf r = some e) :
    r = .error e (stateOf r) := by
  cases r with
  | ok a s => cases h
  | error e' s => cases h; rfl

/-! ## Running a program on a component of a larger state -/

/-- `zoom get put m`: run `m` on the component `get s`, and put the component
back, whether `m` returned or stopped. -/
def zoom (get : τ → σ) (put : σ → τ → τ) (m : EStateM ε σ α) : EStateM ε τ α :=
  fun t =>
    match m (get t) with
    | .ok a s => .ok a (put s t)
    | .error e s => .error e (put s t)

theorem run_zoom (get : τ → σ) (put : σ → τ → τ) (m : EStateM ε σ α) (t : τ) :
    zoom get put m t =
      match m (get t) with
      | .ok a s => .ok a (put s t)
      | .error e s => .error e (put s t) := rfl

@[simp] theorem wp_zoom {get : τ → σ} {put : σ → τ → τ} {m : EStateM ε σ α}
    {Q : α → τ → Prop} {E : ε → τ → Prop} {t : τ} :
    wp (zoom get put m) Q E t ↔
      wp m (fun a s => Q a (put s t)) (fun e s => E e (put s t)) (get t) := by
  simp only [wp, zoom]
  cases m (get t) <;> rfl

/-- The same for a program whose stops are not those of the larger system. -/
def embed (get : τ → σ) (put : σ → τ → τ) (err : ε → δ) (m : EStateM ε σ α) : EStateM δ τ α :=
  fun t =>
    match m (get t) with
    | .ok a s => .ok a (put s t)
    | .error e s => .error (err e) (put s t)

@[simp] theorem wp_embed {get : τ → σ} {put : σ → τ → τ} {err : ε → δ} {m : EStateM ε σ α}
    {Q : α → τ → Prop} {E : δ → τ → Prop} {t : τ} :
    wp (embed get put err m) Q E t ↔
      wp m (fun a s => Q a (put s t)) (fun e s => E (err e) (put s t)) (get t) := by
  simp only [wp, embed]
  cases m (get t) <;> rfl

/-! ## Loops over a list -/

/-- The loop rule: an invariant indexed by the elements still to come, kept by
each pass, holds at the end with none left. -/
theorem wp_forM {f : β → EStateM ε σ PUnit} {I : List β → σ → Prop}
    (hstep : ∀ b bs t, I (b :: bs) t → wp (f b) (fun _ => I bs) E t) :
    ∀ (bs : List β) {s : σ}, I bs s → wp (forM bs f) (fun _ => I []) E s
  | [], _, h => h
  | b :: bs, s, h => by
      simp only [List.forM_cons, wp_bind]
      exact wp_conseq (hstep b bs s h) (fun _ t ht => wp_forM hstep bs ht)

end TX2SecureUart.Prog
