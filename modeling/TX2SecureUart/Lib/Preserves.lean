/-
# `Lib.Preserves` — what a program preserves

A program preserves `I` if every run of it that starts in `I` and returns ends in
`I`.  The rules follow the constructs of a program; what a part returns is known
to its rest only where a rule says so.
-/
import TX2SecureUart.Lib.Prog

namespace TX2SecureUart.Prog

variable {ε σ α β : Type} {I : σ → Prop}

def Preserves (I : σ → Prop) (m : EStateM ε σ α) : Prop :=
  ∀ s, I s → wp m (fun _ t => I t) anyStop s

namespace Preserves

theorem pure (a : α) : Preserves I (Pure.pure a : EStateM ε σ α) := by
  intro s hs
  exact hs

theorem throw (e : ε) : Preserves I (MonadExcept.throw e : EStateM ε σ α) := by
  intro s _
  trivial

theorem get : Preserves I (MonadState.get : EStateM ε σ σ) := by
  intro s hs
  exact hs

theorem modify {f : σ → σ} (hf : ∀ s, I s → I (f s)) :
    Preserves I (modify f : EStateM ε σ PUnit) := by
  intro s hs
  exact hf s hs

theorem bind {m : EStateM ε σ β} {f : β → EStateM ε σ α} (hm : Preserves I m)
    (hf : ∀ b, Preserves I (f b)) : Preserves I (m >>= f) := by
  intro s hs
  refine wp_seq (hm s hs) ?_
  intro b t ht
  exact hf b t ht

/-- The rest of the program may use what is known of the result. -/
theorem bind_of {m : EStateM ε σ β} {f : β → EStateM ε σ α} {R : β → Prop}
    (hm : ∀ s, I s → wp m (fun b t => I t ∧ R b) anyStop s)
    (hf : ∀ b, R b → Preserves I (f b)) : Preserves I (m >>= f) := by
  intro s hs
  refine wp_seq (hm s hs) ?_
  intro b t ht
  exact hf b ht.2 t ht.1

theorem map {m : EStateM ε σ β} {f : β → α} (hm : Preserves I m) : Preserves I (f <$> m) := by
  intro s hs
  exact (wp_map _ _).mpr (hm s hs)

theorem ite {c : Prop} [Decidable c] {m n : EStateM ε σ α} (hm : Preserves I m)
    (hn : Preserves I n) : Preserves I (if c then m else n) := by
  split
  · exact hm
  · exact hn

end Preserves

end TX2SecureUart.Prog
