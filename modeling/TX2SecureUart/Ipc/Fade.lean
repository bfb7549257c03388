/-
# `Ipc.Fade` — what dropping and shutting down leave of a channel

An operation that only drops references and shuts channels down makes no channel
and no peer: what is there afterwards was there before, with the peer and the
state it had, or disconnecting.  This holds in every state of the registry, also
halfway through an operation.
-/
import TX2SecureUart.Ipc.Port

namespace TX2SecureUart.Ipc

open Prog

/-- Every channel of `t` is one of `s`, or one of `s` that was shut down. -/
def Fades (s t : Registry) : Prop :=
  ∀ c C, t.chans c = some C → ∃ C₀, s.chans c = some C₀ ∧ C.peer = C₀.peer ∧
    (C.state = C₀.state ∨ C.state = .disconnecting)

/-- If the channel is still there, it has no peer and is of no use. -/
def Registry.Shut (s : Registry) (c : ChanId) : Prop :=
  ∀ C, s.chans c = some C → C.peer = none ∧ (C.state = .disconnecting ∨ C.state = .invalid)

/-- The same, but for the peer. -/
def Registry.Down (s : Registry) (c : ChanId) : Prop :=
  ∀ C, s.chans c = some C → C.state = .disconnecting ∨ C.state = .invalid

section

variable {s t u : Registry} {c d : ChanId} {C N : Chan} {ref : ObjRef}

theorem Fades.refl (s : Registry) : Fades s s := by
  intro c C hC
  exact ⟨C, hC, rfl, Or.inl rfl⟩

theorem Fades.trans (h : Fades s t) (h' : Fades t u) : Fades s u := by
  intro c C hC
  obtain ⟨C₁, hC₁, hpeer₁, hst₁⟩ := h' c C hC
  obtain ⟨C₀, hC₀, hpeer₀, hst₀⟩ := h c C₁ hC₁
  refine ⟨C₀, hC₀, hpeer₁.trans hpeer₀, ?_⟩
  rcases hst₁ with hst₁ | hst₁
  · rw [hst₁]
    exact hst₀
  · exact Or.inr hst₁

theorem Fades.setChan (hC : s.chans c = some C) (hpeer : N.peer = C.peer)
    (hst : N.state = C.state ∨ N.state = .disconnecting) : Fades s (s.setChan c N) := by
  intro d D hD
  by_cases hd : d = c
  · subst hd
    obtain rfl : N = D := by simpa using hD
    exact ⟨C, hC, hpeer, hst⟩
  · exact ⟨D, by simpa [hd] using hD, rfl, Or.inl rfl⟩

theorem Fades.freeChan (s : Registry) (c : ChanId) : Fades s (s.freeChan c) := by
  intro d D hD
  by_cases hd : d = c
  · simp [hd] at hD
  · exact ⟨D, by simpa [hd] using hD, rfl, Or.inl rfl⟩

/-- The channels are the same, whatever else has changed. -/
theorem Fades.of_chans (h : t.chans = s.chans) : Fades s t := by
  intro c C hC
  exact ⟨C, h ▸ hC, rfl, Or.inl rfl⟩

theorem Fades.shut (h : Fades s t) (hs : s.Shut c) : t.Shut c := by
  intro C hC
  obtain ⟨C₀, hC₀, hpeer, hst | hst⟩ := h c C hC
  · rw [hpeer, hst]
    exact hs C₀ hC₀
  · rw [hpeer]
    exact ⟨(hs C₀ hC₀).1, Or.inl hst⟩

theorem Fades.down (h : Fades s t) (hs : s.Down c) : t.Down c := by
  intro C hC
  obtain ⟨C₀, hC₀, -, hst | hst⟩ := h c C hC
  · rw [hst]
    exact hs C₀ hC₀
  · exact Or.inl hst

/-! ## The primitives -/

theorem wp_chanAddRef_fades : wp (chanAddRef c ref) (fun _ t => Fades s t) anyStop s := by
  rw [wp_chanAddRef]
  cases hC : s.chans c with
  | none => trivial
  | some C =>
      rw [Option.elim_some]
      split
      · trivial
      · exact Fades.setChan hC rfl (Or.inl rfl)

theorem wp_chanDelRef_fades : wp (chanDelRef c ref) (fun _ t => Fades s t) anyStop s := by
  rw [wp_chanDelRef]
  cases hC : s.chans c with
  | none => trivial
  | some C =>
      rw [Option.elim_some]
      split
      · trivial
      have hset : Fades s (s.setChan c { C with refobj := C.refobj.erase ref }) :=
        Fades.setChan hC rfl (Or.inl rfl)
      split
      · split
        · trivial
        split
        · trivial
        · exact hset.trans (Fades.freeChan _ _)
      · exact hset

theorem wp_listDelete_fades : wp (listDelete c) (fun _ t => Fades s t) anyStop s := by
  rw [wp_listDelete]
  cases hC : s.chans c with
  | none => trivial
  | some C =>
      rw [Option.elim_some]
      cases C.node with
      | none => trivial
      | some l =>
          cases l with
          | waitingForPort =>
              have hlist := Fades.of_chans (s := s)
                (t := s.setWaiting (s.waitingForPortChanList.erase c)) rfl
              exact hlist.trans (Fades.setChan hC rfl (Or.inl rfl))
          | pending p =>
              show (s.ports p).elim _ _
              cases s.ports p with
              | none => trivial
              | some P =>
                  have hport := Fades.of_chans (s := s)
                    (t := s.setPort p { P with pendingList := P.pendingList.erase c }) rfl
                  exact hport.trans (Fades.setChan hC rfl (Or.inl rfl))

theorem wp_handleDecref_fades (x : HandlePtr) :
    wp (handleDecref x) (fun _ t => Fades s t) anyStop s := by
  cases x with
  | chan c =>
      simp only [handleDecref, chanHandleDestroy, wp_bind, wp_getChan, wp_modifyChan, wp_ite,
        wp_pure]
      cases hC : s.chans c with
      | none => trivial
      | some C =>
          simp only [Option.elim_some]
          have hset : Fades s (s.setChan c { C with
              handle := { C.handle with refcnt := C.handle.refcnt - 1 } }) :=
            Fades.setChan hC rfl (Or.inl rfl)
          split
          · exact wp_conseq wp_chanDelRef_fades fun _ _ ht => hset.trans ht
          · exact hset
  | port p =>
      rw [wp_handleDecref_port]
      cases s.ports p with
      | none => trivial
      | some P =>
          rw [Option.elim_some]
          split
          · exact Fades.of_chans rfl
          · exact Fades.of_chans rfl

/-! ## Shutting down -/

/-- The channel is disconnecting from now on. -/
theorem wp_disconnect_fades :
    wp (modifyChan c fun C => { C with state := .disconnecting })
      (fun _ t => Fades s t ∧ t.Down c) anyStop s := by
  rw [wp_modifyChan]
  cases hC : s.chans c with
  | none => trivial
  | some C =>
      refine ⟨Fades.setChan hC rfl (Or.inr rfl), ?_⟩
      intro D hD
      obtain rfl : ({ C with state := .disconnecting } : Chan) = D := by simpa using hD
      exact Or.inl rfl

theorem wp_chanShutdownOneLocked_fades :
    wp (chanShutdownOneLocked c) (fun _ t => Fades s t ∧ t.Down c) anyStop s := by
  simp only [chanShutdownOneLocked, wp_bind, wp_getChan]
  cases hC : s.chans c with
  | none => trivial
  | some C =>
      rw [Option.elim_some]
      cases hst : C.state with
      | invalid | disconnecting =>
          refine ⟨Fades.refl s, ?_⟩
          intro D hD
          obtain rfl : C = D := Option.some.inj (hC.symm.trans hD)
          simp [hst]
      | accepting => exact wp_disconnect_fades
      | connected | connecting =>
          refine wp_seq wp_disconnect_fades ?_
          intro _ t ht
          rw [wp_handleNotify_chan]
          cases t.chans c with
          | none => trivial
          | some D => exact ht
      | waitingForPort =>
          rw [wp_ite]
          split
          · trivial
          refine wp_seq wp_listDelete_fades ?_
          intro _ t ht
          refine wp_seq wp_chanDelRef_fades ?_
          intro _ u hu
          refine wp_conseq wp_disconnect_fades ?_
          intro _ v hv
          exact ⟨ht.trans (hu.trans hv.1), hv.2⟩

/-- Whatever its peer was, the channel has none afterwards. -/
theorem wp_chanShutdownLocked_shut :
    wp (chanShutdownLocked c) (fun _ t => t.Shut c) anyStop s := by
  refine wp_seq wp_chanShutdownOneLocked_fades ?_
  rintro _ t ⟨-, hdown⟩
  rw [wp_bind, wp_getChan]
  cases hC : t.chans c with
  | none => trivial
  | some C =>
      rw [Option.elim_some]
      cases hpeer : C.peer with
      | none =>
          intro D hD
          obtain rfl : C = D := Option.some.inj (hC.symm.trans hD)
          exact ⟨hpeer, hdown C hC⟩
      | some peer =>
          refine wp_seq wp_chanShutdownOneLocked_fades ?_
          rintro _ u ⟨hu, -⟩
          refine wp_seq wp_chanDelRef_fades ?_
          intro _ v hv
          have hlast : v.Down c := (hu.trans hv).down hdown
          rw [wp_modifyChan]
          cases hD : v.chans c with
          | none => trivial
          | some D =>
              intro N hN
              obtain rfl : ({ D with peer := none } : Chan) = N := by simpa using hN
              exact ⟨rfl, hlast D hD⟩

/-- `handle_close` -/
theorem wp_close_shut :
    wp (do handleShutdown (.chan c); handleDecref (.chan c)) (fun _ t => t.Shut c) anyStop s := by
  refine wp_seq wp_chanShutdownLocked_shut ?_
  intro _ t ht
  refine wp_conseq (wp_handleDecref_fades _) ?_
  intro _ u hu
  exact hu.shut ht

end

end TX2SecureUart.Ipc
