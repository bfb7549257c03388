/-
# `Virtio.Guests` — the calls on the buses of all guests, in any order

Every call leaves every bus sound, and a bus that is finalised keeps its devices with
their offsets, whatever calls follow for whatever guest.  So what is written in the
description and what `virtio_start` reads agree.
-/
import TX2SecureUart.Virtio.Table
import TX2SecureUart.Lib.Machine

namespace TX2SecureUart.Virtio

open Prog ByteStore Tiling

variable {vb vb' : Bus} {s t u : State} {g g' : UInt32}

/-! ## The bus of a guest -/

theorem bus_setBus_self (h : s.bus g = some vb) (vb' : Bus) : (s.setBus g vb').bus g = some vb' := by
  rw [State.bus] at h ⊢
  rw [State.setBus]
  by_cases hg : g > 0
  · rw [if_pos hg] at h
    rw [if_pos hg, if_pos hg]
    cases haddl : s.addl with
    | none =>
        rw [haddl] at h
        cases h
    | some buses =>
        rw [haddl] at h
        have hlt : (g - 1).toNat < buses.length := (List.getElem?_eq_some_iff.mp h).1
        show (buses.set _ vb')[_]? = _
        rw [List.getElem?_set_self hlt]
  · rw [if_neg hg, if_neg hg]

theorem bus_setBus_of_ne (h : g' ≠ g) (vb' : Bus) : (s.setBus g vb').bus g' = s.bus g' := by
  rw [State.bus, State.bus, State.setBus]
  by_cases hg : g > 0
  · rw [if_pos hg]
    by_cases hg' : g' > 0
    · rw [if_pos hg', if_pos hg']
      have hne : (g - 1).toNat ≠ (g' - 1).toNat := by
        intro heq
        have hsub : g - 1 = g' - 1 := UInt32.toNat_inj.mp heq
        exact h ((UInt32.sub_left_inj 1).mp hsub).symm
      cases s.addl with
      | none => rfl
      | some buses => exact List.getElem?_set_ne hne
    · rw [if_neg hg', if_neg hg']
  · rw [if_neg hg]
    by_cases hg' : g' > 0
    · rw [if_pos hg', if_pos hg']
    · have h₀ : g = 0 := UInt32.le_zero_iff.mp (UInt32.not_lt.mp hg)
      have h₀' : g' = 0 := UInt32.le_zero_iff.mp (UInt32.not_lt.mp hg')
      exact absurd (h₀'.trans h₀.symm) h

/-- The buses are the same. -/
structure SameBuses (s t : State) : Prop where
  guest0 : t.guest0 = s.guest0
  addl : t.addl = s.addl

theorem SameBuses.refl (s : State) : SameBuses s s := ⟨rfl, rfl⟩

theorem SameBuses.trans (h : SameBuses s t) (h' : SameBuses t u) : SameBuses s u :=
  ⟨h'.guest0.trans h.guest0, h'.addl.trans h.addl⟩

theorem SameBuses.bus (h : SameBuses s t) (g : UInt32) : t.bus g = s.bus g := by
  rw [State.bus, State.bus, h.guest0, h.addl]

/-! ## What every call keeps -/

def Sound (s : State) : Prop :=
  ∀ g vb, s.bus g = some vb → vb.Sound

/-- A bus that was finalised is finalised, with the same devices at the same offsets. -/
structure Bus.Frozen (vb vb' : Bus) : Prop where
  state : vb'.state ≠ .uninitialized
  vdevList : vb'.vdevList = vb.vdevList
  descrSize : vb'.descrSize = vb.descrSize

theorem Bus.Frozen.refl (h : vb.state ≠ .uninitialized) : vb.Frozen vb := ⟨h, rfl, rfl⟩

/-- No finalised bus changed. -/
def Keeps (s t : State) : Prop :=
  ∀ g vb, s.bus g = some vb → vb.state ≠ .uninitialized → ∃ vb', t.bus g = some vb' ∧ vb.Frozen vb'

theorem Keeps.refl (s : State) : Keeps s s :=
  fun _ vb hb hs => ⟨vb, hb, Bus.Frozen.refl hs⟩

theorem Keeps.trans (h : Keeps s t) (h' : Keeps t u) : Keeps s u := by
  intro g vb hb hs
  obtain ⟨vb', hb', hf⟩ := h g vb hb hs
  obtain ⟨vb'', hb'', hf'⟩ := h' g vb' hb' hf.state
  exact ⟨vb'', hb'', hf'.state, hf'.vdevList.trans hf.vdevList, hf'.descrSize.trans hf.descrSize⟩

/-- A call from `s` may end in `t`. -/
structure Fine (s t : State) : Prop where
  sound : Sound t
  keeps : Keeps s t

theorem Fine.refl (h : Sound s) : Fine s s := ⟨h, Keeps.refl s⟩

theorem Fine.trans (h : Fine s t) (h' : Fine t u) : Fine s u :=
  ⟨h'.sound, h.keeps.trans h'.keeps⟩

theorem Fine.of_same (h : Sound s) (hst : SameBuses s t) : Fine s t where
  sound := fun g vb hb => h g vb ((hst.bus g).symm.trans hb)
  keeps := fun g vb hb hs => ⟨vb, (hst.bus g).trans hb, Bus.Frozen.refl hs⟩

/-- The bus of one guest is replaced. -/
theorem Fine.setBus (h : Sound s) (hb : s.bus g = some vb) (hs : vb'.Sound)
    (hf : vb.state ≠ .uninitialized → vb.Frozen vb') : Fine s (s.setBus g vb') where
  sound := by
    intro g' b hb'
    by_cases hg : g' = g
    · subst hg
      rw [bus_setBus_self hb] at hb'
      exact Option.some.inj hb' ▸ hs
    · rw [bus_setBus_of_ne hg] at hb'
      exact h g' b hb'
  keeps := by
    intro g' b hb' hst
    by_cases hg : g' = g
    · subst hg
      obtain rfl : vb = b := Option.some.inj (hb.symm.trans hb')
      exact ⟨vb', bus_setBus_self hb vb', hf hst⟩
    · exact ⟨b, (bus_setBus_of_ne hg vb').trans hb', Bus.Frozen.refl hst⟩

/-! ## The parts of a call -/

theorem wp_getGuestVirtioBus {Q : Int → State → Prop} {E : Stop → State → Prop}
    (h : ∀ ret, Q ret s) : wp (getGuestVirtioBus g) Q E s := by
  rw [getGuestVirtioBus, wp_bind, wp_get, wp_ite]
  split
  · rw [wp_ite]
    split
    · exact h _
    · rw [wp_ite]
      split <;> exact h _
  · exact h _

/-- A bus that exists is read. -/
theorem wp_readBus {Q : Bus → State → Prop} {E : Stop → State → Prop} (hb : s.bus g = some vb)
    (h : Q vb s) : wp (readBus g) Q E s := by
  rw [readBus, wp_bind, wp_get, hb]
  exact h

theorem wp_readBus_any {Q : Bus → State → Prop} (h : ∀ vb, s.bus g = some vb → Q vb s) :
    wp (readBus g) Q anyStop s := by
  rw [readBus, wp_bind, wp_get]
  cases hb : s.bus g with
  | none => trivial
  | some vb => exact h vb hb

theorem same_store (w : Window) (off : Nat) (bytes : List UInt8) :
    wp (w.store off bytes) (fun _ t => SameBuses s t) anyStop s := by
  rw [Window.store, wp_bind, wp_get, wp_ite]
  split
  · exact ⟨rfl, rfl⟩
  · trivial

theorem same_describeVdevs (w : Window) (vb : Bus) (idx : UInt32) (vds : List Vdev) :
    wp (describeVdevs w vb idx vds) (fun _ t => SameBuses s t) anyStop s := by
  induction vds generalizing idx s with
  | nil => exact SameBuses.refl s
  | cons vd vds ih =>
      rw [describeVdevs, wp_ite]
      split
      · trivial
      · refine wp_seq (same_store w _ _) ?_
        intro _ t ht
        have hdescr : wp (getDescr w vd) (fun _ u => SameBuses t u) anyStop t := by
          rw [getDescr, wp_bind, wp_get, wp_bind, wp_set]
          refine wp_conseq (same_store w _ _) ?_
          intro _ u hu
          exact ⟨hu.guest0, hu.addl⟩
        refine wp_seq hdescr ?_
        intro _ u hu
        exact wp_conseq (ih (idx + 1)) (fun _ v hv => (ht.trans hu).trans hv)

theorem same_buildTable (w : Window) (vb : Bus) :
    wp (buildTable w vb) (fun _ t => SameBuses s t) anyStop s := by
  rw [buildTable]
  refine wp_seq (same_store w _ _) ?_
  intro _ t ht
  refine wp_seq (same_store w _ _) ?_
  intro _ u hu
  refine wp_seq (same_store w _ _) ?_
  intro _ v hv
  refine wp_conseq (same_describeVdevs w vb _ _) ?_
  intro _ x hx
  exact ((ht.trans hu).trans hv).trans hx

/-! ## Every call is fine -/

theorem fine_register (hs : Sound s) (vd : Option (Option VdevOps)) (g : UInt32) :
    wp (virtioRegisterDevice vd g) (fun _ t => Fine s t) anyStop s := by
  have hcnt : Fine s { s with numGuests := s.numGuests + 1 } := Fine.of_same hs ⟨rfl, rfl⟩
  rw [virtioRegisterDevice, wp_bind, wp_modify, wp_bind]
  refine wp_getGuestVirtioBus ?_
  intro ret
  rw [wp_ite]
  split
  · exact hcnt
  · rw [wp_bind]
    refine wp_readBus_any ?_
    intro vb hb
    rw [wp_ite]
    split
    · rename_i hu
      rw [addValid]
      cases validateVdev vd with
      | none => exact hcnt
      | some dev =>
          have hadd : (vb.add dev).Sound := (hcnt.sound g vb hb).add hu dev
          exact hcnt.trans (Fine.setBus hcnt.sound hb hadd (fun hne => absurd hu hne))
    · exact hcnt

theorem fine_finalize (hs : Sound s) (g : UInt32) :
    wp (finalizeVdevRegistery g) (fun _ t => Fine s t) anyStop s := by
  rw [finalizeVdevRegistery, wp_bind]
  refine wp_getGuestVirtioBus ?_
  intro ret
  rw [wp_ite]
  split
  · exact Fine.refl hs
  · rw [wp_bind]
    refine wp_readBus_any ?_
    intro vb hb
    rw [wp_bind, finalizeIfNew, wp_ite]
    split
    · rename_i hu
      exact Fine.setBus hs hb (hs g vb hb).finalize (fun hne => absurd hu hne)
    · exact Fine.refl hs

theorem fine_getDescription (hs : Sound s) (pa : UInt64) (sz : UInt32) (env : Env) (g : UInt32) :
    wp (virtioGetDescription pa sz env g) (fun _ t => Fine s t) anyStop s := by
  rw [virtioGetDescription, wp_bind]
  refine wp_getGuestVirtioBus ?_
  intro ret
  rw [wp_ite]
  split
  · exact Fine.refl hs
  · refine wp_seq (fine_finalize hs g) ?_
    intro ret t ht
    rw [wp_ite]
    split
    · exact ht
    · rw [describe, wp_bind]
      refine wp_readBus_any ?_
      intro vb hb
      rw [wp_ite]
      split
      · exact ht
      · rw [wp_ite]
        split
        · exact ht
        · refine wp_seq (same_buildTable _ vb) ?_
          intro _ u hu
          exact ht.trans (Fine.of_same ht.sound hu)

/-- Only the state of a bus is set, to one that comes after the finalisation. -/
theorem Fine.setState (hs : Sound s) (hb : s.bus g = some vb) (hne : vb.state ≠ .uninitialized)
    {state : BusState} (hstate : state ≠ .uninitialized) :
    Fine s (s.setBus g { vb with state := state }) :=
  Fine.setBus hs hb ((hs g vb hb).setState hne state) (fun _ => ⟨hstate, rfl, rfl⟩)

/-- The state of a bus is set, and set once more. -/
theorem Fine.setState_twice (hs : Sound s) (hb : s.bus g = some vb) (hne : vb.state ≠ .uninitialized)
    {state state' : BusState} (hstate : state ≠ .uninitialized) (hstate' : state' ≠ .uninitialized)
    (hst : SameBuses (s.setBus g { vb with state := state }) t) :
    Fine s (t.setBus g { vb with state := state' }) := by
  have hone := Fine.setState hs hb hne hstate
  have ht : Fine s t := hone.trans (Fine.of_same hone.sound hst)
  have hb' : t.bus g = some { vb with state := state } :=
    (hst.bus g).trans (bus_setBus_self hb _)
  have htwo := Fine.setState ht.sound hb' hstate hstate'
  exact ht.trans htwo

theorem fine_start (hs : Sound s) (pa : UInt64) (sz : UInt32) (env : Env) (g : UInt32) :
    wp (virtioStart pa sz env g) (fun _ t => Fine s t) anyStop s := by
  rw [virtioStart, wp_bind]
  refine wp_getGuestVirtioBus ?_
  intro ret
  rw [wp_ite]
  split
  · exact Fine.refl hs
  · rw [wp_bind]
    refine wp_readBus_any ?_
    intro vb hb
    rw [wp_ite]
    split
    · exact Fine.refl hs
    · rename_i hidle
      have hidle : vb.state = .idle := not_not.mp hidle
      have hne : vb.state ≠ .uninitialized := by
        rw [hidle]
        decide
      have hback : ∀ ret, wp (startFailed g vb ret) (fun _ u => Fine s u) anyStop
          (s.setBus g { vb with state := .activating }) := by
        intro ret
        rw [startFailed, wp_bind, writeBus, wp_modify]
        exact Fine.setState_twice hs hb hne (by decide) hne (SameBuses.refl _)
      rw [wp_bind, writeBus, wp_modify, startIdle, wp_ite]
      split
      · exact hback _
      · rw [wp_ite]
        split
        · exact hback _
        · rw [wp_ite]
          split
          · exact hback _
          · rw [wp_bind, Window.load, wp_bind, wp_get, wp_ite]
            split
            · rw [wp_pure, wp_bind, probeVdevs, wp_modify, wp_bind, writeBus, wp_modify]
              exact Fine.setState_twice hs hb hne (by decide) (by decide) ⟨rfl, rfl⟩
            · trivial

theorem fine_stop (hs : Sound s) (g : UInt32) :
    wp (virtioStop g) (fun _ t => Fine s t) anyStop s := by
  rw [virtioStop, wp_bind]
  refine wp_getGuestVirtioBus ?_
  intro ret
  rw [wp_ite]
  split
  · exact Fine.refl hs
  · rw [wp_bind]
    refine wp_readBus_any ?_
    intro vb hb
    rw [wp_ite]
    split
    · exact Fine.refl hs
    · rename_i hactive
      have hne : vb.state ≠ .uninitialized := by
        rw [not_not.mp hactive]
        decide
      rw [wp_bind, writeBus, wp_modify, wp_bind, writeBus, wp_modify]
      exact Fine.setState_twice hs hb hne (by decide) (by decide) (SameBuses.refl _)

/-! ## Runs -/

/-- What can happen: the calls, other bytes in the memory of the non-secure world, and
the allocation of the buses of the other guests. -/
inductive Op where
  | register (vd : Option (Option VdevOps)) (g : UInt32)
  | getDescription (pa : UInt64) (sz : UInt32) (env : Env) (g : UInt32)
  | start (pa : UInt64) (sz : UInt32) (env : Env) (g : UInt32)
  | stop (g : UInt32)
  | nonSecure (mem : Nat → UInt8)
  | allocGuests (numGuests : UInt32) (calloc : Bool)
  | freeGuests

def Op.run : Op → VirtioM PUnit
  | .register vd g => do let _ ← virtioRegisterDevice vd g
  | .getDescription pa sz env g => do let _ ← virtioGetDescription pa sz env g
  | .start pa sz env g => do let _ ← virtioStart pa sz env g
  | .stop g => do let _ ← virtioStop g
  | .nonSecure mem => modify fun s => { s with mem := mem }
  | .allocGuests n calloc => do let _ ← allocGuestVirtioBus n calloc
  | .freeGuests => freeGuestVirtioBus

/-- The buses are neither allocated anew nor freed. -/
def Op.Call : Op → Prop
  | .allocGuests _ _ => False
  | .freeGuests => False
  | _ => True

def machine : Machine Stop State Op where
  init := ⟨0, .fresh, none, fun _ => 0, 0, []⟩
  run := Op.run
  Enabled := fun _ _ => True

theorem fine_call (hs : Sound s) {a : Op} (hc : a.Call) :
    wp a.run (fun _ t => Fine s t) anyStop s := by
  cases a with
  | register vd g => exact wp_seq (fine_register hs vd g) (fun _ _ h => h)
  | getDescription pa sz env g => exact wp_seq (fine_getDescription hs pa sz env g) (fun _ _ h => h)
  | start pa sz env g => exact wp_seq (fine_start hs pa sz env g) (fun _ _ h => h)
  | stop g => exact wp_seq (fine_stop hs g) (fun _ _ h => h)
  | nonSecure mem => exact Fine.of_same hs ⟨rfl, rfl⟩
  | allocGuests n calloc => exact absurd hc id
  | freeGuests => exact absurd hc id

/-- New buses, or none, for the other guests. -/
theorem sound_of_fresh {addl : Option (List Bus)} (hs : Sound s)
    (h : ∀ buses, addl = some buses → ∀ vb ∈ buses, vb.Sound) : Sound { s with addl := addl } := by
  intro g vb hb
  rw [State.bus] at hb
  by_cases hg : g > 0
  · rw [if_pos hg] at hb
    cases haddl : addl with
    | none =>
        rw [haddl] at hb
        cases hb
    | some buses =>
        rw [haddl] at hb
        have hget : buses[(g - 1).toNat]? = some vb := hb
        exact h buses haddl vb (List.mem_of_getElem? hget)
  · rw [if_neg hg] at hb
    refine hs 0 vb ?_
    rw [State.bus, if_neg (by decide)]
    exact hb

theorem sound_run (hs : Sound s) (a : Op) : wp a.run (fun _ t => Sound t) anyStop s := by
  cases a with
  | allocGuests n calloc =>
      simp only [Op.run, allocGuestVirtioBus, wp_bind, wp_get, wp_ite, wp_pure, wp_set]
      split
      · exact hs
      · split
        · exact sound_of_fresh hs (fun buses h => by cases h)
        · refine sound_of_fresh hs ?_
          intro buses h vb hvb
          obtain rfl := Option.some.inj h
          rw [List.eq_of_mem_replicate hvb]
          exact Bus.sound_fresh
  | freeGuests => exact sound_of_fresh hs (fun buses h => by cases h)
  | register vd g => exact wp_conseq (fine_call hs (a := .register vd g) trivial) (fun _ _ h => h.sound)
  | getDescription pa sz env g =>
      exact wp_conseq (fine_call hs (a := .getDescription pa sz env g) trivial) (fun _ _ h => h.sound)
  | start pa sz env g =>
      exact wp_conseq (fine_call hs (a := .start pa sz env g) trivial) (fun _ _ h => h.sound)
  | stop g => exact wp_conseq (fine_call hs (a := .stop g) trivial) (fun _ _ h => h.sound)
  | nonSecure mem =>
      exact wp_conseq (fine_call hs (a := .nonSecure mem) trivial) (fun _ _ h => h.sound)

theorem sound_of_reachable {ok : State → Op → Prop} (h : machine.Reachable ok s) : Sound s := by
  refine Machine.invariant (E := fun _ _ _ _ => True) ?_ (fun s a hs _ _ => sound_run hs a) h
  refine sound_of_fresh (s := ⟨0, .fresh, none, fun _ => 0, 0, []⟩) ?_ (fun buses h => by cases h)
  intro g vb hb
  rw [State.bus] at hb
  by_cases hg : g > 0
  · rw [if_pos hg] at hb
    cases hb
  · rw [if_neg hg] at hb
    exact Option.some.inj hb ▸ Bus.sound_fresh

/-- Calls one after the other keep what is finalised. -/
theorem keeps_of_calls (hs : Sound s)
    (h : Relation.ReflTransGen (machine.Step (fun _ a => a.Call)) s t) : Keeps s t := by
  have hfine : Fine s t := by
    induction h with
    | refl => exact Fine.refl hs
    | @tail u v _ hstep ih =>
        obtain ⟨a, -, hcall, hrun⟩ := hstep
        have hrun : a.run u = .ok ⟨⟩ v := hrun
        have hone := wp_ok (fine_call ih.sound hcall) hrun
        exact ih.trans hone
  exact hfine.keeps

end TX2SecureUart.Virtio
