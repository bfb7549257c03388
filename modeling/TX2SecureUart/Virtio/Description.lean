/-
# `Virtio.Description` — the description and the start of a bus agree

The description of a bus is its resource table: the header, the table of the offsets
and the descriptors, each device's at the offset that the table gives for it.
Starting the bus hands every device a copy of the buffer and the same offset.
-/
import TX2SecureUart.Virtio.Guests

namespace TX2SecureUart.Virtio

open Prog ByteStore Tiling

variable {vb : Bus} {s t : State} {g : UInt32}

/-- The bus after its finalisation. -/
def Bus.ready (vb : Bus) : Bus :=
  if vb.state = .uninitialized then vb.finalize else vb

/-- A program never stops. -/
def noStop : Stop → State → Prop := fun _ _ => False

theorem Bus.Sound.ready_laid (h : vb.Sound) (ht : vb.total < 2 ^ 32) : vb.ready.Laid := by
  rw [Bus.ready]
  split
  · exact h.laid ht
  · rename_i hs
    exact h.laid_of_finalized hs ht

@[simp] theorem Bus.total_ready (vb : Bus) : vb.ready.total = vb.total := by
  rw [Bus.ready]
  split
  · exact vb.total_finalize
  · rfl

theorem Fits.ready (h : Fits vb.vdevList) : Fits vb.ready.vdevList := by
  rw [Bus.ready]
  split
  · exact h.place
  · exact h

theorem le_roundup (n : Nat) : n ≤ roundup n := by
  rw [roundup, pageSize]
  omega

theorem Bus.Laid.window (h : vb.Laid) (ht : vb.total < 2 ^ 32) :
    vb.total ≤ roundup vb.descrSize.toUInt32.toNat := by
  have hsize : vb.descrSize.toUInt32.toNat = vb.total := by
    rw [UInt64.toNat_toUInt32, h.size, Nat.mod_eq_of_lt ht]
  rw [hsize]
  exact le_roundup _

theorem mapDescr_le {pa : UInt64} {env : Env} (h : mapDescr pa env ≠ noError) : mapDescr pa env < 0 := by
  rw [mapDescr] at h ⊢
  split
  · decide
  · split
    · decide
    · rename_i h₁ h₂
      rw [if_neg h₁, if_neg h₂] at h
      cases hc : env.checkGuestPaValid with
      | some e => exact e.2
      | none =>
          rw [hc] at h
          cases hv : env.vmmAllocPhysical with
          | some e => exact e.2
          | none =>
              rw [hv] at h
              exact absurd rfl h

/-! ## The description -/

theorem wp_finalize (hb : s.bus g = some vb) :
    wp (finalizeVdevRegistery g) (fun ret t => ret ≤ 0 ∧ (ret = noError → t.bus g = some vb.ready) ∧
      t.mem = s.mem ∧ t.described = s.described) noStop s := by
  rw [finalizeVdevRegistery, wp_bind]
  refine wp_getGuestVirtioBus ?_
  intro ret
  rw [wp_ite]
  split
  · exact ⟨by decide, fun h => absurd h (by decide), rfl, rfl⟩
  · rw [wp_bind]
    refine wp_readBus hb ?_
    rw [wp_bind, finalizeIfNew, wp_ite, Bus.ready]
    split
    · rw [writeBus, wp_modify]
      refine ⟨Int.le_refl 0, fun _ => bus_setBus_self hb _, ?_, ?_⟩
      · rw [State.setBus]
        split <;> rfl
      · rw [State.setBus]
        split <;> rfl
    · exact ⟨Int.le_refl 0, fun _ => hb, rfl, rfl⟩

/-- Either the description fails, or the buffer holds the table of the finalised bus. -/
theorem wp_getDescription (hs : vb.Sound) (hb : s.bus g = some vb) (ht : vb.total < 2 ^ 32)
    (hfit : Fits vb.vdevList) (pa : UInt64) (sz : UInt32) (env : Env) :
    wp (virtioGetDescription pa sz env g) (fun r t => r < 0 ∨ r = vb.total ∧
      t.bus g = some vb.ready ∧ Described vb.ready s.described pa.toNat t.mem ∧
      ∀ p, p < pa.toNat ∨ pa.toNat + vb.total ≤ p → t.mem p = s.mem p) noStop s := by
  have hlaid := hs.ready_laid ht
  have htotal : vb.ready.total = vb.total := vb.total_ready
  rw [virtioGetDescription, wp_bind]
  refine wp_getGuestVirtioBus ?_
  intro ret
  rw [wp_ite]
  split
  · exact Or.inl (by decide)
  · refine wp_seq (wp_finalize hb) ?_
    rintro ret t ⟨hneg, hbus, hmem, hk⟩
    rw [wp_ite]
    split
    · rename_i hne
      exact Or.inl (lt_of_le_of_ne hneg hne)
    · rename_i hret
      have hbus := hbus (not_not.mp hret)
      rw [describe, wp_bind]
      refine wp_readBus hbus ?_
      rw [wp_ite]
      split
      · exact Or.inl (by decide)
      · rw [wp_ite]
        split
        · rename_i hmap
          exact Or.inl (mapDescr_le hmap)
        · have hlen : vb.ready.total ≤ roundup vb.ready.descrSize.toUInt32.toNat :=
            hlaid.window (htotal ▸ ht)
          refine wp_seq (wp_buildTable hlaid hfit.ready hlen) ?_
          intro _ u hu
          have hsame : SameBuses t u := ⟨hu.guest0, hu.addl⟩
          have hlength : (vb.ready.table t.described).length = vb.total := by
            rw [Bus.table, List.length_append, List.length_append, Bus.length_header,
              length_offsetBytes, length_descriptors hfit.ready, ← htotal]
            rfl
          refine Or.inr ⟨?_, (hsame.bus g).trans hbus, ?_, ?_⟩
          · rw [← htotal, ← hlaid.size]
          · have hd := hu.described hlaid hfit.ready
            rwa [hk] at hd
          · intro p hp
            have hout := hu.outside p (by rw [hlength]; exact hp)
            rwa [hmem] at hout

/-! ## The start -/

/-- What `virtio_start` hands to the devices: a copy of the buffer, to each with its
own offset. -/
def Bus.probes (vb : Bus) (g : UInt32) (descr : List UInt8) : List Probe :=
  vb.vdevList.map (fun vd => ⟨g, vd.devid, descr, vd.descrOffset⟩)

theorem wp_start (hs : vb.Sound) (hb : s.bus g = some vb) (ht : vb.total < 2 ^ 32)
    (pa : UInt64) (sz : UInt32) (env : Env) :
    wp (virtioStart pa sz env g) (fun r t => (r < 0 → t.probed = s.probed) ∧ (¬r < 0 → vb.Laid ∧
      t.probed = s.probed ++ vb.probes g (slice s.mem pa.toNat vb.total))) noStop s := by
  rw [virtioStart, wp_bind]
  refine wp_getGuestVirtioBus ?_
  intro ret
  rw [wp_ite]
  split
  · exact ⟨fun _ => rfl, fun h => absurd (by decide) h⟩
  · rw [wp_bind]
    refine wp_readBus hb ?_
    rw [wp_ite]
    split
    · exact ⟨fun _ => rfl, fun h => absurd (by decide) h⟩
    · rename_i hidle
      have hne : vb.state ≠ .uninitialized := by
        rw [not_not.mp hidle]
        decide
      have hlaid := hs.laid_of_finalized hne ht
      have hprobed : ∀ (u : State) (vb' : Bus), (u.setBus g vb').probed = u.probed := by
        intro u vb'
        rw [State.setBus]
        split <;> rfl
      have hmem : ∀ (u : State) (vb' : Bus), (u.setBus g vb').mem = u.mem := by
        intro u vb'
        rw [State.setBus]
        split <;> rfl
      have hback : ∀ ret : Int, ret < 0 → wp (startFailed g vb ret)
          (fun r t => (r < 0 → t.probed = s.probed) ∧ (¬r < 0 → vb.Laid ∧
            t.probed = s.probed ++ vb.probes g (slice s.mem pa.toNat vb.total))) noStop
          (s.setBus g { vb with state := .activating }) := by
        intro ret hret
        rw [startFailed, wp_bind, writeBus, wp_modify]
        exact ⟨fun _ => (hprobed _ _).trans (hprobed _ _), fun h => absurd hret h⟩
      rw [wp_bind, writeBus, wp_modify, startIdle, wp_ite]
      split
      · exact hback _ (by decide)
      · rename_i hsz
        have hsz : sz.toNat = vb.total := by
          have hnat := congrArg UInt64.toNat (not_not.mp hsz)
          rwa [UInt32.toNat_toUInt64, hlaid.size] at hnat
        rw [wp_ite]
        split
        · exact hback _ (by decide)
        · rw [wp_ite]
          split
          · rename_i hmap
            exact hback _ (mapDescr_le hmap)
          · have hin : 0 + sz.toNat ≤ roundup vb.descrSize.toUInt32.toNat := by
              rw [hsz, Nat.zero_add]
              exact hlaid.window ht
            rw [wp_bind, Window.load, wp_bind, wp_get, wp_ite, if_pos hin, wp_pure, wp_bind,
              probeVdevs, wp_modify, wp_bind, writeBus, wp_modify]
            refine ⟨fun h => absurd h (by decide), fun _ => ⟨hlaid, ?_⟩⟩
            rw [hprobed, hmem, hprobed, hsz]
            rfl

/-! ## Registration -/

theorem wp_register_finalized (hb : s.bus g = some vb) (hs : vb.state ≠ .uninitialized)
    (vd : Option (Option VdevOps)) :
    wp (virtioRegisterDevice vd g) (fun r t => r < 0 ∧ t.bus g = some vb) noStop s := by
  rw [virtioRegisterDevice, wp_bind, wp_modify, wp_bind]
  have hsame : SameBuses s { s with numGuests := s.numGuests + 1 } := ⟨rfl, rfl⟩
  have hb' := (hsame.bus g).trans hb
  refine wp_getGuestVirtioBus ?_
  intro ret
  rw [wp_ite]
  split
  · exact ⟨by decide, hb'⟩
  · rw [wp_bind]
    refine wp_readBus hb' ?_
    rw [wp_ite, if_neg hs]
    exact ⟨by decide, hb'⟩

/-- In every reachable state, for a bus whose devices' descriptors fit in 32 bits and
write no more than they say:  a description that succeeds leaves in the buffer a table
whose parts are disjoint and cover it, with every device's descriptor at the offset
that the table names; a start that succeeds hands every device its own part of the
buffer; and once the bus is finalised it takes no device and keeps its offsets. -/
theorem resourceTable_correct {ok : State → Op → Prop} (hreach : machine.Reachable ok s)
    (hb : s.bus g = some vb)
    (htotal : sizeofResourceTable + 4 * vb.vdevList.length +
      (vb.vdevList.map (fun vd => vd.descrSz.toNat)).sum < 2 ^ 32)
    (hfit : ∀ vd ∈ vb.vdevList, ∀ k, (vd.getDescr k).length ≤ vd.descrSz.toNat)
    (pa : UInt64) (sz : UInt32) (env : Env) :
    wp (virtioGetDescription pa sz env g) (fun r t => r < 0 ∨ ∃ vb', t.bus g = some vb' ∧
      vb'.state ≠ .uninitialized ∧ r = vb'.descrSize.toNat ∧
      vb'.vdevList.map (fun vd => (vd.devid, vd.descrSz, vd.getDescr)) =
        vb.vdevList.map (fun vd => (vd.devid, vd.descrSz, vd.getDescr)) ∧
      vb'.ranges.Pairwise (fun a b => a.1 + a.2 ≤ b.1) ∧
      (∀ p, (∃ a ∈ vb'.ranges, Range.Contains a p) ↔ p < vb'.descrSize.toNat) ∧
      Described vb' s.described pa.toNat t.mem ∧
      ∀ p, p < pa.toNat ∨ pa.toNat + vb'.descrSize.toNat ≤ p → t.mem p = s.mem p) noStop s ∧
    wp (virtioStart pa sz env g) (fun r t => (r < 0 → t.probed = s.probed) ∧
      (¬r < 0 → ∃ descr : List UInt8, descr.length = vb.descrSize.toNat ∧
        t.probed = s.probed ++ vb.probes g descr ∧
        ∀ vd ∈ vb.vdevList, (descr.drop vd.descrOffset.toNat).take vd.descrSz.toNat =
          slice s.mem (pa.toNat + vd.descrOffset.toNat) vd.descrSz.toNat)) noStop s ∧
    (vb.state ≠ .uninitialized →
      (∀ vd, wp (virtioRegisterDevice vd g) (fun r t => r < 0 ∧ t.bus g = some vb) noStop s) ∧
      ∀ t, Relation.ReflTransGen (machine.Step (fun _ a => a.Call)) s t →
        ∃ vb', t.bus g = some vb' ∧ vb.Frozen vb') := by
  have hsound := sound_of_reachable hreach
  have hs := hsound g vb hb
  have ht : vb.total < 2 ^ 32 := htotal
  refine ⟨?_, ?_, ?_⟩
  · refine wp_conseq (wp_getDescription hs hb ht hfit pa sz env) ?_
    rintro r t (hneg | ⟨hr, hbus, hdescr, hout⟩)
    · exact Or.inl hneg
    · have hlaid := hs.ready_laid ht
      have hsize : vb.ready.descrSize.toNat = vb.total := by
        rw [hlaid.size, vb.total_ready]
      have hready : vb.ready.state ≠ .uninitialized := by
        rw [Bus.ready]
        split
        · exact fun h => BusState.noConfusion h
        · assumption
      refine Or.inr ⟨vb.ready, hbus, hready, ?_, ?_, hlaid.pairwise, hlaid.covered, hdescr, ?_⟩
      · rw [hr, hsize]
      · rw [Bus.ready]
        split
        · exact placeVdevs_devices _ _
        · rfl
      · rw [hsize]
        exact hout
  · refine wp_conseq (wp_start hs hb ht pa sz env) ?_
    rintro r t ⟨hneg, hok⟩
    refine ⟨hneg, fun hr => ?_⟩
    obtain ⟨hlaid, hprobed⟩ := hok hr
    refine ⟨_, ?_, hprobed, ?_⟩
    · rw [length_slice, hlaid.size]
    · intro vd hmem
      exact slice_window s.mem pa.toNat (hlaid.descr_le hmem)
  · intro hst
    refine ⟨wp_register_finalized hb hst, ?_⟩
    intro t hcalls
    exact keeps_of_calls hsound hcalls g vb hb hst

/-! A bus of one device, whose descriptor has 3 bytes. -/

def oneDevice : Op :=
  .register (some (some ⟨some 3, some (fun _ => [7, 7]), true, true, true⟩)) 0

def anyEnv : Env := ⟨none, none, true⟩

theorem oneDevice_table :
    ∃ r t vb, virtioGetDescription 4096 64 anyEnv 0 (stateOf (oneDevice.run machine.init)) = .ok r t ∧
      t.bus 0 = some vb ∧ r = 23 ∧ vb.descrSize.toNat = 23 ∧
      (∀ p, (∃ a ∈ vb.ranges, Range.Contains a p) ↔ p < 23) := by
  have hreach : machine.Reachable (fun _ _ => True) (stateOf (machine.run oneDevice machine.init)) :=
    Machine.Reachable.init.step trivial trivial (by decide +kernel)
  obtain ⟨vb, hvb⟩ : ∃ vb, (stateOf (oneDevice.run machine.init)).bus 0 = some vb := ⟨_, rfl⟩
  have hfit : ∀ vd ∈ vb.vdevList, ∀ k, (vd.getDescr k).length ≤ vd.descrSz.toNat := by
    cases hvb
    intro vd hmem k
    obtain rfl := List.mem_singleton.mp hmem
    show 2 ≤ 3
    decide
  have hcorrect := resourceTable_correct hreach hvb
    (by cases hvb; decide +kernel) hfit 4096 64 anyEnv
  obtain ⟨r, hr⟩ := eq_ok_of_returns
    (r := virtioGetDescription 4096 64 anyEnv 0 (stateOf (oneDevice.run machine.init)))
    (by decide +kernel)
  have hval : valueOf (virtioGetDescription 4096 64 anyEnv 0
      (stateOf (oneDevice.run machine.init))) = some 23 := by decide +kernel
  rw [hr] at hval
  obtain rfl : r = 23 := Option.some.inj hval
  obtain hneg | ⟨vb', hb', -, hsize, -, -, hcover, -⟩ := wp_ok hcorrect.1 hr
  · exact absurd hneg (by decide)
  · have hsize : vb'.descrSize.toNat = 23 := (Int.ofNat_inj.mp hsize).symm
    refine ⟨23, _, vb', hr, hb', rfl, hsize, ?_⟩
    rwa [hsize] at hcover

end TX2SecureUart.Virtio
