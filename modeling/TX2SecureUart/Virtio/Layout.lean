/-
# `Virtio.Layout` — the offsets of a finalised bus

Finalising a bus twice is finalising it once, so the offsets of a bus that is
finalised are those that another finalisation would give.  When all descriptors fit
in 32 bits, the header, the table of the offsets and the descriptors lie one behind
the other.
-/
import TX2SecureUart.Virtio.Bus
import TX2SecureUart.Lib.Tiling

namespace TX2SecureUart.Virtio

open Tiling

variable {vb : Bus} {vds : List Vdev} {off : UInt32}

def sizes (vds : List Vdev) : List Nat :=
  vds.map (fun vd => vd.descrSz.toNat)

/-- The size of the whole resource table. -/
def Bus.total (vb : Bus) : Nat :=
  sizeofResourceTable + 4 * vb.vdevList.length + (sizes vb.vdevList).sum

/-- The header, the table of the offsets and the descriptors. -/
def Bus.ranges (vb : Bus) : List Range :=
  (0, sizeofResourceTable) :: (sizeofResourceTable, 4 * vb.vdevList.length) ::
    vb.vdevList.map (fun vd => (vd.descrOffset.toNat, vd.descrSz.toNat))

/-! ## Placing the descriptors -/

@[simp] theorem length_placeVdevs (off : UInt32) (vds : List Vdev) :
    (placeVdevs off vds).1.length = vds.length := by
  induction vds generalizing off with
  | nil => rfl
  | cons vd vds ih =>
      rw [placeVdevs]
      show (_ :: (placeVdevs _ vds).1).length = _
      rw [List.length_cons, ih, List.length_cons]

@[simp] theorem sizes_placeVdevs (off : UInt32) (vds : List Vdev) :
    sizes (placeVdevs off vds).1 = sizes vds := by
  induction vds generalizing off with
  | nil => rfl
  | cons vd vds ih => exact congrArg (vd.descrSz.toNat :: ·) (ih _)

theorem placeVdevs_placeVdevs (off : UInt32) (vds : List Vdev) :
    placeVdevs off (placeVdevs off vds).1 = placeVdevs off vds := by
  induction vds generalizing off with
  | nil => rfl
  | cons vd vds ih =>
      have hrest := ih (UInt32.ofNat (off.toNat + vd.descrSz.toNat))
      simp only [placeVdevs, hrest]

/-- Placing changes nothing but the offsets. -/
theorem placeVdevs_devices (off : UInt32) (vds : List Vdev) :
    (placeVdevs off vds).1.map (fun vd => (vd.devid, vd.descrSz, vd.getDescr)) =
      vds.map (fun vd => (vd.devid, vd.descrSz, vd.getDescr)) := by
  induction vds generalizing off with
  | nil => rfl
  | cons vd vds ih => exact congrArg ((vd.devid, vd.descrSz, vd.getDescr) :: ·) (ih _)

/-- What `get_descr` writes is the same for a device that is placed. -/
theorem exists_of_mem_placeVdevs {vd : Vdev} (h : vd ∈ (placeVdevs off vds).1) :
    ∃ vd' ∈ vds, vd.descrSz = vd'.descrSz ∧ vd.getDescr = vd'.getDescr := by
  have hmem := List.mem_map_of_mem (f := fun vd => (vd.devid, vd.descrSz, vd.getDescr)) h
  rw [placeVdevs_devices] at hmem
  obtain ⟨vd', hvd', heq⟩ := List.mem_map.mp hmem
  obtain ⟨-, heq⟩ := Prod.mk.inj heq
  obtain ⟨hsz, hdescr⟩ := Prod.mk.inj heq
  exact ⟨vd', hvd', hsz.symm, hdescr.symm⟩

/-- Without a wrap the descriptors lie one behind the other. -/
theorem placeVdevs_spec (h : off.toNat + (sizes vds).sum < 2 ^ 32) :
    (placeVdevs off vds).2.toNat = off.toNat + (sizes vds).sum ∧
      (placeVdevs off vds).1.map (fun vd => (vd.descrOffset.toNat, vd.descrSz.toNat)) =
        consecutive off.toNat (sizes vds) := by
  induction vds generalizing off with
  | nil => exact ⟨rfl, rfl⟩
  | cons vd vds ih =>
      have hsum : (sizes (vd :: vds)).sum = vd.descrSz.toNat + (sizes vds).sum := List.sum_cons
      rw [hsum] at h
      have hoff : (UInt32.ofNat (off.toNat + vd.descrSz.toNat)).toNat =
          off.toNat + vd.descrSz.toNat := UInt32.toNat_ofNat_of_lt' (by
        show _ < 2 ^ 32
        omega)
      have hrest : (UInt32.ofNat (off.toNat + vd.descrSz.toNat)).toNat + (sizes vds).sum < 2 ^ 32 := by
        rw [hoff]
        omega
      obtain ⟨hend, hranges⟩ := ih hrest
      rw [hoff] at hend hranges
      refine ⟨?_, ?_⟩
      · rw [hsum, ← Nat.add_assoc]
        exact hend
      · exact congrArg ((off.toNat, vd.descrSz.toNat) :: ·) hranges

/-! ## Buses -/

/-- What every bus keeps: its devices are counted, and once it is finalised another
finalisation would change nothing. -/
structure Bus.Sound (vb : Bus) : Prop where
  cnt : vb.vdevCnt = UInt32.ofNat vb.vdevList.length
  placed : vb.state ≠ .uninitialized → vb.finalize = { vb with state := .idle }

theorem Bus.sound_fresh : Bus.fresh.Sound := ⟨rfl, fun h => absurd rfl h⟩

theorem Bus.Sound.add (h : vb.Sound) (hu : vb.state = .uninitialized)
    (dev : UInt64 × (Nat → List UInt8)) : (vb.add dev).Sound where
  cnt := by
    show vb.vdevCnt + 1 = UInt32.ofNat (vb.vdevList ++ [_]).length
    rw [h.cnt, List.length_append, List.length_singleton, UInt32.ofNat_add]
    rfl
  placed := fun hs => absurd hu hs

theorem Bus.Sound.finalize (h : vb.Sound) : vb.finalize.Sound where
  cnt := by
    show vb.vdevCnt = UInt32.ofNat (placeVdevs vb.descrStart vb.vdevList).1.length
    rw [length_placeVdevs]
    exact h.cnt
  placed := by
    intro _
    show vb.finalize.finalize = vb.finalize
    have hstart : vb.finalize.descrStart = vb.descrStart := rfl
    have htwice : placeVdevs vb.finalize.descrStart vb.finalize.vdevList =
        placeVdevs vb.descrStart vb.vdevList := placeVdevs_placeVdevs _ _
    rw [Bus.finalize, htwice]
    rfl

/-- The state of a finalised bus plays no part. -/
theorem Bus.Sound.setState (h : vb.Sound) (hs : vb.state ≠ .uninitialized) (state : BusState) :
    Bus.Sound { vb with state := state } where
  cnt := h.cnt
  placed := fun _ => h.placed hs

@[simp] theorem Bus.total_finalize (vb : Bus) : vb.finalize.total = vb.total := by
  show sizeofResourceTable + 4 * (placeVdevs _ _).1.length + (sizes (placeVdevs _ _).1).sum = _
  rw [length_placeVdevs, sizes_placeVdevs]
  rfl

/-- A finalised bus whose descriptors fit. -/
structure Bus.Laid (vb : Bus) : Prop where
  cnt : vb.vdevCnt.toNat = vb.vdevList.length
  size : vb.descrSize.toNat = vb.total
  ranges : vb.ranges = consecutive 0
    (sizeofResourceTable :: 4 * vb.vdevList.length :: sizes vb.vdevList)

theorem Bus.Sound.laid (h : vb.Sound) (ht : vb.total < 2 ^ 32) : vb.finalize.Laid := by
  have hn : 4 * vb.vdevList.length < 2 ^ 32 := by
    rw [Bus.total] at ht
    omega
  have hcnt : vb.vdevCnt.toNat = vb.vdevList.length := by
    rw [h.cnt, UInt32.toNat_ofNat_of_lt']
    show _ < 2 ^ 32
    omega
  have hstart : vb.descrStart.toNat = sizeofResourceTable + 4 * vb.vdevList.length := by
    rw [Bus.descrStart, hcnt, UInt32.toNat_ofNat_of_lt']
    show _ < 2 ^ 32
    rw [Bus.total] at ht
    omega
  have hfit : vb.descrStart.toNat + (sizes vb.vdevList).sum < 2 ^ 32 := by
    rw [hstart]
    exact ht
  obtain ⟨hend, hranges⟩ := placeVdevs_spec hfit
  rw [hstart] at hend hranges
  refine ⟨?_, ?_, ?_⟩
  · show vb.vdevCnt.toNat = (placeVdevs _ _).1.length
    rw [length_placeVdevs, hcnt]
  · show (placeVdevs vb.descrStart vb.vdevList).2.toUInt64.toNat = _
    rw [UInt32.toNat_toUInt64, hend, Bus.total_finalize]
    rfl
  · show _ :: (_, 4 * (placeVdevs _ _).1.length) :: (placeVdevs _ _).1.map _ =
      consecutive 0 (_ :: 4 * (placeVdevs _ _).1.length :: sizes (placeVdevs _ _).1)
    rw [length_placeVdevs, sizes_placeVdevs, hranges, consecutive, consecutive]
    rfl

theorem Bus.Laid.setState (h : vb.Laid) (state : BusState) : Bus.Laid { vb with state := state } :=
  ⟨h.cnt, h.size, h.ranges⟩

/-- The descriptors of a bus that is finalised already. -/
theorem Bus.Sound.laid_of_finalized (h : vb.Sound) (hs : vb.state ≠ .uninitialized)
    (ht : vb.total < 2 ^ 32) : vb.Laid := by
  have hl := h.laid ht
  rw [h.placed hs] at hl
  exact ⟨hl.cnt, hl.size, hl.ranges⟩

theorem Bus.Laid.total_eq_sum (vb : Bus) :
    (sizeofResourceTable :: 4 * vb.vdevList.length :: sizes vb.vdevList).sum = vb.total := by
  rw [List.sum_cons, List.sum_cons, Bus.total, Nat.add_assoc]

/-- The ranges are disjoint. -/
theorem Bus.Laid.pairwise (h : vb.Laid) :
    vb.ranges.Pairwise (fun r r' => r.1 + r.2 ≤ r'.1) := by
  rw [h.ranges]
  exact pairwise_consecutive _ _

/-- The ranges cover the whole table and nothing else. -/
theorem Bus.Laid.covered (h : vb.Laid) (p : Nat) :
    (∃ r ∈ vb.ranges, Range.Contains r p) ↔ p < vb.descrSize.toNat := by
  rw [h.ranges, covered_iff, Bus.Laid.total_eq_sum, h.size]
  omega

/-- Every descriptor ends in the table. -/
theorem Bus.Laid.descr_le (h : vb.Laid) {vd : Vdev} (hmem : vd ∈ vb.vdevList) :
    vd.descrOffset.toNat + vd.descrSz.toNat ≤ vb.total := by
  have hr : (vd.descrOffset.toNat, vd.descrSz.toNat) ∈ vb.ranges :=
    List.mem_cons_of_mem _ (List.mem_cons_of_mem _ (List.mem_map.mpr ⟨vd, hmem, rfl⟩))
  rw [h.ranges] at hr
  have hle := (le_of_mem hr).2
  rw [Bus.Laid.total_eq_sum] at hle
  omega

end TX2SecureUart.Virtio
