/-
# `Virtio.Chain` — the descriptors of a buffer

The other side links descriptors into chains, and may link anything to anything: a chain may
leave the table, go round in circles or be too long.  The loop of `vqueue_get_avail_buf` ends
all the same, and succeeds only on a chain that ends and fits.
-/
import TX2SecureUart.Virtio.VqueueRuns

namespace TX2SecureUart.Vqueue

open Tipc

variable (table : Nat → VringDesc) (num : UInt32)

/-- The descriptors from a head on, to the one that has no next. -/
inductive Chain : UInt16 → List VringDesc → Prop
  | last {i : UInt16} (hin : i.toUInt32 < num) (hflag : (table i.toNat).flags &&& vringDescFNext = 0) :
      Chain i [table i.toNat]
  | next {i : UInt16} {ds : List VringDesc} (hin : i.toUInt32 < num)
      (hflag : (table i.toNat).flags &&& vringDescFNext ≠ 0) (h : Chain (table i.toNat).next ds) :
      Chain i (table i.toNat :: ds)

def VringDesc.writes (d : VringDesc) : Bool := decide (d.flags &&& vringDescFWrite ≠ 0)

/-- The descriptors of one direction. -/
def direction (write : Bool) (ds : List VringDesc) : List VringDesc := ds.filter fun d => d.writes = write

/-- The used iovecs are these descriptors. -/
structure Gathers (l : VqueueIovs) (ds : List VringDesc) : Prop where
  used_eq : l.used = ds.length
  iovs_eq : (l.iovs.take l.used).map (fun v => (v.phys, v.len)) = ds.map fun d => (d.addr, d.len.toUInt64)

theorem Gathers.put {l : VqueueIovs} {ds : List VringDesc} (h : Gathers l ds) (d : VringDesc)
    (hroom : l.used < l.iovs.length) : Gathers (putIov l d.len d.addr hroom) (ds ++ [d]) := by
  constructor
  · show l.used + 1 = _
    rw [h.used_eq, List.length_append, List.length_singleton]
  · show ((l.iovs.modify l.used _).take (l.used + 1)).map _ = _
    rw [List.take_add_one, List.map_append, List.map_append, ← h.iovs_eq, List.take_modify,
      List.modify_eq_self (by rw [List.length_take]; exact Nat.min_le_left _ _),
      List.getElem?_modify_eq, List.getElem?_eq_getElem hroom]
    rfl

theorem VqBuf.iovs_set (buf : VqBuf) (write : Bool) (l : VqueueIovs) : (buf.setIovs write l).iovs write = l := by
  cases write <;> rfl

theorem VqBuf.iovs_set_ne (buf : VqBuf) {write other : Bool} (hne : other ≠ write) (l : VqueueIovs) :
    (buf.setIovs write l).iovs other = buf.iovs other := by
  cases write <;> cases other <;> first | rfl | exact absurd rfl hne

theorem direction_cons_same {d : VringDesc} (ds : List VringDesc) :
    direction d.writes (d :: ds) = d :: direction d.writes ds :=
  List.filter_cons_of_pos (decide_eq_true rfl)

theorem direction_cons_ne {d : VringDesc} {write : Bool} (hne : write ≠ d.writes) (ds : List VringDesc) :
    direction write (d :: ds) = direction write ds :=
  List.filter_cons_of_neg fun h => hne (of_decide_eq_true h).symm

/-! ## The loop -/

/-- What both directions have taken so far. -/
def Taken (buf : VqBuf) (before : Bool → List VringDesc) : Prop :=
  ∀ write, Gathers (buf.iovs write) (before write)

/-- The rest of a chain still fits. -/
def Fits (buf : VqBuf) (ds : List VringDesc) : Prop :=
  ∀ write, (buf.iovs write).used + (direction write ds).length ≤ (buf.iovs write).iovs.length

variable {table num} {buf buf' : VqBuf} {d : VringDesc} {ds : List VringDesc}

/-- The descriptor that a pass puts into its direction. -/
def VqBuf.with (buf : VqBuf) (d : VringDesc)
    (h : (buf.iovs d.writes).used < (buf.iovs d.writes).iovs.length) : VqBuf :=
  buf.setIovs d.writes (putIov (buf.iovs d.writes) d.len d.addr h)

theorem Taken.with {before : Bool → List VringDesc} (h : Taken buf before)
    (hroom : (buf.iovs d.writes).used < (buf.iovs d.writes).iovs.length) :
    Taken (buf.with d hroom) fun write => before write ++ direction write [d] := by
  intro write
  rw [VqBuf.with]
  by_cases hw : write = d.writes
  · subst hw
    show Gathers _ (before d.writes ++ direction d.writes [d])
    rw [VqBuf.iovs_set, direction_cons_same]
    exact (h d.writes).put d hroom
  · show Gathers _ (before write ++ direction write [d])
    rw [VqBuf.iovs_set_ne _ hw, direction_cons_ne hw]
    exact (List.append_nil (before write)).symm ▸ h write

/-- The rest fits after a pass, when all of it did before. -/
theorem fits_with (hroom : (buf.iovs d.writes).used < (buf.iovs d.writes).iovs.length) :
    Fits (buf.with d hroom) ds ↔ Fits buf (d :: ds) := by
  have hside : ∀ write, (((buf.with d hroom).iovs write).used + (direction write ds).length ≤
      ((buf.with d hroom).iovs write).iovs.length ↔
      (buf.iovs write).used + (direction write (d :: ds)).length ≤ (buf.iovs write).iovs.length) := by
    intro write
    rw [VqBuf.with]
    by_cases hw : write = d.writes
    · subst hw
      rw [VqBuf.iovs_set, direction_cons_same, putIov, List.length_modify, List.length_cons]
      show _ + 1 + _ ≤ _ ↔ _
      rw [Nat.add_assoc, Nat.add_comm 1]
    · rw [VqBuf.iovs_set_ne _ hw, direction_cons_ne hw]
  exact forall_congr' hside

theorem not_fits (hroom : ¬ (buf.iovs d.writes).used < (buf.iovs d.writes).iovs.length) :
    ¬ Fits buf (d :: ds) := by
  intro h
  have hd := h d.writes
  rw [direction_cons_same, List.length_cons] at hd
  omega

/-- The loop succeeds on a chain that ends in the table and fits, and then it has all of it. -/
theorem gather_chain {vq vq' : Vqueue} {fuel k : Nat} {nextIdx : UInt16} {code : Int}
    {before : Bool → List VringDesc} (hnum : vq.num = num) (h : Taken buf before)
    (hret : gather (fun _ => table) vq fuel k nextIdx buf = .ret code vq' buf') :
    (code = noError ↔ ∃ ds, Chain table num nextIdx ds ∧ Fits buf ds) ∧
      (code = noError → ∃ ds, Chain table num nextIdx ds ∧
        Taken buf' fun write => before write ++ direction write ds) := by
  induction fuel generalizing k nextIdx buf before with
  | zero => cases hret
  | succ fuel ih =>
    rw [gather, hnum] at hret
    split at hret
    · next hout =>
      have hnone : ¬ ∃ ds, Chain table num nextIdx ds ∧ Fits buf ds := by
        rintro ⟨ds, hchain, -⟩
        cases hchain with
        | last hin => exact absurd hin (UInt32.not_lt.mpr hout)
        | next hin => exact absurd hin (UInt32.not_lt.mpr hout)
      cases hret
      exact ⟨iff_of_false (by decide) hnone, fun hok => absurd hok (by decide)⟩
    · next hin =>
      have hin' : nextIdx.toUInt32 < num := UInt32.not_le.mp hin
      dsimp only at hret
      split at hret
      · next hroom =>
        rw [if_neg (not_not.mpr rfl)] at hret
        have htaken := h.with (d := table nextIdx.toNat) hroom
        split at hret
        · next hflag =>
          obtain ⟨hiff, hall⟩ := ih htaken hret
          have hmore : (∃ ds, Chain table num (table nextIdx.toNat).next ds ∧
              Fits (buf.with (table nextIdx.toNat) hroom) ds) ↔
              ∃ ds, Chain table num nextIdx ds ∧ Fits buf ds := by
            constructor
            · rintro ⟨ds, hchain, hfits⟩
              exact ⟨_, .next hin' hflag hchain, (fits_with hroom).mp hfits⟩
            · rintro ⟨ds, hchain, hfits⟩
              cases hchain with
              | last _ hend => exact absurd hend hflag
              | next _ _ hchain => exact ⟨_, hchain, (fits_with hroom).mpr hfits⟩
          refine ⟨hiff.trans hmore, ?_⟩
          intro hok
          obtain ⟨ds, hchain, htook⟩ := hall hok
          refine ⟨_, .next hin' hflag hchain, ?_⟩
          intro write
          have hw : Gathers _ (before write ++ direction write [table nextIdx.toNat] ++ direction write ds) :=
            htook write
          rw [List.append_assoc, direction, direction, ← List.filter_append] at hw
          exact hw
        · next hflag =>
          have hend := not_not.mp hflag
          have hfits : Fits buf [table nextIdx.toNat] := by
            refine (fits_with hroom).mp ?_
            intro write
            exact ((buf.with (table nextIdx.toNat) hroom).iovs write).used_le
          cases hret
          exact ⟨iff_of_true rfl ⟨_, .last hin' hend, hfits⟩, fun _ => ⟨_, .last hin' hend, htaken⟩⟩
      · next hroom =>
        have hnone : ¬ ∃ ds, Chain table num nextIdx ds ∧ Fits buf ds := by
          rintro ⟨ds, hchain, hfits⟩
          cases hchain with
          | last => exact not_fits hroom hfits
          | next => exact not_fits hroom hfits
        cases hret
        exact ⟨iff_of_false (by decide) hnone, fun hok => absurd hok (by decide)⟩

/-! ## A buffer -/

/-- A buffer that is taken off is handed on exactly when its descriptors are a chain that ends and
fits; then the iovecs are the descriptors of the chain, in their order and by their direction. -/
theorem getAvailBuf_chain {look : Nat → VringAvail} {vq vq' : Vqueue} {code : Int} (hmapped : vq.mapped = true)
    (hret : vqueueGetAvailBuf (fun _ => table) look vq buf = .ret code vq' buf')
    (htook : vq'.lastAvailIdx ≠ vq.lastAvailIdx) :
    (code = noError ↔ ∃ ds, Chain table vq.num buf'.head ds ∧
      (direction false ds).length ≤ buf.inIovs.iovs.length ∧
      (direction true ds).length ≤ buf.outIovs.iovs.length) ∧
    (code = noError → ∃ ds, Chain table vq.num buf'.head ds ∧
      Gathers buf'.inIovs (direction false ds) ∧ Gathers buf'.outIovs (direction true ds)) := by
  have htake : ∃ vq₁, vq₁.num = vq.num ∧ takeHead (fun _ => table) look vq₁ buf = .ret code vq' buf' := by
    rw [vqueueGetAvailBuf, if_neg (by rw [hmapped]; exact Bool.noConfusion)] at hret
    split at hret
    · cases hret
    · split at hret
      · split at hret
        · cases hret
          exact absurd rfl htook
        · refine ⟨_, ?_, hret⟩
          rfl
      · exact ⟨vq, rfl, hret⟩
  obtain ⟨vq₁, hnum, hret⟩ := htake
  have hhead := (takeHead_ret hret).2
  rw [takeHead] at hret
  dsimp only at hret
  split at hret
  · cases hret
  · rw [← hhead] at hret
    have hstart : Taken ⟨buf'.head, VqueueIovs.cleared buf.inIovs, VqueueIovs.cleared buf.outIovs⟩
        fun _ => [] := by
      intro write
      cases write
      all_goals exact ⟨rfl, rfl⟩
    have hnum' : ({ vq₁ with lastAvailIdx := vq₁.lastAvailIdx + 1 } : Vqueue).num = vq.num := hnum
    obtain ⟨hiff, hall⟩ := gather_chain hnum' hstart hret
    constructor
    · refine hiff.trans (exists_congr fun ds => and_congr_right fun _ => ?_)
      constructor
      · intro hfits
        have hin := hfits false
        have hout := hfits true
        exact ⟨(Nat.zero_add _).symm.le.trans hin, (Nat.zero_add _).symm.le.trans hout⟩
      · rintro ⟨hin, hout⟩ write
        cases write with
        | false => exact (Nat.zero_add _).le.trans hin
        | true => exact (Nat.zero_add _).le.trans hout
    · intro hok
      obtain ⟨ds, hchain, htaken⟩ := hall hok
      exact ⟨ds, hchain, htaken false, htaken true⟩

/-- A buffer to be written to, and one to be read behind it. -/
def twoLinks : Nat → VringDesc
  | 2 => ⟨0x1000, 8, 3, 0⟩
  | _ => ⟨0x2000, 16, 0, 0⟩

def oneEach : VqBuf := ⟨0, ⟨0, [⟨0, 0, 0⟩], Nat.zero_le 1⟩, ⟨0, [⟨0, 0, 0⟩], Nat.zero_le 1⟩⟩

def oneEachFilled : VqBuf :=
  ⟨2, ⟨1, [⟨0x2000, 0, 16⟩], Nat.le_refl 1⟩, ⟨1, [⟨0x1000, 0, 8⟩], Nat.le_refl 1⟩⟩

theorem twoLinks_gathered : ∃ ds, Chain twoLinks 4 2 ds ∧
    Gathers oneEachFilled.inIovs (direction false ds) ∧ Gathers oneEachFilled.outIovs (direction true ds) := by
  have hret : vqueueGetAvailBuf (fun _ => twoLinks) (fun _ => ⟨1, fun _ => 2⟩) emptyLink.vq oneEach =
      .ret noError { emptyLink.vq with lastAvailIdx := 1 } oneEachFilled := rfl
  exact (getAvailBuf_chain rfl hret (by decide)).2 rfl

end TX2SecureUart.Vqueue
