/-
# `Virtio.Table` — the resource table in its buffer

The table is built in place, on zeros.  The loop over the devices fills the table of
the offsets and the descriptors from their beginnings on, and what is not yet filled
is zero.
-/
import TX2SecureUart.Virtio.Layout

namespace TX2SecureUart.Virtio

open Prog ByteStore Tiling

variable {vb : Bus} {vds : List Vdev} {w : Window} {s t u : State}

/-! ## The bytes of the table -/

def offsetBytes (vds : List Vdev) : List UInt8 :=
  (vds.map (fun vd => leBytes 4 vd.descrOffset.toNat)).flatten

/-- What the devices write, from the `k`-th call of `get_descr` on, each filled up
with zeros. -/
def descriptors : Nat → List Vdev → List UInt8
  | _, [] => []
  | k, vd :: vds =>
      vd.getDescr k ++ List.replicate (vd.descrSz.toNat - (vd.getDescr k).length) 0 ++
        descriptors (k + 1) vds

def Bus.header (vb : Bus) : List UInt8 :=
  leBytes 4 virtioFwRscVer ++ leBytes 4 vb.vdevCnt.toNat ++ List.replicate 8 0

def Bus.table (vb : Bus) (k : Nat) : List UInt8 :=
  vb.header ++ offsetBytes vb.vdevList ++ descriptors k vb.vdevList

/-- Every device writes no more than it says. -/
def Fits (vds : List Vdev) : Prop :=
  ∀ vd ∈ vds, ∀ k, (vd.getDescr k).length ≤ vd.descrSz.toNat

theorem Fits.place {off : UInt32} (h : Fits vds) : Fits (placeVdevs off vds).1 := by
  intro vd hmem k
  obtain ⟨vd', hmem', hsz, hdescr⟩ := exists_of_mem_placeVdevs hmem
  rw [hsz, hdescr]
  exact h vd' hmem' k

@[simp] theorem Bus.length_header (vb : Bus) : vb.header.length = sizeofResourceTable := by
  rw [Bus.header, List.length_append, List.length_append, length_leBytes, length_leBytes,
    List.length_replicate]
  rfl

/-! ## Writing in the buffer -/

/-- From `s` to `t`, only the buffer changed, and holds these bytes. -/
structure Built (w : Window) (s t : State) (bytes : List UInt8) : Prop where
  fits : bytes.length ≤ w.len
  held : slice t.mem w.pa bytes.length = bytes
  outside : ∀ p, p < w.pa ∨ w.pa + bytes.length ≤ p → t.mem p = s.mem p
  numGuests : t.numGuests = s.numGuests
  guest0 : t.guest0 = s.guest0
  addl : t.addl = s.addl
  probed : t.probed = s.probed

theorem wp_store {Q : Unit → State → Prop} {E : Stop → State → Prop} {off : Nat} {bytes : List UInt8}
    (h : off + bytes.length ≤ w.len) :
    wp (w.store off bytes) Q E s ↔ Q () { s with mem := patch s.mem (w.pa + off) bytes } := by
  rw [Window.store, wp_bind, wp_get, wp_ite, if_pos h, wp_set]

theorem wp_store_middle {E : Stop → State → Prop} {as xs zs : List UInt8} (ys : List UInt8)
    (h : Built w s t (as ++ xs ++ zs)) (hlen : ys.length = xs.length) :
    wp (w.store as.length ys)
      (fun _ u => Built w s u (as ++ ys ++ zs) ∧ u.described = t.described) E t := by
  have hsame : (as ++ ys ++ zs).length = (as ++ xs ++ zs).length := by
    simp only [List.length_append, hlen]
  have hin : as.length + ys.length ≤ (as ++ ys ++ zs).length := by
    simp only [List.length_append]
    omega
  rw [wp_store (Nat.le_trans (hsame ▸ hin) h.fits)]
  refine ⟨⟨hsame ▸ h.fits, ?_, ?_, h.numGuests, h.guest0, h.addl, h.probed⟩, rfl⟩
  · rw [hsame]
    exact slice_patch_middle h.held hlen
  · intro p hp
    rw [hsame] at hp hin
    refine Eq.trans ?_ (h.outside p hp)
    cases hp with
    | inl hp => exact patch_of_lt (by omega)
    | inr hp => exact patch_of_ge (by omega)

/-- What was never filled is zero. -/
theorem replicate_split {m n : Nat} (h : m ≤ n) :
    List.replicate n (0 : UInt8) = List.replicate m 0 ++ List.replicate (n - m) 0 := by
  rw [List.replicate_append_replicate, Nat.add_sub_cancel' h]

/-- The bounds that the loop asserts. -/
theorem assert_of_le (vd : Vdev) {idx : UInt32}
    (hle : vd.descrOffset.toNat + vd.descrSz.toNat ≤ vb.descrSize.toNat)
    (hidx : idx.toNat < vb.vdevCnt.toNat) :
    vd.descrOffset.toUInt64 ≤ vb.descrSize ∧
      vd.descrOffset.toUInt64 + vd.descrSz ≤ vb.descrSize ∧ idx < vb.vdevCnt := by
  have hmax : vb.descrSize.toNat < 2 ^ 64 := vb.descrSize.toNat_lt
  have hoff : vd.descrOffset.toUInt64.toNat = vd.descrOffset.toNat := UInt32.toNat_toUInt64 _
  refine ⟨?_, ?_, hidx⟩
  · rw [UInt64.le_iff_toNat_le, hoff]
    omega
  · rw [UInt64.le_iff_toNat_le, UInt64.toNat_add, hoff, Nat.mod_eq_of_lt]
    · exact hle
    · omega

/-- One device: its offset and its descriptor take the place of zeros. -/
theorem wp_describeVdev {E : Stop → State → Prop} {vd : Vdev} {hdr offs done : List UInt8} {n m : Nat}
    (h : Built w s t (hdr ++ offs ++ List.replicate (4 + n) 0 ++ done ++
      List.replicate (vd.descrSz.toNat + m) 0))
    (hfit : (vd.getDescr t.described).length ≤ vd.descrSz.toNat)
    (hoff : vd.descrOffset.toNat = hdr.length + offs.length + (4 + n) + done.length) :
    wp (do
        w.store (hdr.length + offs.length) (leBytes 4 vd.descrOffset.toNat)
        getDescr w vd)
      (fun _ u => Built w s u (hdr ++ (offs ++ leBytes 4 vd.descrOffset.toNat) ++
          List.replicate n 0 ++ (done ++ (vd.getDescr t.described ++
            List.replicate (vd.descrSz.toNat - (vd.getDescr t.described).length) 0)) ++
          List.replicate m 0) ∧ u.described = t.described + 1) E t := by
  have h₁ : Built w s t ((hdr ++ offs) ++ List.replicate 4 0 ++ (List.replicate n 0 ++ done ++
      List.replicate (vd.descrSz.toNat + m) 0)) := by
    rw [← List.replicate_append_replicate] at h
    simpa only [List.append_assoc] using h
  have hstore := wp_store_middle (E := E) (leBytes 4 vd.descrOffset.toNat) h₁
    (by rw [length_leBytes, List.length_replicate])
  rw [List.length_append] at hstore
  refine wp_seq hstore ?_
  rintro _ v ⟨hv, hdesc⟩
  rw [getDescr, wp_bind, wp_get, wp_bind, wp_set, hdesc]
  have hlen : vd.descrOffset.toNat = (hdr ++ offs ++ leBytes 4 vd.descrOffset.toNat ++
      (List.replicate n 0 ++ done)).length := by
    simp only [List.length_append, length_leBytes, List.length_replicate]
    omega
  have h₂ : Built w s { v with described := t.described + 1 }
      ((hdr ++ offs ++ leBytes 4 vd.descrOffset.toNat ++ (List.replicate n 0 ++ done)) ++
        List.replicate (vd.getDescr t.described).length 0 ++
        (List.replicate (vd.descrSz.toNat - (vd.getDescr t.described).length) 0 ++
          List.replicate m 0)) := by
    have hv' := hv
    rw [← List.replicate_append_replicate, replicate_split hfit] at hv'
    simp only [List.append_assoc] at hv' ⊢
    exact ⟨hv'.fits, hv'.held, hv'.outside, hv'.numGuests, hv'.guest0, hv'.addl, hv'.probed⟩
  have hdescr := wp_store_middle (E := E) (vd.getDescr t.described) h₂
    (by rw [List.length_replicate])
  rw [← hlen] at hdescr
  refine wp_conseq hdescr ?_
  rintro _ x ⟨hx, hk⟩
  refine ⟨?_, hk⟩
  simpa only [List.append_assoc] using hx

/-- The loop over the devices. -/
theorem wp_describeVdevs {E : Stop → State → Prop} {idx : UInt32} {hdr offs done : List UInt8}
    (hfit : Fits vds) (hhdr : hdr.length = sizeofResourceTable) (hoffs : offs.length = 4 * idx.toNat)
    (hcnt : idx.toNat + vds.length = vb.vdevCnt.toNat)
    (hplaced : vds.map (fun vd => (vd.descrOffset.toNat, vd.descrSz.toNat)) =
      consecutive (hdr.length + offs.length + 4 * vds.length + done.length) (sizes vds))
    (hend : hdr.length + offs.length + 4 * vds.length + done.length + (sizes vds).sum =
      vb.descrSize.toNat)
    (h : Built w s t (hdr ++ offs ++ List.replicate (4 * vds.length) 0 ++ done ++
      List.replicate (sizes vds).sum 0)) :
    wp (describeVdevs w vb idx vds)
      (fun _ u => Built w s u (hdr ++ (offs ++ offsetBytes vds) ++
        (done ++ descriptors t.described vds))) E t := by
  induction vds generalizing t idx offs done with
  | nil =>
      have hnone : hdr ++ offs ++ List.replicate (4 * 0) 0 ++ done ++ List.replicate 0 0 =
          hdr ++ (offs ++ []) ++ (done ++ []) := by simp
      exact hnone ▸ h
  | cons vd vds ih =>
      have hsum : (sizes (vd :: vds)).sum = vd.descrSz.toNat + (sizes vds).sum := List.sum_cons
      have hn : 4 * (vd :: vds).length = 4 + 4 * vds.length := by
        rw [List.length_cons]
        omega
      rw [hsum, hn] at h
      rw [hn] at hplaced hend
      rw [hsum] at hend
      obtain ⟨hhead, hrest⟩ := List.cons.inj hplaced
      have hoff : vd.descrOffset.toNat = hdr.length + offs.length + (4 + 4 * vds.length) + done.length :=
        (Prod.mk.inj hhead).1
      rw [List.length_cons] at hcnt
      have hlt : idx.toNat < vb.vdevCnt.toNat := by omega
      have hassert := assert_of_le vd (by omega) hlt
      rw [describeVdevs, wp_ite, if_neg (not_not.mpr hassert)]
      have hone := wp_describeVdev (E := E) h (hfit vd List.mem_cons_self _) hoff
      rw [hhdr, hoffs, wp_bind] at hone
      rw [wp_bind]
      refine wp_conseq hone ?_
      intro _ v hv
      rw [wp_bind]
      refine wp_conseq hv ?_
      rintro _ x ⟨hx, hk⟩
      have hidx : (idx + 1).toNat = idx.toNat + 1 := by
        have hmax : vb.vdevCnt.toNat < 2 ^ 32 := vb.vdevCnt.toNat_lt
        rw [UInt32.toNat_add, Nat.mod_eq_of_lt]
        · rfl
        · show idx.toNat + 1 < 2 ^ 32
          omega
      have hw : (vd.getDescr t.described).length ≤ vd.descrSz.toNat := hfit vd List.mem_cons_self _
      have hgo := @ih x (idx + 1) (offs ++ leBytes 4 vd.descrOffset.toNat)
        (done ++ (vd.getDescr t.described ++
          List.replicate (vd.descrSz.toNat - (vd.getDescr t.described).length) 0))
        (fun vd' hmem => hfit vd' (List.mem_cons_of_mem _ hmem))
        (by rw [List.length_append, length_leBytes, hidx]; omega)
        (by omega)
        (by
          refine hrest.trans (congrArg (fun b => consecutive b (sizes vds)) ?_)
          simp only [List.length_append, length_leBytes, List.length_replicate]
          omega)
        (by
          simp only [List.length_append, length_leBytes, List.length_replicate]
          omega)
        hx
      refine wp_conseq hgo ?_
      intro _ y hy
      rw [hk] at hy
      show Built w s y (hdr ++ (offs ++ (leBytes 4 vd.descrOffset.toNat ++ offsetBytes vds)) ++
        (done ++ (vd.getDescr t.described ++ List.replicate _ 0 ++ descriptors _ vds)))
      simpa only [List.append_assoc] using hy

/-- The whole table, in a buffer that is large enough. -/
theorem wp_buildTable {E : Stop → State → Prop} (hl : vb.Laid) (hfit : Fits vb.vdevList)
    (hlen : vb.total ≤ w.len) :
    wp (buildTable w vb) (fun _ t => Built w s t (vb.table s.described)) E s := by
  have htotal : vb.total =
      (4 + (4 + 8)) + (4 * vb.vdevList.length + (sizes vb.vdevList).sum) := by
    rw [Bus.total, sizeofResourceTable]
    omega
  rw [buildTable, hl.size, wp_bind, wp_store (by rw [List.length_replicate, Nat.zero_add]; exact hlen)]
  have h₀ : Built w s { s with mem := patch s.mem (w.pa + 0) (List.replicate vb.total 0) }
      ([] ++ List.replicate 4 0 ++ (List.replicate 4 0 ++ (List.replicate 8 0 ++
        (List.replicate (4 * vb.vdevList.length) 0 ++
          List.replicate (sizes vb.vdevList).sum 0)))) := by
    have hzeros : ([] ++ List.replicate 4 0 ++ (List.replicate 4 0 ++ (List.replicate 8 0 ++
        (List.replicate (4 * vb.vdevList.length) 0 ++
          List.replicate (sizes vb.vdevList).sum 0)))) = List.replicate vb.total (0 : UInt8) := by
      simp only [List.nil_append, List.replicate_append_replicate, htotal]
      congr 1
      omega
    rw [hzeros]
    refine ⟨by rw [List.length_replicate]; exact hlen, ?_, ?_, rfl, rfl, rfl, rfl⟩
    · exact slice_patch ..
    · intro p hp
      cases hp with
      | inl hp => exact patch_of_lt (by omega)
      | inr hp => exact patch_of_ge (by omega)
  have hver := wp_store_middle (E := E) (leBytes 4 virtioFwRscVer) h₀
    (by rw [length_leBytes, List.length_replicate])
  refine wp_seq hver ?_
  rintro _ t ⟨ht, hk⟩
  have hzero : Built w s t (leBytes 4 virtioFwRscVer ++ List.replicate 4 0 ++ (List.replicate 8 0 ++
      (List.replicate (4 * vb.vdevList.length) 0 ++ List.replicate (sizes vb.vdevList).sum 0))) := by
    simpa only [List.nil_append, List.append_assoc] using ht
  have hnum := wp_store_middle (E := E) (leBytes 4 vb.vdevCnt.toNat) hzero
    (by rw [length_leBytes, List.length_replicate])
  rw [length_leBytes] at hnum
  refine wp_seq hnum ?_
  rintro _ u ⟨hu, hk'⟩
  have hplaced : vb.vdevList.map (fun vd => (vd.descrOffset.toNat, vd.descrSz.toNat)) =
      consecutive (sizeofResourceTable + 4 * vb.vdevList.length) (sizes vb.vdevList) := by
    have hranges := hl.ranges
    rw [Bus.ranges, consecutive, consecutive] at hranges
    have htail := (List.cons.inj (List.cons.inj hranges).2).2
    rwa [Nat.zero_add] at htail
  have hbuilt : Built w s u (vb.header ++ [] ++ List.replicate (4 * vb.vdevList.length) 0 ++ [] ++
      List.replicate (sizes vb.vdevList).sum 0) := by
    rw [Bus.header]
    simpa only [List.append_nil, List.append_assoc] using hu
  have hoffs : ([] : List UInt8).length = 4 * (0 : UInt32).toNat := rfl
  have hloop := wp_describeVdevs (E := E) hfit vb.length_header hoffs
    (by rw [hl.cnt]; exact Nat.zero_add _)
    (by
      rw [vb.length_header]
      exact hplaced)
    (by
      rw [vb.length_header, hl.size]
      rfl)
    hbuilt
  refine wp_conseq hloop ?_
  intro _ v hv
  rw [hk', hk] at hv
  exact hv

/-! ## Reading the table -/

theorem length_offsetBytes (vds : List Vdev) : (offsetBytes vds).length = 4 * vds.length := by
  induction vds with
  | nil => rfl
  | cons vd vds ih =>
      show (leBytes 4 _ ++ offsetBytes vds).length = _
      rw [List.length_append, length_leBytes, ih, List.length_cons]
      omega

theorem offsetBytes_append (pre vds : List Vdev) :
    offsetBytes (pre ++ vds) = offsetBytes pre ++ offsetBytes vds := by
  rw [offsetBytes, List.map_append, List.flatten_append]
  rfl

theorem length_descriptors (h : Fits vds) (k : Nat) : (descriptors k vds).length = (sizes vds).sum := by
  induction vds generalizing k with
  | nil => rfl
  | cons vd vds ih =>
      have hsum : (sizes (vd :: vds)).sum = vd.descrSz.toNat + (sizes vds).sum := List.sum_cons
      have hvd := h vd List.mem_cons_self k
      have hrest := ih (fun vd' hmem => h vd' (List.mem_cons_of_mem _ hmem)) (k + 1)
      rw [descriptors, List.length_append, List.length_append, List.length_replicate, hrest, hsum]
      omega

theorem descriptors_append (k : Nat) (pre vds : List Vdev) :
    descriptors k (pre ++ vds) = descriptors k pre ++ descriptors (k + pre.length) vds := by
  induction pre generalizing k with
  | nil => rfl
  | cons vd pre ih =>
      rw [List.cons_append, descriptors, descriptors, ih, List.length_cons, Nat.add_assoc,
        Nat.add_comm 1]
      simp only [List.append_assoc]

/-- The table stands at `pa`: the header, the offset of every device in its place, and
at that offset what the device wrote. -/
structure Described (vb : Bus) (k pa : Nat) (mem : Nat → UInt8) : Prop where
  header : slice mem pa sizeofResourceTable = leBytes 4 virtioFwRscVer ++
    leBytes 4 vb.vdevList.length ++ List.replicate 8 0
  offset : ∀ pre vd post, vb.vdevList = pre ++ vd :: post →
    slice mem (pa + (sizeofResourceTable + 4 * pre.length)) 4 = leBytes 4 vd.descrOffset.toNat
  descr : ∀ pre vd post, vb.vdevList = pre ++ vd :: post →
    slice mem (pa + vd.descrOffset.toNat) vd.descrSz.toNat =
      vd.getDescr (k + pre.length) ++
        List.replicate (vd.descrSz.toNat - (vd.getDescr (k + pre.length)).length) 0

/-- A device is placed behind the descriptors of the devices before it. -/
theorem Bus.Laid.descrOffset_eq {pre post : List Vdev} {vd : Vdev} (h : vb.Laid)
    (hvds : vb.vdevList = pre ++ vd :: post) :
    vd.descrOffset.toNat =
      sizeofResourceTable + 4 * vb.vdevList.length + (sizes pre).sum := by
  have hranges := h.ranges
  rw [Bus.ranges, consecutive, consecutive] at hranges
  have htail := (List.cons.inj (List.cons.inj hranges).2).2
  have hsizes : sizes vb.vdevList = sizes pre ++ vd.descrSz.toNat :: sizes post := by
    rw [hvds, sizes, List.map_append, List.map_cons]
    rfl
  rw [hsizes, consecutive_append, Nat.zero_add] at htail
  nth_rewrite 1 [hvds] at htail
  rw [List.map_append, List.map_cons] at htail
  have hsplit := List.append_inj_right htail (by
    rw [List.length_map, length_consecutive, sizes, List.length_map])
  exact (Prod.mk.inj (List.cons.inj hsplit).1).1

theorem Built.described {k : Nat} (h : Built w s t (vb.table k)) (hl : vb.Laid)
    (hfit : Fits vb.vdevList) : Described vb k w.pa t.mem where
  header := by
    have hbytes := h.held
    rw [Bus.table] at hbytes
    rw [List.append_assoc, ← List.nil_append vb.header, List.append_assoc,
      ← List.append_assoc] at hbytes
    have hhead := slice_middle hbytes
    rw [vb.length_header, Bus.header, hl.cnt] at hhead
    exact hhead
  offset := by
    intro pre vd post hvds
    have hbytes := h.held
    have hsplit : vb.table k = (vb.header ++ offsetBytes pre) ++ leBytes 4 vd.descrOffset.toNat ++
        (offsetBytes post ++ descriptors k vb.vdevList) := by
      have hoffs : offsetBytes vb.vdevList =
          offsetBytes pre ++ (leBytes 4 vd.descrOffset.toNat ++ offsetBytes post) := by
        rw [hvds, offsetBytes_append]
        rfl
      rw [Bus.table, hoffs]
      simp only [List.append_assoc]
    have hmid := slice_middle (hbytes.trans hsplit)
    rw [List.length_append, vb.length_header, length_offsetBytes, length_leBytes] at hmid
    exact hmid
  descr := by
    intro pre vd post hvds
    have hbytes := h.held
    have hfitPre : Fits pre := fun vd' hmem => hfit vd' (by
      rw [hvds]
      exact List.mem_append_left _ hmem)
    have hvd := hfit vd (by rw [hvds]; exact List.mem_append_right _ List.mem_cons_self)
      (k + pre.length)
    have hsplit : vb.table k = (vb.header ++ offsetBytes vb.vdevList ++ descriptors k pre) ++
        (vd.getDescr (k + pre.length) ++
          List.replicate (vd.descrSz.toNat - (vd.getDescr (k + pre.length)).length) 0) ++
        descriptors (k + pre.length + 1) post := by
      rw [Bus.table]
      nth_rewrite 2 [hvds]
      rw [descriptors_append, descriptors]
      simp only [List.append_assoc]
    have hmid := slice_middle (hbytes.trans hsplit)
    have hlen : (vd.getDescr (k + pre.length) ++ List.replicate (vd.descrSz.toNat -
        (vd.getDescr (k + pre.length)).length) 0).length = vd.descrSz.toNat := by
      rw [List.length_append, List.length_replicate]
      omega
    rw [hlen, List.length_append, List.length_append, vb.length_header, length_offsetBytes,
      length_descriptors hfitPre, ← hl.descrOffset_eq hvds] at hmid
    exact hmid

end TX2SecureUart.Virtio
