/-
# `Tipc.Iovs` — mapping the buffers of a descriptor chain

`vqueue_map_iovs` maps the used iovecs one after the other and gives the mapped ones
back when `vmm_alloc_physical` fails.  When `trusty_hyp_check_guest_pa_valid` fails it
returns at once, and whatever was mapped before stays mapped.

A region of size 0 is not mapped at all: `vmm_alloc_physical` succeeds and leaves the
base of the iovec at `NULL`.
-/
import TX2SecureUart.Err

namespace TX2SecureUart.Tipc

/-- An element of `iovs` and of `phys`; a base of 0 is `NULL`. -/
structure Iov where
  phys : UInt64
  base : UInt64
  len : UInt64
deriving DecidableEq

/-- `struct vqueue_iovs` -/
structure VqueueIovs where
  used : Nat
  iovs : List Iov
  used_le : used ≤ iovs.length

/-- A region of the kernel's address space, which does not begin at 0. -/
structure Region where
  base : UInt64
  size : UInt64
  paddr : UInt64
  flags : UInt32
  base_ne : base ≠ 0
deriving DecidableEq

/-- What the `i`-th pass of the loop meets: the result of
`trusty_hyp_check_guest_pa_valid`, and the room that `vmm_alloc_physical` finds. -/
structure MapWorld where
  checkGuestPaValid : Nat → Int
  allocRegion : Nat → Option {base : UInt64 // base ≠ 0}

/-- What a call leaves: its result, the iovecs and the regions. -/
structure MapResult where
  ret : Int
  iovs : List Iov
  regions : List Region

/-- `ROUNDUP(len, PAGE_SIZE)` -/
def roundup (len : UInt64) : UInt64 :=
  (len + 4095) &&& ~~~4095

/-- `vmm_alloc_physical`: the result, the base, and the regions. -/
def vmmAllocPhysical (alloc : Option {base : UInt64 // base ≠ 0}) (size : UInt64) (base : UInt64)
    (paddr : UInt64) (flags : UInt32) (regions : List Region) : Int × UInt64 × List Region :=
  if size = 0 then (noError, base, regions)
  else if paddr &&& 4095 ≠ 0 then (errInvalidArgs, base, regions)
  else match alloc with
    | none => (errNoMemory, base, regions)
    | some b => (noError, b.1, ⟨b.1, size, paddr, flags, b.2⟩ :: regions)

def Region.contains (r : Region) (vaddr : UInt64) : Bool :=
  decide (r.base ≤ vaddr ∧ vaddr.toNat < r.base.toNat + r.size.toNat)

/-- `vmm_free_region` -/
def vmmFreeRegion (vaddr : UInt64) (regions : List Region) : List Region :=
  regions.eraseP (fun r => r.contains vaddr)

/-- The iovecs below `i` are given back, the last one first. -/
def unmapBack : List Iov → List Region → List Iov × List Region
  | [], regions => ([], regions)
  | v :: mapped, regions =>
      let rest := unmapBack mapped (vmmFreeRegion v.base regions)
      ({ v with base := 0 } :: rest.1, rest.2)

variable (w : MapWorld) (flags : UInt32)

/-- The loop of `vqueue_map_iovs` from the `i`-th iovec on.  `mapped` are the ones
before it, the last one first. -/
def mapFrom : Nat → List Iov → List Iov → List Region → MapResult
  | _, mapped, [], regions => ⟨noError, mapped.reverse, regions⟩
  | i, mapped, v :: vs, regions =>
      if w.checkGuestPaValid i ≠ noError then
        ⟨w.checkGuestPaValid i, mapped.reverse ++ v :: vs, regions⟩
      else
        let a := vmmAllocPhysical (w.allocRegion i) (roundup v.len) 0 v.phys flags regions
        if a.1 ≠ noError then
          let back := unmapBack mapped a.2.2
          ⟨a.1, back.1.reverse ++ { v with base := a.2.1 } :: vs, back.2⟩
        else mapFrom (i + 1) ({ v with base := a.2.1 } :: mapped) vs a.2.2

/-- `vqueue_map_iovs` -/
def vqueueMapIovs (vqiovs : VqueueIovs) (regions : List Region) : MapResult :=
  let r := mapFrom w flags 0 [] (vqiovs.iovs.take vqiovs.used) regions
  { r with iovs := r.iovs ++ vqiovs.iovs.drop vqiovs.used }

/-- `vqueue_unmap_iovs` -/
def vqueueUnmapIovs : List Iov → List Region → List Iov × List Region
  | [], regions => ([], regions)
  | v :: vs, regions =>
      let rest := vqueueUnmapIovs vs (vmmFreeRegion v.base regions)
      ({ v with base := 0 } :: rest.1, rest.2)

/-! ## The regions of the mapped iovecs -/

variable {flags} {w}

/-- The region that a mapped iovec has. -/
def regionOf (flags : UInt32) (v : Iov) : Option Region :=
  if h : v.base ≠ 0 then some ⟨v.base, roundup v.len, v.phys, flags, h⟩ else none

/-- A base is set only when there is something to map. -/
def Placed (v : Iov) : Prop :=
  v.base = 0 ↔ roundup v.len = 0

theorem regionOf_of_ne {v : Iov} (h : v.base ≠ 0) :
    regionOf flags v = some ⟨v.base, roundup v.len, v.phys, flags, h⟩ :=
  dif_pos h

theorem vmmFreeRegion_zero (regions : List Region) : vmmFreeRegion 0 regions = regions := by
  refine List.eraseP_of_forall_not ?_
  intro r _ hr
  have hle : r.base ≤ 0 := (of_decide_eq_true hr).1
  exact r.base_ne (UInt64.le_zero_iff.mp hle)

theorem vmmFreeRegion_head {r : Region} (h : r.size ≠ 0) (regions : List Region) :
    vmmFreeRegion r.base (r :: regions) = regions := by
  refine List.eraseP_cons_of_pos ?_
  refine decide_eq_true ⟨UInt64.le_refl _, ?_⟩
  have hpos : 0 < r.size.toNat := Nat.pos_of_ne_zero (fun h0 => h (UInt64.toNat_inj.mp h0))
  omega

/-- Giving the mapped iovecs back leaves the regions that were there before. -/
theorem unmapBack_regions {mapped : List Iov} (h : ∀ v ∈ mapped, Placed v) (regions : List Region) :
    (unmapBack mapped (mapped.filterMap (regionOf flags) ++ regions)).2 = regions := by
  induction mapped with
  | nil => rfl
  | cons v mapped ih =>
      have hrest := ih (fun v' hmem => h v' (List.mem_cons_of_mem _ hmem))
      by_cases hb : v.base = 0
      · have hnone : regionOf flags v = none := dif_neg (not_not.mpr hb)
        rw [unmapBack, hb, vmmFreeRegion_zero, List.filterMap_cons_none hnone]
        exact hrest
      · have hsize : roundup v.len ≠ 0 := fun h0 => hb ((h v List.mem_cons_self).mpr h0)
        rw [unmapBack, List.filterMap_cons_some (regionOf_of_ne hb), List.cons_append]
        have hfree := vmmFreeRegion_head (r := ⟨v.base, roundup v.len, v.phys, flags, hb⟩) hsize
          (mapped.filterMap (regionOf flags) ++ regions)
        rw [hfree]
        exact hrest

/-! ## The lengths stay -/

theorem map_len_unmapBack (mapped : List Iov) (regions : List Region) :
    (unmapBack mapped regions).1.map Iov.len = mapped.map Iov.len := by
  induction mapped generalizing regions with
  | nil => rfl
  | cons v mapped ih => exact congrArg (v.len :: ·) (ih _)

theorem map_len_mapFrom (i : Nat) (mapped vs : List Iov) (regions : List Region) :
    (mapFrom w flags i mapped vs regions).iovs.map Iov.len =
      mapped.reverse.map Iov.len ++ vs.map Iov.len := by
  induction vs generalizing i mapped regions with
  | nil => exact (List.append_nil _).symm
  | cons v vs ih =>
      rw [mapFrom]
      split
      · rw [List.map_append]
      · dsimp only
        split
        · rw [List.map_append, List.map_reverse, map_len_unmapBack, ← List.map_reverse]
          rfl
        · rw [ih, List.reverse_cons, List.map_append, List.append_assoc]
          rfl

/-- Mapping leaves the lengths of the iovecs as they are. -/
theorem map_len_vqueueMapIovs (vqiovs : VqueueIovs) (regions : List Region) :
    (vqueueMapIovs w flags vqiovs regions).iovs.map Iov.len = vqiovs.iovs.map Iov.len := by
  show ((mapFrom w flags 0 [] (vqiovs.iovs.take vqiovs.used) regions).iovs ++ _).map Iov.len = _
  rw [List.map_append, map_len_mapFrom]
  show (vqiovs.iovs.take vqiovs.used).map Iov.len ++ _ = _
  rw [← List.map_append, List.take_append_drop]

/-! ## The loop -/

/-- The pass of an iovec succeeds. -/
def Passes (w : MapWorld) (p : Iov × Nat) : Prop :=
  w.checkGuestPaValid p.2 = noError ∧
    (roundup p.1.len = 0 ∨ p.1.phys &&& 4095 = 0 ∧ (w.allocRegion p.2).isSome = true)

variable (flags) in
/-- A pass that maps: what it leaves of the iovec and of the regions. -/
theorem vmmAllocPhysical_of_passes {v : Iov} {i : Nat} (h : Passes w (v, i)) (regions : List Region) :
    ∃ v' : Iov, Placed v' ∧ v'.len = v.len ∧ v'.phys = v.phys ∧
      vmmAllocPhysical (w.allocRegion i) (roundup v.len) 0 v.phys flags regions =
        (noError, v'.base, (regionOf flags v').toList ++ regions) ∧ v' = { v with base := v'.base } := by
  unfold vmmAllocPhysical
  by_cases hsize : roundup v.len = 0
  · refine ⟨{ v with base := 0 }, ⟨fun _ => hsize, fun _ => rfl⟩, rfl, rfl, ?_, rfl⟩
    rw [if_pos hsize]
    rfl
  · obtain ⟨halign, hsome⟩ := h.2.resolve_left hsize
    obtain ⟨b, hb⟩ := Option.isSome_iff_exists.mp hsome
    refine ⟨{ v with base := b.1 }, ⟨fun h0 => absurd h0 b.2, fun h0 => absurd h0 hsize⟩, rfl, rfl, ?_, rfl⟩
    have halign : ¬v.phys &&& 4095 ≠ 0 := not_not.mpr halign
    rw [if_neg hsize, if_neg halign, hb, regionOf_of_ne (v := { v with base := b.1 }) b.2]
    rfl

variable (flags) in
/-- A pass whose check succeeds and that does not map. -/
theorem vmmAllocPhysical_of_not_passes {v : Iov} {i : Nat} (hc : w.checkGuestPaValid i = noError)
    (h : ¬Passes w (v, i)) (regions : List Region) :
    ∃ e : Int, e ≠ noError ∧
      vmmAllocPhysical (w.allocRegion i) (roundup v.len) 0 v.phys flags regions = (e, 0, regions) := by
  unfold vmmAllocPhysical
  have hsize : roundup v.len ≠ 0 := fun h0 => h ⟨hc, Or.inl h0⟩
  rw [if_neg hsize]
  by_cases halign : v.phys &&& 4095 = 0
  · rw [if_neg (not_not.mpr halign)]
    cases ha : w.allocRegion i with
    | none => exact ⟨errNoMemory, by decide, rfl⟩
    | some b =>
        have hsome : (w.allocRegion i).isSome = true := by rw [ha]; rfl
        exact absurd ⟨hc, Or.inr ⟨halign, hsome⟩⟩ h
  · rw [if_pos halign]
    exact ⟨errInvalidArgs, by decide, rfl⟩

/-- How the loop ends. -/
inductive MapEnd (w : MapWorld) (flags : UInt32) (items : List (Iov × Nat)) (mapped : List Iov)
    (regions : List Region) (r : MapResult) : Prop
  /-- Every iovec is passed. -/
  | all (out : List Iov) (hpass : ∀ p ∈ items, Passes w p) (hret : r.ret = noError)
      (hlen : out.map Iov.len = items.map (fun p => p.1.len)) (hplaced : ∀ v ∈ out, Placed v)
      (hiovs : r.iovs = mapped.reverse ++ out)
      (hregions : ∀ v ∈ out, ∀ x, regionOf flags v = some x → x ∈ r.regions)
      (hmapped : ∀ x ∈ mapped.filterMap (regionOf flags) ++ regions, x ∈ r.regions)
  /-- A check fails, and what was mapped stays mapped. -/
  | check (pre post : List (Iov × Nat)) (p : Iov × Nat) (hitems : items = pre ++ p :: post)
      (hpass : ∀ q ∈ pre, Passes w q) (hfail : w.checkGuestPaValid p.2 ≠ noError)
      (hret : r.ret ≠ noError) (out : List Iov)
      (hlen : out.map Iov.len = pre.map (fun q => q.1.len)) (hplaced : ∀ v ∈ out, Placed v)
      (hregions : r.regions = (out.reverse ++ mapped).filterMap (regionOf flags) ++ regions)
  /-- An allocation fails, and all is given back. -/
  | alloc (pre post : List (Iov × Nat)) (p : Iov × Nat) (hitems : items = pre ++ p :: post)
      (hpass : ∀ q ∈ pre, Passes w q) (hcheck : w.checkGuestPaValid p.2 = noError)
      (hfail : ¬Passes w p) (hret : r.ret ≠ noError) (hregions : r.regions = regions)

theorem mapFrom_end {i : Nat} {mapped vs : List Iov} (hmapped : ∀ v ∈ mapped, Placed v)
    (regions : List Region) :
    MapEnd w flags (vs.zipIdx i) mapped regions
      (mapFrom w flags i mapped vs (mapped.filterMap (regionOf flags) ++ regions)) := by
  induction vs generalizing i mapped with
  | nil =>
      refine MapEnd.all [] ?_ rfl rfl ?_ ?_ ?_ (fun x hx => hx)
      · exact fun p hp => absurd hp List.not_mem_nil
      · exact fun v hv => absurd hv List.not_mem_nil
      · exact (List.append_nil _).symm
      · exact fun v hv => absurd hv List.not_mem_nil
  | cons v vs ih =>
      rw [mapFrom, List.zipIdx_cons]
      by_cases hc : w.checkGuestPaValid i = noError
      · rw [if_neg (not_not.mpr hc)]
        by_cases hp : Passes w (v, i)
        · obtain ⟨v', hplaced, hlen, hphys, hrun, hv'⟩ :=
            vmmAllocPhysical_of_passes flags hp (mapped.filterMap (regionOf flags) ++ regions)
          have hall : ∀ x ∈ v' :: mapped, Placed x := by
            intro x hx
            cases List.mem_cons.mp hx with
            | inl hx => exact hx ▸ hplaced
            | inr hx => exact hmapped x hx
          have hregs : (regionOf flags v').toList ++ (mapped.filterMap (regionOf flags) ++ regions) =
              (v' :: mapped).filterMap (regionOf flags) ++ regions := by
            cases hr : regionOf flags v' with
            | none => rw [List.filterMap_cons_none hr]; rfl
            | some x => rw [List.filterMap_cons_some hr]; rfl
          rw [hrun]
          dsimp only
          rw [if_neg (not_not.mpr rfl), ← hv', hregs]
          have hrest := ih (i := i + 1) hall
          cases hrest with
          | all out hpass hret hl hpl hiovs hr hm =>
              refine MapEnd.all (v' :: out) ?_ hret ?_ ?_ ?_ ?_ ?_
              · intro p hmem
                cases List.mem_cons.mp hmem with
                | inl h => exact h ▸ hp
                | inr h => exact hpass p h
              · rw [List.map_cons, List.map_cons, hl, hlen]
              · intro x hx
                cases List.mem_cons.mp hx with
                | inl h => exact h ▸ hplaced
                | inr h => exact hpl x h
              · rw [hiovs, List.reverse_cons, List.append_assoc]
                rfl
              · intro x hx y hy
                cases List.mem_cons.mp hx with
                | inl h =>
                    refine hm y (List.mem_append_left _ ?_)
                    exact List.mem_filterMap.mpr ⟨v', List.mem_cons_self, h ▸ hy⟩
                | inr h => exact hr x h y hy
              · intro x hx
                refine hm x ?_
                rw [← hregs]
                exact List.mem_append_right _ hx
          | check pre post p hitems hpass hfail hret out hl hpl hr =>
              refine MapEnd.check ((v, i) :: pre) post p ?_ ?_ hfail hret (v' :: out) ?_ ?_ ?_
              · rw [hitems, List.cons_append]
              · intro q hq
                cases List.mem_cons.mp hq with
                | inl h => exact h ▸ hp
                | inr h => exact hpass q h
              · rw [List.map_cons, List.map_cons, hl, hlen]
              · intro x hx
                cases List.mem_cons.mp hx with
                | inl h => exact h ▸ hplaced
                | inr h => exact hpl x h
              · rw [hr, List.reverse_cons, List.append_assoc]
                rfl
          | alloc pre post p hitems hpass hcheck hfail hret hr =>
              refine MapEnd.alloc ((v, i) :: pre) post p ?_ ?_ hcheck hfail hret hr
              · rw [hitems, List.cons_append]
              · intro q hq
                cases List.mem_cons.mp hq with
                | inl h => exact h ▸ hp
                | inr h => exact hpass q h
        · obtain ⟨e, he, hrun⟩ := vmmAllocPhysical_of_not_passes flags hc hp
            (mapped.filterMap (regionOf flags) ++ regions)
          rw [hrun]
          dsimp only
          rw [if_pos he]
          refine MapEnd.alloc [] (vs.zipIdx (i + 1)) (v, i) rfl ?_ hc hp he ?_
          · exact fun q hq => absurd hq List.not_mem_nil
          · exact unmapBack_regions hmapped regions
      · rw [if_pos hc]
        refine MapEnd.check [] (vs.zipIdx (i + 1)) (v, i) rfl ?_ hc hc [] rfl ?_ rfl
        · exact fun q hq => absurd hq List.not_mem_nil
        · exact fun x hx => absurd hx List.not_mem_nil

/-! ## All or nothing -/

/-- The first element that fails is in one place. -/
theorem first_failure_unique {α : Type} {P : α → Prop} {pre pre' post post' : List α} {p p' : α}
    (h : pre ++ p :: post = pre' ++ p' :: post') (hpre : ∀ q ∈ pre, P q) (hp : ¬P p)
    (hpre' : ∀ q ∈ pre', P q) (hp' : ¬P p') : pre = pre' ∧ p = p' := by
  induction pre generalizing pre' with
  | nil =>
      cases pre' with
      | nil => exact ⟨rfl, (List.cons.inj h).1⟩
      | cons q pre' =>
          obtain rfl : p = q := (List.cons.inj h).1
          exact absurd (hpre' p List.mem_cons_self) hp
  | cons q pre ih =>
      cases pre' with
      | nil =>
          obtain rfl : q = p' := (List.cons.inj h).1
          exact absurd (hpre q List.mem_cons_self) hp'
      | cons q' pre' =>
          obtain ⟨rfl, htail⟩ := List.cons.inj h
          obtain ⟨rfl, rfl⟩ := ih htail (fun x hx => hpre x (List.mem_cons_of_mem _ hx))
            (fun x hx => hpre' x (List.mem_cons_of_mem _ hx))
          exact ⟨rfl, rfl⟩

/-- The used iovecs, each with its index. -/
def VqueueIovs.items (vqiovs : VqueueIovs) : List (Iov × Nat) :=
  (vqiovs.iovs.take vqiovs.used).zipIdx

theorem vqueueMapIovs_end (w : MapWorld) (flags : UInt32) (vqiovs : VqueueIovs)
    (regions : List Region) : MapEnd w flags vqiovs.items [] regions
      (mapFrom w flags 0 [] (vqiovs.iovs.take vqiovs.used) regions) :=
  mapFrom_end (fun _ hv => absurd hv List.not_mem_nil) regions

/-- If the first failure is a failure of the check, there was nothing to map before
it; if nothing fails, every iovec has something to map. -/
structure MapsCleanly (w : MapWorld) (vqiovs : VqueueIovs) : Prop where
  check : ∀ pre p post, vqiovs.items = pre ++ p :: post → (∀ q ∈ pre, Passes w q) →
    w.checkGuestPaValid p.2 ≠ noError → ∀ q ∈ pre, roundup q.1.len = 0
  nonempty : (∀ p ∈ vqiovs.items, Passes w p) → ∀ p ∈ vqiovs.items, roundup p.1.len ≠ 0

/-- The lengths of two lists of iovecs agree, so what holds of the one's sizes holds of
the other's. -/
theorem sizes_of_lengths {out : List Iov} {items : List (Iov × Nat)} {P : UInt64 → Prop}
    (h : out.map Iov.len = items.map (fun p => p.1.len)) (hout : ∀ v ∈ out, P v.len) :
    ∀ p ∈ items, P p.1.len := by
  intro p hp
  have hmem : p.1.len ∈ out.map Iov.len := h ▸ List.mem_map.mpr ⟨p, hp, rfl⟩
  obtain ⟨v, hv, hlen⟩ := List.mem_map.mp hmem
  exact hlen ▸ hout v hv

theorem lengths_of_sizes {out : List Iov} {items : List (Iov × Nat)} {P : UInt64 → Prop}
    (h : out.map Iov.len = items.map (fun p => p.1.len)) (hitems : ∀ p ∈ items, P p.1.len) :
    ∀ v ∈ out, P v.len := by
  intro v hv
  have hmem : v.len ∈ items.map (fun p => p.1.len) := h ▸ List.mem_map.mpr ⟨v, hv, rfl⟩
  obtain ⟨p, hp, hlen⟩ := List.mem_map.mp hmem
  exact hlen ▸ hitems p hp

/-- `vqueue_map_iovs` is all or nothing exactly when the first failure, if there is
one, is no failed check behind a mapped iovec, and no iovec is empty when nothing
fails. -/
theorem vqueueMapIovs_allOrNothing_iff (w : MapWorld) (flags : UInt32) (vqiovs : VqueueIovs)
    (regions : List Region) :
    (((vqueueMapIovs w flags vqiovs regions).ret = noError →
      ∀ v ∈ (vqueueMapIovs w flags vqiovs regions).iovs.take vqiovs.used, v.base ≠ 0 ∧
        ∃ x ∈ (vqueueMapIovs w flags vqiovs regions).regions,
          x.base = v.base ∧ x.size = roundup v.len ∧ x.paddr = v.phys) ∧
      ((vqueueMapIovs w flags vqiovs regions).ret ≠ noError →
        (vqueueMapIovs w flags vqiovs regions).regions = regions)) ↔ MapsCleanly w vqiovs := by
  have hend := vqueueMapIovs_end w flags vqiovs regions
  change MapEnd w flags vqiovs.items [] regions (mapFrom w flags 0 [] _ regions) at hend
  have hret : (vqueueMapIovs w flags vqiovs regions).ret =
      (mapFrom w flags 0 [] (vqiovs.iovs.take vqiovs.used) regions).ret := rfl
  have hregs : (vqueueMapIovs w flags vqiovs regions).regions =
      (mapFrom w flags 0 [] (vqiovs.iovs.take vqiovs.used) regions).regions := rfl
  have hiovs : (vqueueMapIovs w flags vqiovs regions).iovs =
      (mapFrom w flags 0 [] (vqiovs.iovs.take vqiovs.used) regions).iovs ++
        vqiovs.iovs.drop vqiovs.used := rfl
  rw [hret, hregs, hiovs]
  generalize mapFrom w flags 0 [] (vqiovs.iovs.take vqiovs.used) regions = r at hend
  cases hend with
  | all out hpass hok hlen hplaced hout hregions hmapped =>
      have hused : (r.iovs ++ vqiovs.iovs.drop vqiovs.used).take vqiovs.used = out := by
        have hlength : out.length = vqiovs.used := by
          have hl := congrArg List.length hlen
          rw [List.length_map, List.length_map, VqueueIovs.items, List.length_zipIdx,
            List.length_take_of_le vqiovs.used_le] at hl
          exact hl
        rw [hout, List.reverse_nil, List.nil_append, ← hlength, List.take_left]
      rw [hused]
      constructor
      · rintro ⟨hset, -⟩
        refine ⟨?_, ?_⟩
        · intro pre p post hitems _ hfail
          have hp := hpass p (by rw [hitems]; exact List.mem_append_right _ List.mem_cons_self)
          exact absurd hp.1 hfail
        · intro _
          refine sizes_of_lengths (P := fun len => roundup len ≠ 0) hlen ?_
          intro v hv h0
          exact (hset hok v hv).1 ((hplaced v hv).mpr h0)
      · intro hclean
        have hsize := lengths_of_sizes (P := fun len => roundup len ≠ 0) hlen (hclean.nonempty hpass)
        refine ⟨fun _ v hv => ?_, fun hne => absurd hok hne⟩
        have hb : v.base ≠ 0 := fun h0 => hsize v hv ((hplaced v hv).mp h0)
        exact ⟨hb, _, hregions v hv _ (regionOf_of_ne hb), rfl, rfl, rfl⟩
  | check pre post p hitems hpass hfail hne out hlen hplaced hregions =>
      have hnot : ¬Passes w p := fun hp => hfail hp.1
      rw [List.append_nil] at hregions
      constructor
      · rintro ⟨-, hback⟩
        refine ⟨?_, ?_⟩
        · intro pre' p' post' hitems' hpass' hfail'
          obtain ⟨rfl, rfl⟩ := first_failure_unique (hitems.symm.trans hitems') hpass hnot hpass'
            (fun hp => hfail' hp.1)
          have hnil : out.reverse.filterMap (regionOf flags) = [] := by
            have hsame := hregions.symm.trans (hback hne)
            have hl := congrArg List.length hsame
            rw [List.length_append] at hl
            exact List.length_eq_zero_iff.mp (by omega)
          refine sizes_of_lengths (P := fun len => roundup len = 0) hlen ?_
          intro v hv
          refine (hplaced v hv).mp ?_
          by_contra hb
          have hnone := List.filterMap_eq_nil_iff.mp hnil v (List.mem_reverse.mpr hv)
          rw [regionOf_of_ne hb] at hnone
          cases hnone
        · intro hall
          exact absurd (hall p (by rw [hitems]; exact List.mem_append_right _ List.mem_cons_self)) hnot
      · intro hclean
        refine ⟨fun h0 => absurd h0 hne, fun _ => ?_⟩
        have hsize := lengths_of_sizes (P := fun len => roundup len = 0) hlen
          (hclean.check pre p post hitems hpass hfail)
        have hnil : out.reverse.filterMap (regionOf flags) = [] := by
          refine List.filterMap_eq_nil_iff.mpr ?_
          intro v hv
          have hv := List.mem_reverse.mp hv
          exact dif_neg (not_not.mpr ((hplaced v hv).mpr (hsize v hv)))
        rw [hregions, hnil, List.nil_append]
  | alloc pre post p hitems hpass hcheck hnot hne hregions =>
      constructor
      · intro _
        refine ⟨?_, ?_⟩
        · intro pre' p' post' hitems' hpass' hfail'
          obtain ⟨rfl, rfl⟩ := first_failure_unique (hitems.symm.trans hitems') hpass hnot hpass'
            (fun hp => hfail' hp.1)
          exact absurd hcheck hfail'
        · intro hall
          exact absurd (hall p (by rw [hitems]; exact List.mem_append_right _ List.mem_cons_self)) hnot
      · intro _
        exact ⟨fun h0 => absurd h0 hne, fun _ => hregions⟩

/-! Two iovecs of a page each; the check of the second one fails. -/

def secondRefused : MapWorld where
  checkGuestPaValid := fun i => if i = 1 then errAccessDenied else noError
  allocRegion := fun _ => some ⟨0x10000, by decide⟩

def twoPages : VqueueIovs := ⟨2, [⟨0x1000, 0, 4096⟩, ⟨0x2000, 0, 4096⟩], by decide⟩

theorem twoPages_first_stays_mapped :
    (vqueueMapIovs secondRefused 0 twoPages []).ret = errAccessDenied ∧
      (vqueueMapIovs secondRefused 0 twoPages []).regions =
        [⟨0x10000, 4096, 0x1000, 0, by decide⟩] := by
  decide +kernel

end TX2SecureUart.Tipc
