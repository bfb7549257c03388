/-
# `Boot.LoadResult` — what `tegrabl_load_kernel_and_dtb` reports

The calls of loaders are numbered.  How many there can be is a matter of the boot
order alone; the first that succeeds leaves the image and the DTB, and whether
these can be taken apart is a matter of what it left.
-/
import TX2SecureUart.Boot.LinuxLoad

namespace TX2SecureUart.Boot

open Prog Storage

variable (cfg : Config) (w : World)

/-! ## Stages that succeed -/

/-- How many loaders are called when all of them fail. -/
def tryCount : List String → Nat
  | [] => 1
  | dev :: rest =>
      match w.cboMapBootDev dev with
      | none => tryCount rest
      | some (bootDev, deviceId) =>
          if cfg.ethernetBoot && deviceId == bootFromNetwork then 1 + tryCount rest
          else if cfg.usbSdBoot && (deviceId == bootFromSd || deviceId == bootFromUsb) then
            1 + tryCount rest
          else if cfg.nvmeBoot && deviceId == bootFromNvme then
            ((w.pcieCtrlNums bootDev).getD []).length + tryCount rest
          else 1

def loaderCount : Nat := if cfg.bootDeviceSelect then tryCount cfg w w.bootDevOrder else 1

/-- What the first `n` loaders leave. -/
def varsAfter : Nat → LoadVars
  | 0 => {}
  | n + 1 => (w.attempt n).leaves (varsAfter n)

/-- The first loader that succeeds, of `m` from number `n` on. -/
structure LoadsAt (n m k : Nat) : Prop where
  lower : n ≤ k
  upper : k < n + m
  succeeds : (w.attempt k).err = none
  first : ∀ j, n ≤ j → j < k → (w.attempt j).err ≠ none

/-- The kernel is not too large, and is decompressed if it has to be. -/
structure KernelExtracts (v : LoadVars) (image : BootImage) : Prop where
  fits : image.kernelBytes v.kernelSize ≤ maxKernelImageSize
  decompressed : w.isCompressedContent image.payload = true →
    w.doDecompress image.payload (image.kernelBytes v.kernelSize) = none

structure DtbExtracts : Prop where
  space : w.dtCreateSpace = none
  handle : w.dtSetFdtHandle = none
  updated : w.linuxbootUpdateDtb = none
  bootargs : cfg.extlinuxBoot = true → w.extlinuxBootGetStatus = true →
    w.extlinuxBootUpdateBootargs = none

/-- Kernel, ramdisk and DTB can be taken from what was loaded. -/
structure Extracts (v : LoadVars) (image : BootImage) : Prop where
  loaded : v.image = some image
  kernel : KernelExtracts w v image
  ramdisk : image.androidMagic = true → image.ramdisksize ≤ ramdiskMaxSize
  dtb : DtbExtracts cfg w

/-- The arguments are there, some loader succeeds, and so does every later stage. -/
def StagesSucceed (argsGiven : Bool) : Prop :=
  argsGiven = true ∧ ∃ k image, LoadsAt w 0 (loaderCount cfg w) k ∧
    Extracts cfg w (varsAfter w (k + 1)) image

/-- Success is reported exactly when all stages succeeded, with an entry point and a
DTB of this call. -/
def ReportsExactly (argsGiven : Bool) : Prop :=
  ((tegrablLoadKernelAndDtb cfg w argsGiven).1 = none ↔
    StagesSucceed cfg w argsGiven ∧ (cfg.secureBoot = true → w.authComplete = none)) ∧
  ((tegrablLoadKernelAndDtb cfg w argsGiven).1 = none →
    (tegrablLoadKernelAndDtb cfg w argsGiven).2.entryPoint.isSome ∧
      (tegrablLoadKernelAndDtb cfg w argsGiven).2.vars.dtb.isSome)

/-! ## Loaders in their order -/

variable {cfg w}

/-- The state after `n` calls of loaders, before the other stages. -/
def afterLoaders (w : World) (n : Nat) : LoadState := { vars := varsAfter w n, calls := n }

theorem callLoader_run (n : Nat) : callLoader w (afterLoaders w n) =
    match (w.attempt n).err with
    | none => .ok ⟨⟩ (afterLoaders w (n + 1))
    | some e => .error e (afterLoaders w (n + 1)) := by
  cases h : (w.attempt n).err with
  | none =>
      simp only [callLoader, run_bind, run_get, run_set, check, afterLoaders, h]
      rfl
  | some e =>
      simp only [callLoader, run_bind, run_get, run_set, check, afterLoaders, h]
      rfl

theorem tryLoader_run (n : Nat) : tryLoader w (afterLoaders w n) =
    .ok ((w.attempt n).err.isNone) (afterLoaders w (n + 1)) := by
  rw [tryLoader, callLoader_run]
  cases (w.attempt n).err <;> rfl

/-- What a search from loader `n` on finds among `m` of them. -/
def Searched (w : World) (n m : Nat) (done : Bool) (t : LoadState) : Prop :=
  if done then ∃ k, LoadsAt w n m k ∧ t = afterLoaders w (k + 1)
  else (∀ j, n ≤ j → j < n + m → (w.attempt j).err ≠ none) ∧ t = afterLoaders w (n + m)

theorem loadsAt_first {n m : Nat} (hm : 0 < m) (h : (w.attempt n).err = none) :
    LoadsAt w n m n := by
  refine ⟨Nat.le_refl n, by omega, h, ?_⟩
  intro j hj hlt
  omega

/-- What is found later is found after failures. -/
theorem LoadsAt.later {n m m' k : Nat} (hfail : ∀ j, n ≤ j → j < n + m → (w.attempt j).err ≠ none)
    (h : LoadsAt w (n + m) m' k) : LoadsAt w n (m + m') k := by
  refine ⟨by have := h.lower; omega, by have := h.upper; omega, h.succeeds, ?_⟩
  intro j hj hlt
  by_cases hlow : j < n + m
  · exact hfail j hj hlow
  · exact h.first j (by omega) hlt

theorem LoadsAt.mono {n m m' k : Nat} (h : LoadsAt w n m k) (hm : m ≤ m') : LoadsAt w n m' k :=
  ⟨h.lower, by have := h.upper; omega, h.succeeds, h.first⟩

theorem fails_append {n m m' : Nat} (hfail : ∀ j, n ≤ j → j < n + m → (w.attempt j).err ≠ none)
    (h : ∀ j, n + m ≤ j → j < n + m + m' → (w.attempt j).err ≠ none) :
    ∀ j, n ≤ j → j < n + (m + m') → (w.attempt j).err ≠ none := by
  intro j hj hlt
  by_cases hlow : j < n + m
  · exact hfail j hj hlow
  · exact h j (by omega) (by omega)

theorem wp_tryLoader (n : Nat) :
    wp (tryLoader w) (Searched w n 1) (fun _ _ => False) (afterLoaders w n) := by
  rw [wp, tryLoader_run]
  cases h : (w.attempt n).err with
  | none => exact ⟨n, loadsAt_first Nat.one_pos h, rfl⟩
  | some e =>
      refine ⟨?_, rfl⟩
      intro j hj hlt
      have heq : j = n := by omega
      rw [heq, h]
      exact Option.some_ne_none e

theorem wp_nvmeLoad (ctrls : List UInt8) : ∀ n,
    wp (nvmeLoadKernelAndDtb w ctrls) (Searched w n ctrls.length) (fun _ _ => False)
      (afterLoaders w n) := by
  induction ctrls with
  | nil =>
      intro n
      refine ⟨?_, rfl⟩
      intro j hj hlt
      simp only [List.length_nil] at hlt
      omega
  | cons c ctrls ih =>
      intro n
      rw [nvmeLoadKernelAndDtb]
      refine wp_seq (wp_tryLoader n) ?_
      intro done t ht
      cases done with
      | true =>
          obtain ⟨k, hk, rfl⟩ := ht
          exact ⟨k, hk.mono (by simp only [List.length_cons]; omega), rfl⟩
      | false =>
          obtain ⟨hfail, rfl⟩ := ht
          refine wp_conseq (ih (n + 1)) ?_
          intro done' t' ht'
          cases done' with
          | true =>
              obtain ⟨k, hk, rfl⟩ := ht'
              refine ⟨k, ?_, rfl⟩
              rw [List.length_cons, Nat.add_comm]
              exact hk.later hfail
          | false =>
              obtain ⟨hrest, rfl⟩ := ht'
              rw [Searched, List.length_cons, Nat.add_comm ctrls.length 1, ← Nat.add_assoc]
              exact ⟨fun j hj hlt => fails_append hfail hrest j hj (by omega), rfl⟩

/-- A search that goes on after `m` loaders that failed softly. -/
theorem wp_search_later {first : LoadM Bool} {rest : LoadM Unit} {n m m' : Nat}
    (hfirst : wp first (Searched w n m) (fun _ _ => False) (afterLoaders w n))
    (hrest : wp rest (fun _ t => ∃ k, LoadsAt w (n + m) m' k ∧ t = afterLoaders w (k + 1))
      (fun _ _ => ∀ j, n + m ≤ j → j < n + m + m' → (w.attempt j).err ≠ none)
      (afterLoaders w (n + m))) :
    wp (do if ← first then pure () else rest)
      (fun _ t => ∃ k, LoadsAt w n (m + m') k ∧ t = afterLoaders w (k + 1))
      (fun _ _ => ∀ j, n ≤ j → j < n + (m + m') → (w.attempt j).err ≠ none)
      (afterLoaders w n) := by
  refine wp_seq (wp_mono hfirst (fun _ _ h => h) (fun _ _ h => h.elim)) ?_
  intro done t ht
  cases done with
  | true =>
      obtain ⟨k, hk, rfl⟩ := ht
      exact ⟨k, hk.mono (Nat.le_add_right m m'), rfl⟩
  | false =>
      obtain ⟨hfail, rfl⟩ := ht
      refine wp_mono hrest ?_ ?_
      · rintro _ t' ⟨k, hk, ht'⟩
        exact ⟨k, hk.later hfail, ht'⟩
      · intro _ _ h
        exact fails_append hfail h

/-- The last loader of a search. -/
theorem wp_callLoader (n : Nat) :
    wp (callLoader w) (fun _ t => ∃ k, LoadsAt w n 1 k ∧ t = afterLoaders w (k + 1))
      (fun _ _ => ∀ j, n ≤ j → j < n + 1 → (w.attempt j).err ≠ none) (afterLoaders w n) := by
  rw [wp, callLoader_run]
  cases h : (w.attempt n).err with
  | none => exact ⟨n, loadsAt_first Nat.one_pos h, rfl⟩
  | some e =>
      intro j hj hlt
      have heq : j = n := by omega
      rw [heq, h]
      exact Option.some_ne_none e

theorem search_assoc (f g : LoadM Bool) (c : LoadM Unit) :
    (do if ← (do if ← f then pure true else g) then pure () else c) =
      (do if ← f then pure () else (do if ← g then pure () else c)) := by
  rw [bind_assoc]
  refine bind_congr ?_
  intro done
  cases done with
  | true => rfl
  | false => rfl

variable (cfg w) in
/-- The loop over the boot order, and the storage at its end. -/
theorem wp_search (order : List String) : ∀ n,
    wp (do if ← bootDevLoop cfg w order then pure () else callLoader w)
      (fun _ t => ∃ k, LoadsAt w n (tryCount cfg w order) k ∧ t = afterLoaders w (k + 1))
      (fun _ _ => ∀ j, n ≤ j → j < n + tryCount cfg w order → (w.attempt j).err ≠ none)
      (afterLoaders w n) := by
  induction order with
  | nil =>
      intro n
      exact wp_callLoader n
  | cons dev rest ih =>
      intro n
      cases hmap : w.cboMapBootDev dev with
      | none =>
          simp only [bootDevLoop, tryCount, hmap]
          exact ih n
      | some mapped =>
          obtain ⟨bootDev, deviceId⟩ := mapped
          simp only [bootDevLoop, tryCount, hmap]
          rw [search_assoc, loadFrom]
          split
          · exact wp_search_later (wp_tryLoader n) (ih (n + 1))
          split
          · exact wp_search_later (wp_tryLoader n) (ih (n + 1))
          split
          · cases hctrls : w.pcieCtrlNums bootDev with
            | none => exact wp_search_later (m := 0) (wp_nvmeLoad [] n) (ih n)
            | some ctrls => exact wp_search_later (wp_nvmeLoad ctrls n) (ih (n + ctrls.length))
          · simp only [bind_assoc, pure_bind, if_true, bind_pure_unit]
            exact wp_callLoader n

/-! ## The stages after the loaders -/

theorem wp_check {err : Option TegrablErr} {s : LoadState} {Q : Unit → LoadState → Prop}
    {E : TegrablErr → LoadState → Prop} (hok : err = none → Q ⟨⟩ s)
    (hfail : ∀ e, err ≠ none → E e s) : wp (check err) Q E s := by
  cases err with
  | none => exact hok rfl
  | some e => exact hfail e (Option.some_ne_none e)

theorem wp_extractKernel (image : BootImage) (s : LoadState) :
    wp (extractKernel w image)
      (fun _ t => KernelExtracts w s.vars image ∧ t.entryPoint.isSome ∧ t.vars = s.vars)
      (fun _ _ => ¬ KernelExtracts w s.vars image) s := by
  simp only [extractKernel, wp_bind, wp_get, wp_ite, wp_set, wp_throw]
  split
  · rename_i hlarge
    intro h
    exact absurd h.fits (UInt32.not_le.mpr hlarge)
  · rename_i hfits
    have hle := UInt32.not_lt.mp hfits
    split
    · rename_i hcomp
      refine wp_check (fun h => ⟨⟨hle, fun _ => h⟩, rfl, rfl⟩) ?_
      intro e hne h
      exact hne (h.decompressed hcomp)
    · rename_i hraw
      exact ⟨⟨hle, fun h => absurd h hraw⟩, rfl, rfl⟩

theorem wp_extractRamdisk (image : BootImage) (s : LoadState) :
    wp (extractRamdisk w image)
      (fun _ t => image.ramdisksize ≤ ramdiskMaxSize ∧ t.entryPoint = s.entryPoint ∧
        t.vars.dtb = s.vars.dtb)
      (fun _ _ => ¬ image.ramdisksize ≤ ramdiskMaxSize) s := by
  simp only [extractRamdisk, wp_bind, wp_modify, wp_ite, wp_throw]
  split
  · rename_i hlarge
    exact UInt32.not_le.mpr hlarge
  · rename_i hfits
    exact ⟨UInt32.not_lt.mp hfits, trivial, trivial⟩

theorem wp_dtbOverlay (s : LoadState) (h : s.vars.dtb.isSome) :
    wp (dtbOverlay w) (fun _ t => t.entryPoint = s.entryPoint ∧ t.vars.dtb.isSome)
      (fun _ _ => False) s := by
  simp only [dtbOverlay, wp_bind, wp_get, wp_ite, wp_pure]
  split
  · exact ⟨trivial, h⟩
  · cases w.ufdtApplyOverlay with
    | none => exact ⟨rfl, h⟩
    | some merged => exact ⟨rfl, rfl⟩

theorem wp_extlinuxBootargs (s : LoadState) :
    wp (extlinuxBootargs cfg w)
      (fun _ t => (cfg.extlinuxBoot = true → w.extlinuxBootGetStatus = true →
        w.extlinuxBootUpdateBootargs = none) ∧ t = s)
      (fun _ _ => cfg.extlinuxBoot = true ∧ w.extlinuxBootGetStatus = true ∧
        w.extlinuxBootUpdateBootargs ≠ none) s := by
  rw [extlinuxBootargs, wp_ite]
  split
  · rename_i hext
    rw [Bool.and_eq_true] at hext
    exact wp_check (fun hok => ⟨fun _ _ => hok, rfl⟩) (fun _ hne => ⟨hext.1, hext.2, hne⟩)
  · rename_i hext
    refine ⟨?_, rfl⟩
    intro hx hstatus
    rw [hx, hstatus] at hext
    exact absurd rfl hext

theorem wp_extractKernelDtb (s : LoadState) (h : s.vars.dtb.isSome) :
    wp (extractKernelDtb cfg w)
      (fun _ t => DtbExtracts cfg w ∧ t.entryPoint = s.entryPoint ∧ t.vars.dtb.isSome)
      (fun _ _ => ¬ DtbExtracts cfg w) s := by
  rw [extractKernelDtb, wp_bind]
  refine wp_check ?_ (fun _ hne hd => hne hd.space)
  intro hspace
  rw [wp_bind]
  refine wp_check ?_ (fun _ hne hd => hne hd.handle)
  intro hhandle
  rw [wp_bind]
  refine wp_check ?_ (fun _ hne hd => hne hd.updated)
  intro hupdated
  rw [wp_bind]
  refine wp_mono (wp_extlinuxBootargs s) ?_ (fun _ _ hne hd => hne.2.2 (hd.bootargs hne.1 hne.2.1))
  rintro _ t ⟨hargs, ht⟩
  subst ht
  have hd : DtbExtracts cfg w := ⟨hspace, hhandle, hupdated, hargs⟩
  rw [wp_ite]
  split
  · exact wp_mono (wp_dtbOverlay t h) (fun _ _ ht => ⟨hd, ht⟩) (fun _ _ hf => hf.elim)
  · exact ⟨hd, rfl, h⟩

theorem wp_extractAll {s : LoadState} {image : BootImage} (himage : s.vars.image = some image)
    (hdtb : s.vars.dtb.isSome) :
    wp (extractAll cfg w)
      (fun _ t => Extracts cfg w s.vars image ∧ t.entryPoint.isSome ∧ t.vars.dtb.isSome)
      (fun _ _ => ¬ Extracts cfg w s.vars image) s := by
  simp only [extractAll, wp_bind, wp_get, himage]
  refine wp_mono (wp_extractKernel image s) ?_ (fun _ _ hne h => hne h.kernel)
  rintro _ t ⟨hkernel, hentry, hvars⟩
  have hdt : t.vars.dtb.isSome := by rw [hvars]; exact hdtb
  -- the DTB, after a ramdisk or without one
  have hend : ∀ u : LoadState, (image.androidMagic = true → image.ramdisksize ≤ ramdiskMaxSize) →
      u.entryPoint = t.entryPoint → u.vars.dtb = t.vars.dtb →
      wp (extractKernelDtb cfg w)
        (fun _ t => Extracts cfg w s.vars image ∧ t.entryPoint.isSome ∧ t.vars.dtb.isSome)
        (fun _ _ => ¬ Extracts cfg w s.vars image) u := by
    intro u hram hu hud
    refine wp_mono (wp_extractKernelDtb u (by rw [hud]; exact hdt)) ?_ (fun _ _ hne h => hne h.dtb)
    rintro _ v ⟨hd, hv, hvd⟩
    exact ⟨⟨himage, hkernel, hram, hd⟩, by rw [hv, hu]; exact hentry, hvd⟩
  split
  · rename_i hmagic
    rw [wp_bind]
    refine wp_mono (wp_extractRamdisk image t) ?_ (fun _ _ hne h => hne (h.ramdisk hmagic))
    rintro _ u ⟨hram, hu, hud⟩
    exact hend u (fun _ => hram) hu hud
  · rename_i hmagic
    exact hend t (fun h => absurd h hmagic) rfl rfl

/-! ## The whole call -/

theorem loadsAt_unique {n m k k' : Nat} (h : LoadsAt w n m k) (h' : LoadsAt w n m k') : k' = k := by
  rcases Nat.lt_trichotomy k' k with hlt | heq | hgt
  · exact absurd h'.succeeds (h.first k' h'.lower hlt)
  · exact heq
  · exact absurd h.succeeds (h'.first k h.lower hgt)

/-- What the loaders leave decides the rest. -/
theorem wp_afterLoad {k : Nat} {t : LoadState} (hk : LoadsAt w 0 (loaderCount cfg w) k)
    (ht : t.vars = varsAfter w (k + 1)) :
    wp (extractAll cfg w)
      (fun _ t => StagesSucceed cfg w true ∧ t.entryPoint.isSome ∧ t.vars.dtb.isSome)
      (fun _ _ => ¬ StagesSucceed cfg w true) t := by
  obtain ⟨image, himage⟩ := Option.isSome_iff_exists.mp
    ((w.attempt k).image_of_ok hk.succeeds (varsAfter w k))
  have hvars : t.vars.image = some image := by rw [ht]; exact himage
  have hdtb : t.vars.dtb.isSome := by
    rw [ht]
    exact (w.attempt k).dtb_of_ok hk.succeeds (varsAfter w k)
  refine wp_mono (wp_extractAll hvars hdtb) ?_ ?_
  · rintro _ u ⟨hext, hu⟩
    rw [ht] at hext
    exact ⟨⟨rfl, k, image, hk, hext⟩, hu⟩
  · rintro _ u hne ⟨_, k', image', hk', hext'⟩
    have hkk : k' = k := loadsAt_unique hk hk'
    subst hkk
    have heq : image' = image := Option.some.inj (hext'.loaded.symm.trans himage)
    rw [heq, ← ht] at hext'
    exact hne hext'

variable (cfg w) in
theorem wp_loadStages (argsGiven : Bool) :
    wp (loadStages cfg w argsGiven)
      (fun _ t => StagesSucceed cfg w argsGiven ∧ t.entryPoint.isSome ∧ t.vars.dtb.isSome)
      (fun _ _ => ¬ StagesSucceed cfg w argsGiven) (afterLoaders w 0) := by
  cases argsGiven with
  | false =>
      intro h
      exact absurd h.1 Bool.false_ne_true
  | true =>
      have hnone : (∀ j, 0 ≤ j → j < 0 + loaderCount cfg w → (w.attempt j).err ≠ none) →
          ¬ StagesSucceed cfg w true := by
        rintro hfail ⟨_, k, _, hk, _⟩
        exact hfail k hk.lower hk.upper hk.succeeds
      simp only [loadStages, Bool.not_true, Bool.false_eq_true, if_false]
      cases hsel : cfg.bootDeviceSelect with
      | true =>
          have hcount : tryCount cfg w w.bootDevOrder = loaderCount cfg w := by
            rw [loaderCount, hsel, if_pos rfl]
          have hsearch := wp_search cfg w w.bootDevOrder 0
          rw [hcount] at hsearch
          simp only [if_true]
          refine wp_seq (wp_mono hsearch (fun _ _ h => h) (fun _ _ h => hnone h)) ?_
          rintro _ t ⟨k, hk, ht⟩
          rw [wp_bind, wp_modify]
          exact wp_afterLoad hk (by rw [ht]; rfl)
      | false =>
          have hcount : loaderCount cfg w = 1 := by rw [loaderCount, hsel]; rfl
          rw [hcount] at hnone
          simp only [Bool.false_eq_true, if_false]
          refine wp_seq (wp_mono (wp_callLoader 0) (fun _ _ h => h) (fun _ _ h => hnone h)) ?_
          rintro _ t ⟨k, hk, ht⟩
          rw [← hcount] at hk
          exact wp_afterLoad hk (by rw [ht]; rfl)

def failingAttempt : Attempt where
  err := some (tegrablError .linuxboot .notFound 0)
  leaves := id
  image_of_ok := fun h => absurd h (Option.some_ne_none _)
  dtb_of_ok := fun h => absurd h (Option.some_ne_none _)

def emptyDevice : World where
  bootDevOrder := []
  cboMapBootDev := fun _ => none
  pcieCtrlNums := fun _ => none
  attempt := fun _ => failingAttempt
  kernelLoadAddr := 0x80000000
  kernelTextOffset := 0
  ramdiskLoadAddr := 0x90000000
  isCompressedContent := fun _ => false
  doDecompress := fun _ _ => none
  dtCreateSpace := none
  dtSetFdtHandle := none
  linuxbootUpdateDtb := none
  extlinuxBootGetStatus := false
  extlinuxBootUpdateBootargs := none
  ufdtApplyOverlay := none
  authComplete := none

/-- The options of the t186 platform with L4T. -/
def l4tConfig : Config where
  bootDeviceSelect := false
  ethernetBoot := false
  usbSdBoot := false
  nvmeBoot := false
  extlinuxBoot := false
  dtbOverlay := false
  secureBoot := true

end TX2SecureUart.Boot
