/-
# `Boot.Extract` — kernel and ramdisk out of a checked boot image

`tegrabl_verify_boot_img_hdr` adds the sizes of the header without the padding
between them and in 32 bits; `extract_kernel` and `extract_ramdisk` go by the
header again.  They keep to the image exactly when the two bytes that tell a
compressed kernel, the kernel and the ramdisk behind its page boundary lie in it.

Addresses are natural numbers; a read outside of the image or a write outside of
a region is `Stop.outside`.
-/
import TX2SecureUart.Lib.ByteStore
import TX2SecureUart.Lib.LeBytes
import TX2SecureUart.Lib.Mask
import TX2SecureUart.Lib.Prog
import TX2SecureUart.Storage.Crc32
import TX2SecureUart.Storage.Err

namespace TX2SecureUart.Extract

open ByteStore Mask Prog Storage

/-- `ANDROID!` -/
abbrev androidMagic : List UInt8 := [0x41, 0x4E, 0x44, 0x52, 0x4F, 0x49, 0x44, 0x21]

/-- `sizeof(union tegrabl_bootimg_header)`, too. -/
abbrev androidHeaderSize : Nat := 2048
abbrev maxKernelImageSize : UInt32 := 0x14000000
abbrev ramdiskMaxSize : UInt32 := 0x0C000000
abbrev arm64Magic : UInt32 := 0x644d5241

abbrev Memory := Nat → UInt8

def le32 (m : Memory) (a : Nat) : UInt32 := UInt32.ofNat (leNat (slice m a 4))

/-- The fields of `union tegrabl_bootimg_header` that are looked at. -/
structure BootimgHeader where
  magic : List UInt8
  kernelsize : UInt32
  ramdisksize : UInt32
  secondsize : UInt32
  pagesize : UInt32
  /-- The last word. -/
  crc : UInt32
deriving DecidableEq

def headerAt (m : Memory) (a : Nat) : BootimgHeader where
  magic := slice m a androidMagic.length
  kernelsize := le32 m (a + 8)
  ramdisksize := le32 m (a + 16)
  secondsize := le32 m (a + 24)
  pagesize := le32 m (a + 36)
  crc := le32 m (a + 2044)

/-- An image of `n` bytes, and where it and the regions are. -/
structure Layout (n : UInt32) where
  bootImg : Nat
  kernelLoad : Nat
  kernelTextOffset : Nat
  ramdiskLoad : Nat
  kernel_image : kernelLoad + kernelTextOffset + maxKernelImageSize.toNat ≤ bootImg ∨
    bootImg + n.toNat ≤ kernelLoad + kernelTextOffset
  kernel_ramdisk : kernelLoad + kernelTextOffset + maxKernelImageSize.toNat ≤ ramdiskLoad ∨
    ramdiskLoad + ramdiskMaxSize.toNat ≤ kernelLoad + kernelTextOffset

/-- `LINUX_LOAD_ADDRESS`, `RAMDISK_ADDRESS` and `BOOT_IMAGE_LOAD_ADDRESS`. -/
def sdramUsage (n : UInt32) : Layout n where
  bootImg := 0xA8000000
  kernelLoad := 0x80080000
  kernelTextOffset := 0
  ramdiskLoad := 0x9C000000
  kernel_image := .inl (by decide)
  kernel_ramdisk := .inl (by decide)

/-- The header of the image. -/
abbrev Layout.hdr {n : UInt32} (L : Layout n) (m : Memory) : BootimgHeader := headerAt m L.bootImg

def Layout.kernel {n : UInt32} (L : Layout n) : Nat := L.kernelLoad + L.kernelTextOffset

/-- A decompressor, which is told by two bytes, and what it leaves in its output,
which is no more than it is given room for. -/
structure Decompressor where
  isCompressedContent : List UInt8 → Bool
  doDecompress : List UInt8 → List UInt8 × Option TegrablErr
  bounded : ∀ payload, (doDecompress payload).1.length ≤ maxKernelImageSize.toNat

inductive Stop where
  | err (e : TegrablErr)
  | outside

abbrev ExtractM := EStateM Stop Memory

variable {n : UInt32}

/-- The `len` bytes at offset `off` of the image. -/
def Layout.read (L : Layout n) (off len : Nat) : ExtractM (List UInt8) := fun m =>
  if len = 0 ∨ off + len ≤ n.toNat then .ok (slice m (L.bootImg + off) len) m
  else .error .outside m

def Layout.header (L : Layout n) : ExtractM BootimgHeader := fun m =>
  if androidHeaderSize ≤ n.toNat then .ok (L.hdr m) m else .error .outside m

/-- Bytes written to the beginning of a region. -/
def writeRegion (base size : Nat) (data : List UInt8) : ExtractM Unit := fun m =>
  if data.length ≤ size then .ok () (patch m base data) else .error .outside m

def check (err : Option TegrablErr) : ExtractM Unit :=
  match err with
  | none => pure ()
  | some e => throw (.err e)

/-- The checks of `tegrabl_verify_boot_img_hdr`, given the bytes of the header. -/
def checkHeader (n : UInt32) (hdr : BootimgHeader) (bytes : List UInt8) : Option TegrablErr :=
  if hdr.magic ≠ androidMagic then some (tegrablError .linuxboot .verifyFailed 0) else
  if hdr.pagesize.toNat < androidHeaderSize then some (tegrablError .linuxboot .invalid 0) else
  if n < hdr.pagesize + hdr.kernelsize + hdr.ramdisksize + hdr.secondsize then
    some (tegrablError .linuxboot .invalid 1)
  else
  if hdr.crc ≠ 0 ∧ tegrablUtilsCrc32 0 bytes ≠ hdr.crc then
    some (tegrablError .linuxboot .verifyFailed 1)
  else none

def verifyBootImgHdr (L : Layout n) : ExtractM Unit := do
  let hdr ← L.header
  let bytes ← L.read 0 androidHeaderSize
  check (checkHeader n hdr bytes)

/-- The copy, or the decompression, of `extract_kernel`. -/
def installKernel (d : Decompressor) (dst : Nat) (head bytes : List UInt8) : ExtractM Unit :=
  if !d.isCompressedContent head then writeRegion dst maxKernelImageSize.toNat bytes else do
    writeRegion dst maxKernelImageSize.toNat (d.doDecompress bytes).1
    check (d.doDecompress bytes).2

/-- `extract_kernel` from its sanity check on. -/
def kernelFrom (L : Layout n) (d : Decompressor) (payload : Nat) (kernelSize : UInt32) (dst : Nat) :
    ExtractM Unit :=
  if maxKernelImageSize < kernelSize then throw (.err (tegrablError .linuxboot .tooLarge 0)) else do
    let head ← L.read payload 2
    let bytes ← L.read payload kernelSize.toNat
    installKernel d dst head bytes

/-- A kernel without a boot image header. -/
def rawKernel (L : Layout n) (d : Decompressor) (kernelBinSize : UInt32) : ExtractM Unit := do
  let magic ← L.read 56 4
  let offset ← L.read 8 8
  kernelFrom L d 0 kernelBinSize (L.kernelLoad +
    if leNat magic = arm64Magic.toNat then leNat offset else L.kernelTextOffset)

def extractKernel (L : Layout n) (d : Decompressor) (kernelBinSize : UInt32) : ExtractM Unit := do
  let hdr ← L.header
  if hdr.magic = androidMagic then kernelFrom L d hdr.pagesize.toNat hdr.kernelsize L.kernel
  else rawKernel L d kernelBinSize

/-- `ROUND_UP_POW2` -/
def roundUpPow2 (n w : UInt32) : UInt32 := ((n - 1) &&& ~~~(w - 1)) + w

def BootimgHeader.ramdiskOffset (hdr : BootimgHeader) : UInt32 :=
  roundUpPow2 (hdr.pagesize + hdr.kernelsize) hdr.pagesize

/-- The ramdisk is moved, unless it is in place. -/
def moveRamdisk (L : Layout n) (off len : Nat) : ExtractM Unit :=
  if L.bootImg + off = L.ramdiskLoad then pure () else do
    let bytes ← L.read off len
    writeRegion L.ramdiskLoad ramdiskMaxSize.toNat bytes

def extractRamdisk (L : Layout n) : ExtractM Unit := do
  let hdr ← L.header
  if ramdiskMaxSize < hdr.ramdisksize then throw (.err (tegrablError .linuxboot .tooLarge 1))
  else moveRamdisk L hdr.ramdiskOffset.toNat hdr.ramdisksize.toNat

/-! ## What they should keep to -/

def Outside (r : EStateM.Result Stop Memory Unit) : Prop := ∃ t, r = .error .outside t

/-- The first page boundary at or behind the end of the kernel. -/
def BootimgHeader.boundary (hdr : BootimgHeader) : Nat :=
  (hdr.pagesize.toNat + hdr.kernelsize.toNat + (hdr.pagesize.toNat - 1)) / hdr.pagesize.toNat *
    hdr.pagesize.toNat

def BootimgHeader.PageIsPow2 (hdr : BootimgHeader) : Prop := ∃ k, hdr.pagesize.toNat = 2 ^ k

/-- What tells a compressed kernel. -/
def Compressed (L : Layout n) (d : Decompressor) (m : Memory) : Prop :=
  d.isCompressedContent (slice m (L.bootImg + (L.hdr m).pagesize.toNat) 2) = true

/-- Only the image is read and only the regions are written; and these hold the
parts of the image if both calls succeed. -/
structure Extracts (L : Layout n) (d : Decompressor) (kernelBinSize : UInt32) (m : Memory) :
    Prop where
  kernel : ¬ Outside (extractKernel L d kernelBinSize m)
  ramdisk : ¬ Outside (extractRamdisk L m)
  contents : (L.hdr m).PageIsPow2 → ¬ Compressed L d m → ∀ t u,
    extractKernel L d kernelBinSize m = .ok () t → extractRamdisk L t = .ok () u →
    slice u L.kernel (L.hdr m).kernelsize.toNat =
        ((slice m L.bootImg n.toNat).drop (L.hdr m).pagesize.toNat).take
          (L.hdr m).kernelsize.toNat ∧
      slice u L.ramdiskLoad (L.hdr m).ramdisksize.toNat =
        ((slice m L.bootImg n.toNat).drop (L.hdr m).boundary).take
          (L.hdr m).ramdisksize.toNat

/-- The sizes that are not too large fit into the image. -/
structure Fits (L : Layout n) (d : Decompressor) (m : Memory) (hdr : BootimgHeader) : Prop where
  kernel : hdr.kernelsize ≤ maxKernelImageSize → hdr.pagesize.toNat + 2 ≤ n.toNat ∧
    hdr.pagesize.toNat + hdr.kernelsize.toNat ≤ n.toNat
  ramdisk : hdr.ramdisksize ≤ ramdiskMaxSize →
    L.bootImg + hdr.ramdiskOffset.toNat = L.ramdiskLoad ∨ hdr.ramdisksize.toNat = 0 ∨
    hdr.ramdiskOffset.toNat + hdr.ramdisksize.toNat ≤ n.toNat
  boundary : hdr.PageIsPow2 → ¬ Compressed L d m → hdr.kernelsize ≤ maxKernelImageSize →
    hdr.ramdisksize ≤ ramdiskMaxSize → hdr.ramdisksize.toNat = 0 ∨
    hdr.boundary + hdr.ramdisksize.toNat ≤ n.toNat

variable {L : Layout n} {d : Decompressor} {m t u : Memory} {off len payload dst : Nat}
  {size kernelBinSize : UInt32} {hdr : BootimgHeader} {head bytes : List UInt8}

/-! ## The header -/

theorem read_inside (h : len = 0 ∨ off + len ≤ n.toNat) :
    L.read off len m = .ok (slice m (L.bootImg + off) len) m := if_pos h

theorem read_outside (h : ¬ (len = 0 ∨ off + len ≤ n.toNat)) :
    L.read off len m = .error .outside m := if_neg h

theorem header_inside (h : androidHeaderSize ≤ n.toNat) :
    L.header m = .ok (L.hdr m) m := if_pos h

theorem checkHeader_none (h : checkHeader n hdr bytes = none) :
    hdr.magic = androidMagic ∧ androidHeaderSize ≤ hdr.pagesize.toNat := by
  have hmagic : hdr.magic = androidMagic := by
    by_contra hno
    rw [checkHeader, if_pos hno] at h
    cases h
  refine ⟨hmagic, ?_⟩
  by_contra hno
  rw [checkHeader, if_neg (not_not.mpr hmagic), if_pos (Nat.lt_of_not_le hno)] at h
  cases h

/-- An accepted image has a header that passes the checks. -/
theorem verify_accepted (h : verifyBootImgHdr L m = .ok () t) :
    androidHeaderSize ≤ n.toNat ∧ (L.hdr m).magic = androidMagic ∧
      androidHeaderSize ≤ (L.hdr m).pagesize.toNat := by
  have hsize : androidHeaderSize ≤ n.toNat := by
    by_contra hno
    rw [verifyBootImgHdr, run_bind, Layout.header, if_neg hno] at h
    cases h
  refine ⟨hsize, ?_⟩
  have hread : 0 + androidHeaderSize ≤ n.toNat := (Nat.zero_add _).symm ▸ hsize
  rw [verifyBootImgHdr, run_bind, header_inside hsize] at h
  change (L.read 0 androidHeaderSize >>= fun bytes => _) m = _ at h
  rw [run_bind, read_inside (.inr hread)] at h
  cases hc : checkHeader n (L.hdr m) (slice m (L.bootImg + 0) androidHeaderSize) with
  | none => exact checkHeader_none hc
  | some e =>
      change check (checkHeader n (L.hdr m) (slice m (L.bootImg + 0) androidHeaderSize)) m = _ at h
      rw [hc] at h
      cases h

/-- The bytes of the image are the same in `t`. -/
def ImageKept (L : Layout n) (m t : Memory) : Prop :=
  ∀ off len, off + len ≤ n.toNat → slice t (L.bootImg + off) len = slice m (L.bootImg + off) len

/-- The header is read again behind a change elsewhere. -/
theorem ImageKept.sameHeader (h : ImageKept L m t) (hsize : androidHeaderSize ≤ n.toNat) :
    L.hdr t = L.hdr m := by
  have hword : ∀ off, off + 4 ≤ androidHeaderSize →
      le32 t (L.bootImg + off) = le32 m (L.bootImg + off) := by
    intro off hoff
    rw [le32, le32, h off 4 (Nat.le_trans hoff hsize)]
  have hmagic := h 0 androidMagic.length (Nat.le_trans (by decide) hsize)
  rw [Nat.add_zero] at hmagic
  rw [Layout.hdr, Layout.hdr, headerAt, headerAt, hmagic, hword 8 (by decide), hword 16 (by decide), hword 24 (by decide),
    hword 36 (by decide), hword 2044 (by decide)]

/-! ## The kernel -/

theorem not_outside_ok : ¬ Outside (.ok () m) := by
  rintro ⟨t, h⟩
  cases h

theorem not_outside_err {e : TegrablErr} : ¬ Outside (.error (.err e) m) := by
  rintro ⟨t, h⟩
  cases h

theorem outside_error : Outside (.error .outside m) := ⟨m, rfl⟩

theorem install_inside (h : bytes.length ≤ maxKernelImageSize.toNat) :
    ¬ Outside (installKernel d dst head bytes m) := by
  rw [installKernel]
  by_cases hc : (!d.isCompressedContent head) = true
  · rw [if_pos hc, writeRegion, if_pos h]
    exact not_outside_ok
  · rw [if_neg hc, run_bind, writeRegion, if_pos (d.bounded bytes)]
    show ¬ Outside (check (d.doDecompress bytes).2 _)
    cases (d.doDecompress bytes).2 with
    | none => exact not_outside_ok
    | some e => exact not_outside_err

theorem kernelFrom_inside_iff :
    ¬ Outside (kernelFrom L d payload size dst m) ↔ (size ≤ maxKernelImageSize →
      payload + 2 ≤ n.toNat ∧ (size.toNat = 0 ∨ payload + size.toNat ≤ n.toNat)) := by
  rw [kernelFrom]
  by_cases hlarge : maxKernelImageSize < size
  · rw [if_pos hlarge]
    exact ⟨fun _ h => absurd hlarge (UInt32.not_lt.mpr h), fun _ => not_outside_err⟩
  · have hsize : size ≤ maxKernelImageSize := UInt32.not_lt.mp hlarge
    rw [if_neg hlarge, run_bind]
    by_cases hhead : (2 : Nat) = 0 ∨ payload + 2 ≤ n.toNat
    · rw [read_inside hhead]
      show ¬ Outside ((L.read payload size.toNat >>= fun bytes => _) m) ↔ _
      rw [run_bind]
      by_cases hbytes : size.toNat = 0 ∨ payload + size.toNat ≤ n.toNat
      · rw [read_inside hbytes]
        have hlen : (slice m (L.bootImg + payload) size.toNat).length ≤ maxKernelImageSize.toNat :=
          (length_slice ..).symm ▸ hsize
        exact ⟨fun _ _ => ⟨hhead.resolve_left (by decide), hbytes⟩, fun _ => install_inside hlen⟩
      · rw [read_outside hbytes]
        exact ⟨fun h => absurd outside_error h, fun h => absurd (h hsize).2 hbytes⟩
    · rw [read_outside hhead]
      exact ⟨fun h => absurd outside_error h, fun h => absurd (.inr (h hsize).1) hhead⟩

/-- An uncompressed kernel is copied. -/
theorem kernelFrom_ok (hsize : size ≤ maxKernelImageSize) (hhead : payload + 2 ≤ n.toNat)
    (hbytes : size.toNat = 0 ∨ payload + size.toNat ≤ n.toNat)
    (hplain : ¬ d.isCompressedContent (slice m (L.bootImg + payload) 2) = true) :
    kernelFrom L d payload size dst m =
      .ok () (patch m dst (slice m (L.bootImg + payload) size.toNat)) := by
  have hlen : (slice m (L.bootImg + payload) size.toNat).length ≤ maxKernelImageSize.toNat :=
    (length_slice ..).symm ▸ hsize
  have hplain' : (!d.isCompressedContent (slice m (L.bootImg + payload) 2)) = true := by
    rw [Bool.not_eq_true']
    exact Bool.not_eq_true _ ▸ hplain
  rw [kernelFrom, if_neg (UInt32.not_lt.mpr hsize), run_bind, read_inside (.inr hhead)]
  show (L.read payload size.toNat >>= fun bytes => _) m = _
  rw [run_bind, read_inside hbytes]
  show installKernel _ _ _ _ _ = _
  rw [installKernel, if_pos hplain', writeRegion, if_pos hlen]

theorem extractKernel_eq (hsize : androidHeaderSize ≤ n.toNat)
    (hmagic : (L.hdr m).magic = androidMagic) :
    extractKernel L d kernelBinSize m = kernelFrom L d (L.hdr m).pagesize.toNat
      (L.hdr m).kernelsize L.kernel m := by
  rw [extractKernel, run_bind, header_inside hsize]
  show (if (L.hdr m).magic = androidMagic then _ else _ : ExtractM Unit) m = _
  rw [if_pos hmagic]

/-! ## The ramdisk -/

variable (L m off) in
/-- The ramdisk arrives, if reading it is possible. -/
theorem moveRamdisk_cases (hlen : len ≤ ramdiskMaxSize.toNat) :
    ((L.bootImg + off = L.ramdiskLoad ∨ len = 0 ∨ off + len ≤ n.toNat) ∧
      ∃ u, moveRamdisk L off len m = .ok () u ∧
        slice u L.ramdiskLoad len = slice m (L.bootImg + off) len ∧
        ∀ a l, a + l ≤ L.ramdiskLoad ∨ L.ramdiskLoad + len ≤ a → slice u a l = slice m a l) ∨
      ¬ (L.bootImg + off = L.ramdiskLoad ∨ len = 0 ∨ off + len ≤ n.toNat) ∧
        moveRamdisk L off len m = .error .outside m := by
  rw [moveRamdisk]
  by_cases hplace : L.bootImg + off = L.ramdiskLoad
  · rw [if_pos hplace]
    exact .inl ⟨.inl hplace, m, rfl, by rw [hplace], fun a l _ => rfl⟩
  · rw [if_neg hplace, run_bind]
    by_cases hread : len = 0 ∨ off + len ≤ n.toNat
    · rw [read_inside hread]
      have hfit : (slice m (L.bootImg + off) len).length ≤ ramdiskMaxSize.toNat :=
        (length_slice ..).symm ▸ hlen
      refine .inl ⟨.inr hread, patch m L.ramdiskLoad (slice m (L.bootImg + off) len), ?_, ?_, ?_⟩
      · show writeRegion _ _ _ _ = _
        rw [writeRegion, if_pos hfit]
      · have hback := slice_patch m L.ramdiskLoad (slice m (L.bootImg + off) len)
        rwa [length_slice] at hback
      · intro a l hapart
        exact slice_patch_of_disjoint (by rwa [length_slice])
    · rw [read_outside hread]
      exact .inr ⟨fun h => (h.resolve_left hplace).elim (fun h => hread (.inl h))
        (fun h => hread (.inr h)), rfl⟩

theorem extractRamdisk_eq (hsize : androidHeaderSize ≤ n.toNat) :
    extractRamdisk L m = (if ramdiskMaxSize < (L.hdr m).ramdisksize then
      throw (.err (tegrablError .linuxboot .tooLarge 1))
      else moveRamdisk L (L.hdr m).ramdiskOffset.toNat
        (L.hdr m).ramdisksize.toNat : ExtractM Unit) m := by
  rw [extractRamdisk, run_bind, header_inside hsize]

theorem extractRamdisk_inside_iff (hsize : androidHeaderSize ≤ n.toNat) :
    ¬ Outside (extractRamdisk L m) ↔ ((L.hdr m).ramdisksize ≤ ramdiskMaxSize →
      L.bootImg + (L.hdr m).ramdiskOffset.toNat = L.ramdiskLoad ∨
      (L.hdr m).ramdisksize.toNat = 0 ∨
      (L.hdr m).ramdiskOffset.toNat + (L.hdr m).ramdisksize.toNat ≤
        n.toNat) := by
  rw [extractRamdisk_eq hsize]
  by_cases hlarge : ramdiskMaxSize < (L.hdr m).ramdisksize
  · rw [if_pos hlarge]
    exact ⟨fun _ h => absurd hlarge (UInt32.not_lt.mpr h), fun _ => not_outside_err⟩
  · have hle := UInt32.not_lt.mp hlarge
    have hlen : (L.hdr m).ramdisksize.toNat ≤ ramdiskMaxSize.toNat := hle
    rw [if_neg hlarge]
    rcases moveRamdisk_cases L m (L.hdr m).ramdiskOffset.toNat hlen with
      ⟨hin, u, hu, -, -⟩ | ⟨hout, hu⟩
    · rw [hu]
      exact ⟨fun _ _ => hin, fun _ => not_outside_ok⟩
    · rw [hu]
      exact ⟨fun h => absurd outside_error h, fun h => absurd (h hle) hout⟩

/-! ## Where the ramdisk is -/

/-- The macro rounds up, where 32 bits do. -/
theorem roundUpPow2_toNat {x w : UInt32} {k : Nat} (hw : w.toNat = 2 ^ k) (hx : 0 < x.toNat)
    (hfit : (x.toNat + (2 ^ k - 1)) / 2 ^ k * 2 ^ k < 2 ^ 32) :
    (roundUpPow2 x w).toNat = (x.toNat + (2 ^ k - 1)) / 2 ^ k * 2 ^ k := by
  have hpos : 0 < 2 ^ k := Nat.two_pow_pos k
  have hone : (1 : UInt32).toNat = 1 := rfl
  have hmask : (w - 1).toNat = 2 ^ k - 1 := by
    rw [UInt32.toNat_sub_of_le _ _ (by rw [UInt32.le_iff_toNat_le, hone, hw]; exact hpos), hw, hone]
  have hpred : (x - 1).toNat = x.toNat - 1 := by
    rw [UInt32.toNat_sub_of_le _ _ (by rw [UInt32.le_iff_toNat_le, hone]; exact hx), hone]
  have hand : ((x - 1) &&& ~~~(w - 1)).toNat = (x.toNat - 1) / 2 ^ k * 2 ^ k := by
    rw [← UInt32.toNat_toBitVec, UInt32.toBitVec_and, UInt32.toBitVec_not,
      toNat_and_not_mask (m := (w - 1).toBitVec) hmask, UInt32.toNat_toBitVec, hpred]
  have hup : (x.toNat + (2 ^ k - 1)) / 2 ^ k * 2 ^ k = (x.toNat - 1) / 2 ^ k * 2 ^ k + 2 ^ k := by
    have hsum : x.toNat + (2 ^ k - 1) = x.toNat - 1 + 2 ^ k := by omega
    rw [hsum, Nat.add_div_right _ hpos, Nat.succ_mul]
  rw [roundUpPow2, UInt32.toNat_add, hand, hw, ← hup, Nat.mod_eq_of_lt hfit]

theorem ramdiskOffset_toNat (hpage : 0 < hdr.pagesize.toNat) (hpow : hdr.PageIsPow2)
    (hfit : hdr.boundary < 2 ^ 32) : hdr.ramdiskOffset.toNat = hdr.boundary := by
  obtain ⟨k, hk⟩ := hpow
  rw [BootimgHeader.boundary, hk] at hfit
  have hle : 2 ^ k + hdr.kernelsize.toNat ≤
      (2 ^ k + hdr.kernelsize.toNat + (2 ^ k - 1)) / 2 ^ k * 2 ^ k := by
    have hpos : 0 < 2 ^ k := Nat.two_pow_pos k
    have := Nat.div_add_mod' (2 ^ k + hdr.kernelsize.toNat + (2 ^ k - 1)) (2 ^ k)
    have := Nat.mod_lt (2 ^ k + hdr.kernelsize.toNat + (2 ^ k - 1)) hpos
    omega
  have hsum : (hdr.pagesize + hdr.kernelsize).toNat = 2 ^ k + hdr.kernelsize.toNat := by
    rw [UInt32.toNat_add, hk, Nat.mod_eq_of_lt (by omega)]
  rw [BootimgHeader.ramdiskOffset, BootimgHeader.boundary, hk, ← hsum]
  refine roundUpPow2_toNat hk ?_ ?_
  · rw [hsum]
    exact Nat.lt_of_lt_of_le (hk ▸ hpage) (Nat.le_add_right _ _)
  · rw [hsum]
    exact hfit

/-! ## Both together -/

/-- The kernel region is apart from the image. -/
theorem image_kept (hlen : bytes.length ≤ maxKernelImageSize.toNat) :
    ImageKept L m (patch m L.kernel bytes) := by
  intro off len h
  have hapart := L.kernel_image
  refine slice_patch_of_disjoint ?_
  rw [Layout.kernel]
  omega

theorem image_part {i : Nat} : ((slice m i n.toNat).drop off).take len =
    slice m (i + off) (min len (n.toNat - off)) := by
  rcases Nat.le_total n.toNat off with hle | hle
  · rw [List.drop_of_length_le (by rw [length_slice]; exact hle), List.take_nil,
      Nat.sub_eq_zero_of_le hle, Nat.min_zero]
    rfl
  · rw [drop_slice hle]
    rcases Nat.le_total len (n.toNat - off) with h | h
    · rw [take_slice h, Nat.min_eq_left h]
    · rw [List.take_of_length_le (by rw [length_slice]; exact h), Nat.min_eq_right h]

theorem extractRamdisk_kept (hsize : androidHeaderSize ≤ n.toNat) (hkept : ImageKept L m t)
    (hr : (L.hdr m).ramdisksize ≤ ramdiskMaxSize) :
    extractRamdisk L t =
      moveRamdisk L (L.hdr m).ramdiskOffset.toNat (L.hdr m).ramdisksize.toNat t := by
  rw [extractRamdisk_eq hsize, hkept.sameHeader hsize, if_neg (UInt32.not_lt.mpr hr)]

/-- A kernel that fits is copied. -/
theorem extractKernel_ok (hsize : androidHeaderSize ≤ n.toNat)
    (hmagic : (L.hdr m).magic = androidMagic) (hplain : ¬ Compressed L d m)
    (hk : (L.hdr m).kernelsize ≤ maxKernelImageSize)
    (hkernel : (L.hdr m).pagesize.toNat + 2 ≤ n.toNat ∧
      (L.hdr m).pagesize.toNat + (L.hdr m).kernelsize.toNat ≤ n.toNat) :
    ∃ t, extractKernel L d kernelBinSize m = .ok () t ∧ ImageKept L m t ∧
      slice t L.kernel (L.hdr m).kernelsize.toNat =
        slice m (L.bootImg + (L.hdr m).pagesize.toNat) (L.hdr m).kernelsize.toNat := by
  have hklen : (L.hdr m).kernelsize.toNat ≤ maxKernelImageSize.toNat := hk
  have hback := slice_patch m L.kernel
    (slice m (L.bootImg + (L.hdr m).pagesize.toNat) (L.hdr m).kernelsize.toNat)
  rw [length_slice] at hback
  refine ⟨_, ?_, image_kept (by rw [length_slice]; exact hklen), hback⟩
  rw [extractKernel_eq hsize hmagic, kernelFrom_ok hk hkernel.1 (.inr hkernel.2) hplain]

/-- A ramdisk that can be read is moved, and the kernel stays. -/
theorem extractRamdisk_ok (hsize : androidHeaderSize ≤ n.toNat) (hkept : ImageKept L m t)
    (hk : (L.hdr m).kernelsize ≤ maxKernelImageSize)
    (hr : (L.hdr m).ramdisksize ≤ ramdiskMaxSize)
    (hramdisk : L.bootImg + (L.hdr m).ramdiskOffset.toNat = L.ramdiskLoad ∨
      (L.hdr m).ramdisksize.toNat = 0 ∨
      (L.hdr m).ramdiskOffset.toNat + (L.hdr m).ramdisksize.toNat ≤ n.toNat) :
    ∃ u, extractRamdisk L t = .ok () u ∧
      slice u L.kernel (L.hdr m).kernelsize.toNat = slice t L.kernel (L.hdr m).kernelsize.toNat ∧
      slice u L.ramdiskLoad (L.hdr m).ramdisksize.toNat =
        slice t (L.bootImg + (L.hdr m).ramdiskOffset.toNat) (L.hdr m).ramdisksize.toNat := by
  have hklen : (L.hdr m).kernelsize.toNat ≤ maxKernelImageSize.toNat := hk
  have hrlen : (L.hdr m).ramdisksize.toNat ≤ ramdiskMaxSize.toNat := hr
  have hapart := L.kernel_ramdisk
  rw [extractRamdisk_kept hsize hkept hr]
  rcases moveRamdisk_cases L t (L.hdr m).ramdiskOffset.toNat hrlen with
    ⟨-, u, hu, hmoved, hother⟩ | ⟨hno, -⟩
  · exact ⟨u, hu, hother _ _ (by rw [Layout.kernel]; omega), hmoved⟩
  · exact absurd hramdisk hno

/-- No call succeeds on a size that is too large. -/
theorem kernelsize_of_ok (hsize : androidHeaderSize ≤ n.toNat)
    (hmagic : (L.hdr m).magic = androidMagic)
    (ht : extractKernel L d kernelBinSize m = .ok () t) :
    (L.hdr m).kernelsize ≤ maxKernelImageSize := by
  rw [extractKernel_eq hsize hmagic] at ht
  by_contra hlarge
  rw [kernelFrom, if_pos (UInt32.not_le.mp hlarge)] at ht
  cases ht

theorem ramdisksize_of_ok (hsize : androidHeaderSize ≤ n.toNat) (hkept : ImageKept L m t)
    (hu : extractRamdisk L t = .ok () u) : (L.hdr m).ramdisksize ≤ ramdiskMaxSize := by
  rw [extractRamdisk_eq hsize, hkept.sameHeader hsize] at hu
  by_contra hlarge
  rw [if_pos (UInt32.not_le.mp hlarge)] at hu
  cases hu

/-- A page of header, a kernel of one byte and a ramdisk of 2047. -/
def oneByteKernel : Memory := fun a =>
  (androidMagic ++ leBytes 4 1 ++ leBytes 4 0 ++ leBytes 4 2047 ++ List.replicate 16 0 ++
    leBytes 4 2048).getD (a - 0xA8000000) 0

def noDecompressor : Decompressor where
  isCompressedContent := fun _ => false
  doDecompress := fun _ => ([], none)
  bounded := fun _ => Nat.zero_le _

theorem oneByteKernel_header (n : UInt32) :
    (sdramUsage n).hdr oneByteKernel = ⟨androidMagic, 1, 2047, 0, 2048, 0⟩ := by
  show headerAt oneByteKernel 0xA8000000 = _
  decide +kernel

end TX2SecureUart.Extract
