/-
# `Boot.LinuxLoad` — `tegrabl_load_kernel_and_dtb`

`linux_load.c` in both variants, with and without `CONFIG_ENABLE_SECURE_BOOT`: a
loader puts a boot image and a DTB into memory, and the kernel, the ramdisk and
the DTB are taken from there.  The loaders, the decompressor, the device tree
library and `tegrabl_auth_complete` come from outside, with any pattern of
failures.  `verify_boot`, whose result is not looked at, and the copies of the
bytes of kernel and ramdisk are left out.

`tegrabl_load_kernel_and_dtb` says what its stages said, except that with secure
boot the result of `tegrabl_auth_complete` takes the place of every earlier error.
-/
import TX2SecureUart.Storage.Err

namespace TX2SecureUart.Boot

open Prog Storage

/-! ## What is outside -/

/-- What stands at the load address of a boot image: the fields of an Android
header, and `text_offset` when `ARM64_MAGIC` is there. -/
structure BootImage where
  addr : UInt64
  androidMagic : Bool
  pagesize : UInt32
  kernelsize : UInt32
  ramdisksize : UInt32
  arm64TextOffset : Option UInt64

/-- The variables that loaders write to; `none` is a pointer that this call has
not written. -/
structure LoadVars where
  image : Option BootImage := none
  dtb : Option UInt64 := none
  dtbo : UInt64 := 0
  ramdiskLoadAddr : UInt64 := 0
  kernelSize : UInt32 := 0
  ramdiskSize : UInt64 := 0

/-- One call of a loader.  It may write before it fails; when it succeeds there is
an image and a DTB. -/
structure Attempt where
  err : Option TegrablErr
  leaves : LoadVars → LoadVars
  image_of_ok : err = none → ∀ v, (leaves v).image.isSome
  dtb_of_ok : err = none → ∀ v, (leaves v).dtb.isSome

structure Config where
  bootDeviceSelect : Bool
  ethernetBoot : Bool
  usbSdBoot : Bool
  nvmeBoot : Bool
  extlinuxBoot : Bool
  dtbOverlay : Bool
  secureBoot : Bool

structure World where
  bootDevOrder : List String
  /-- The rest of the string and the device. -/
  cboMapBootDev : String → Option (String × UInt8)
  /-- The controllers before the `-1`. -/
  pcieCtrlNums : String → Option (List UInt8)
  /-- The calls of loaders in their order. -/
  attempt : Nat → Attempt
  kernelLoadAddr : UInt64
  kernelTextOffset : UInt64
  ramdiskLoadAddr : UInt64
  isCompressedContent : UInt64 → Bool
  doDecompress : UInt64 → UInt32 → Option TegrablErr
  dtCreateSpace : Option TegrablErr
  dtSetFdtHandle : Option TegrablErr
  linuxbootUpdateDtb : Option TegrablErr
  extlinuxBootGetStatus : Bool
  extlinuxBootUpdateBootargs : Option TegrablErr
  /-- The address of the merged DTB, when there is one. -/
  ufdtApplyOverlay : Option UInt64
  authComplete : Option TegrablErr

def maxKernelImageSize : UInt32 := 0x14000000
def ramdiskMaxSize : UInt32 := 0x0C000000

def bootFromNetwork : UInt8 := 1
def bootFromSd : UInt8 := 2
def bootFromUsb : UInt8 := 3
def bootFromBuiltinStorage : UInt8 := 4
def bootFromNvme : UInt8 := 5

/-! ## The stages -/

structure LoadState where
  vars : LoadVars := {}
  /-- How many calls of loaders there were. -/
  calls : Nat := 0
  entryPoint : Option UInt64 := none
  ramdiskLoad : UInt64 := 0
  bootimgCmdline : Option UInt64 := none

abbrev LoadM := EStateM TegrablErr LoadState

def check (err : Option TegrablErr) : LoadM Unit :=
  match err with
  | none => pure ()
  | some e => throw e

variable (cfg : Config) (w : World)

def callLoader : LoadM Unit := do
  let s ← get
  set { s with vars := (w.attempt s.calls).leaves s.vars, calls := s.calls + 1 }
  check (w.attempt s.calls).err

/-- A loader whose error ends only this `case`. -/
def tryLoader : LoadM Bool := fun s =>
  match callLoader w s with
  | .ok _ t => .ok true t
  | .error _ t => .ok false t

def nvmeLoadKernelAndDtb : List UInt8 → LoadM Bool
  | [] => pure false
  | _ :: ctrls => do
      if ← tryLoader w then pure true else nvmeLoadKernelAndDtb ctrls

/-- The `switch` over `device_id`. -/
def loadFrom (bootDev : String) (deviceId : UInt8) : LoadM Bool :=
  if cfg.ethernetBoot && deviceId == bootFromNetwork then tryLoader w
  else if cfg.usbSdBoot && (deviceId == bootFromSd || deviceId == bootFromUsb) then tryLoader w
  else if cfg.nvmeBoot && deviceId == bootFromNvme then
    match w.pcieCtrlNums bootDev with
    | none => pure false
    | some ctrls => nvmeLoadKernelAndDtb w ctrls
  else do
    callLoader w
    pure true

def bootDevLoop : List String → LoadM Bool
  | [] => pure false
  | dev :: rest =>
      match w.cboMapBootDev dev with
      | none => bootDevLoop rest
      | some (bootDev, deviceId) => do
          if ← loadFrom cfg w bootDev deviceId then pure true else bootDevLoop rest

/-- The boot order, and the storage when nothing there could be loaded. -/
def loadInOrder : LoadM Unit := do
  if ← bootDevLoop cfg w w.bootDevOrder then pure () else callLoader w

/-- Where the kernel is, with and without a boot image header. -/
def BootImage.payload (image : BootImage) : UInt64 :=
  if image.androidMagic then image.addr + image.pagesize.toUInt64 else image.addr

def BootImage.kernelBytes (image : BootImage) (kernelBinSize : UInt32) : UInt32 :=
  if image.androidMagic then image.kernelsize else kernelBinSize

def extractKernel (image : BootImage) : LoadM Unit := do
  let s ← get
  let size := image.kernelBytes s.vars.kernelSize
  let offset :=
    if image.androidMagic then w.kernelTextOffset else image.arm64TextOffset.getD w.kernelTextOffset
  if maxKernelImageSize < size then throw (tegrablError .linuxboot .tooLarge 0) else
  set { s with entryPoint := some (w.kernelLoadAddr + offset) }
  if w.isCompressedContent image.payload then check (w.doDecompress image.payload size)

def extractRamdisk (image : BootImage) : LoadM Unit := do
  modify fun s => { s with ramdiskLoad := w.ramdiskLoadAddr }
  if ramdiskMaxSize < image.ramdisksize then throw (tegrablError .linuxboot .tooLarge 1) else
  modify fun s => { s with
    vars := { s.vars with ramdiskSize := image.ramdisksize.toUInt64 }
    bootimgCmdline := some (image.addr + 64) }

/-- `tegrabl_dtb_overlay`; its error is only a warning. -/
def dtbOverlay : LoadM Unit := do
  let s ← get
  if s.vars.dtb = none || s.vars.dtbo == 0 then pure () else
  match w.ufdtApplyOverlay with
  | none => pure ()
  | some merged => set { s with vars := { s.vars with dtb := some merged } }

def extlinuxBootargs : LoadM Unit :=
  if cfg.extlinuxBoot && w.extlinuxBootGetStatus then check w.extlinuxBootUpdateBootargs else pure ()

def extractKernelDtb : LoadM Unit := do
  check w.dtCreateSpace
  check w.dtSetFdtHandle
  check w.linuxbootUpdateDtb
  extlinuxBootargs cfg w
  if cfg.dtbOverlay then dtbOverlay w

/-- From the loaded image to the `fail` label; a loader that succeeded has set it. -/
def extractAll : LoadM Unit := do
  let s ← get
  match s.vars.image with
  | none => throw (tegrablError .linuxboot .invalid 0)
  | some image =>
    extractKernel w image
    if image.androidMagic then extractRamdisk w image
    extractKernelDtb cfg w

/-- Up to the `fail` label. -/
def loadStages (argsGiven : Bool) : LoadM Unit := do
  if !argsGiven then throw (tegrablError .linuxboot .invalid 0) else
  if cfg.bootDeviceSelect then
    loadInOrder cfg w
    modify fun s => { s with ramdiskLoad := s.vars.ramdiskLoadAddr }
  else callLoader w
  extractAll cfg w

/-- The error that is returned, and the state that is left. -/
def tegrablLoadKernelAndDtb (argsGiven : Bool) : Option TegrablErr × LoadState :=
  match loadStages cfg w argsGiven {} with
  | .ok _ s => (if cfg.secureBoot then w.authComplete else none, s)
  | .error e s => (if cfg.secureBoot then w.authComplete else some e, s)

end TX2SecureUart.Boot
