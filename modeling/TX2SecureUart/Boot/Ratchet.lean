/-
# `Boot.Ratchet` — `update_ratchet_fuse`

The fuse `hypervoltaging` holds two versions: that of MB1 in bits 15..0, and that of
MTS in bits 31..24, with a copy in bits 23..16.  Each boot compares them with the
versions that the scratch registers hold, and burns the ones that are newer.

`World` is what a boot meets: the registers, and the outcome of every read and burn.
A burn sets some of the bits that it is asked for, whatever it returns.
-/
import TX2SecureUart.Storage.Err

namespace TX2SecureUart.Boot

open Prog Storage

namespace Ratchet

/-! ## Constants -/

def optInFuseMask : UInt32 := (1 : UInt32) <<< 14
def mb1FieldRatchetBitLength : UInt32 := 16
def mb1FieldRatchetFuseShift : UInt32 := 0
def mb1FieldRatchetMask : UInt32 :=
  (((1 : UInt32) <<< mb1FieldRatchetBitLength) - 1) <<< mb1FieldRatchetFuseShift
def sc7FieldRatchetFuseShift : UInt32 := 16
def sc7FieldRatchetMask : UInt32 := (((1 : UInt32) <<< 16) - 1) <<< sc7FieldRatchetFuseShift
def mtsFieldRatchetBitLength : UInt32 := 8
def mtsFieldRatchetFuseShift : UInt32 := 24
def mtsFieldRatchetFuseRedundantShift : UInt32 := 16

def mtsFieldRatchetMask : UInt32 :=
  ((((1 : UInt32) <<< mtsFieldRatchetBitLength) - 1) <<< mtsFieldRatchetFuseShift) |||
    ((((1 : UInt32) <<< mtsFieldRatchetBitLength) - 1) <<< mtsFieldRatchetFuseRedundantShift)

/-- `DPMU_BIT_WR` -/
def dpmuBitWr : UInt32 := 14

/-! ## State -/

inductive Field where
  | mb1
  | mts
deriving DecidableEq

/-- A call of `tegrabl_fuse_write`: the fuse at that time, the value that is asked for, and
the software version that it is asked for. -/
structure Request where
  field : Field
  before : UInt32
  value : UInt32
  version : UInt32
deriving DecidableEq

/-- The requests are no part of the program. -/
structure State where
  fuse : UInt32
  requests : List Request
deriving DecidableEq

/-- What a burn sets of the bits that it is asked for, and what it returns. -/
structure Burn where
  taken : UInt32
  err : Option TegrablErr

structure World where
  /-- `FUSE_ODM_INFO` -/
  odmInfo : Except TegrablErr UInt32
  /-- `MB1_RATCHET_OEM_SW_VERSION_SCRATCH_REG` -/
  scratchRsv54 : UInt32
  /-- `MTS_RATCHET_OEM_SW_VERSION_SCRATCH_REG` -/
  scratchRsv52 : UInt32
  /-- The register at `MTS_SCRATCH_SCR_OFFSET` -/
  scr : UInt32
  /-- The errors of the two reads of the fuse. -/
  mb1Read : Option TegrablErr
  mtsRead : Option TegrablErr
  /-- `load_and_compare_sc7_images` -/
  sc7Images : Except TegrablErr Bool
  mb1Burn : Burn
  mtsBurn : Burn

abbrev RatchetM := EStateM TegrablErr State

/-- A call that fails, or does not. -/
def check (err : Option TegrablErr) : RatchetM Unit :=
  match err with
  | some e => throw e
  | none => pure ()

/-- `tegrabl_fuse_read` of the fuse -/
def tegrablFuseRead (err : Option TegrablErr) : RatchetM UInt32 := do
  check err
  let s ← get
  pure s.fuse

/-- `tegrabl_fuse_write` of the fuse -/
def tegrablFuseWrite (burn : Burn) (field : Field) (version value : UInt32) : RatchetM Unit := do
  modify fun s =>
    { fuse := s.fuse ||| (value &&& burn.taken)
      requests := s.requests ++ [⟨field, s.fuse, value, version⟩] }
  check burn.err

/-! ## The update -/

/-- `sanity_check_ratchet_version` -/
def sanityCheckRatchetVersion (oemSwRatchetVer ratchetBitLen : UInt32) : Option TegrablErr :=
  if oemSwRatchetVer > ((1 : UInt32) <<< ratchetBitLen) - 1 then some (tegrablError .noModule .invalid 0)
  else if oemSwRatchetVer &&& (oemSwRatchetVer + 1) ≠ 0 then
    some (tegrablError .noModule .invalid 1)
  else none

variable (w : World)

def World.mb1OemSwVer : UInt32 :=
  (w.scratchRsv54 &&& mb1FieldRatchetMask) >>> mb1FieldRatchetFuseShift

def World.sc7OemSwVer : UInt32 :=
  (w.scratchRsv54 &&& sc7FieldRatchetMask) >>> sc7FieldRatchetFuseShift

/-- The end of `update_mb1_ratchet_fuse`: only the field of MB1 changes. -/
def burnMb1 (currentFuseVal : UInt32) : RatchetM Unit :=
  tegrablFuseWrite w.mb1Burn .mb1 w.mb1OemSwVer
    (w.mb1OemSwVer ||| (currentFuseVal &&& ~~~mb1FieldRatchetMask))

/-- `update_mb1_ratchet_fuse`, from where its version is newer than the fuse -/
def updateNewerMb1 (currentFuseVal : UInt32) : RatchetM Unit :=
  if w.sc7OemSwVer ≠ 0 then
    match w.sc7Images with
    | .error e => throw e
    | .ok areSc7BinsSame => if areSc7BinsSame = false then pure () else burnMb1 w currentFuseVal
  else burnMb1 w currentFuseVal

/-- `update_mb1_ratchet_fuse`, from where the fuse has been read -/
def compareMb1 (val : UInt32) : RatchetM Unit :=
  let mb1OemHwVer := (val <<< mb1FieldRatchetFuseShift) &&& mb1FieldRatchetMask
  if w.mb1OemSwVer < mb1OemHwVer then throw (tegrablError .noModule .invalid 2)
  else if w.mb1OemSwVer = mb1OemHwVer then pure ()
  else updateNewerMb1 w val

/-- `update_mb1_ratchet_fuse` -/
def updateMb1RatchetFuse : RatchetM Unit := do
  check (sanityCheckRatchetVersion w.mb1OemSwVer mb1FieldRatchetBitLength)
  if w.sc7OemSwVer ≠ 0 ∧ w.mb1OemSwVer ≠ w.sc7OemSwVer then
    throw (tegrablError .noModule .invalidVersion 0)
  else do
    let val ← tegrablFuseRead w.mb1Read
    compareMb1 w val

/-- The value that is burnt for MTS. -/
def mtsValue (mtsOemSwVer currentFuseVal : UInt32) : UInt32 :=
  (((mtsOemSwVer <<< mtsFieldRatchetFuseShift) |||
      (mtsOemSwVer <<< mtsFieldRatchetFuseRedundantShift)) &&& mtsFieldRatchetMask) |||
    (currentFuseVal &&& ~~~mtsFieldRatchetMask)

/-- `mts_oem_hw_ver`.  Both masks are applied to the shifted value, so bits 23..16 are not
looked at. -/
def mtsOemHwVer (val : UInt32) : UInt32 :=
  let val := val >>> mtsFieldRatchetFuseShift
  (val &&& 0xff) ||| (val &&& 0x00ff)

/-- `update_mts_ratchet_fuse`, from where the fuse has been read -/
def compareMts (val : UInt32) : RatchetM Unit :=
  if w.scratchRsv52 < mtsOemHwVer val then throw (tegrablError .noModule .invalid 4)
  else if w.scratchRsv52 = mtsOemHwVer val then pure ()
  else tegrablFuseWrite w.mtsBurn .mts w.scratchRsv52 (mtsValue w.scratchRsv52 val)

/-- `update_mts_ratchet_fuse` -/
def updateMtsRatchetFuse : RatchetM Unit := do
  if ~~~w.scr &&& ((1 : UInt32) <<< dpmuBitWr) ≠ 0 then throw (tegrablError .noModule .invalid 3)
  else do
    check (sanityCheckRatchetVersion w.scratchRsv52 mtsFieldRatchetBitLength)
    let val ← tegrablFuseRead w.mtsRead
    compareMts w val

/-- The opt-in fuse is read, and set. -/
def World.optedIn : Bool :=
  match w.odmInfo with
  | .error _ => false
  | .ok odmFuse => odmFuse &&& optInFuseMask ≠ 0

/-- `update_ratchet_fuse` -/
def updateRatchetFuse : RatchetM Unit :=
  if w.optedIn = true then do
    updateMb1RatchetFuse w
    updateMtsRatchetFuse w
  else pure ()

end Ratchet

end TX2SecureUart.Boot
