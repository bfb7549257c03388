/-
# `Boot.Rollback` — `tegrabl_prevent_rollback` over many boots

A fuse holds the rollback level as `2 ^ level - 1`.  Each boot reads it, refuses
an MB1-BCT with a lower level, and burns the level of one that is higher.  A burn
goes through `tegrabl_fuse_write`, which asks for bits that are not yet set, may
stop half way, and reads the fuse back at its end.

`1U << fuse_level` is undefined for a level of 32 or more; every other step is as
the comments of the source say.
-/
import TX2SecureUart.Storage.Err
import TX2SecureUart.Lib.Machine

namespace TX2SecureUart.Boot

open Prog Storage

/-! ## Levels and fuse values -/

/-- The loop of `tegrabl_rollback_fusevalue_to_level`. -/
def countLevel (level : UInt8) (fuseValue : UInt32) : UInt8 :=
  if h : fuseValue = 0 then level else countLevel (level + 1) (fuseValue >>> 1)
termination_by fuseValue.toNat
decreasing_by
  have hpos : 0 < fuseValue.toNat := Nat.pos_of_ne_zero fun h0 => h (UInt32.toNat_inj.mp h0)
  rw [UInt32.toNat_shiftRight]
  exact Nat.div_lt_self hpos Nat.one_lt_two

def tegrablRollbackFusevalueToLevel (fuseValue : UInt32) : UInt8 := countLevel 0 fuseValue

def tegrablRollbackLevelToFusevalue (fuseLevel : UInt8) : Except Fault UInt32 :=
  if fuseLevel < 32 then .ok ((1 <<< fuseLevel.toUInt32) - 1) else .error .undefined

/-! ## The fuse -/

structure RollbackState where
  /-- The fuse that `fuse_idx` names. -/
  fuse : UInt32
  scratch : Option UInt32 := none
  /-- The value that this boot asked `tegrabl_fuse_write` for. -/
  request : Option UInt32 := none
  /-- `tegrabl_update_rollback_fuse` returned without an error. -/
  burned : Bool := false

abbrev RollbackM := EStateM Fault RollbackState

/-- What can go wrong in a burn: memory, the steps before each of the four words, and
bits that the hardware does not burn. -/
structure Burn where
  noMemory : Bool
  preProcess : Nat → Option TegrablErr
  taken : Nat → UInt32
  noMemoryConfirm : Bool

def fuseReservedOdm0 : UInt32 := 0x20
def fuseReservedOdm3 : UInt32 := 0x23

/-- `tegrabl_fuse_query_size`, from `FUSE_RESERVED_ODM0` on. -/
def tegrablFuseQuerySize (type : UInt32) : Option Nat :=
  if type ≤ 0x27 || type ∈ [0x2c, 0x2d, 0x2e, 0x30, 0x35, 0x36, 0x37, 0x38] then some 4
  else if type ∈ [0x29, 0x2b, 0x31, 0x32] then some 16
  else if type ∈ [0x28, 0x2a, 0x33] then some 32
  else if type = 0x34 then some 8
  else none

/-- `tegrabl_fuse_read` of four bytes.  A longer fuse is written past the end of the
variable. -/
def tegrablFuseRead (type : UInt32) : RollbackM UInt32 := do
  match tegrablFuseQuerySize type with
  | none => throw (.err (tegrablError .fuse .notFound 0))
  | some size =>
      if size ≠ 4 then throw .undefined
      else if type = 0x30 then throw (.err (tegrablError .fuse .notFound 0))
      else
        let s ← get
        pure s.fuse

/-- `fuse_burn` of word `n`, by the bits of the value that are in it. -/
def fuseBurn (burn : Burn) (n : Nat) (bits : UInt32) : RollbackM Unit := do
  if bits = 0 then pure ()
  else match burn.preProcess n with
    | some e => throw (.err e)
    | none => modify fun s => { s with fuse := s.fuse ||| (bits &&& burn.taken n) }

def odmWord0Mask : UInt32 := 0x3FFFFFFF
def odmWord1Mask : UInt32 := 0xC0000000

/-- `fuse_set_macro_and_burn` for one of the ODM fuses: two words and their redundant
copies.  Without the options for fusing only `ODM3` can be burnt. -/
def fuseSetMacroAndBurn (fusing : Bool) (burn : Burn) (type value : UInt32) : RollbackM Unit := do
  if burn.noMemory then throw (.err (tegrablError .fuse .noMemory 0)) else
  let old ← tegrablFuseRead type
  let bits := value ^^^ old
  if bits &&& old ≠ 0 then throw (.err (tegrablError .fuse .invalid 4)) else
  if !fusing && type ≠ fuseReservedOdm3 then throw (.err (tegrablError .fuse .invalid 5)) else
  fuseBurn burn 0 (odmWord0Mask &&& bits)
  fuseBurn burn 1 (odmWord1Mask &&& bits)
  fuseBurn burn 2 (odmWord0Mask &&& bits)
  fuseBurn burn 3 (odmWord1Mask &&& bits)

def tegrablFuseConfirmBurn (burn : Burn) (type valWritten : UInt32) : RollbackM Unit := do
  if burn.noMemoryConfirm then throw (.err (tegrablError .fuse .noMemory 0)) else
  let val ← tegrablFuseRead type
  if val ≠ valWritten then throw (.err (tegrablError .fuse .invalid 0)) else pure ()

def tegrablFuseWrite (fusing : Bool) (burn : Burn) (type value : UInt32) : RollbackM Unit := do
  modify fun s => { s with request := some value }
  fuseSetMacroAndBurn fusing burn type value
  tegrablFuseConfirmBurn burn type value

/-! ## One boot -/

/-- `tegrabl_rollback` -/
structure Rollback where
  enabled : UInt8
  fuseIdx : UInt8
  level : UInt8

def tegrablUpdateRollbackFuse (fusing : Bool) (burn : Burn) (rb : Rollback) (value : UInt32) :
    RollbackM Unit :=
  underModule .rollbackPrevention <|
    if rb.fuseIdx ≤ 7 then tegrablFuseWrite fusing burn (fuseReservedOdm0 + rb.fuseIdx.toUInt32) value
    else throw (.err (tegrablError .rollbackPrevention .notSupported 0))

/-- A failed burn is only a warning. -/
def burnOrWarn (update : RollbackM Unit) : RollbackM Unit := fun s =>
  match update s with
  | .ok _ t => .ok ⟨⟩ { t with burned := true }
  | .error (.err _) t => .ok ⟨⟩ t
  | .error .undefined t => .error .undefined t

def tegrablPreventRollback (fusing : Bool) (burn : Burn) (rb : Option Rollback) : RollbackM Unit := do
  match rb with
  | none => throw (.err (tegrablError .rollbackPrevention .notInitialized 0))
  | some rb =>
    if rb.enabled = 0 then pure () else
    let value ← underModule .rollbackPrevention
      (tegrablFuseRead (fuseReservedOdm0 + rb.fuseIdx.toUInt32))
    let hwLevel := tegrablRollbackFusevalueToLevel value
    if rb.level < hwLevel then throw (.err (tegrablError .rollbackPrevention .invalid 0))
    else if hwLevel < rb.level then
      match tegrablRollbackLevelToFusevalue rb.level with
      | .error e => throw e
      | .ok value =>
          modify fun s => { s with scratch := some value }
          burnOrWarn (tegrablUpdateRollbackFuse fusing burn rb value)
    else modify fun s => { s with scratch := some 0 }

end TX2SecureUart.Boot
