/-
# `Update.BootloaderUpdate` — `tegrabl_bootloader_update.c`

An update payload is walked entry by entry.  Each partition named in it is
written once, after the partition that it depends on, from the first entry that
fits the device; with A/B slots it is written to one slot or to all.

The configuration is that of T186 with A/B slots, A/B updates and QSPI, and
without blob signing.  The callbacks are those that `fastboot_init` registers.
`Device` is what stays the same through a boot.  `Pattern` is how the primitives
answer, call by call: the storage, the allocator, the slot metadata, and
`update_bct`, which stands for a write like any other.  Log output is left out.
-/
import TX2SecureUart.Lib.Prog
import TX2SecureUart.Update.Nvblob

namespace TX2SecureUart.Update

open Prog Storage StrRead

inductive Stop where
  | err (e : TegrablErr)
  /-- A byte outside the payload or outside a local buffer. -/
  | outOfBounds
  | assertion
  /-- The loop over the entries is still running. -/
  | spinning
deriving DecidableEq

/-- A string argument: a constant, or a place in the payload. -/
inductive Str where
  | const (s : List UInt8)
  | field (off : Nat)
deriving DecidableEq

/-- One use of a partition's storage. -/
structure Write where
  /-- The partition of the payload for which the write is made, and its slot. -/
  part : List UInt8
  slot : Option Nat
  /-- The name that was opened. -/
  target : List UInt8
  /-- Written by `update_bct`. -/
  bct : Bool
  off : Nat
  len : Nat
  /-- It succeeded. -/
  done : Bool
deriving DecidableEq

inductive StorageOp where
  | erase (target : List UInt8)
  | write (w : Write)
deriving DecidableEq

structure Device where
  /-- `id` and `config` of the NCT, when they can be read. -/
  nctSpec : Option (List UInt8 × List UInt8)
  /-- `fuse_is_nv_production_mode` -/
  production : Bool
  /-- The levels for rollback, MB1 and MTS; the fuse of the first may be unreadable. -/
  ratchetLevels : Option (Nat × Nat × Nat)

structure Pattern where
  /-- `tegrabl_partition_open` -/
  opens : Nat → List UInt8 → Option TegrablErr
  /-- Allocations, erasures and writes. -/
  fails : Nat → Option TegrablErr
  onQspi : List UInt8 → Bool
  /-- `num_slots` of the slot metadata, when that can be read. -/
  slots : Nat → Option Nat

/-- The static variables, and what happened so far. -/
structure State where
  list : List Str := []
  globalNctSpec : List UInt8 := []
  isNewBupChecked : Bool := false
  isRequired : Bool := false
  updateSlotSuffix : List UInt8 := []
  calls : Nat := 0
  log : List StorageOp := []

abbrev UpdateM := EStateM Stop State

/-- `GPT_PART_NAME_LEN` -/
def gptPartNameLen : Nat := 36

def brBctPartitionName : List UInt8 := ascii "BCT"

/-- `update_sequence`: a partition and the one that it depends on. -/
def updateSequence : List (List UInt8 × List UInt8) :=
  [(brBctPartitionName, ascii "mb2"), (ascii "mb1", brBctPartitionName)]

def noMemory : TegrablErr := tegrablError .bootloaderUpdate .noMemory 0

variable (buf : Buffer) (dev : Device) (pat : Pattern) (bh : BlobInfo)

/-- The bytes from the first one of a string on. -/
def Str.bytes : Str → List UInt8
  | .const s => s ++ [0]
  | .field off => buf.tail off

/-- A partition name, as far as names are compared. -/
def Str.name (part : Str) : List UInt8 := upTo gptPartNameLen (part.bytes buf)

/-! ## Primitives -/

def read {α : Type} (r : Option α) : UpdateM α :=
  match r with
  | some a => pure a
  | none => throw .outOfBounds

def orFail {α : Type} (r : Except TegrablErr α) : UpdateM α :=
  match r with
  | .ok a => pure a
  | .error e => throw (.err e)

def throwIf (failed : Option TegrablErr) : UpdateM Unit :=
  match failed with
  | some e => throw (.err e)
  | none => pure ()

def nextFault : UpdateM (Option TegrablErr) := do
  let s ← get
  set { s with calls := s.calls + 1 }
  pure (pat.fails s.calls)

def partitionOpen (name : List UInt8) : UpdateM (Option TegrablErr) := do
  let s ← get
  set { s with calls := s.calls + 1 }
  pure (pat.opens s.calls name)

/-- The bytes that a copy or a write takes. -/
def readRange (off len : Nat) : UpdateM Unit :=
  read (if len = 0 ∨ off + len ≤ buf.bytes.length then some () else none)

def logOp (op : StorageOp) : UpdateM Unit := modify fun s => { s with log := s.log ++ [op] }

/-! ## Statics and callbacks -/

/-- The loop of `is_partition_updated`. -/
def listHas (part : Str) : List Str → Option Bool
  | [] => some false
  | current :: rest => do
      if ← strncmp gptPartNameLen (current.bytes buf) (part.bytes buf) then pure true
      else listHas part rest

/-- The loop of `get_dependency`. -/
def dependencyIn (part : Str) : List (List UInt8 × List UInt8) → Option (Option (List UInt8))
  | [] => some none
  | (partition, dependency) :: rest => do
      if ← strncmp gptPartNameLen (part.bytes buf) (partition ++ [0]) then pure (some dependency)
      else dependencyIn part rest

/-- `get_dependency` -/
def getDependency (part : Str) : Option (Option (List UInt8)) :=
  dependencyIn buf part updateSequence

/-- The string that `tegrabl_snprintf` leaves in `global_nct_spec`. -/
def formatSpec (id config : List UInt8) : List UInt8 := (id ++ ascii "." ++ config).take 63

/-- `get_spec_info`; `false` is an error. -/
def getSpecInfo : UpdateM Bool := do
  let s ← get
  if s.globalNctSpec ≠ [] then pure true
  else
    match dev.nctSpec with
    | none => pure false
    | some (id, config) => do
        set { s with globalNctSpec := formatSpec id config }
        pure true

/-- `is_ratchet_update_required`, the callback: the levels of the blob header that
it takes the payload to start with.  The inner `none` is an error. -/
def isRatchetUpdateRequired : Option (Option Bool) :=
  match dev.ratchetLevels with
  | none => some none
  | some (rb, mb1, mts) => do
      let rollbackLevel ← load8 buf 42
      if rb < rollbackLevel then pure (some true)
      else
        let mb1Level ← load8 buf 40
        if mb1 < mb1Level then pure (some true)
        else
          let mtsLevel ← load8 buf 41
          pure (some (mts < mtsLevel))

def checkRatchet : UpdateM Bool := do
  let answer ← read (isRatchetUpdateRequired buf dev)
  modify fun s => { s with isRequired := answer.getD false, isNewBupChecked := true }
  pure (answer.getD false)

/-- `is_update_all_slots_required`; the callback asserts that it is given a blob. -/
def isUpdateAllSlotsRequired (blob : Bool) : UpdateM Bool := do
  let s ← get
  if s.isNewBupChecked then pure s.isRequired
  else if blob then checkRatchet buf dev
  else throw .assertion

/-- `tegrabl_a_b_set_bootslot_suffix(slot, part, false)` on a name in a local buffer. -/
def fullPartName (slot : Nat) (part : List UInt8) : Option (List UInt8) :=
  if slot = 0 then some part
  else if part.length + 2 < gptPartNameLen then some (part ++ ascii "_b")
  else none

/-- `tegrabl_a_b_get_slot_via_suffix` -/
def getSlotViaSuffix (suffix : List UInt8) : Except TegrablErr Nat :=
  if suffix = [] ∨ suffix = ascii "_a" then .ok 0
  else if suffix = ascii "_b" then .ok 1
  else .error (tegrablError .abBootctrl .invalid 0)

/-- `get_slot_num`: `fastboot_a_b_get_slot_num` reports success also when there is
no metadata, and the number stays what it was. -/
def getSlotNum : UpdateM Nat := do
  let s ← get
  set { s with calls := s.calls + 1 }
  pure ((pat.slots s.calls).elim 1 (· % 256))

/-- `fastboot_a_b_is_always_ab_partition` -/
def isAlwaysAb (part : List UInt8) : Option Bool := strncmp 4 part (literal "mb1")

/-! ## Writing a partition -/

/-- `partition_has_slot` -/
def partitionHasSlot (part : Nat) : UpdateM Bool := do
  let base ← read (strncpy (gptPartNameLen - 1) (buf.tail part))
  let full ← read (fullPartName 1 base)
  let failed ← partitionOpen pat full
  pure failed.isNone

/-- The erasure that QSPI flash needs. -/
def eraseOnQspi (target : List UInt8) : UpdateM Unit :=
  if pat.onQspi target then do
    logOp (.erase target)
    let failed ← nextFault pat
    throwIf (failed.map (TegrablErr.setHighestModule .bootloaderUpdate))
  else
    pure ()

def storageWrite (w : Write) : UpdateM Unit := do
  readRange buf w.off w.len
  let failed ← nextFault pat
  logOp (.write { w with done := failed.isNone })
  throwIf failed

/-- A name that starts like that of the BCT is left to `update_bct`. -/
def isBct (target : List UInt8) : Bool := target.take 3 = brBctPartitionName

/-- `write_partition`, for the partition at `part` of the payload. -/
def writePartition (part : Nat) (slot : Option Nat) (partName : Str) (data size : Nat) :
    UpdateM Unit := do
  let target ← read (cstring (partName.bytes buf))
  let failed ← partitionOpen pat target
  throwIf failed
  eraseOnQspi pat target
  storageWrite buf pat
    ⟨(Str.field part).name buf, slot, target, isBct target, data, size, false⟩

def writeSlot (part data size slot : Nat) : UpdateM Unit := do
  let base ← read (strncpy (gptPartNameLen - 1) (buf.tail part))
  let full ← read (fullPartName slot base)
  writePartition buf pat part (some slot) (.const full) data size

/-- The slots that the loop of `write_a_b_partition` does not skip. -/
def otherSlots (numSlots updateSlot : Nat) : List Nat :=
  (List.range numSlots).filter (· ≠ updateSlot)

/-- `write_a_b_partition` after the update slot is written. -/
def writeOtherSlots (part updateSlot data size : Nat) : UpdateM Unit := do
  let numSlots ← getSlotNum pat
  if numSlots = 1 then pure ()
  else
    let alwaysAb ← read (isAlwaysAb (buf.tail part))
    let updateAll ← isUpdateAllSlotsRequired buf dev false
    if updateAll || alwaysAb then
      forM (otherSlots numSlots updateSlot) (writeSlot buf pat part data size)
    else pure ()

/-- `write_a_b_partition` -/
def writeABPartition (part data size : Nat) : UpdateM Unit := do
  let s ← get
  let updateSlot ← orFail (getSlotViaSuffix s.updateSlotSuffix)
  if ← partitionHasSlot buf pat part then do
    writeSlot buf pat part data size updateSlot
    writeOtherSlots buf dev pat part updateSlot data size
  else
    writePartition buf pat part none (.field part) data size

/-! ## One partition of the payload -/

/-- An entry with a `spec_info` is for devices of that spec. -/
def fitsSpec (spec : List UInt8) (entry : Nat) : Option Bool := do
  let own ← cstring (buf.tail (entry + 56))
  if own = [] then pure true else strncmp 64 (buf.tail (entry + 56)) (spec ++ [0])

/-- An entry with an `op_mode` is for devices fused that way. -/
def fitsMode (production : Bool) (entry : Nat) : Option Bool := do
  let opMode ← load32 buf (entry + 52)
  pure (opMode = 0 ∨ opMode - 1 = production.toNat)

def isChosen (spec : List UInt8) (production : Bool) (part : Str) (entry : Nat) : Option Bool := do
  if ← strncmp gptPartNameLen (buf.tail entry) (part.bytes buf) then
    if ← fitsSpec buf spec entry then fitsMode buf production entry else pure false
  else pure false

/-- The search of `update_partition`: the first entry, from the `i`-th on, for this
partition and this device. -/
def findEntry (spec : List UInt8) (production : Bool) (part : Str) :
    Nat → Nat → Option (Except TegrablErr (Option (Nat × Nat)))
  | _, 0 => some (.ok none)
  | i, n + 1 => do
      match ← blobGetEntry buf bh i with
      | .error e => pure (.error e)
      | .ok entry =>
          if ← isChosen buf spec production part entry then pure (.ok (some (i, entry)))
          else findEntry spec production part (i + 1) n

/-- The copy for data that the storage could not take from where it is. -/
def alignData (data size : Nat) : UpdateM Unit :=
  if (buf.addr + data) % 8 = 0 then pure ()
  else do
    let failed ← nextFault pat
    if failed.isSome then throw (.err noMemory) else readRange buf data size

/-- `update_partition` with an entry that fits. -/
def writeEntry (i entry : Nat) : UpdateM Unit := do
  let found ← read (blobGetEntryData buf bh i)
  let (data, size) ← orFail found
  let target ← read (cstring (buf.tail entry))
  let failed ← partitionOpen pat target
  throwIf failed
  eraseOnQspi pat target
  alignData buf pat data size
  let imageSize ← read (load32 buf (entry + 44))
  writeABPartition buf dev pat entry data imageSize

def findAndWrite (part : Str) (numEntries : Nat) : UpdateM Unit := do
  let s ← get
  let found ← read (findEntry buf bh s.globalNctSpec dev.production part 0 numEntries)
  match ← orFail found with
  | none => pure ()
  | some (i, entry) => writeEntry buf dev pat bh i entry

/-- `update_partition` -/
def updatePartition (part : Str) (numEntries : Nat) : UpdateM Unit := do
  if ← getSpecInfo dev then findAndWrite buf dev pat bh part numEntries else pure ()

def updateDependency (update : Str → UpdateM Unit) (dep : Option (List UInt8)) : UpdateM Unit :=
  match dep with
  | some dep => update (.const dep)
  | none => pure ()

def addToList (part : Str) : UpdateM Unit := do
  let failed ← nextFault pat
  if failed.isSome then throw (.err noMemory)
  else modify fun s => { s with list := part :: s.list }

/-- `update_partition_recursive`.  The chains of `update_sequence` bound its depth. -/
def updatePartitionRecursive (numEntries : Nat) : Nat → Str → UpdateM Unit
  | 0, _ => throw .spinning
  | depth + 1, part => do
      let s ← get
      if ← read (listHas buf part s.list) then pure ()
      else
        let dep ← read (getDependency buf part)
        updateDependency (updatePartitionRecursive numEntries depth) dep
        updatePartition buf dev pat bh part numEntries
        addToList pat part

/-! ## A payload -/

/-- After the loop over the entries. -/
def finishUpdate (status : Option TegrablErr) : UpdateM Unit := do
  throwIf status
  modify fun s => { s with isNewBupChecked := false }

/-- The loop over the entries, whose counter is a `uint8_t`. -/
def updateEntries (numEntries : Nat) : Nat → Nat → Option TegrablErr → UpdateM Unit
  | 0, _, _ => throw .spinning
  | fuel + 1, i, status =>
      if i < numEntries then do
        match ← read (blobGetEntry buf bh i) with
        | .error e => updateEntries numEntries fuel ((i + 1) % 256) (some e)
        | .ok entry => do
            updatePartitionRecursive buf dev pat bh numEntries (updateSequence.length + 1)
              (.field entry)
            updateEntries numEntries fuel ((i + 1) % 256) none
      else
        finishUpdate status

def updateFromBlob (suffix : List UInt8) (fuel : Nat) : UpdateM Unit := do
  let type ← read (blobGetType buf bh)
  if type ≠ blobUpdate then pure ()
  else
    let _ ← isUpdateAllSlotsRequired buf dev true
    modify fun s => { s with updateSlotSuffix := suffix }
    let numEntries ← read (blobGetNumEntries buf bh)
    if numEntries = 0 then throw (.err (tegrablError .bootloaderUpdate .notFound 0))
    else updateEntries buf dev pat bh numEntries fuel 0 none

/-- The label `end`: the list is given back. -/
def clearingList (m : UpdateM Unit) : UpdateM Unit := fun s =>
  match m s with
  | .ok a t => .ok a { t with list := [] }
  | .error (.err e) t => .error (.err e) { t with list := [] }
  | .error stop t => .error stop t

/-- `tegrabl_blob_init(NULL, buff, &bh)`, with its error in place of a null handle. -/
def blobInit : UpdateM (Except TegrablErr BlobInfo) := do
  let failed ← nextFault pat
  if failed.isSome then pure (.error (tegrablError .nvblob .noMemory 0))
  else
    let layout ← read (blobLayout buf)
    pure (layout.elim (.error invalid) .ok)

/-- `tegrabl_check_and_update_bl_payload`, its loop run for `fuel` passes at most. -/
def checkAndUpdateBlPayload (suffix : List UInt8) (fuel : Nat) : UpdateM Unit :=
  if buf.addr = 0 then throw (.err (tegrablError .bootloaderUpdate .invalid 0))
  else do
    match ← blobInit buf pat with
    | .error e => if e.reason = .invalid then pure () else throw (.err e)
    | .ok bh =>
        if buf.bytes.length < blobGetSize bh then
          throw (.err (tegrablError .bootloaderUpdate .invalid 0))
        else clearingList (updateFromBlob buf dev pat bh suffix fuel)

end TX2SecureUart.Update
