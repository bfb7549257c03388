/-
# `Storage.Registry` — the registered block devices and their references

`tegrabl_blockdev.c`: devices are linked in one list, and `ref` counts the list
and the open handles.  `bdev_dec_ref` closes and frees a device with its last
reference, if it is still in the list.

A device is known by a number that stands for its address.  The system adds the
drivers and the openers: who registers, who holds a handle.
-/
import TX2SecureUart.Storage.Err
import TX2SecureUart.Lib.ListNode
import TX2SecureUart.Lib.Machine

namespace TX2SecureUart.Storage

open Prog ListNode

/-- The head of the list, or the node of a device. -/
inductive BdevNode where
  | list
  | dev (d : Nat)
deriving DecidableEq

/-- The fields of `tegrabl_bdev_t` that stay: `device_id`, and whether there is a
close hook. -/
structure BdevInfo where
  deviceId : Nat → UInt32
  hasClose : Nat → Bool

/-- `bdevs`, the counters of the devices, and how often the close hook of a device
ran and the device was freed. -/
structure Bdevs where
  links : Links BdevNode
  ref : Nat → UInt32
  closed : Nat → Nat
  freed : Nat → Nat

inductive Crash where
  /-- NULL, or a node that is no device, is followed as a device. -/
  | stray
deriving DecidableEq

abbrev BdevM := EStateM Crash Bdevs

/-- `TEGRABL_STORAGE_INVALID` -/
def tegrablStorageInvalid : UInt32 := 11

/-- `TEGRABL_BLOCK_DEVICE_ID` -/
def tegrablBlockDeviceId (storageType instance_ : UInt32) : UInt32 :=
  storageType <<< 16 ||| instance_

def onNodes (f : Links BdevNode → Option (Links BdevNode)) : BdevM Unit := do
  match f (← get).links with
  | some L => modify fun s => { s with links := L }
  | none => throw .stray

/-- What a test reads of a node. -/
def Bdevs.entry (p : Nat → Bool) : BdevNode → Option Bool
  | .dev d => some (p d)
  | .list => none

/-- `list_for_every_entry(&bdevs->list, ..)`, up to the first device that meets
`p`.  There are `n` devices, so a longer walk does not end. -/
def Bdevs.search (s : Bdevs) (n : Nat) (p : Nat → Bool) : Option (Option BdevNode) :=
  s.links.find .list (entry p) (n + 1) (s.links.next .list)

variable (n : Nat) (info : BdevInfo)

def searchBdevs (p : Nat → Bool) : BdevM (Option Nat) := do
  match (← get).search n p with
  | some none => pure none
  | some (some (.dev d)) => pure (some d)
  | _ => throw .stray

def bdevIncRef (d : Nat) : BdevM Unit :=
  modify fun s => { s with ref := Function.update s.ref d (s.ref d + 1) }

def bdevDecRef (d : Nat) : BdevM (Option TegrablErr) := do
  let oldval := (← get).ref d
  if oldval > 0 then
    modify fun s => { s with ref := Function.update s.ref d (s.ref d - 1) }
  if oldval = 1 then
    if !(← get).links.listInList (.dev d) then
      pure (some (tegrablError .blockDev .invalid 4))
    else
      onNodes fun L => L.listDelete (.dev d)
      if info.hasClose d then
        modify fun s => { s with closed := Function.update s.closed d (s.closed d + 1) }
      modify fun s => { s with freed := Function.update s.freed d (s.freed d + 1) }
      pure none
  else pure none

/-- The handle is the device, or NULL. -/
def tegrablBlockdevOpen (storageType instance_ : UInt32) : BdevM (Option Nat) := do
  if storageType ≥ tegrablStorageInvalid then
    pure none
  else
    let deviceId := tegrablBlockDeviceId storageType instance_
    let ref := (← get).ref
    -- the loop ends at a device without references, or at the one that is asked for
    match ← searchBdevs n fun d => ref d = 0 || info.deviceId d = deviceId with
    | none => pure none
    | some d =>
        if ref d = 0 then pure none
        else
          bdevIncRef d
          pure (some d)

def tegrablBlockdevClose (d : Nat) : BdevM (Option TegrablErr) := do
  let _ ← bdevDecRef info d
  pure none

def tegrablBlockdevRegisterDevice (d : Nat) : BdevM (Option TegrablErr) := do
  bdevIncRef d
  match ← searchBdevs n fun e => info.deviceId e = info.deviceId d with
  | some _ => pure (some (tegrablError .blockDev .alreadyExists 0))
  | none =>
      onNodes fun L => L.listAddTail .list (.dev d)
      pure none

def tegrablBlockdevUnregisterDevice (d : Nat) : BdevM (Option TegrablErr) := do
  onNodes fun L => L.listDelete (.dev d)
  let _ ← bdevDecRef info d
  pure none

/-- `tegrabl_blockdev_init`, and every device after `tegrabl_blockdev_initialize_bdev`. -/
def tegrablBlockdevInit : Bdevs where
  links := Links.listInitialize .list ⟨fun _ => none, fun _ => none⟩
  ref := fun _ => 0
  closed := fun _ => 0
  freed := fun _ => 0

end TX2SecureUart.Storage
