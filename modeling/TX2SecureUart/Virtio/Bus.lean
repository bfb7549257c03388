/-
# `Virtio.Bus` — the virtio devices of a guest and their resource table

`trusty_virtio.c`.  Devices register with the bus of a guest.  The first request for
the description of the bus finalises it: every device gets an offset in the resource
table.  The table is written to a buffer of the non-secure world, and comes back from
there when the bus is started.

The memory of the non-secure world is its to change between any two calls.  A mapping
of a buffer gives access to whole pages from its address on, and any access beyond
stops the program.
-/
import TX2SecureUart.Err
import TX2SecureUart.Lib.Prog
import TX2SecureUart.Lib.LeBytes
import TX2SecureUart.Lib.ByteStore

namespace TX2SecureUart.Virtio

open Prog ByteStore

/-- `VIRTIO_FW_RSC_VER` -/
def virtioFwRscVer : Nat := 1

/-- `sizeof(struct resource_table)`: `ver`, `num` and two reserved words. -/
def sizeofResourceTable : Nat := 16

/-- `MAX_NUM_SUPPORTED_GUESTS` -/
def maxNumSupportedGuests : UInt32 := 16

/-- `PAGE_SIZE` -/
def pageSize : Nat := 4096

/-! ## State -/

inductive BusState where
  | uninitialized
  | idle
  | activating
  | active
  | deactivating
deriving DecidableEq

/-- `struct vdev_ops`, where what is missing is `NULL`: the size a device reports,
what the calls of its `get_descr` write, and whether it has the others. -/
structure VdevOps where
  descrSz : Option UInt64
  getDescr : Option (Nat → List UInt8)
  probe : Bool
  reset : Bool
  kickVqueue : Bool

/-- `struct vdev`, with all its operations. -/
structure Vdev where
  devid : UInt32
  descrOffset : UInt32
  descrSz : UInt64
  getDescr : Nat → List UInt8

/-- `struct trusty_virtio_bus` -/
structure Bus where
  vdevCnt : UInt32
  nextDevId : UInt32
  descrSize : UInt64
  state : BusState
  vdevList : List Vdev

def Bus.fresh : Bus := ⟨0, 0, 0, .uninitialized, []⟩

/-- A call of `probe`: the copy of the descriptors, and where in it the device is
told to look. -/
structure Probe where
  guest : UInt32
  devid : UInt32
  descr : List UInt8
  off : UInt32

inductive Stop where
  | assertion
  /-- An access beyond a mapping or an array. -/
  | outOfBounds
deriving DecidableEq

/-- `guests_vbus_context` and the memory of the non-secure world. -/
structure State where
  numGuests : UInt32
  guest0 : Bus
  addl : Option (List Bus)
  mem : Nat → UInt8
  /-- The calls of `get_descr` and of `probe` so far. -/
  described : Nat
  probed : List Probe

abbrev VirtioM := EStateM Stop State

/-- What a call meets: `trusty_hyp_check_guest_pa_valid`, `vmm_alloc_physical` and
`malloc`. -/
structure Env where
  checkGuestPaValid : Option ErrCode
  vmmAllocPhysical : Option ErrCode
  malloc : Bool

/-! ## The bus of a guest -/

/-- `*vb`, as `get_guest_virtio_bus` sets it. -/
def State.bus (s : State) (guestId : UInt32) : Option Bus :=
  if guestId > 0 then s.addl.bind (fun buses => buses[(guestId - 1).toNat]?) else some s.guest0

def State.setBus (s : State) (guestId : UInt32) (vb : Bus) : State :=
  if guestId > 0 then { s with addl := s.addl.map (fun buses => buses.set (guestId - 1).toNat vb) }
  else { s with guest0 := vb }

/-- `get_guest_virtio_bus` -/
def getGuestVirtioBus (guestId : UInt32) : VirtioM Int := do
  let s ← get
  if guestId > 0 then
    if guestId ≥ s.numGuests then pure errInvalidArgs
    else if s.addl.isNone = true then pure errNotReady
    else pure noError
  else pure noError

def readBus (guestId : UInt32) : VirtioM Bus := do
  let s ← get
  match s.bus guestId with
  | none => throw .outOfBounds
  | some vb => pure vb

def writeBus (guestId : UInt32) (vb : Bus) : VirtioM Unit :=
  modify (State.setBus · guestId vb)

/-! ## Registration -/

/-- `validate_vdev`: a device all of whose operations are set. -/
def validateVdev (vd : Option (Option VdevOps)) : Option (UInt64 × (Nat → List UInt8)) := do
  let ops ← vd
  let ops ← ops
  let descrSz ← ops.descrSz
  let getDescr ← ops.getDescr
  if ops.probe = true ∧ ops.reset = true ∧ ops.kickVqueue = true then some (descrSz, getDescr)
  else none

def Bus.add (vb : Bus) (dev : UInt64 × (Nat → List UInt8)) : Bus :=
  { vb with
    vdevCnt := vb.vdevCnt + 1
    nextDevId := vb.nextDevId + 1
    vdevList := vb.vdevList ++ [⟨vb.nextDevId, 0, dev.1, dev.2⟩] }

/-- The part of `virtio_register_device` on a bus that is not finalised. -/
def addValid (vd : Option (Option VdevOps)) (guestId : UInt32) (vb : Bus) : VirtioM Int :=
  match validateVdev vd with
  | none => pure errInvalidArgs
  | some dev => do
      writeBus guestId (vb.add dev)
      pure noError

/-- `virtio_register_device`, for a device that is in no list yet. -/
def virtioRegisterDevice (vd : Option (Option VdevOps)) (guestId : UInt32) : VirtioM Int := do
  modify fun s => { s with numGuests := s.numGuests + 1 }
  let ret ← getGuestVirtioBus guestId
  if ret ≠ noError then pure errInvalidArgs
  else do
    let vb ← readBus guestId
    if vb.state = .uninitialized then addValid vd guestId vb else pure errBadState

/-! ## Finalisation -/

/-- The loop of `finalize_vdev_registery`: the offsets, and where the last descriptor
ends. -/
def placeVdevs : UInt32 → List Vdev → List Vdev × UInt32
  | offset, [] => ([], offset)
  | offset, vd :: vds =>
      let rest := placeVdevs (UInt32.ofNat (offset.toNat + vd.descrSz.toNat)) vds
      ({ vd with descrOffset := offset } :: rest.1, rest.2)

/-- Where the first descriptor begins. -/
def Bus.descrStart (vb : Bus) : UInt32 :=
  UInt32.ofNat (sizeofResourceTable + 4 * vb.vdevCnt.toNat)

def Bus.finalize (vb : Bus) : Bus :=
  let placed := placeVdevs vb.descrStart vb.vdevList
  { vb with vdevList := placed.1, descrSize := placed.2.toUInt64, state := .idle }

def finalizeIfNew (guestId : UInt32) (vb : Bus) : VirtioM Unit :=
  if vb.state = .uninitialized then writeBus guestId vb.finalize else pure ()

/-- `finalize_vdev_registery` -/
def finalizeVdevRegistery (guestId : UInt32) : VirtioM Int := do
  let ret ← getGuestVirtioBus guestId
  if ret ≠ noError then pure errInvalidArgs
  else do
    let vb ← readBus guestId
    finalizeIfNew guestId vb
    pure noError

/-! ## Buffers of the non-secure world -/

/-- `map_descr` -/
def mapDescr (bufPa : UInt64) (env : Env) : Int :=
  if bufPa = 0 then errInvalidArgs
  else if bufPa &&& 4095 ≠ 0 then errInvalidArgs
  else match env.checkGuestPaValid with
    | some e => e
    | none => match env.vmmAllocPhysical with
      | some e => e
      | none => noError

/-- The bytes that a mapping of `sz` bytes gives access to. -/
def roundup (sz : Nat) : Nat :=
  (sz + (pageSize - 1)) / pageSize * pageSize

/-- A buffer that is mapped: its address and its size. -/
structure Window where
  pa : Nat
  len : Nat

def Window.store (w : Window) (off : Nat) (bytes : List UInt8) : VirtioM Unit := do
  let s ← get
  if off + bytes.length ≤ w.len then set { s with mem := patch s.mem (w.pa + off) bytes }
  else throw .outOfBounds

def Window.load (w : Window) (off len : Nat) : VirtioM (List UInt8) := do
  let s ← get
  if off + len ≤ w.len then pure (slice s.mem (w.pa + off) len) else throw .outOfBounds

/-! ## The description -/

/-- `vd->ops->get_descr(vd, ..)` -/
def getDescr (w : Window) (vd : Vdev) : VirtioM Unit := do
  let s ← get
  set { s with described := s.described + 1 }
  w.store vd.descrOffset.toNat (vd.getDescr s.described)

/-- The loop that builds the resource table. -/
def describeVdevs (w : Window) (vb : Bus) : UInt32 → List Vdev → VirtioM Unit
  | _, [] => pure ()
  | vdevIdx, vd :: vds =>
      if ¬(vd.descrOffset.toUInt64 ≤ vb.descrSize ∧
          vd.descrOffset.toUInt64 + vd.descrSz ≤ vb.descrSize ∧ vdevIdx < vb.vdevCnt) then
        throw .assertion
      else do
        w.store (sizeofResourceTable + 4 * vdevIdx.toNat) (leBytes 4 vd.descrOffset.toNat)
        getDescr w vd
        describeVdevs w vb (vdevIdx + 1) vds

/-- The resource table of a bus, in a buffer that is mapped. -/
def buildTable (w : Window) (vb : Bus) : VirtioM Unit := do
  w.store 0 (List.replicate vb.descrSize.toNat 0)
  w.store 0 (leBytes 4 virtioFwRscVer)
  w.store 4 (leBytes 4 vb.vdevCnt.toNat)
  describeVdevs w vb 0 vb.vdevList

/-- The part of `virtio_get_description` after the finalisation. -/
def describe (bufPa : UInt64) (bufSz : UInt32) (env : Env) (guestId : UInt32) : VirtioM Int := do
  let vb ← readBus guestId
  if bufSz.toUInt64 < vb.descrSize then pure errNotEnoughBuffer
  else if mapDescr bufPa env ≠ noError then pure (mapDescr bufPa env)
  else do
    buildTable ⟨bufPa.toNat, roundup vb.descrSize.toUInt32.toNat⟩ vb
    pure vb.descrSize.toNat

/-- `virtio_get_description` -/
def virtioGetDescription (bufPa : UInt64) (bufSz : UInt32) (env : Env) (guestId : UInt32) :
    VirtioM Int := do
  let ret ← getGuestVirtioBus guestId
  if ret ≠ noError then pure errInvalidArgs
  else do
    let ret ← finalizeVdevRegistery guestId
    if ret ≠ noError then pure ret else describe bufPa bufSz env guestId

/-! ## Start and stop -/

/-- `vd->ops->probe(vd, ..)` for every device -/
def probeVdevs (guestId : UInt32) (descr : List UInt8) (vds : List Vdev) : VirtioM Unit :=
  modify fun s => { s with
    probed := s.probed ++ vds.map (fun vd => ⟨guestId, vd.devid, descr, vd.descrOffset⟩) }

/-- The bus is back in its old state when it could not be started. -/
def startFailed (guestId : UInt32) (vb : Bus) (ret : Int) : VirtioM Int := do
  writeBus guestId vb
  pure ret

/-- The part of `virtio_start` on a bus that was idle. -/
def startIdle (descrPa : UInt64) (descrSz : UInt32) (env : Env) (guestId : UInt32) (vb : Bus) :
    VirtioM Int :=
  if descrSz.toUInt64 ≠ vb.descrSize then startFailed guestId vb errInvalidArgs
  else if env.malloc = false then startFailed guestId vb errNoMemory
  else if mapDescr descrPa env ≠ noError then startFailed guestId vb (mapDescr descrPa env)
  else do
    let descr ← Window.load ⟨descrPa.toNat, roundup vb.descrSize.toUInt32.toNat⟩ 0 descrSz.toNat
    probeVdevs guestId descr vb.vdevList
    writeBus guestId { vb with state := .active }
    pure noError

/-- `virtio_start` -/
def virtioStart (descrPa : UInt64) (descrSz : UInt32) (env : Env) (guestId : UInt32) :
    VirtioM Int := do
  let ret ← getGuestVirtioBus guestId
  if ret ≠ noError then pure errInvalidArgs
  else do
    let vb ← readBus guestId
    if vb.state ≠ .idle then pure errBadState
    else do
      writeBus guestId { vb with state := .activating }
      startIdle descrPa descrSz env guestId vb

/-- `virtio_stop`; the devices are reset while the bus is deactivating. -/
def virtioStop (guestId : UInt32) : VirtioM Int := do
  let ret ← getGuestVirtioBus guestId
  if ret ≠ noError then pure errInvalidArgs
  else do
    let vb ← readBus guestId
    if vb.state ≠ .active then pure errBadState
    else do
      writeBus guestId { vb with state := .deactivating }
      writeBus guestId { vb with state := .idle }
      pure noError

/-! ## Additional guests -/

/-- `alloc_guest_virtio_bus` -/
def allocGuestVirtioBus (numGuests : UInt32) (calloc : Bool) : VirtioM Int := do
  let s ← get
  if numGuests > maxNumSupportedGuests then pure errInvalidArgs
  else if calloc = false then do
    set { s with addl := none }
    pure errNoMemory
  else do
    set { s with addl := some (List.replicate numGuests.toNat Bus.fresh) }
    pure noError

/-- `free_guest_virtio_bus` -/
def freeGuestVirtioBus : VirtioM Unit :=
  modify fun s => { s with addl := none }

end TX2SecureUart.Virtio
