/-
# `Loader.Bootloader` — finding the apps in the kernel's image

`trusty_app_bootloader`, with `update_task_addr_with_vmid`,
`load_app_config_options` and `align_next_app`, over the bytes between
`__trusty_app_start` and `__trusty_app_end`.  An address is the distance from
the start, and a pointer into an ELF image the distance from its header, which
every access adds (`ehdr`).  An access that leaves the bytes stops the loader.

The page for the list of apps has been allocated.  The loader also keeps, for
the theorems only, what it saw whenever it began to parse an app (`Visit`).
-/
import TX2SecureUart.Loader.Libc

namespace TX2SecureUart.Loader

open Prog Region

inductive Panic where
  /-- an `ASSERT` -/
  | assertFailed
  /-- "failed to get trusty app image address" -/
  | vmidConvertFail
deriving DecidableEq

def pageSize : Nat := 4096

def sizeofUuid : Nat := 16

/-- `PAGE_SIZE / sizeof(trusty_app_t)` -/
def maxTrustyAppCount : Nat := pageSize / 104

/-- "NVGUESTTASK" -/
def nvGuestTaskMagicStr : List UInt8 :=
  [0x4e, 0x56, 0x47, 0x55, 0x45, 0x53, 0x54, 0x54, 0x41, 0x53, 0x4b]

def nvGuestTaskMagicIdLen : Nat := 11 + 1

def nvGuestTaskHeadSize : Nat := 0x20

/-- "\x7fELF" -/
def elfmag : List UInt8 := [0x7f, 0x45, 0x4c, 0x46]

def shtNull : Nat := 0

def shtNobits : Nat := 8

/-- ".bss" -/
def bssName : List UInt8 := [0x2e, 0x62, 0x73, 0x73]

/-- ".bss-pad" -/
def bssPadName : List UInt8 := [0x2e, 0x62, 0x73, 0x73, 0x2d, 0x70, 0x61, 0x64]

/-- ".trusty_app.manifest" -/
def manifestName : List UInt8 :=
  [0x2e, 0x74, 0x72, 0x75, 0x73, 0x74, 0x79, 0x5f, 0x61, 0x70, 0x70, 0x2e, 0x6d, 0x61, 0x6e, 0x69,
    0x66, 0x65, 0x73, 0x74]

/-- `ROUNDUP(a, b)` of a `u_int`, for a power of two -/
def roundup (a b : Nat) : Nat := (a + (b - 1)) % 2 ^ 32 / b * b

structure TrustyAppProps where
  uuid : List UInt8
  vmid : Nat
  minStackSize : Nat
  minHeapSize : Nat
  mapIoMemCnt : Nat
  configEntryCnt : Nat
  /-- from `app_img` on; `none` is `NULL` -/
  configBlob : Option Nat
deriving DecidableEq

structure TrustyApp where
  endBss : Nat
  props : TrustyAppProps
  appImg : Nat
deriving DecidableEq

/-! ## The ELF image -/

abbrev ImageM := RegionM Panic

def panicAssert {α : Type} : ImageM α := throw (.stopped .assertFailed)

/-- `n` bytes of a field, `k` into the structure that `ptr` points to -/
def field (ehdr ptr k n : Nat) : ImageM Nat := readLe n (ehdr + (ptr + k))

def eShoff (ehdr : Nat) : ImageM Nat := field ehdr 0 32 4
def eShentsize (ehdr : Nat) : ImageM Nat := field ehdr 0 46 2
def eShnum (ehdr : Nat) : ImageM Nat := field ehdr 0 48 2
def eShstrndx (ehdr : Nat) : ImageM Nat := field ehdr 0 50 2

def sizeofShdr : Nat := 40

def shName (ehdr shdr : Nat) : ImageM Nat := field ehdr shdr 0 4
def shType (ehdr shdr : Nat) : ImageM Nat := field ehdr shdr 4 4
def shAddr (ehdr shdr : Nat) : ImageM Nat := field ehdr shdr 12 4
def shOffset (ehdr shdr : Nat) : ImageM Nat := field ehdr shdr 16 4
def shSize (ehdr shdr : Nat) : ImageM Nat := field ehdr shdr 20 4

/-- What the loop over the section headers sets: pointers to three of them, the
end of the bytes they take up in the image, and `end_bss`. -/
structure Scan where
  bssShdr : Option Nat
  bssPadShdr : Option Nat
  manifestShdr : Option Nat
  maxExtent : Nat
  endBss : Nat

/-- "track bss and manifest sections" -/
def trackSection (ehdr shstbl shdr : Nat) (r : Scan) : ImageM Scan := do
  let name ← shName ehdr shdr
  if (← strcmp (ehdr + (shstbl + name)) bssName) then
    let addr ← shAddr ehdr shdr
    let size ← shSize ehdr shdr
    pure { r with bssShdr := some shdr, endBss := (addr + size) % 2 ^ 32 }
  else if (← strcmp (ehdr + (shstbl + name)) bssPadName) then
    pure { r with bssPadShdr := some shdr }
  else if (← strcmp (ehdr + (shstbl + name)) manifestName) then
    pure { r with manifestShdr := some shdr }
  else pure r

def trackExtent (ehdr shdr : Nat) (r : Scan) : ImageM Scan := do
  if (← shType ehdr shdr) = shtNobits then pure r
  else
    let offset ← shOffset ehdr shdr
    let size ← shSize ehdr shdr
    let extent := (offset + size) % 2 ^ 32
    pure (if r.maxExtent < extent then { r with maxExtent := extent } else r)

/-- One pass of the loop. -/
def scanSection (ehdr shstbl shdr : Nat) (r : Scan) : ImageM Scan := do
  if (← shType ehdr shdr) = shtNull then pure r
  else
    let r ← trackSection ehdr shstbl shdr r
    trackExtent ehdr shdr r

/-- `for (i = 0; i < ehdr->e_shnum; i++)`, with `n` headers to go. -/
def scanLoop (ehdr shstbl : Nat) : Nat → Nat → Scan → ImageM Scan
  | 0, _, r => pure r
  | n + 1, shdr, r => do
      let r ← scanSection ehdr shstbl shdr r
      scanLoop ehdr shstbl n (shdr + sizeofShdr) r

/-- The sections that are needed. -/
structure Sections where
  bssShdr : Nat
  bssPadShdr : Nat
  manifestShdr : Nat
  maxExtent : Nat
  endBss : Nat
deriving DecidableEq

/-- `ASSERT(bss_shdr && bss_pad_shdr && manifest_shdr)` -/
def Scan.sections (r : Scan) : ImageM Sections :=
  match r.bssShdr, r.bssPadShdr, r.manifestShdr with
  | some bss, some pad, some manifest => pure ⟨bss, pad, manifest, r.maxExtent, r.endBss⟩
  | _, _, _ => panicAssert

/-- "calculate trusty_app end" -/
def scanSections (ehdr : Nat) : ImageM Sections := do
  let shdr ← eShoff ehdr
  let shstrndx ← eShstrndx ehdr
  let shstbl ← shOffset ehdr (shdr + shstrndx * sizeofShdr)
  let shnum ← eShnum ehdr
  let r ← scanLoop ehdr shstbl shnum shdr ⟨none, none, none, 0, 0⟩
  r.sections

/-- "clear .bss".  The `ASSERT` adds two `Elf32_Word`s. -/
def clearBss (ehdr : Nat) (s : Sections) : ImageM Unit := do
  let offset ← shOffset ehdr s.bssShdr
  let size ← shSize ehdr s.bssShdr
  if s.maxExtent < (offset + size) % 2 ^ 32 then panicAssert
  else fill 0 (ehdr + offset) size

/-- `config_blob[i]` -/
def configEntry (ehdr blob i : Nat) : ImageM Nat := field ehdr blob (4 * i) 4

/-- "Step thru configuration blob".  Every pass takes an entry, so that as many
passes as there are entries are enough. -/
def configLoop (ehdr blob : Nat) : Nat → Nat → TrustyAppProps → ImageM TrustyAppProps
  | 0, _, props => pure props
  | n + 1, i, props =>
      if props.configEntryCnt ≤ i then pure props
      else do
        let key ← configEntry ehdr blob i
        if key = 1 then
          if props.configEntryCnt - i ≤ 1 then panicAssert
          else
            let v ← configEntry ehdr blob (i + 1)
            if roundup v 4096 = 0 then panicAssert
            else configLoop ehdr blob n (i + 2) { props with minStackSize := roundup v 4096 }
        else if key = 2 then
          if props.configEntryCnt - i ≤ 1 then panicAssert
          else
            let v ← configEntry ehdr blob (i + 1)
            if roundup v 4096 = 0 then panicAssert
            else configLoop ehdr blob n (i + 2) { props with minHeapSize := roundup v 4096 }
        else if key = 3 then
          if props.configEntryCnt - i ≤ 3 then panicAssert
          else configLoop ehdr blob n (i + 4) { props with mapIoMemCnt := props.mapIoMemCnt + 1 }
        else panicAssert

def loadAppConfigOptions (ehdr shdr taskVmid : Nat) : ImageM TrustyAppProps := do
  let size ← shSize ehdr shdr
  if size < sizeofUuid then panicAssert
  else
    let manifestData ← shOffset ehdr shdr
    let uuid ← readBytes (ehdr + manifestData) sizeofUuid
    let cnt := (size - sizeofUuid) / 4
    let blob := manifestData + sizeofUuid
    let props : TrustyAppProps :=
      { uuid := uuid, vmid := taskVmid, minStackSize := 4096, minHeapSize := 4 * pageSize,
        mapIoMemCnt := 0, configEntryCnt := cnt,
        configBlob := if cnt = 0 then none else some blob }
    configLoop ehdr blob cnt 0 props

/-- The first half of `align_next_app`: where the next app is to start and where
it starts now. -/
def nextAppStart (ehdr padHdr maxExtent imageEnd : Nat) : ImageM (Nat × Nat) := do
  let shoff ← eShoff ehdr
  if roundup maxExtent 4 ≠ shoff then panicAssert
  else
    let shnum ← eShnum ehdr
    let shentsize ← eShentsize ehdr
    let lastByte := (shoff + shnum * shentsize + (2 ^ 32 - 1)) % 2 ^ 32
    if imageEnd < ehdr + lastByte + 1 then panicAssert
    else
      let offset ← shOffset ehdr padHdr
      let size ← shSize ehdr padHdr
      if lastByte + 1 < offset + size then panicAssert
      else pure (offset + size, lastByte + 1)

/-- What one app leaves behind: its entry in the list, and the two starts. -/
structure Parsed where
  endBss : Nat
  props : TrustyAppProps
  alignStart : Nat
  fsizeStart : Nat
deriving DecidableEq

/-- The part of a pass that only looks at the app. -/
def parseApp (ehdr imageEnd taskVmid : Nat) : ImageM Parsed := do
  let s ← scanSections ehdr
  clearBss ehdr s
  let props ← loadAppConfigOptions ehdr s.manifestShdr taskVmid
  let next ← nextAppStart ehdr s.bssPadShdr s.maxExtent imageEnd
  pure ⟨s.endBss, props, next.1, next.2⟩

/-! ## The loader -/

/-- `trusty_app_image_addr`, `trusty_app_image_end`, `trusty_app_image_size` -/
structure Cursor where
  imageAddr : Nat
  imageEnd : Nat
  imageSize : Nat
deriving DecidableEq

/-- The cursor at the head of a pass, and the cursor and the bytes when its app
is parsed. -/
structure Visit where
  head : Cursor
  cursor : Cursor
  mem : List UInt8

structure Boot where
  mem : List UInt8
  cursor : Cursor
  taskVmid : Nat
  guestCount : Nat
  apps : List TrustyApp
  visits : List Visit

abbrev BootM := EStateM (Stop Panic) Boot

def onMem {α : Type} (m : ImageM α) : BootM α :=
  zoom Boot.mem (fun mem s => { s with mem := mem }) m

/-- `strtoul` at an address: the bytes may run out. -/
def readVmid (p : Nat) : ImageM (Nat × UInt8) := do
  match strtoul ((← get).drop p) with
  | none => throw .readOutside
  | some r => pure r

def updateTaskAddrWithVmid : BootM Unit := do
  let c := (← get).cursor
  if (← onMem (strcmp c.imageAddr nvGuestTaskMagicStr)) then
    modify fun s => { s with guestCount := s.guestCount + 1 }
    let r ← onMem (readVmid (c.imageAddr + nvGuestTaskMagicIdLen))
    modify fun s => { s with taskVmid := r.1 % 2 ^ 32 }
    if r.2 ≠ 0 then throw (.stopped .vmidConvertFail)
    else
      let size := (c.imageSize + (2 ^ 32 - nvGuestTaskHeadSize)) % 2 ^ 32
      modify fun s => { s with cursor := ⟨c.imageAddr, c.imageEnd - nvGuestTaskHeadSize, size⟩ }
      onMem (memmove c.imageAddr (c.imageAddr + nvGuestTaskHeadSize) size)
  else pure ()

/-- The second half of `align_next_app`: "copy remaining image bytes to aligned
start". -/
def copyNextApp (alignStart fsizeStart : Nat) : BootM Unit := do
  let c := (← get).cursor
  let copySize := (c.imageEnd - (c.imageAddr + fsizeStart)) % 2 ^ 32
  if copySize = 0 then
    modify fun s => { s with cursor :=
      ⟨c.imageAddr + alignStart, c.imageEnd,
        (c.imageSize + (2 ^ 32 - fsizeStart % 2 ^ 32)) % 2 ^ 32⟩ }
  else
    onMem (memcpy (c.imageAddr + alignStart) (c.imageAddr + fsizeStart) copySize)
    modify fun s => { s with cursor :=
      ⟨c.imageAddr + alignStart, c.imageEnd - (fsizeStart - alignStart),
        (c.imageSize + (2 ^ 32 - fsizeStart % 2 ^ 32)) % 2 ^ 32⟩ }

/-- The pass, once the ELF header has been found. -/
def loadNextApp (head : Cursor) : BootM Unit := do
  let s ← get
  modify fun s => { s with visits := s.visits ++ [⟨head, s.cursor, s.mem⟩] }
  let p ← onMem (parseApp s.cursor.imageAddr s.cursor.imageEnd s.taskVmid)
  copyNextApp p.alignStart p.fsizeStart
  if s.apps.length + 1 < maxTrustyAppCount then
    modify fun t => { t with apps := t.apps ++ [⟨p.endBss, p.props, s.cursor.imageAddr⟩] }
  else throw (.stopped .assertFailed)

/-- One pass of the loop; `false` is the `break`. -/
def bootloaderPass : BootM Bool := do
  let head := (← get).cursor
  updateTaskAddrWithVmid
  let ehdr := (← get).cursor.imageAddr
  if (← onMem (strncmp ehdr elfmag)) then
    loadNextApp head
    pure true
  else pure false

/-- `while (trusty_app_image_size > 0)`.  A pass adds an app, and asserts that
the list has room for it. -/
def bootloaderLoop : Nat → BootM Unit
  | 0 => throw (.stopped .assertFailed)
  | n + 1 => do
      if (← get).cursor.imageSize = 0 then pure ()
      else if (← bootloaderPass) then bootloaderLoop n
      else pure ()

/-- The loader as `trusty_app_init` starts it. -/
def Boot.init (image : List UInt8) : Boot :=
  { mem := image, cursor := ⟨0, image.length, image.length % 2 ^ 32⟩, taskVmid := 0,
    guestCount := 0, apps := [], visits := [] }

def trustyAppBootloader (image : List UInt8) : EStateM.Result (Stop Panic) Boot Unit :=
  bootloaderLoop maxTrustyAppCount (Boot.init image)

end TX2SecureUart.Loader
