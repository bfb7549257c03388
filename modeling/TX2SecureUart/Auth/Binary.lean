/-
# `Auth.Binary` — `tegrabl_auth_binary.c`

A signed binary has a header of 400 bytes, the last 16 of which are signed with
the binary.  It is processed in blocks: the digest is fed and the binary, without
its header, is left at the destination.

The configuration is that of L4T on T186: with secure boot, without ECDSA and
rollback prevention, and `OEM_RSA_SBK` handled as `OEM_RSA`.  `Primitives` is how
the fuses, the crypto layer and the heap answer.  The destination holds
`dest_size` bytes, a block its own bytes; an access elsewhere, and one to a header
slot that is not there, is the stop `outOfBounds`.  So is a digest over bytes of
the destination that were not copied there from a block.  Sizes have 32 bits.
Log output and the release of crypto buffers are left out.
-/
import TX2SecureUart.Lib.Prog
import TX2SecureUart.Lib.LeBytes
import TX2SecureUart.Lib.StrRead
import TX2SecureUart.Lib.ByteStore
import TX2SecureUart.Storage.Err

namespace TX2SecureUart.Auth

open Prog Storage StrRead ByteStore

inductive Stop where
  | err (e : TegrablErr)
  | outOfBounds
deriving DecidableEq

/-- A place in the destination, or in the block that is processed. -/
inductive Ptr where
  | dest (off : Nat)
  | block (off : Nat)
deriving DecidableEq

def Ptr.add : Ptr → Nat → Ptr
  | .dest off, n => .dest (off + n)
  | .block off, n => .block (off + n)

/-- `tegrabl_signingtype_t` -/
inductive Mode where
  | none
  | oemRsa
  | oemEcc
  | nvidiaRsa
  | sbk
deriving DecidableEq

/-- The key that a crypto context is set up with. -/
inductive Key where
  | none
  | keyslot (slot : Nat)
  /-- `tegrabl_brbct_pubkey_rsa_get` -/
  | brbct
  /-- The key of the keystore for a binary. -/
  | keystore (binType : Nat)
deriving DecidableEq

/-- `tegrabl_crypto_aes_context` or `tegrabl_crypto_rsa_pss_context` -/
structure Context where
  key : Key
  /-- `in_hash` or `signature` -/
  signature : List UInt8
  isDecrypt : Bool
  /-- What was processed, in order. -/
  fed : List UInt8
deriving DecidableEq

def Context.zero : Context := ⟨.none, [], false, []⟩

/-- `tegrabl_auth_header_info` -/
structure HeaderInfo where
  mode : Mode
  validationSize : Nat
  processedSize : Nat
  binarySize : Nat
  aes : Context
  rsa : Context
deriving DecidableEq

def HeaderInfo.zero : HeaderInfo := ⟨.none, 0, 0, 0, .zero, .zero⟩

/-- `tegrabl_auth_handle` -/
structure Handle where
  binType : Nat
  allowedModes : List Mode
  destSize : Nat
  processedSize : Nat
  binarySize : Nat
  remainingSize : Nat
  numHeaders : Nat
  curHeader : Nat
  safeDestLocation : Nat
  headers : Nat → HeaderInfo
  allowOemModes : Bool
  shortBinary : Bool
  checkNvidiaHeader : Bool

structure State where
  auth : Handle
  /-- The destination. -/
  dest : Nat → UInt8
  /-- The bytes of the destination that were copied there from a block. -/
  copies : Nat → Bool
  /-- The static of `tegrabl_auth_process_header`. -/
  secureMode : Nat
  calls : Nat

structure Primitives where
  /-- `FUSE_TYPE_BOOT_SECURITY_INFO` -/
  fuse : Nat
  /-- The calls that fail. -/
  fails : Nat → Option TegrablErr
  /-- A signature belongs to the bytes. -/
  verifies : Key → List UInt8 → List UInt8 → Bool
  encrypt : Key → List UInt8 → List UInt8
  /-- What was decrypted before comes first. -/
  decrypt : Key → List UInt8 → List UInt8 → List UInt8

abbrev AuthM := EStateM Stop State

/-! ## Constants and 32-bit sizes -/

/-- `HEADER_SIZE`, the size of `tegrabl_sigheader` -/
def headerSize : Nat := 400

def signedSectionLen : Nat := 16

/-- `TEGRABL_AUTH_MAX_HEADERS` -/
def maxHeaders : Nat := 2

/-- `FULL_BINARY_VERIFY_THRESHOLD` -/
def fullBinaryVerifyThreshold : Nat := 25 * 1024

def oneKb : Nat := 1024

/-- `AES_KEYSLOT_SBK` -/
def aesKeyslotSbk : Nat := 14

@[irreducible] def add32 (a b : Nat) : Nat := (a + b) % 2 ^ 32

@[irreducible] def sub32 (a b : Nat) : Nat := (a + 2 ^ 32 - b) % 2 ^ 32

def binaryMtsPreboot : Nat := 1
def binaryDmce : Nat := 2
def binaryEarlySpefw : Nat := 4
def binaryApe : Nat := 11
def binarySce : Nat := 12
def binaryBpmpFw : Nat := 16
def binaryBpmpFwDtb : Nat := 17
def binaryKernelDtb : Nat := 21
def binaryKernel : Nat := 24
def binaryRecoveryImg : Nat := 28
def binaryRecoveryDtb : Nat := 29

def fuseAescmac : Nat := 0
def fuseRsa : Nat := 1
def fuseEcc : Nat := 2
def fuseRsaEncryption : Nat := 4

/-! ## The header -/

def field (hdr : List UInt8) (off len : Nat) : List UInt8 := (hdr.drop off).take len

def cryptohash (hdr : List UInt8) : List UInt8 := field hdr 8 16

def rsapsssig (hdr : List UInt8) : List UInt8 := field hdr 24 256

def signtype (hdr : List UInt8) : Nat := leNat (field hdr 388 4)

def binarylength (hdr : List UInt8) : Nat := leNat (field hdr 392 4)

def gshv : List UInt8 := [71, 83, 72, 86, 0]

def nvda : List UInt8 := [78, 86, 68, 65, 0]

/-- `tegrabl_auth_check_sigheader` -/
def authCheckSigheader (buff : List UInt8) : Option Bool := do
  if ← strncmp 4 buff gshv then pure true else strncmp 4 buff nvda

/-! ## Memory and primitives -/

variable (P : Primitives)

def throwErr {α : Type} (reason : ErrReason) (aux : Nat) : AuthM α :=
  throw (.err (tegrablError .auth reason aux))

/-- A call of a primitive whose error is passed on. -/
def primitive : AuthM Unit := do
  let s ← get
  set { s with calls := s.calls + 1 }
  match P.fails s.calls with
  | none => pure ()
  | some e => throw (.err (e.setHighestModule .auth))

/-- A call of a primitive whose failure is only looked at. -/
def attempt : AuthM Bool := do
  let s ← get
  set { s with calls := s.calls + 1 }
  pure (P.fails s.calls).isNone

variable (blk : List UInt8)

/-- Whether these bytes are in the destination or in the block. -/
def InMemory (destSize : Nat) (n : Nat) : Ptr → Prop
  | .dest off => off + n ≤ destSize
  | .block off => off + n ≤ blk.length

instance (destSize n : Nat) (p : Ptr) : Decidable (InMemory blk destSize n p) := by
  cases p <;> unfold InMemory <;> infer_instance

def bytesAt (dest : Nat → UInt8) (n : Nat) : Ptr → List UInt8
  | .dest off => slice dest off n
  | .block off => (blk.drop off).take n

def read (p : Ptr) (n : Nat) : AuthM (List UInt8) := do
  let s ← get
  if InMemory blk s.auth.destSize n p then pure (bytesAt blk s.dest n p) else throw .outOfBounds

/-- Whether the `n` bytes at `p` come from a block. -/
def fromBlock (copies : Nat → Bool) (n : Nat) : Ptr → Bool
  | .dest off => (List.range n).all fun i => copies (off + i)
  | .block _ => true

/-- The bytes that are handed to the crypto layer. -/
def readCopied (p : Ptr) (n : Nat) : AuthM (List UInt8) := do
  let s ← get
  if fromBlock s.copies n p = true then read blk p n else throw .outOfBounds

/-- The bytes of the destination that come from a block, after a copy of `n` bytes
from `p` to `dst`. -/
def copied (copies : Nat → Bool) (dst n : Nat) (p : Ptr) (a : Nat) : Bool :=
  if dst ≤ a ∧ a < dst + n then fromBlock copies 1 (p.add (a - dst)) else copies a

/-- `memcpy` and `memmove` to the destination.  They copy upwards, so that a source
above the target is read before it is overwritten. -/
def copyTo (dst : Nat) (p : Ptr) (n : Nat) : AuthM Unit := do
  let bytes ← read blk p n
  let s ← get
  if dst + n ≤ s.auth.destSize then
    set { s with dest := patch s.dest dst bytes, copies := copied s.copies dst n p }
  else
    throw .outOfBounds

def setHeader (i : Nat) (f : HeaderInfo → HeaderInfo) : AuthM Unit := do
  let s ← get
  if i < maxHeaders then
    set { s with auth := { s.auth with
      headers := Function.update s.auth.headers i (f (s.auth.headers i)) } }
  else
    throw .outOfBounds

/-! ## `tegrabl_auth_process_header` -/

/-- `tegrabl_auth_fill_aes_key` -/
def authFillAesKey (binType : Nat) : Except TegrablErr Key :=
  if binType = binaryEarlySpefw then .ok (.keyslot 8)
  else if binType = binarySce then .ok (.keyslot 6)
  else if binType = binaryBpmpFw ∨ binType = binaryBpmpFwDtb then .ok (.keyslot 9)
  else if binType = binaryApe then .ok (.keyslot 7)
  else if binType = binaryMtsPreboot ∨ binType = binaryDmce then .ok (.keyslot 10)
  else .error (tegrablError .auth .invalid 5)

/-- `tegrabl_auth_fill_rsa_pss_key`, once the keystore is there. -/
def authFillRsaPssKey (binType : Nat) : Except TegrablErr Key :=
  if binType = binaryBpmpFw ∨ binType = binaryBpmpFwDtb ∨ binType = binaryEarlySpefw ∨
      binType = binaryApe ∨ binType = binarySce ∨ binType = binaryMtsPreboot ∨
      binType = binaryDmce then .ok (.keystore binType)
  else .error (tegrablError .auth .invalid 7)

def liftErr {α : Type} : Except TegrablErr α → AuthM α
  | .ok a => pure a
  | .error e => throw (.err e)

/-- `tegrabl_update_allowed_modes` -/
def updateAllowedModes (a : Handle) : List Mode :=
  (if a.binType = binaryMtsPreboot ∨ a.binType = binaryDmce then [.nvidiaRsa] else []) ++
    (if a.allowOemModes = true then [.sbk, .oemRsa, .oemEcc] else [])

/-- The security fuse, read until it is not zero. -/
def readSecureMode : AuthM Nat := do
  let s ← get
  if s.secureMode ≠ 0 then pure s.secureMode
  else do
    primitive P
    modify fun s => { s with secureMode := P.fuse }
    pure P.fuse

/-- The mode that a header is processed in, and what the static becomes. -/
def signTypeOf (hdr : List UInt8) (secureMode : Nat) : Option (Mode × Nat) :=
  if signtype hdr = 3 then some (.nvidiaRsa, secureMode)
  else if secureMode = fuseAescmac then some (.sbk, secureMode)
  else if secureMode = fuseRsa then some (.oemRsa, secureMode)
  else if secureMode = fuseRsaEncryption then some (.oemRsa, fuseRsa)
  else if secureMode = fuseEcc then some (.oemEcc, secureMode)
  else none

def initAes (i : Nat) (c : Context) : AuthM Unit := do
  setHeader i fun h => { h with aes := c }
  primitive P

def initRsa (i : Nat) (c : Context) : AuthM Unit := do
  setHeader i fun h => { h with rsa := c }
  primitive P

/-- The keystore is looked up before the key is chosen. -/
def initNvidiaRsa (i : Nat) (hdr : List UInt8) (binType : Nat) : AuthM Unit := do
  let aesKey ← liftErr (authFillAesKey binType)
  initAes P i ⟨aesKey, [], true, []⟩
  let keystore ← attempt P
  if keystore = true then do
    let rsaKey ← liftErr (authFillRsaPssKey binType)
    initRsa P i ⟨rsaKey, rsapsssig hdr, false, []⟩
  else
    throwErr .notInitialized 0

def initContexts (i : Nat) (hdr : List UInt8) (binType : Nat) : Mode → AuthM Unit
  | .sbk => initAes P i ⟨.keyslot aesKeyslotSbk, cryptohash hdr, false, []⟩
  | .nvidiaRsa => initNvidiaRsa P i hdr binType
  | .oemRsa => initRsa P i ⟨.brbct, rsapsssig hdr, false, []⟩
  | _ => throwErr .notSupported 0

/-- What the accepted header leaves in the handle and its slot. -/
def acceptHeader (i : Nat) (hdr : List UInt8) (mode : Mode) : AuthM Unit := do
  modify fun s => { s with auth := { s.auth with
    allowOemModes := false, binarySize := binarylength hdr } }
  setHeader i fun h => { h with
    mode := mode
    binarySize := binarylength hdr
    validationSize := add32 (binarylength hdr) signedSectionLen }

/-- The sizes that a header may give. -/
def checkSizes (hdr : List UInt8) : AuthM Unit := do
  let s ← get
  if s.auth.destSize < binarylength hdr then throwErr .overflow 0
  else if s.auth.binarySize ≠ 0 ∧ s.auth.binarySize < add32 (binarylength hdr) headerSize then
    throwErr .invalid 0
  else pure ()

def checkMode (mode : Mode) : AuthM Unit := do
  modify fun s => { s with auth := { s.auth with allowedModes := updateAllowedModes s.auth } }
  let s ← get
  if mode ∈ s.auth.allowedModes then pure () else throwErr .verifyFailed 0

/-- `tegrabl_auth_process_header` with the slot `i` -/
def authProcessHeader (i : Nat) (hdr : List UInt8) : AuthM Unit := do
  let secureMode ← readSecureMode P
  match signTypeOf hdr secureMode with
  | none => throwErr .invalid 0
  | some (mode, secureMode) => do
      modify fun s => { s with secureMode := secureMode }
      checkSizes hdr
      checkMode mode
      acceptHeader i hdr mode
      let s ← get
      initContexts P i hdr s.auth.binType mode

/-! ## `tegrabl_auth_subprocess` -/

/-- SHA of the bytes. -/
def digest (i : Nat) (buf : Ptr) (size : Nat) : AuthM Unit := do
  let bytes ← readCopied blk buf size
  primitive P
  setHeader i fun h => { h with rsa := { h.rsa with fed := h.rsa.fed ++ bytes } }

def decryptTo (dst : Nat) (c : Context) (bytes : List UInt8) : AuthM Unit := do
  let s ← get
  if dst + bytes.length ≤ s.auth.destSize then
    set { s with
      dest := patch s.dest dst ((P.decrypt c.key c.fed bytes).take bytes.length)
      copies := fun a => if dst ≤ a ∧ a < dst + bytes.length then false else s.copies a }
  else
    throw .outOfBounds

/-- AES leaves what it decrypts at the destination; a hash leaves nothing. -/
def aesOutput (dst : Nat) (c : Context) (bytes : List UInt8) : AuthM Unit :=
  if c.isDecrypt = true then decryptTo P dst c bytes else pure ()

def applyAes (i : Nat) (buf : Ptr) (size dst : Nat) : AuthM Unit := do
  let bytes ← readCopied blk buf size
  let s ← get
  aesOutput P dst (s.auth.headers i).aes bytes
  primitive P
  setHeader i fun h => { h with aes := { h.aes with fed := h.aes.fed ++ bytes } }

def addProcessed (i size : Nat) : AuthM Unit :=
  setHeader i fun h => { h with processedSize := add32 h.processedSize size }

/-- The digest, and what is left for AES: the signed section is not. -/
def applyRsa (i : Nat) (buf : Ptr) (size : Nat) : AuthM (Ptr × Nat) := do
  digest P blk i buf size
  let s ← get
  if (s.auth.headers i).processedSize = 0 then do
    addProcessed i signedSectionLen
    pure (buf.add signedSectionLen, sub32 size signedSectionLen)
  else
    pure (buf, size)

def applyMode (i : Nat) (buf : Ptr) (size dst : Nat) : Mode → AuthM Unit
  | .oemRsa => do
      let (_, size) ← applyRsa P blk i buf size
      addProcessed i size
  | .nvidiaRsa => do
      let (buf, size) ← applyRsa P blk i buf size
      applyAes P blk i buf size dst
      addProcessed i size
  | .sbk => do
      applyAes P blk i buf size dst
      addProcessed i size
  | _ => throwErr .invalid 0

/-- What is left of a buffer of a header. -/
def HeaderInfo.left (h : HeaderInfo) (size : Nat) : Nat :=
  min size (sub32 h.validationSize h.processedSize)

/-- `tegrabl_auth_subprocess` -/
def authSubprocess (i : Nat) (buf : Ptr) (size dst : Nat) : AuthM Unit := do
  let s ← get
  let h := s.auth.headers i
  if h.left size = 0 then pure () else applyMode P blk i buf (h.left size) dst h.mode

/-! ## `tegrabl_auth_process_block` -/

/-- The label `done`. -/
def finishBlock (size cur num : Nat) : AuthM Unit :=
  modify fun s => { s with auth := { s.auth with
    processedSize := add32 s.auth.processedSize size
    safeDestLocation := add32 s.auth.processedSize size
    curHeader := cur
    numHeaders := num } }

def setRemaining (remaining : Nat) : AuthM Unit :=
  modify fun s => { s with auth := { s.auth with remainingSize := remaining } }

/-- The copy at the end of a block with a header. -/
def placeBinary (i : Nat) (buf : Ptr) (size : Nat) : AuthM Unit := do
  let s ← get
  if .dest s.auth.safeDestLocation ≠ buf ∧ size ≠ 0 ∧ (s.auth.headers i).mode ≠ .nvidiaRsa then
    copyTo blk s.auth.safeDestLocation buf size
  else
    pure ()

/-- A block with a header, of a binary that is not buffered whole. -/
def fullHeaderBlock (i num : Nat) (buf : Ptr) (size : Nat) : AuthM Unit := do
  let signed := headerSize - signedSectionLen
  authSubprocess P blk i (buf.add signed) (size - signed) 0
  let s ← get
  let validationSize := (s.auth.headers i).validationSize
  let done := min (size - signed) validationSize
  setRemaining (sub32 validationSize done)
  modify fun s => { s with auth := { s.auth with processedSize := 0 } }
  placeBinary blk i (buf.add headerSize) (sub32 done signedSectionLen)
  finishBlock (sub32 done signedSectionLen) i num

/-- A block with a header, of a binary that is buffered whole. -/
def shortHeaderBlock (i num : Nat) (buf : Ptr) (size : Nat) : AuthM Unit := do
  let s ← get
  copyTo blk s.auth.safeDestLocation buf size
  setRemaining (sub32 (s.auth.headers i).binarySize (size - headerSize))
  modify fun s => { s with auth := { s.auth with shortBinary := true } }
  finishBlock size i num

/-- Whether a binary is buffered whole. -/
def HeaderInfo.isShort (h : HeaderInfo) (size : Nat) : Prop :=
  h.validationSize < fullBinaryVerifyThreshold ∧ size - headerSize < h.binarySize

instance (h : HeaderInfo) (size : Nat) : Decidable (h.isShort size) := by
  unfold HeaderInfo.isShort
  infer_instance

/-- A block that starts with a header. -/
def headerBlock (buf : Ptr) (size : Nat) : AuthM Unit := do
  let s ← get
  let i := if s.auth.numHeaders ≥ 1 then s.auth.curHeader + 1 else s.auth.curHeader
  let num := s.auth.numHeaders + 1
  let hdr ← read blk buf headerSize
  authProcessHeader P i hdr
  let s ← get
  let h := s.auth.headers i
  if h.binarySize < oneKb then throwErr .invalid 0
  else if h.isShort size then shortHeaderBlock blk i num buf size
  else fullHeaderBlock P blk i num buf size

/-- The last block of a binary that was buffered whole. -/
def lastBlock (i size : Nat) : AuthM Unit := do
  let s ← get
  authSubprocess P blk i (.dest (headerSize - signedSectionLen))
    (add32 s.auth.processedSize size) 0
  let s ← get
  let h := s.auth.headers i
  if h.mode ≠ .nvidiaRsa then copyTo blk 0 (.dest headerSize) h.binarySize else pure ()

def streamBlock (i : Nat) (buf : Ptr) (size : Nat) : AuthM Unit := do
  let s ← get
  if s.auth.shortBinary = true then pure ()
  else authSubprocess P blk i buf size s.auth.safeDestLocation

def lastBlockIf (i size : Nat) : AuthM Unit := do
  let s ← get
  if s.auth.shortBinary = true ∧ s.auth.remainingSize ≤ size then lastBlock P blk i size
  else pure ()

/-- A block without a header. -/
def dataBlock (buf : Ptr) (size : Nat) : AuthM Unit := do
  let s ← get
  streamBlock P blk s.auth.curHeader buf size
  placeBinary blk s.auth.curHeader buf size
  lastBlockIf P blk s.auth.curHeader size
  let t ← get
  setRemaining (sub32 t.auth.remainingSize size)
  finishBlock size s.auth.curHeader s.auth.numHeaders

/-- A block in which a header is looked for. -/
def checkedBlock (buf : Ptr) (size : Nat) : AuthM Unit := do
  let s ← get
  let start ← read blk buf headerSize
  if authCheckSigheader start = some true then headerBlock P blk buf size
  else if s.auth.numHeaders = 0 then throwErr .notFound 0
  else dataBlock P blk buf size

/-- `tegrabl_auth_process_block` -/
def authProcessBlock (buf : Ptr) (size : Nat) (checkHeader : Bool) : AuthM Unit := do
  let s ← get
  if size = 0 ∨ s.auth.destSize < headerSize then throwErr .invalid 0
  else if checkHeader = false then dataBlock P blk buf size
  else if size < headerSize then throwErr .invalid 0
  else checkedBlock P blk buf size

/-! ## The end of a binary -/

/-- `tegrabl_crypto_finalize` -/
def cryptoFinalize (c : Context) : Option TegrablErr :=
  if P.verifies c.key c.signature c.fed = true then none
  else some (tegrablError .auth .verifyFailed 0)

def checkSignature (c : Context) : AuthM Unit :=
  match cryptoFinalize P c with
  | none => pure ()
  | some e => throw (.err e)

/-- One header of `tegrabl_auth_finalize`; an unknown mode is an error that the
next header may overwrite. -/
def finalizeHeader (i : Nat) : AuthM (Option TegrablErr) := do
  let s ← get
  if i < maxHeaders then
    match (s.auth.headers i).mode with
    | .nvidiaRsa => do
        modify fun s => { s with auth := { s.auth with checkNvidiaHeader := false } }
        checkSignature P (s.auth.headers i).rsa
        pure none
    | .oemRsa => do
        checkSignature P (s.auth.headers i).rsa
        pure none
    | .sbk => do
        checkSignature P (s.auth.headers i).aes
        pure none
    | _ => pure (some (tegrablError .auth .invalid 0))
  else
    throw .outOfBounds

def finalizeHeaders : List Nat → Option TegrablErr → AuthM (Option TegrablErr)
  | [], err => pure err
  | i :: is, _ => do
      let err ← finalizeHeader P i
      finalizeHeaders is err

/-- `tegrabl_auth_finalize` -/
def authFinalize : AuthM Unit := do
  let s ← get
  let err ← finalizeHeaders P (List.range s.auth.numHeaders) none
  let t ← get
  if t.auth.checkNvidiaHeader = true then throwErr .invalid 0
  else liftErr (err.elim (.ok ()) .error)

/-! ## `tegrabl_auth_payload` -/

/-- What `tegrabl_auth_initiate` leaves in the handle. -/
def initialHandle (binType destSize : Nat) : Handle :=
  { binType := binType
    allowedModes := []
    destSize := destSize
    processedSize := 0
    binarySize := 0
    remainingSize := 0
    numHeaders := 0
    curHeader := 0
    safeDestLocation := 0
    headers := fun _ => .zero
    allowOemModes := true
    shortBinary := false
    checkNvidiaHeader := decide (binType = binaryMtsPreboot ∨ binType = binaryDmce) }

/-- `tegrabl_auth_initiate` -/
def authInitiate (binType destSize : Nat) : AuthM Unit :=
  if destSize < headerSize then throwErr .invalid 0
  else modify fun s => { s with auth := initialHandle binType destSize }

/-- `sample_text` -/
def sampleText : List UInt8 := [0, 1, 2, 3, 4, 5, 6, 7, 8, 9, 10, 11, 12, 13, 14, 15]

/-- `cipher_test`: the sample under a key of zeros. -/
def cipherTest : List UInt8 :=
  [0x7A, 0xCA, 0x0F, 0xD9, 0xBC, 0xD6, 0xEC, 0x7C, 0x9F, 0x97, 0x46, 0x66, 0x16, 0xE6, 0xA2, 0x82]

/-- `tegrabl_keyslot_check_if_key_is_nonzero`: two allocations and an encryption, a
failure of which is reported as a key of zeros. -/
def keyslotCheckIfKeyIsNonzero (keyslot : Nat) : AuthM Bool := do
  if ← attempt P then
    if ← attempt P then
      if ← attempt P then
        pure (decide (P.encrypt (.keyslot keyslot) sampleText ≠ cipherTest))
      else pure false
    else pure false
  else pure false

/-- `tegrabl_cipher_binary`, to decrypt the start of the destination in its place. -/
def cipherBinary (size : Nat) : AuthM Unit :=
  if size = 0 ∨ size % 16 ≠ 0 then throwErr .invalid 0
  else do
    primitive P
    let bytes ← read [] (.dest 0) size
    decryptTo P 0 ⟨.keyslot aesKeyslotSbk, [], true, []⟩ bytes
    primitive P

/-- `tegrabl_decrypt_block` -/
def decryptBlock (size : Nat) : AuthM Unit := do
  primitive P
  if P.fuse ≠ fuseRsaEncryption then pure ()
  else do
    let nonzero ← keyslotCheckIfKeyIsNonzero P aesKeyslotSbk
    if nonzero = true then cipherBinary P size else pure ()

/-- The types of `tegrabl_auth_payload`. -/
def payloadTypes : List Nat :=
  [binaryKernel, binaryKernelDtb, binaryRecoveryImg, binaryRecoveryDtb]

/-- `tegrabl_auth_get_binary_len` -/
def authGetBinaryLen (payload : List UInt8) : Option Nat := do
  if ← authCheckSigheader payload then
    if 396 ≤ payload.length then pure (binarylength payload) else none
  else pure 0

/-- The payload, in the destination. -/
def payloadAt (payload : List UInt8) (binType : Nat) (secureMode calls : Nat) : State :=
  { auth := initialHandle binType payload.length
    dest := fun a => payload.getD a 0
    copies := fun a => decide (a < payload.length)
    secureMode := secureMode
    calls := calls }

def authPayloadFrom (payload : List UInt8) (binType : Nat) (binaryLen : Nat) : AuthM Unit := do
  authInitiate binType payload.length
  authProcessBlock P [] (.dest 0) payload.length true
  authFinalize P
  decryptBlock P binaryLen

/-- `tegrabl_auth_payload`: the payload has `max_size` bytes. -/
def authPayload (payload : List UInt8) (binType : Nat) : AuthM Unit :=
  if binType ∈ payloadTypes then
    match authGetBinaryLen payload with
    | none => throw .outOfBounds
    | some 0 => throw (.err (tegrablError .noModule .invalid 0))
    | some binaryLen => authPayloadFrom P payload binType binaryLen
  else
    pure ()

end TX2SecureUart.Auth
