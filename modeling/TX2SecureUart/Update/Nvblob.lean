/-
# `Update.Nvblob` — an update payload in memory

The accessors of `tegrabl_nvblob.c`, for a blob that is already in a buffer.  A
signed payload has a `signed_header` of 28 bytes in front of its blob; the
handle's `offset` is 28 then, and 0 otherwise.

    signed_header   magic[20]  actual_blob_size @20  signature_size @24
    blob_header     magic[16]  version @16  size @20  entries_offset @24
                    num_entries @28  type @32  uncomp_size @36  accessory @40
    image entry     partname[40]  image_offset @40  image_size @44
                    version @48  op_mode @52  spec_info[64] @56

A pointer into the payload is the offset from the start of the buffer.  A reading
that leaves the buffer is `none`.
-/
import TX2SecureUart.Lib.LeBytes
import TX2SecureUart.Lib.StrRead
import TX2SecureUart.Storage.Err

namespace TX2SecureUart.Update

open Storage StrRead

/-- The bytes of a string constant. -/
def ascii (s : String) : List UInt8 := s.toList.map (fun c => UInt8.ofNat c.toNat)

/-- A string constant with its terminator. -/
def literal (s : String) : List UInt8 := ascii s ++ [0]

/-- `[buff, buff + size)`; a null pointer has address 0. -/
structure Buffer where
  addr : Nat
  bytes : List UInt8

/-- `struct blob_info`, its `start` as an address. -/
structure BlobInfo where
  start : Nat
  offset : Nat
  dataMemSize : Nat
  infoMemSize : Nat
deriving DecidableEq

/-- The 24 bytes of a handle.  The last four are padding, cleared by the `memset`
in `tegrabl_blob_init`. -/
def BlobInfo.bytes (bh : BlobInfo) : List UInt8 :=
  leBytes 8 bh.start ++ leBytes 4 bh.offset ++ leBytes 4 bh.dataMemSize ++
    leBytes 4 bh.infoMemSize ++ [0, 0, 0, 0]

/-- `sizeof(struct blob_info)` -/
def sizeofBlobInfo : Nat := 24

/-- `sizeof(struct signed_header)` -/
def sizeofSignedHeader : Nat := 28

def signedUpdateMagic : List UInt8 := literal "SIGNED-BY-TEGRASIGN-"

def updateMagic : List UInt8 := literal "NVIDIA__BLOB__V2"

/-- `BLOB_UPDATE` -/
def blobUpdate : Nat := 0

/-- `BLOB_BMP` -/
def blobBmp : Nat := 1

variable (buf : Buffer)

/-- What lies from an offset to the end of the buffer. -/
def Buffer.tail (off : Nat) : List UInt8 := buf.bytes.drop off

/-- The word at an offset. -/
def Buffer.word (off : Nat) : Nat := leNat ((buf.tail off).take 4)

def load8 (off : Nat) : Option Nat := buf.bytes[off]?.map UInt8.toNat

def load32 (off : Nat) : Option Nat :=
  if off + 4 ≤ buf.bytes.length then some (buf.word off) else none

/-- `tegrabl_blob_init` on a buffer, after the handle is allocated: the handle, or
the lack of a magic. -/
def blobLayout : Option (Option BlobInfo) := do
  if ← strncmp 20 (buf.tail 0) signedUpdateMagic then
    let actualBlobSize ← load32 buf 20
    let signatureSize ← load32 buf 24
    pure (some ⟨buf.addr, sizeofSignedHeader,
      (actualBlobSize + signatureSize + sizeofSignedHeader) % 2 ^ 32, sizeofBlobInfo⟩)
  else if ← strncmp 16 (buf.tail 0) updateMagic then
    let size ← load32 buf 20
    pure (some ⟨buf.addr, 0, size, sizeofBlobInfo⟩)
  else
    pure none

/-- `tegrabl_blob_get_size`: the handle itself is taken for a `blob_header`. -/
def blobGetSize (bh : BlobInfo) : Nat := leNat ((bh.bytes.drop 20).take 4)

variable (bh : BlobInfo)

/-- `tegrabl_blob_get_type` -/
def blobGetType : Option Nat := load32 buf (bh.offset + 32)

/-- `tegrabl_blob_get_num_entries` -/
def blobGetNumEntries : Option Nat := load32 buf (bh.offset + 28)

/-- The size of an entry; other types are invalid. -/
def entrySize (type : Nat) : Option Nat :=
  if type = blobUpdate then some 120 else if type = blobBmp then some 52 else none

def invalid : TegrablErr := tegrablError .nvblob .invalid 0

/-- `tegrabl_blob_get_entry` -/
def blobGetEntry (index : Nat) : Option (Except TegrablErr Nat) := do
  let entriesOffset ← load32 buf (bh.offset + 24)
  let type ← load32 buf (bh.offset + 32)
  pure (((entrySize type).map (fun size => bh.offset + entriesOffset + size * index)).elim
    (.error invalid) .ok)

/-- `parse_entry`: where an entry says that its data is, and how long. -/
def parseEntry (type entry : Nat) : Option (Nat × Nat) := do
  let field := if type = blobUpdate then 40 else 4
  let offset ← load32 buf (entry + field)
  let length ← load32 buf (entry + field + 4)
  pure (offset, length)

/-- `tegrabl_blob_get_entry_data` -/
def blobGetEntryData (index : Nat) : Option (Except TegrablErr (Nat × Nat)) := do
  match ← blobGetEntry buf bh index with
  | .error e => pure (.error e)
  | .ok entry =>
      let type ← blobGetType buf bh
      let (offset, length) ← parseEntry buf type entry
      pure (.ok (bh.offset + offset, length))

/-! ## What the readings give -/

/-- The completeness check always sees a size of zero. -/
@[simp] theorem blobGetSize_eq (bh : BlobInfo) : blobGetSize bh = 0 := by
  have hdrop : bh.bytes.drop 20 = [0, 0, 0, 0] := by
    rw [BlobInfo.bytes]
    exact List.drop_left' (by simp)
  rw [blobGetSize, hdrop]
  rfl

theorem load32_of_le {off : Nat} (h : off + 4 ≤ buf.bytes.length) :
    load32 buf off = some (buf.word off) := if_pos h

theorem load32_eq_some {off v : Nat} (h : load32 buf off = some v) :
    off + 4 ≤ buf.bytes.length ∧ v = buf.word off := by
  rw [load32] at h
  split at h
  case isTrue hle => exact ⟨hle, (Option.some.inj h).symm⟩
  case isFalse => cases h

end TX2SecureUart.Update
