/-
# `Sparse.Image` — sparse images

A sparse image is a header and a list of chunks; `tegrabl_sparse.h` describes
both.  Its bytes lead the stream through the chunks, one after the other.
-/
import TX2SecureUart.Sparse.Calls

namespace TX2SecureUart.Sparse

/-! ## The headers as records -/

def headerMagic : Nat := 0xED26FF3A

/-- `struct tegrabl_sparse_image_header` -/
structure ImageHeader where
  magic : Nat
  majorVersion : Nat
  minorVersion : Nat
  fileHdrSz : Nat
  chunkHdrSz : Nat
  blkSz : Nat
  totalBlks : Nat
  totalChunks : Nat
  imageChecksum : Nat

def ImageHeader.bytes (h : ImageHeader) : List UInt8 :=
  leBytes 4 h.magic ++ leBytes 2 h.majorVersion ++ leBytes 2 h.minorVersion ++
    leBytes 2 h.fileHdrSz ++ leBytes 2 h.chunkHdrSz ++ leBytes 4 h.blkSz ++
    leBytes 4 h.totalBlks ++ leBytes 4 h.totalChunks ++ leBytes 4 h.imageChecksum

/-- `struct tegrabl_sparse_chunk_header` -/
structure ChunkHeader where
  chunkType : Nat
  reserved : Nat
  chunkSz : Nat
  totalSz : Nat

def ChunkHeader.bytes (c : ChunkHeader) : List UInt8 :=
  leBytes 2 c.chunkType ++ leBytes 2 c.reserved ++ leBytes 4 c.chunkSz ++ leBytes 4 c.totalSz

@[simp] theorem ImageHeader.length_bytes (h : ImageHeader) : h.bytes.length = sizeofImageHeader := by
  simp [ImageHeader.bytes, sizeofImageHeader]

@[simp] theorem ChunkHeader.length_bytes (c : ChunkHeader) : c.bytes.length = sizeofChunkHeader := by
  simp [ChunkHeader.bytes, sizeofChunkHeader]

theorem majorVersion_bytes (h : ImageHeader) : majorVersion h.bytes = h.majorVersion % 2 ^ 16 := by
  simp [majorVersion, le, ImageHeader.bytes, leNat_leBytes]

theorem chunkHdrSz_bytes (h : ImageHeader) : chunkHdrSz h.bytes = h.chunkHdrSz % 2 ^ 16 := by
  simp [chunkHdrSz, le, ImageHeader.bytes, List.drop_append, List.drop_of_length_le, leNat_leBytes]

theorem blkSz_bytes (h : ImageHeader) : blkSz h.bytes = h.blkSz % 2 ^ 32 := by
  simp [blkSz, le, ImageHeader.bytes, List.drop_append, List.drop_of_length_le, leNat_leBytes]

theorem totalBlks_bytes (h : ImageHeader) : totalBlks h.bytes = h.totalBlks % 2 ^ 32 := by
  simp [totalBlks, le, ImageHeader.bytes, List.drop_append, List.drop_of_length_le, leNat_leBytes]

theorem totalChunks_bytes (h : ImageHeader) : totalChunks h.bytes = h.totalChunks % 2 ^ 32 := by
  simp [totalChunks, le, ImageHeader.bytes, List.drop_append, List.drop_of_length_le, leNat_leBytes]

theorem chunkType_bytes (c : ChunkHeader) : chunkType c.bytes = c.chunkType % 2 ^ 16 := by
  simp [chunkType, le, ChunkHeader.bytes, leNat_leBytes]

theorem chunkSz_bytes (c : ChunkHeader) : chunkSz c.bytes = c.chunkSz % 2 ^ 32 := by
  simp [chunkSz, le, ChunkHeader.bytes, List.drop_append, List.drop_of_length_le, leNat_leBytes]

theorem totalSz_bytes (c : ChunkHeader) : totalSz c.bytes = c.totalSz % 2 ^ 32 := by
  simp [totalSz, le, ChunkHeader.bytes, List.drop_append, List.drop_of_length_le,
    List.take_of_length_le, leNat_leBytes]

/-! ## Images -/

/-- What follows the header of a chunk. -/
inductive Body where
  | raw (data : List UInt8)
  | fill (value : List UInt8)
  | dontCare
  | crc (value : List UInt8)

def Body.chunkType : Body → Nat
  | .raw _ => chunkTypeRaw
  | .fill _ => chunkTypeFill
  | .dontCare => chunkTypeDontCare
  | .crc _ => chunkTypeCrc

def Body.bytes : Body → List UInt8
  | .raw data => data
  | .fill value => value
  | .dontCare => []
  | .crc value => value

/-- There is as much of it as the type and the size of the chunk say. -/
def Body.Ok (size : Nat) : Body → Prop
  | .raw data => data.length = size
  | .fill value => value.length = 4
  | .dontCare => True
  | .crc value => value.length = 4

structure Chunk (blkSz : Nat) where
  reserved : Nat
  chunkSz : Nat
  body : Body
  chunkSz_lt : chunkSz < 2 ^ 32
  ok : body.Ok (chunkSz * blkSz)
  totalSz_lt : sizeofChunkHeader + body.bytes.length < 2 ^ 32

def Chunk.header {blkSz : Nat} (c : Chunk blkSz) : ChunkHeader where
  chunkType := c.body.chunkType
  reserved := c.reserved
  chunkSz := c.chunkSz
  totalSz := sizeofChunkHeader + c.body.bytes.length

def Chunk.bytes {blkSz : Nat} (c : Chunk blkSz) : List UInt8 := c.header.bytes ++ c.body.bytes

/-- What the chunk unpacks to. -/
def Chunk.out {blkSz : Nat} (c : Chunk blkSz) : List Out :=
  match c.body with
  | .raw data => data.map Out.byte
  | .fill value => (fillBytes value (c.chunkSz * blkSz)).map Out.byte
  | .dontCare => [.skip (c.chunkSz * blkSz)]
  | .crc _ => []

structure Image where
  minorVersion : Nat
  blkSz : Nat
  imageChecksum : Nat
  chunks : List (Chunk blkSz)
  blkSz_lt : blkSz < 2 ^ 32
  totalBlks_lt : (chunks.map Chunk.chunkSz).sum < 2 ^ 32
  totalChunks_lt : chunks.length < 2 ^ 32

def Image.totalBlks (img : Image) : Nat := (img.chunks.map Chunk.chunkSz).sum

def Image.header (img : Image) : ImageHeader where
  magic := headerMagic
  majorVersion := 1
  minorVersion := img.minorVersion
  fileHdrSz := sizeofImageHeader
  chunkHdrSz := sizeofChunkHeader
  blkSz := img.blkSz
  totalBlks := img.totalBlks
  totalChunks := img.chunks.length
  imageChecksum := img.imageChecksum

def Image.bytes (img : Image) : List UInt8 := img.header.bytes ++ img.chunks.flatMap Chunk.bytes

/-! ## The stream over an image -/

/-- A chunk can begin here, with the next byte. -/
def Stream.Ready (σ : Stream) : Prop :=
  σ.place = .chunkHeader sizeofChunkHeader [] ∨ ∃ c done, σ.place = .raw c done 0

theorem ready_feed {σ : Stream} (h : σ.Ready) {xs : List UInt8} (hne : xs ≠ []) :
    σ.feed xs = σ.nextChunk.feed xs := by
  rcases h with hp | ⟨c, done, hp⟩
  · rw [Stream.nextChunk, ← hp]
  · exact feed_raw_zero hp hne

/-- `n` chunks of blocks of `blk` bytes may come. -/
structure Stream.Before (blk n : Nat) (σ : Stream) : Prop where
  ready : σ.Ready
  fillValue : σ.fillValue.length = 4
  chunkHdrSz : chunkHdrSz σ.header = sizeofChunkHeader
  blkSz : blkSz σ.header = blk
  room : σ.chunks + n ≤ totalChunks σ.header

/-- The stream behind the header of a chunk. -/
def Stream.opened {blk : Nat} (σ : Stream) (c : Chunk blk) : Stream :=
  let σ := { σ with chunks := σ.chunks + 1 }
  match c.body with
  | .raw _ => { σ with place := .raw c.header.bytes 0 (c.chunkSz * blk) }
  | .fill _ => { σ with place := .fill c.header.bytes (c.chunkSz * blk) 0 }
  | .dontCare => { σ.nextChunk with out := σ.out ++ [.skip (c.chunkSz * blk)] }
  | .crc _ => { σ with place := .crc c.header.bytes (c.chunkSz * blk) }

theorem chunkType_header {blk : Nat} (c : Chunk blk) :
    chunkType c.header.bytes = c.body.chunkType := by
  rw [chunkType_bytes]
  show c.body.chunkType % 2 ^ 16 = _
  cases c.body <;> rfl

theorem chunkSz_header {blk : Nat} (c : Chunk blk) : chunkSz c.header.bytes = c.chunkSz := by
  rw [chunkSz_bytes]
  exact Nat.mod_eq_of_lt c.chunkSz_lt

theorem totalSz_header {blk : Nat} (c : Chunk blk) :
    totalSz c.header.bytes = sizeofChunkHeader + c.body.bytes.length := by
  rw [totalSz_bytes]
  exact Nat.mod_eq_of_lt c.totalSz_lt

theorem validateChunkHeader_header {blk : Nat} (c : Chunk blk) {h : List UInt8}
    (hsize : chunkHdrSz h = sizeofChunkHeader) (hblk : blkSz h = blk) :
    validateChunkHeader h c.header.bytes = none := by
  have hok := c.ok
  have hlt := c.totalSz_lt
  rw [validateChunkHeader, chunkType_header, totalSz_header, chunkSz_header, hsize, hblk]
  cases hbody : c.body with
  | raw data =>
      rw [hbody] at hok hlt
      have hlen : data.length = c.chunkSz * blk := hok
      simp only [Body.bytes] at hlt
      simp only [Body.chunkType, Body.bytes, if_true, hlen]
      rw [if_neg]
      rw [not_not, Nat.mod_eq_of_lt (hlen ▸ hlt)]
  | fill value =>
      rw [hbody] at hok
      have hlen : value.length = 4 := hok
      simp only [Body.bytes, hlen]
      rfl
  | dontCare => rfl
  | crc value => rfl

theorem phaseOf_header {blk : Nat} (c : Chunk blk) : phaseOf c.header.bytes =
    match c.body with
    | .raw _ => .raw
    | .fill _ => .fill
    | .dontCare => .dontCare
    | .crc _ => .crc := by
  rw [phaseOf, chunkType_header]
  cases c.body <;> rfl

theorem pad_full {n : Nat} {xs : List UInt8} (h : xs.length = n) : pad n (xs.take n) = xs := by
  rw [List.take_of_length_le (by omega), pad, h, Nat.sub_self, List.replicate_zero,
    List.append_nil]

theorem feed_header {blk n : Nat} {σ : Stream} (h : σ.Before blk (n + 1)) (c : Chunk blk) :
    σ.feed c.header.bytes = σ.opened c := by
  have hlen := c.header.length_bytes
  have hne : c.header.bytes ≠ [] := by
    intro hnil
    rw [hnil] at hlen
    cases hlen
  have hroom := h.room
  have hp : σ.nextChunk.place = .chunkHeader sizeofChunkHeader [] := rfl
  have hfull : ([] : List UInt8).length + c.header.bytes.length = sizeofChunkHeader := by
    rw [hlen]
    rfl
  rw [ready_feed h.ready hne, feed_chunkHeader_full hp (by decide) hfull, List.nil_append,
    pad_full hlen, Stream.openChunk]
  have hvalid : validateChunkHeader σ.nextChunk.header c.header.bytes = none :=
    validateChunkHeader_header c h.chunkHdrSz h.blkSz
  have hcount : ¬ totalChunks σ.nextChunk.header < σ.nextChunk.chunks + 1 := by
    show ¬ totalChunks σ.header < σ.chunks + 1
    omega
  have hblk : blkSz σ.nextChunk.header = blk := h.blkSz
  rw [hvalid]
  dsimp only
  rw [if_neg hcount, chunkSz_header, hblk, phaseOf_header, Stream.opened]
  cases c.body <;> rfl

/-- The stream behind a chunk that carries no checksum. -/
theorem feed_chunk {blk n : Nat} {σ : Stream} (h : σ.Before blk (n + 1)) (c : Chunk blk)
    (hcrc : c.body.chunkType ≠ chunkTypeCrc) :
    (σ.feed c.bytes).Before blk n ∧ (σ.feed c.bytes).out = σ.out ++ c.out := by
  have hok := c.ok
  have hroom : σ.chunks + 1 + n ≤ totalChunks σ.header := by
    have hmany := h.room
    omega
  have hready : ∀ σ' : Stream, σ'.place = .chunkHeader sizeofChunkHeader [] → σ'.Ready := by
    intro σ' hp
    exact .inl hp
  rw [Chunk.bytes, feed_append, feed_header h c, Stream.opened, Chunk.out]
  cases hbody : c.body with
  | raw data =>
      rw [hbody] at hok
      have hlen : data.length = c.chunkSz * blk := hok
      dsimp only [Body.bytes]
      rcases Nat.eq_zero_or_pos (c.chunkSz * blk) with hzero | hpos
      · rw [List.length_eq_zero_iff.mp (hlen.trans hzero), hzero]
        exact ⟨⟨.inr ⟨_, _, rfl⟩, h.fillValue, h.chunkHdrSz, h.blkSz, hroom⟩, by simp⟩
      · rw [feed_raw_full rfl hpos hlen]
        exact ⟨⟨hready _ rfl, h.fillValue, h.chunkHdrSz, h.blkSz, hroom⟩, rfl⟩
  | fill value =>
      rw [hbody] at hok
      have hlen : value.length = 4 := hok
      have hcopy : overwrite σ.fillValue 0 value = value := by
        have hfill := h.fillValue
        simp [overwrite, List.drop_of_length_le, List.take_of_length_le, hlen, hfill]
      dsimp only [Body.bytes]
      rw [feed_fill_full (by exact h.fillValue) rfl (by omega) (by omega), Stream.unpackFill, hcopy]
      exact ⟨⟨hready _ rfl, hlen, h.chunkHdrSz, h.blkSz, hroom⟩, rfl⟩
  | dontCare =>
      exact ⟨⟨hready _ rfl, h.fillValue, h.chunkHdrSz, h.blkSz, hroom⟩, rfl⟩
  | crc value =>
      rw [hbody] at hcrc
      exact absurd rfl hcrc

/-- A chunk with a checksum ends the stream. -/
theorem feed_crc {blk n : Nat} {σ : Stream} (h : σ.Before blk (n + 1)) (c : Chunk blk)
    (hcrc : c.body.chunkType = chunkTypeCrc) : (σ.feed c.bytes).place = .ended .hangs := by
  have hok := c.ok
  rw [Chunk.bytes, feed_append, feed_header h c, Stream.opened]
  cases hbody : c.body with
  | raw data =>
      rw [hbody] at hcrc
      cases hcrc
  | fill value =>
      rw [hbody] at hcrc
      cases hcrc
  | dontCare =>
      rw [hbody] at hcrc
      cases hcrc
  | crc value =>
      rw [hbody] at hok
      cases value with
      | nil => cases hok
      | cons b value =>
          dsimp only [Body.bytes]
          rw [feed_cons]
          show (Stream.feed (Stream.stop _ .hangs) value).place = _
          rw [feed_ended rfl]
          rfl

/-- The stream behind a list of chunks: it waits for more, or a checksum has
ended it. -/
theorem feed_chunks {blk : Nat} (cs : List (Chunk blk)) {n : Nat} {σ : Stream}
    (h : σ.Before blk (cs.length + n)) :
    (σ.feed (cs.flatMap Chunk.bytes)).Before blk n ∨
      (σ.feed (cs.flatMap Chunk.bytes)).place = .ended .hangs := by
  induction cs generalizing σ with
  | nil => exact .inl (by simpa using h)
  | cons c cs ih =>
      rw [List.length_cons, Nat.add_right_comm] at h
      rw [List.flatMap_cons, feed_append]
      rcases Classical.em (c.body.chunkType = chunkTypeCrc) with hcrc | hcrc
      · have hp := feed_crc h c hcrc
        rw [feed_ended hp]
        exact .inr hp
      · exact ih (feed_chunk h c hcrc).1

/-- Chunks without checksums unpack one after the other. -/
theorem feed_chunks_out {blk : Nat} (cs : List (Chunk blk)) {n : Nat} {σ : Stream}
    (h : σ.Before blk (cs.length + n)) (hcrc : ∀ c ∈ cs, c.body.chunkType ≠ chunkTypeCrc) :
    (σ.feed (cs.flatMap Chunk.bytes)).Before blk n ∧
      (σ.feed (cs.flatMap Chunk.bytes)).out = σ.out ++ cs.flatMap Chunk.out := by
  induction cs generalizing σ with
  | nil => exact ⟨by simpa using h, by simp⟩
  | cons c cs ih =>
      rw [List.length_cons, Nat.add_right_comm] at h
      obtain ⟨hc, hcs⟩ := List.forall_mem_cons.mp hcrc
      obtain ⟨hbefore, hout⟩ := feed_chunk h c hc
      obtain ⟨hafter, hlater⟩ := ih hbefore hcs
      rw [List.flatMap_cons, feed_append, List.flatMap_cons]
      exact ⟨hafter, by rw [hlater, hout, List.append_assoc]⟩

/-! ## The image header -/

theorem validateHeader_bytes (img : Image) (max : Nat) :
    validateHeader img.header.bytes max =
      if max < img.blkSz * img.totalBlks then some .overflow else none := by
  have hmajor : majorVersion img.header.bytes = 1 := by
    rw [majorVersion_bytes]
    rfl
  have hblk : blkSz img.header.bytes = img.blkSz := by
    rw [blkSz_bytes]
    exact Nat.mod_eq_of_lt img.blkSz_lt
  have htotal : totalBlks img.header.bytes = img.totalBlks := by
    rw [totalBlks_bytes]
    exact Nat.mod_eq_of_lt img.totalBlks_lt
  rw [validateHeader, hmajor, hblk, htotal, if_neg (not_not_intro rfl)]

theorem feed_imageBytes (img : Image) (max : Nat) :
    (Stream.init max).feed img.header.bytes = (Stream.init max).openImage img.header.bytes := by
  have hp : (Stream.init max).place = .imageHeader [] := rfl
  have hlen : ([] : List UInt8).length + img.header.bytes.length = sizeofImageHeader := by
    rw [img.header.length_bytes]
    rfl
  have hfeed := feed_imageHeader_full hp (by decide) hlen
  rwa [List.nil_append] at hfeed

/-- The header of an image that is too large is refused. -/
theorem feed_tooLarge (img : Image) {max : Nat} (h : max < img.blkSz * img.totalBlks) :
    ((Stream.init max).feed img.header.bytes).place = .ended (.fail .overflow) := by
  have hval : validateHeader img.header.bytes (Stream.init max).maxUnsparseSize =
      some .overflow := by
    show validateHeader img.header.bytes max = _
    rw [validateHeader_bytes, if_pos h]
  rw [feed_imageBytes, Stream.openImage, hval]
  rfl

/-- Behind the header of an image of allowed size its chunks may come. -/
theorem feed_headerBytes (img : Image) {max : Nat} (h : img.blkSz * img.totalBlks ≤ max) :
    ((Stream.init max).feed img.header.bytes).Before img.blkSz img.chunks.length ∧
      ((Stream.init max).feed img.header.bytes).out = [] := by
  have hchunks : totalChunks img.header.bytes = img.chunks.length := by
    rw [totalChunks_bytes]
    exact Nat.mod_eq_of_lt img.totalChunks_lt
  have hblk : blkSz img.header.bytes = img.blkSz := by
    rw [blkSz_bytes]
    exact Nat.mod_eq_of_lt img.blkSz_lt
  have hsize : chunkHdrSz img.header.bytes = sizeofChunkHeader := by
    rw [chunkHdrSz_bytes]
    rfl
  have hopen : (Stream.init max).openImage img.header.bytes = { Stream.init max with
      header := img.header.bytes
      place := .chunkHeader sizeofChunkHeader [] } := by
    have hval : validateHeader img.header.bytes (Stream.init max).maxUnsparseSize = none := by
      show validateHeader img.header.bytes max = _
      rw [validateHeader_bytes, if_neg (by omega)]
    rw [Stream.openImage, hval, hsize]
  rw [feed_imageBytes, hopen]
  refine ⟨⟨.inl rfl, rfl, hsize, hblk, ?_⟩, rfl⟩
  show 0 + img.chunks.length ≤ totalChunks img.header.bytes
  omega

end TX2SecureUart.Sparse
