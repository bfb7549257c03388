/-
# `Sparse.Encode` — building a sparse image

`tegrabl_sparse.c`.  The image grows in one buffer, whose first bytes are the
header; a chunk is added behind the others and counted in the header.  What is
built so unpacks to what was added.
-/
import TX2SecureUart.Sparse.Split

namespace TX2SecureUart.Sparse

/-- `DIV_CEIL(n, d)` of 32 bits -/
def divCeil (n d : Nat) : Nat := (n + d - 1) % 2 ^ 32 / d

/-- `ROUND_UP(n, w)` of 32 bits -/
def roundUp32 (n w : Nat) : Nat := divCeil n w * w % 2 ^ 32

/-- `struct tegrabl_sparse_state`; `header` and `chunks` are what is in `buffer` -/
structure SparseState where
  header : ImageHeader
  chunks : List UInt8
  bufferSize : Nat
  imageSize : Nat

/-- The bytes at `buffer`. -/
def SparseState.buffer (s : SparseState) : List UInt8 := s.header.bytes ++ s.chunks

/-- The state of an image without chunks. -/
def emptyState (blockSize : Nat) : SparseState where
  header :=
    { magic := headerMagic
      majorVersion := 1
      minorVersion := 0
      fileHdrSz := sizeofImageHeader
      chunkHdrSz := sizeofChunkHeader
      blkSz := blockSize
      totalBlks := 0
      totalChunks := 0
      imageChecksum := 0 }
  chunks := []
  bufferSize := sizeofImageHeader
  imageSize := 0

/-- `tegrabl_sparse_init`, with the answer of `tegrabl_malloc` -/
def sparseInit (malloc : Bool) (blockSize : Nat) : Except Err SparseState :=
  if blockSize % 4096 ≠ 0 then .error .invalid
  else if malloc = false then .error .noMemory
  else .ok (emptyState blockSize)

/-- The arguments of `tegrabl_sparse_add_chunk`, with the answer of
`tegrabl_realloc`; `data` has `data_size` bytes. -/
structure AddArgs where
  chunkType : Nat
  data : List UInt8
  writeSize : Nat
  realloc : Bool

/-- The `buffer_size` of the chunk, unless the arguments are refused. -/
def chunkBufferSize (h : ImageHeader) (a : AddArgs) : Option Nat :=
  if a.chunkType = chunkTypeRaw then
    if a.data.length ≠ a.writeSize then none
    else some ((h.chunkHdrSz + roundUp32 a.writeSize h.blkSz) % 2 ^ 32)
  else if a.chunkType = chunkTypeFill ∨ a.chunkType = chunkTypeCrc then
    if a.data.length ≠ 4 then none else some (h.chunkHdrSz + 4)
  else if a.chunkType = chunkTypeDontCare then
    if a.data.length ≠ 0 then none else some h.chunkHdrSz
  else none

/-- What is written behind the other chunks: zeros, then the header, then the data. -/
def newChunk (h : ImageHeader) (a : AddArgs) (size : Nat) : List UInt8 :=
  let header : ChunkHeader :=
    { chunkType := a.chunkType
      reserved := 0
      chunkSz := divCeil a.writeSize h.blkSz
      totalSz := size }
  overwrite (overwrite (List.replicate size 0) 0 header.bytes) h.chunkHdrSz a.data

/-- `tegrabl_sparse_add_chunk` -/
def sparseAddChunk (s : SparseState) (a : AddArgs) : Option Err × SparseState :=
  if a.writeSize = 0 then (some .invalid, s)
  else
    match chunkBufferSize s.header a with
    | none => (some .invalid, s)
    | some size =>
        if a.realloc = false then (some .noMemory, s)
        else (none, {
          header := { s.header with
            totalBlks := (s.header.totalBlks + divCeil a.writeSize s.header.blkSz) % 2 ^ 32
            totalChunks := (s.header.totalChunks + 1) % 2 ^ 32 }
          chunks := s.chunks ++ newChunk s.header a size
          bufferSize := (s.bufferSize + size) % 2 ^ 64
          imageSize := (s.imageSize + roundUp32 a.writeSize s.header.blkSz) % 2 ^ 64 })

/-- `tegrabl_sparse_get_buffer`: the buffer and its size -/
def sparseGetBuffer (s : SparseState) : List UInt8 × Nat := (s.buffer, s.bufferSize)

/-- A series of calls: those that have succeeded, and the state. -/
def addChunks (s : SparseState) : List AddArgs → List AddArgs × SparseState
  | [] => ([], s)
  | a :: rest =>
      match sparseAddChunk s a with
      | (none, s') => (a :: (addChunks s' rest).1, (addChunks s' rest).2)
      | (some _, s') => addChunks s' rest

/-- `tegrabl_sparse_init_unsparse_state` -/
def sparseInitUnsparseState (maxUnsparseSize : Nat) : Except Err UnsparseState :=
  if maxUnsparseSize = 0 then .error .badParameter else .ok (initUnsparseState maxUnsparseSize)

/-- The image that has been built is unpacked in one call, with its size as the
limit. -/
def unpack (s : SparseState) : Except Err Outcome :=
  (sparseInitUnsparseState s.imageSize).map fun st =>
    unsparse willing st ((sparseGetBuffer s).1.take (sparseGetBuffer s).2) []

/-! ## A call that fails -/

theorem addChunk_fails {s : SparseState} {a : AddArgs} {e : Err}
    (h : (sparseAddChunk s a).1 = some e) : (sparseAddChunk s a).2 = s := by
  rw [sparseAddChunk] at h ⊢
  split
  · rfl
  · rename_i hpos
    rw [if_neg hpos] at h
    split
    · rfl
    · rename_i size hsize
      rw [hsize] at h
      dsimp only at h
      split
      · rfl
      · rename_i hmem
        rw [if_neg hmem] at h
        cases h

/-! ## What a chunk unpacks to -/

/-- The blocks that cover the write size. -/
def AddArgs.blocks (blk : Nat) (a : AddArgs) : Nat := (a.writeSize + blk - 1) / blk

/-- What the chunk is to unpack to: the raw data with zeros up to a block, the fill
value over the blocks, or a seek over them. -/
def AddArgs.out (blk : Nat) (a : AddArgs) : List Out :=
  if a.chunkType = chunkTypeRaw then (pad (a.blocks blk * blk) a.data).map Out.byte
  else if a.chunkType = chunkTypeFill then (fillBytes a.data (a.blocks blk * blk)).map Out.byte
  else [.skip (a.blocks blk * blk)]

def AddArgs.body (blk : Nat) (a : AddArgs) : Body :=
  if a.chunkType = chunkTypeRaw then .raw (pad (a.blocks blk * blk) a.data)
  else if a.chunkType = chunkTypeFill then .fill a.data
  else .dontCare

/-- The 32-bit sums do not wrap. -/
structure AddArgs.NoWrap (blk : Nat) (a : AddArgs) : Prop where
  writeSize : a.writeSize + blk - 1 < 2 ^ 32
  bufferSize : sizeofChunkHeader + (a.body blk).bytes.length < 2 ^ 32

theorem divCeil_eq {blk : Nat} {a : AddArgs} (h : a.NoWrap blk) :
    divCeil a.writeSize blk = a.blocks blk := by
  rw [divCeil, AddArgs.blocks, Nat.mod_eq_of_lt h.writeSize]

theorem roundUp32_eq {blk : Nat} {a : AddArgs} (h : a.NoWrap blk) :
    roundUp32 a.writeSize blk = a.blocks blk * blk := by
  have hle : a.blocks blk * blk ≤ a.writeSize + blk - 1 := Nat.div_mul_le_self _ _
  have hlt := h.writeSize
  rw [roundUp32, divCeil_eq h, Nat.mod_eq_of_lt (by omega)]

theorem writeSize_le {blk : Nat} (hpos : 0 < blk) (a : AddArgs) :
    a.writeSize ≤ a.blocks blk * blk := by
  have hdiv := Nat.div_add_mod (a.writeSize + blk - 1) blk
  have hmod := Nat.mod_lt (a.writeSize + blk - 1) hpos
  rw [Nat.mul_comm] at hdiv
  show a.writeSize ≤ (a.writeSize + blk - 1) / blk * blk
  omega

/-! ## What is built -/

/-- The call is one that adds a raw, fill or don't-care chunk. -/
inductive AddArgs.Valid (a : AddArgs) : Prop
  | raw : a.chunkType = chunkTypeRaw → a.data.length = a.writeSize → a.Valid
  | fill : a.chunkType = chunkTypeFill → a.data.length = 4 → a.Valid
  | dontCare : a.chunkType = chunkTypeDontCare → a.data = [] → a.Valid

def AddArgs.header (blk : Nat) (a : AddArgs) : ChunkHeader where
  chunkType := a.chunkType
  reserved := 0
  chunkSz := a.blocks blk
  totalSz := sizeofChunkHeader + (a.body blk).bytes.length

def AddArgs.bytes (blk : Nat) (a : AddArgs) : List UInt8 :=
  (a.header blk).bytes ++ (a.body blk).bytes

/-- The header of an image of the chunks `as`. -/
def builtHeader (blk : Nat) (as : List AddArgs) : ImageHeader where
  magic := headerMagic
  majorVersion := 1
  minorVersion := 0
  fileHdrSz := sizeofImageHeader
  chunkHdrSz := sizeofChunkHeader
  blkSz := blk
  totalBlks := (as.map (AddArgs.blocks blk)).sum
  totalChunks := as.length
  imageChecksum := 0

theorem valid_body {blk : Nat} (hpos : 0 < blk) {a : AddArgs} (h : a.Valid) :
    (a.body blk).Ok (a.blocks blk * blk) ∧ (a.body blk).chunkType = a.chunkType ∧
      a.data.length ≤ (a.body blk).bytes.length ∧
      (a.body blk).bytes = pad (a.body blk).bytes.length a.data := by
  have hle := writeSize_le hpos a
  rw [AddArgs.body]
  cases h with
  | raw htype hlen =>
      have hpad : (pad (a.blocks blk * blk) a.data).length = a.blocks blk * blk :=
        length_pad (by omega)
      rw [if_pos htype, htype]
      refine ⟨hpad, rfl, ?_, ?_⟩
      · simp only [Body.bytes]
        omega
      · simp only [Body.bytes]
        rw [hpad]
  | fill htype hlen =>
      rw [htype, if_neg (by decide), if_pos rfl]
      refine ⟨hlen, rfl, Nat.le_refl _, ?_⟩
      simp [Body.bytes, pad]
  | dontCare htype hnil =>
      rw [htype, if_neg (by decide), if_neg (by decide), hnil]
      exact ⟨trivial, rfl, Nat.le_refl _, rfl⟩

/-- The buffer size of an accepted chunk. -/
theorem chunkBufferSize_eq {h : ImageHeader} {blk : Nat} (hblk : h.blkSz = blk)
    (hhdr : h.chunkHdrSz = sizeofChunkHeader) (hpos : 0 < blk) {a : AddArgs} {size : Nat}
    (hsize : chunkBufferSize h a = some size) (hcrc : a.chunkType ≠ chunkTypeCrc)
    (hwrap : a.NoWrap blk) : a.Valid ∧ size = sizeofChunkHeader + (a.body blk).bytes.length := by
  have hle := writeSize_le hpos a
  have hlt := hwrap.bufferSize
  rw [chunkBufferSize, hblk, hhdr, roundUp32_eq hwrap] at hsize
  split at hsize
  · rename_i htype
    split at hsize
    · cases hsize
    · rename_i hlen
      rw [not_not] at hlen
      cases hsize
      have hbody : (a.body blk).bytes.length = a.blocks blk * blk := by
        rw [AddArgs.body, if_pos htype]
        exact length_pad (by omega)
      rw [hbody] at hlt ⊢
      exact ⟨.raw htype hlen, Nat.mod_eq_of_lt hlt⟩
  · rename_i hraw
    split at hsize
    · rename_i htype
      have htype := htype.resolve_right hcrc
      split at hsize
      · cases hsize
      · rename_i hlen
        rw [not_not] at hlen
        cases hsize
        refine ⟨.fill htype hlen, ?_⟩
        rw [AddArgs.body, if_neg hraw, if_pos htype]
        show sizeofChunkHeader + 4 = sizeofChunkHeader + a.data.length
        rw [hlen]
    · rename_i hfill
      split at hsize
      · rename_i htype
        split at hsize
        · cases hsize
        · rename_i hlen
          rw [not_not] at hlen
          cases hsize
          refine ⟨.dontCare htype (List.length_eq_zero_iff.mp hlen), ?_⟩
          rw [AddArgs.body, if_neg hraw, if_neg (fun hf => hfill (.inl hf))]
          rfl
      · cases hsize

theorem pad_append (n : Nat) (xs ys : List UInt8) :
    pad (xs.length + n) (xs ++ ys) = xs ++ pad n ys := by
  rw [pad, pad, List.append_assoc, List.length_append, Nat.add_sub_add_left]

/-- The zeros, the header and the data are the chunk. -/
theorem newChunk_eq {h : ImageHeader} {blk : Nat} (hblk : h.blkSz = blk)
    (hhdr : h.chunkHdrSz = sizeofChunkHeader) (hpos : 0 < blk) {a : AddArgs} (hvalid : a.Valid)
    (hwrap : a.NoWrap blk) :
    newChunk h a (sizeofChunkHeader + (a.body blk).bytes.length) = a.bytes blk := by
  obtain ⟨-, -, hle, hbytes⟩ := valid_body hpos hvalid
  have hlen := (a.header blk).length_bytes
  have hzeros : List.replicate (sizeofChunkHeader + (a.body blk).bytes.length) (0 : UInt8) =
      pad (sizeofChunkHeader + (a.body blk).bytes.length) [] := by
    rw [pad]
    rfl
  have hfirst : overwrite (pad (sizeofChunkHeader + (a.body blk).bytes.length) []) 0
      (a.header blk).bytes =
        pad (sizeofChunkHeader + (a.body blk).bytes.length) (a.header blk).bytes :=
    overwrite_pad (show ([] : List UInt8).length + _ ≤ _ by rw [hlen]; simp)
  rw [newChunk, hblk, hhdr, divCeil_eq hwrap]
  show overwrite (overwrite _ 0 (a.header blk).bytes) sizeofChunkHeader a.data = _
  rw [hzeros, hfirst, ← hlen, overwrite_pad (by omega), pad_append, ← hbytes, AddArgs.bytes]

/-- What the state is when the chunks `as` have been added. -/
structure Built (blk : Nat) (as : List AddArgs) (s : SparseState) : Prop where
  header : s.header = builtHeader blk as
  chunks : s.chunks = as.flatMap (AddArgs.bytes blk)
  bufferSize : s.bufferSize = sizeofImageHeader + s.chunks.length
  imageSize : s.imageSize = (as.map (AddArgs.blocks blk)).sum * blk
  valid : ∀ a ∈ as, a.Valid
  writeSize : ∀ a ∈ as, 0 < a.writeSize

/-- No sum of 32 bits wraps in an image of these chunks, and none of them is a
checksum. -/
structure Fits (blk : Nat) (as : List AddArgs) : Prop where
  chunk : ∀ a ∈ as, a.chunkType ≠ chunkTypeCrc ∧ a.NoWrap blk
  totalBlks : (as.map (AddArgs.blocks blk)).sum < 2 ^ 32
  totalChunks : as.length < 2 ^ 32

theorem init_built {malloc : Bool} {blk : Nat} {s : SparseState}
    (h : sparseInit malloc blk = .ok s) : Built blk [] s := by
  have hnil : ∀ {P : AddArgs → Prop}, ∀ a ∈ ([] : List AddArgs), P a := by
    intro P a ha
    cases ha
  rw [sparseInit] at h
  split at h
  · cases h
  split at h
  · cases h
  cases h
  exact ⟨rfl, rfl, rfl, by simp [emptyState], hnil, hnil⟩

theorem bytes_length_lt {blk : Nat} {a : AddArgs} (h : a.NoWrap blk) :
    (a.bytes blk).length < 2 ^ 32 := by
  rw [AddArgs.bytes, List.length_append, ChunkHeader.length_bytes]
  exact h.bufferSize

/-- The chunks are shorter than their number times 4 GiB. -/
theorem chunks_length_le {blk : Nat} {as : List AddArgs} (h : ∀ a ∈ as, a.NoWrap blk) :
    (as.flatMap (AddArgs.bytes blk)).length ≤ as.length * (2 ^ 32 - 1) := by
  induction as with
  | nil => simp
  | cons a as ih =>
      obtain ⟨ha, has⟩ := List.forall_mem_cons.mp h
      have hlt := bytes_length_lt ha
      have hrest := ih has
      rw [List.flatMap_cons, List.length_append, List.length_cons, Nat.succ_mul]
      omega

/-- One more chunk is added. -/
theorem addChunk_built {blk : Nat} (hpos : 0 < blk) (hblk : blk < 2 ^ 32) {as : List AddArgs}
    {s : SparseState} {a : AddArgs} (h : Built blk as s) (hfits : Fits blk (as ++ [a]))
    (hok : (sparseAddChunk s a).1 = none) : Built blk (as ++ [a]) (sparseAddChunk s a).2 := by
  obtain ⟨hcrc, hwrap⟩ := hfits.chunk a (List.mem_append_right _ List.mem_cons_self)
  have hheader : s.header.blkSz = blk := by
    rw [h.header]
    rfl
  have hhdr : s.header.chunkHdrSz = sizeofChunkHeader := by
    rw [h.header]
    rfl
  rw [sparseAddChunk] at hok ⊢
  split at hok
  · cases hok
  rename_i hwrite
  rw [if_neg hwrite]
  cases hsize : chunkBufferSize s.header a with
  | none =>
      rw [hsize] at hok
      cases hok
  | some size =>
      rw [hsize] at hok
      dsimp only at hok ⊢
      split at hok
      · cases hok
      rename_i hmem
      obtain ⟨hvalid, rfl⟩ := chunkBufferSize_eq hheader hhdr hpos hsize hcrc hwrap
      have hsum := hfits.totalBlks
      have hcount := hfits.totalChunks
      simp only [List.map_append, List.map_cons, List.map_nil, List.sum_append, List.sum_cons,
        List.sum_nil, Nat.add_zero] at hsum
      rw [List.length_append, List.length_singleton] at hcount
      have hlens : (s.chunks ++ a.bytes blk).length ≤ (as.length + 1) * (2 ^ 32 - 1) := by
        have hall := chunks_length_le (fun b hb => (hfits.chunk b hb).2)
        rw [List.flatMap_append, List.flatMap_singleton, ← h.chunks, List.length_append,
          List.length_append, List.length_singleton] at hall
        rw [List.length_append]
        exact hall
      have hbytes : (s.chunks ++ a.bytes blk).length =
          s.chunks.length + (sizeofChunkHeader + (a.body blk).bytes.length) := by
        rw [List.length_append, AddArgs.bytes, List.length_append, ChunkHeader.length_bytes]
      have hsize64 : sizeofImageHeader + (s.chunks ++ a.bytes blk).length < 2 ^ 64 := by
        have hmul := Nat.mul_le_mul_right (2 ^ 32 - 1) (Nat.le_of_lt_succ hcount)
        rw [sizeofImageHeader]
        omega
      have himage64 : ((as.map (AddArgs.blocks blk)).sum + a.blocks blk) * blk < 2 ^ 64 :=
        (Nat.mul_lt_mul'' hsum hblk).trans_eq (by norm_num)
      rw [if_neg hmem, hheader, divCeil_eq hwrap, roundUp32_eq hwrap,
        newChunk_eq hheader hhdr hpos hvalid hwrap]
      refine ⟨?_, ?_, ?_, ?_, ?_, ?_⟩
      · simp only [h.header, builtHeader, List.map_append, List.map_cons, List.map_nil,
          List.sum_append, List.sum_cons, List.sum_nil, Nat.add_zero, List.length_append,
          List.length_singleton]
        rw [Nat.mod_eq_of_lt hsum, Nat.mod_eq_of_lt hcount]
      · rw [List.flatMap_append, List.flatMap_singleton, ← h.chunks]
      · rw [h.bufferSize, Nat.add_assoc, ← hbytes, Nat.mod_eq_of_lt hsize64]
      · rw [h.imageSize, ← Nat.add_mul, Nat.mod_eq_of_lt himage64]
        simp
      · intro b hb
        rcases List.mem_append.mp hb with hb | hb
        · exact h.valid b hb
        · rw [List.mem_singleton.mp hb]
          exact hvalid
      · intro b hb
        rcases List.mem_append.mp hb with hb | hb
        · exact h.writeSize b hb
        · rw [List.mem_singleton.mp hb]
          exact Nat.pos_of_ne_zero hwrite

theorem Fits.front {blk : Nat} {as bs : List AddArgs} (h : Fits blk (as ++ bs)) : Fits blk as := by
  have hsum := h.totalBlks
  have hcount := h.totalChunks
  rw [List.map_append, List.sum_append] at hsum
  rw [List.length_append] at hcount
  exact ⟨fun a ha => h.chunk a (List.mem_append_left _ ha), by omega, by omega⟩

/-- A whole series of calls. -/
theorem addChunks_built {blk : Nat} (hpos : 0 < blk) (hblk : blk < 2 ^ 32) {as : List AddArgs}
    {s : SparseState} (calls : List AddArgs) (h : Built blk as s)
    (hfits : Fits blk (as ++ (addChunks s calls).1)) :
    Built blk (as ++ (addChunks s calls).1) (addChunks s calls).2 := by
  induction calls generalizing s as with
  | nil =>
      rw [addChunks, List.append_nil]
      exact h
  | cons a calls ih =>
      rw [addChunks] at hfits ⊢
      cases hadd : sparseAddChunk s a with
      | mk r s' =>
          rw [hadd] at hfits
          cases r with
          | some e =>
              have hsame : s' = s := by
                have hfails := addChunk_fails (s := s) (a := a) (by rw [hadd])
                rw [hadd] at hfails
                exact hfails
              dsimp only at hfits ⊢
              rw [hsame] at hfits ⊢
              exact ih h hfits
          | none =>
              dsimp only at hfits ⊢
              rw [List.append_cons] at hfits ⊢
              have hbuilt := addChunk_built hpos hblk (a := a) h hfits.front (by rw [hadd])
              rw [hadd] at hbuilt
              exact ih hbuilt hfits

/-! ## What has been built is unpacked again -/

/-- The chunks of an image, from what has been added. -/
theorem exists_chunks {blk : Nat} (hpos : 0 < blk) {as : List AddArgs}
    (hvalid : ∀ a ∈ as, a.Valid) (hwrap : ∀ a ∈ as, a.NoWrap blk)
    (hblocks : ∀ a ∈ as, a.blocks blk < 2 ^ 32) :
    ∃ cs : List (Chunk blk), cs.flatMap Chunk.bytes = as.flatMap (AddArgs.bytes blk) ∧
      cs.flatMap Chunk.out = as.flatMap (AddArgs.out blk) ∧
      cs.map Chunk.chunkSz = as.map (AddArgs.blocks blk) ∧
      ∀ c ∈ cs, c.body.chunkType ≠ chunkTypeCrc := by
  induction as with
  | nil => exact ⟨[], rfl, rfl, rfl, fun c hc => by cases hc⟩
  | cons a as ih =>
      obtain ⟨ha, has⟩ := List.forall_mem_cons.mp hvalid
      obtain ⟨hwa, hwas⟩ := List.forall_mem_cons.mp hwrap
      obtain ⟨hba, hbas⟩ := List.forall_mem_cons.mp hblocks
      obtain ⟨cs, hbytes, hout, hsz, hcrc⟩ := ih has hwas hbas
      obtain ⟨hok, htype, -⟩ := valid_body hpos ha
      let c : Chunk blk :=
        { reserved := 0
          chunkSz := a.blocks blk
          body := a.body blk
          chunkSz_lt := hba
          ok := hok
          totalSz_lt := hwa.bufferSize }
      refine ⟨c :: cs, ?_, ?_, ?_, ?_⟩
      · have hc : c.bytes = a.bytes blk := by
          rw [Chunk.bytes, Chunk.header, AddArgs.bytes, AddArgs.header, htype]
        rw [List.flatMap_cons, List.flatMap_cons, hbytes, hc]
      · have hc : c.out = a.out blk := by
          cases ha with
          | raw h _ =>
              have hbody : c.body = .raw (pad (a.blocks blk * blk) a.data) := if_pos h
              rw [Chunk.out, hbody, AddArgs.out, if_pos h]
          | fill h _ =>
              have hbody : c.body = .fill a.data := by
                show a.body blk = _
                rw [AddArgs.body, h, if_neg (by decide), if_pos rfl]
              rw [Chunk.out, hbody, AddArgs.out, h, if_neg (by decide), if_pos rfl]
          | dontCare h _ =>
              have hbody : c.body = .dontCare := by
                show a.body blk = _
                rw [AddArgs.body, h, if_neg (by decide), if_neg (by decide)]
              rw [Chunk.out, hbody, AddArgs.out, h, if_neg (by decide), if_neg (by decide)]
        rw [List.flatMap_cons, List.flatMap_cons, hout, hc]
      · rw [List.map_cons, List.map_cons, hsz]
      · intro d hd
        rcases List.mem_cons.mp hd with rfl | hd
        · show (a.body blk).chunkType ≠ chunkTypeCrc
          rw [htype]
          cases ha with
          | raw h _ => rw [h]; decide
          | fill h _ => rw [h]; decide
          | dontCare h _ => rw [h]; decide
        · exact hcrc d hd

theorem total_append (xs ys : List Out) : total (xs ++ ys) = total xs + total ys := by
  rw [total, total, total, List.map_append, List.sum_append]

theorem total_bytes (xs : List UInt8) : total (xs.map Out.byte) = xs.length := by
  induction xs with
  | nil => rfl
  | cons b xs ih =>
      rw [total] at ih ⊢
      simp only [List.map_cons, List.sum_cons, List.length_cons, ih]
      exact Nat.add_comm 1 _

/-- Each chunk unpacks to its blocks. -/
theorem total_out {blk : Nat} (hpos : 0 < blk) {a : AddArgs} (h : a.Valid) :
    total (a.out blk) = a.blocks blk * blk := by
  have hle := writeSize_le hpos a
  rw [AddArgs.out]
  cases h with
  | raw htype hlen => rw [if_pos htype, total_bytes, length_pad (by omega)]
  | fill htype hlen =>
      rw [htype, if_neg (by decide), if_pos rfl, total_bytes, fillBytes]
      simp
  | dontCare htype hnil =>
      rw [htype, if_neg (by decide), if_neg (by decide)]
      exact Nat.add_zero _

theorem total_outs {blk : Nat} (hpos : 0 < blk) {as : List AddArgs} (h : ∀ a ∈ as, a.Valid) :
    total (as.flatMap (AddArgs.out blk)) = (as.map (AddArgs.blocks blk)).sum * blk := by
  induction as with
  | nil => simp [total]
  | cons a as ih =>
      obtain ⟨ha, has⟩ := List.forall_mem_cons.mp h
      rw [List.flatMap_cons, total_append, total_out hpos ha, ih has, List.map_cons, List.sum_cons,
        Nat.add_mul]

/-- How an image that is right unpacks: without an error, to `out`, and to as many
bytes as the image is large. -/
structure Unpacks (s : SparseState) (out : List Out) (o : Outcome) : Prop where
  result : o.result = .ok ()
  out : flat o.events = out
  size : total (flat o.events) = s.imageSize
  stray : o.stray = false

theorem blocks_le {blk : Nat} {as : List AddArgs} {a : AddArgs} (h : a ∈ as) :
    a.blocks blk ≤ (as.map (AddArgs.blocks blk)).sum :=
  List.le_sum_of_mem (List.mem_map_of_mem h)

theorem blocks_pos {blk : Nat} (hpos : 0 < blk) {a : AddArgs} (h : 0 < a.writeSize) :
    0 < a.blocks blk := by
  have hle := writeSize_le hpos a
  refine Nat.pos_of_ne_zero fun hzero => ?_
  rw [hzero, Nat.zero_mul] at hle
  omega

/-- The buffer is the image of its chunks. -/
theorem built_image {blk : Nat} (hpos : 0 < blk) (hblk : blk < 2 ^ 32) {as : List AddArgs}
    {s : SparseState} (h : Built blk as s) (hfits : Fits blk as) :
    ∃ img : Image, img.bytes = s.buffer ∧ img.blkSz * img.totalBlks = s.imageSize ∧
      img.chunks.flatMap Chunk.out = as.flatMap (AddArgs.out blk) ∧
      ∀ c ∈ img.chunks, c.body.chunkType ≠ chunkTypeCrc := by
  obtain ⟨cs, hbytes, hout, hsz, hcrc⟩ := exists_chunks hpos h.valid (fun a ha => (hfits.chunk a ha).2)
    (fun a ha => (blocks_le ha).trans_lt hfits.totalBlks)
  have hlen : cs.length = as.length := by
    have hlens := congrArg List.length hsz
    rwa [List.length_map, List.length_map] at hlens
  let img : Image :=
    { minorVersion := 0
      blkSz := blk
      imageChecksum := 0
      chunks := cs
      blkSz_lt := hblk
      totalBlks_lt := by rw [hsz]; exact hfits.totalBlks
      totalChunks_lt := by rw [hlen]; exact hfits.totalChunks }
  have hheader : img.header = s.header := by
    rw [h.header]
    show ImageHeader.mk _ _ _ _ _ _ (cs.map Chunk.chunkSz).sum cs.length _ = _
    rw [hsz, hlen]
    rfl
  refine ⟨img, ?_, ?_, hout, hcrc⟩
  · show img.header.bytes ++ cs.flatMap Chunk.bytes = s.buffer
    rw [hheader, hbytes, SparseState.buffer, h.chunks]
  · show blk * (cs.map Chunk.chunkSz).sum = s.imageSize
    rw [hsz, h.imageSize, Nat.mul_comm]

/-- An image without checksums unpacks to its chunks. -/
theorem whole_unpacks (img : Image) {max : Nat} (hfits : img.blkSz * img.totalBlks ≤ max)
    (hcrc : ∀ c ∈ img.chunks, c.body.chunkType ≠ chunkTypeCrc) :
    (whole img max).result = .ok () ∧ (whole img max).stray = false ∧
      flat (whole img max).events = img.chunks.flatMap Chunk.out := by
  obtain ⟨hbefore, hstart⟩ := feed_headerBytes img hfits
  obtain ⟨hafter, hout⟩ := feed_chunks_out img.chunks (n := 0) hbefore hcrc
  rw [← feed_append] at hafter hout
  rw [hstart, List.nil_append] at hout
  have hstray := (whole_refines img max).stray
  cases whole_refines img max with
  | on hres _ hflat => exact ⟨hres, hstray, hflat.trans hout⟩
  | ended stop _ hstop =>
      rcases hafter.ready with hp | ⟨c, done, hp⟩ <;> rw [Image.bytes, hp] at hstop <;> cases hstop
  | device e events _ hio => cases hio

/-- Every image built of at least one chunk, with sums that do not wrap, is accepted
with its size as the limit and unpacks to what was added; a call that fails, when
it is built or later, leaves what it unpacks to as it is. -/
theorem unpack_built {malloc : Bool} {blk : Nat} {s₀ : SparseState} (hpos : 0 < blk)
    (hblk : blk < 2 ^ 32) (hinit : sparseInit malloc blk = .ok s₀) (calls : List AddArgs)
    (hne : (addChunks s₀ calls).1 ≠ []) (hfits : Fits blk (addChunks s₀ calls).1) :
    (∃ o, unpack (addChunks s₀ calls).2 = .ok o ∧
        Unpacks (addChunks s₀ calls).2 ((addChunks s₀ calls).1.flatMap (AddArgs.out blk)) o) ∧
      ∀ a e, (sparseAddChunk (addChunks s₀ calls).2 a).1 = some e →
        unpack (sparseAddChunk (addChunks s₀ calls).2 a).2 = unpack (addChunks s₀ calls).2 := by
  have hbuilt := addChunks_built hpos hblk calls (init_built hinit) (by simpa using hfits)
  rw [List.nil_append] at hbuilt
  generalize (addChunks s₀ calls).1 = as at hne hfits hbuilt ⊢
  generalize (addChunks s₀ calls).2 = s at hbuilt ⊢
  refine ⟨?_, fun a e h => by rw [addChunk_fails h]⟩
  obtain ⟨img, hbytes, hsize, hout, hcrc⟩ := built_image hpos hblk hbuilt hfits
  obtain ⟨hres, hstray, hflat⟩ := whole_unpacks img hsize.le hcrc
  have himage : s.imageSize ≠ 0 := by
    obtain ⟨a, ha⟩ := List.exists_mem_of_ne_nil as hne
    have hsum := (blocks_pos hpos (hbuilt.writeSize a ha)).trans_le (blocks_le ha)
    rw [hbuilt.imageSize]
    exact (Nat.mul_pos hsum hpos).ne'
  have hbuffer : s.buffer.take s.bufferSize = s.buffer := by
    refine List.take_of_length_le ?_
    rw [hbuilt.bufferSize, SparseState.buffer, List.length_append, ImageHeader.length_bytes]
  refine ⟨whole img s.imageSize, ?_, hres, hflat.trans hout, ?_, hstray⟩
  · rw [unpack, sparseInitUnsparseState, if_neg himage, whole, hbytes]
    show Except.ok (unsparse willing _ (s.buffer.take s.bufferSize) []) = _
    rw [hbuffer]
  · rw [hflat, hout, total_outs hpos hbuilt.valid, hbuilt.imageSize]

/-- An image without chunks has the size 0, which is refused as a limit. -/
theorem unpack_empty : sparseInit true 4096 = .ok (emptyState 4096) ∧
    unpack (addChunks (emptyState 4096) []).2 = .error .badParameter := ⟨rfl, rfl⟩

/-- A fill of less than two blocks, then a seek that finds no memory. -/
def sampleCalls : List AddArgs :=
  [{ chunkType := chunkTypeFill, data := [1, 2, 3, 4], writeSize := 5000, realloc := true },
   { chunkType := chunkTypeDontCare, data := [], writeSize := 1, realloc := false }]

theorem sampleCalls_accepted : (addChunks (emptyState 4096) sampleCalls).1 =
    [{ chunkType := chunkTypeFill, data := [1, 2, 3, 4], writeSize := 5000, realloc := true }] :=
  rfl

theorem sampleCalls_fits : Fits 4096 (addChunks (emptyState 4096) sampleCalls).1 := by
  rw [sampleCalls_accepted]
  refine ⟨?_, by decide, by decide⟩
  intro a ha
  rw [List.mem_singleton.mp ha]
  exact ⟨by decide, ⟨by decide, by decide⟩⟩

theorem unpack_sampleCalls :
    (∃ o, unpack (addChunks (emptyState 4096) sampleCalls).2 = .ok o ∧
        Unpacks (addChunks (emptyState 4096) sampleCalls).2
          ((addChunks (emptyState 4096) sampleCalls).1.flatMap (AddArgs.out 4096)) o) ∧
      ∀ a e, (sparseAddChunk (addChunks (emptyState 4096) sampleCalls).2 a).1 = some e →
        unpack (sparseAddChunk (addChunks (emptyState 4096) sampleCalls).2 a).2 =
          unpack (addChunks (emptyState 4096) sampleCalls).2 :=
  unpack_built (by decide) (by decide)
    (show sparseInit true 4096 = .ok (emptyState 4096) from rfl) sampleCalls
    (by rw [sampleCalls_accepted]; exact List.cons_ne_nil _ _) sampleCalls_fits

end TX2SecureUart.Sparse
