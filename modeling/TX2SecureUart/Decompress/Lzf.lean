/-
# `Decompress.Lzf` — `do_decompress` with the lzf method

The loop was written for a stream and gets its whole input at once.  So
`context->hdr` and `context->data` are `NULL` whenever a pass begins, and what
stays in the context from one block to the next is the sizes and the checksum.

A pointer into the input is the bytes from there to its end, `none` is `NULL` or
an offset from it, and a call that reads or writes elsewhere is `none`.  The
counters stay below 2^32 up to such a read, since a header is counted only when
it is there.
-/
import TX2SecureUart.Lib.LeBytes
import TX2SecureUart.Storage.Crc32
import TX2SecureUart.Storage.Err

namespace TX2SecureUart.Lzf

open Storage

/-- `lzf_decompress(in, in_len, out, out_len)` leaves these bytes in `out`, none on
an error, and returns their number. -/
structure BlockDecompressor where
  lzfDecompress : List UInt8 → Nat → List UInt8
  bounded : ∀ data len, (lzfDecompress data len).length ≤ len

abbrev minHdrSize : Nat := 5
abbrev type1HdrSize : Nat := 7

/-- A `uint16_t` of a header. -/
def be16 (hi lo : UInt8) : Nat := hi.toNat * 256 + lo.toNat

/-- `struct lzf_context` and the variables of the loop. -/
structure LzfState where
  /-- `none` is -1, an uncompressed block. -/
  dataCsize : Option Nat
  dataUcsize : Nat
  dataRead : Nat
  csum : UInt32
  inBuffer : Option (List UInt8)
  processedSize : Nat
  out : List UInt8
  writtenSize : Nat

/-- After `lzf_init`. -/
def LzfState.init (input : List UInt8) : LzfState where
  dataCsize := some 0
  dataUcsize := 0
  dataRead := 0
  csum := 0
  inBuffer := some input
  processedSize := 0
  out := []
  writtenSize := 0

/-- `context->csum_offset` -/
def csumOffset (compressedSize : UInt32) : Nat := (compressedSize - 4).toNat

/-- How a pass through the loop ends: with the next one, a `break` or a `goto fail`. -/
inductive Flow where
  | again (s : LzfState)
  | leave (s : LzfState)
  | fail (err : ErrReason)

def readBytes (ptr : Option (List UInt8)) (k : Nat) : Option (List UInt8) :=
  if k = 0 then some [] else
  ptr.bind fun bytes => if k ≤ bytes.length then some (bytes.take k) else none

variable (D : BlockDecompressor) (inSize outSize : UInt32)

/-- `data_rem_size` -/
def remSize (csize : Option Nat) (ucsize : Nat) : Nat := csize.getD ucsize

/-- What comes out of the payload of a block. -/
def contentsOf (csize : Option Nat) (ucsize : Nat) (bytes : List UInt8) : List UInt8 :=
  match csize with
  | none => bytes
  | some _ => D.lzfDecompress bytes ucsize

/-- The end of a pass, behind a block with these contents. -/
def advance (data : Option (List UInt8)) (contents : List UInt8) (s : LzfState) : Option Flow :=
  let rem := remSize s.dataCsize s.dataUcsize
  if s.out.length + contents.length ≤ outSize.toNat then
    some (.again { s with
      inBuffer := data.map (·.drop rem)
      dataRead := s.dataRead + rem
      csum := tegrablUtilsCrc32 s.csum contents
      processedSize := s.processedSize + rem
      out := s.out ++ contents
      writtenSize := s.writtenSize + s.dataUcsize })
  else none

/-- The payload behind a header. -/
def payload (data : Option (List UInt8)) (unprocessed : Nat) (s : LzfState) : Option Flow :=
  if unprocessed < remSize s.dataCsize s.dataUcsize then some (.leave s) else
  if outSize.toNat - s.out.length < s.dataUcsize then some (.fail .overflow) else
  (readBytes data (remSize s.dataCsize s.dataUcsize)).bind fun bytes =>
    let contents := contentsOf D s.dataCsize s.dataUcsize bytes
    if s.dataCsize.isSome && contents.length != s.dataUcsize then some (.fail .badParameter)
    else advance outSize data contents s

/-- `case 1`; with a part of the header only, the sizes are those of the last block
and `data` stays `NULL`. -/
def typeOne (h3 h4 : UInt8) (tail : List UInt8) (unprocessed : Nat) (s : LzfState) : Option Flow :=
  if unprocessed < type1HdrSize then payload D outSize none unprocessed s else
  match tail with
  | h5 :: h6 :: data =>
      payload D outSize (some data) unprocessed { s with
        dataCsize := some (be16 h3 h4)
        dataUcsize := be16 h5 h6
        processedSize := s.processedSize + type1HdrSize
        dataRead := s.dataRead + type1HdrSize }
  | _ => none

/-- A pass through the loop. -/
def pass (s : LzfState) : Option Flow :=
  let unprocessed := inSize.toNat - s.processedSize
  if unprocessed < minHdrSize then some (.leave s) else
  match s.inBuffer with
  | some (h0 :: h1 :: h2 :: h3 :: h4 :: tail) =>
      if h0 = 0 then some (.leave s) else
      if h0 ≠ 0x5A ∨ h1 ≠ 0x56 then some (.fail .invalid) else
      if h2 = 0 then
        payload D outSize (some tail) unprocessed { s with
          dataCsize := none
          dataUcsize := be16 h3 h4
          processedSize := s.processedSize + minHdrSize
          dataRead := s.dataRead + minHdrSize }
      else if h2 = 1 then typeOne D outSize h3 h4 tail unprocessed s
      else some (.fail .invalid)
  | _ => none

/-- What the passes use up. -/
def LzfState.measure (s : LzfState) : Nat :=
  (inSize.toNat - s.processedSize) + s.inBuffer.isSome.toNat

variable {D outSize} {data : Option (List UInt8)} {contents : List UInt8} {unprocessed : Nat}
  {s t : LzfState}

theorem advance_again (h : advance outSize data contents s = some (.again t)) :
    s.processedSize ≤ t.processedSize ∧ t.inBuffer.isSome = data.isSome := by
  rw [advance] at h
  split at h
  · cases h
    exact ⟨Nat.le_add_right _ _, Option.isSome_map⟩
  · cases h

theorem payload_again (h : payload D outSize data unprocessed s = some (.again t)) :
    s.processedSize ≤ t.processedSize ∧ t.inBuffer.isSome = data.isSome := by
  rw [payload] at h
  split at h
  · cases h
  · split at h
    · cases h
    · obtain ⟨bytes, -, h⟩ := Option.bind_eq_some_iff.mp h
      dsimp only at h
      split at h
      · cases h
      · exact advance_again h

theorem typeOne_again {h3 h4 : UInt8} {tail : List UInt8}
    (h : typeOne D outSize h3 h4 tail unprocessed s = some (.again t)) :
    s.processedSize < t.processedSize ∨
      s.processedSize ≤ t.processedSize ∧ t.inBuffer.isSome = false := by
  unfold typeOne at h
  split at h
  · exact .inr (payload_again h)
  · split at h
    · exact .inl (Nat.lt_of_lt_of_le (Nat.lt_add_of_pos_right (by decide)) (payload_again h).1)
    · cases h

/-- A pass takes a header, or leaves a pointer that the next one does not get by. -/
theorem pass_again (h : pass D inSize outSize s = some (.again t)) :
    s.inBuffer.isSome = true ∧ (s.processedSize < t.processedSize ∨
      s.processedSize ≤ t.processedSize ∧ t.inBuffer.isSome = false) := by
  rw [pass] at h
  split at h
  · cases h
  · split at h
    · next hbuf =>
        refine ⟨by rw [hbuf]; rfl, ?_⟩
        split at h
        · cases h
        · split at h
          · cases h
          · split at h
            · exact .inl (Nat.lt_of_lt_of_le (Nat.lt_add_of_pos_right (by decide)) (payload_again h).1)
            · split at h
              · exact typeOne_again h
              · cases h
    · cases h

theorem pass_measure (hlt : s.processedSize < inSize.toNat)
    (h : pass D inSize outSize s = some (.again t)) : t.measure inSize < s.measure inSize := by
  obtain ⟨hsome, hstep⟩ := pass_again inSize h
  rw [LzfState.measure, LzfState.measure, hsome]
  rcases hstep with hproc | ⟨hproc, hnone⟩
  · have hone := Bool.toNat_le t.inBuffer.isSome
    rw [Bool.toNat_true]
    omega
  · rw [hnone, Bool.toNat_false, Bool.toNat_true]
    omega

variable (D outSize)

/-- The loop; an error is that of a `goto fail`. -/
def lzfLoop (s : LzfState) : Option (Except ErrReason LzfState) :=
  if _hlt : s.processedSize < inSize.toNat ∧ s.dataRead < csumOffset inSize then
    match _hpass : pass D inSize outSize s with
    | none => none
    | some (.fail err) => some (.error err)
    | some (.leave t) => some (.ok t)
    | some (.again t) => lzfLoop t
  else some (.ok s)
termination_by s.measure inSize
decreasing_by exact pass_measure inSize _hlt.1 _hpass

/-- Behind the loop. -/
def checkCsum (s : LzfState) : Option (Except ErrReason (List UInt8 × Nat)) :=
  if csumOffset inSize ≤ s.dataRead then
    (readBytes s.inBuffer 4).map fun bytes =>
      if bytes ≠ leBytes 4 s.csum.toNat then .error .invalid else .ok (s.out, s.writtenSize)
  else some (.ok (s.out, s.writtenSize))

/-- The rest of a call from a state of the loop on. -/
def runFrom (s : LzfState) : Option (Except ErrReason (List UInt8 × Nat)) :=
  (lzfLoop D inSize outSize s).bind fun
    | .error err => some (.error err)
    | .ok t => checkCsum inSize t

/-- The input buffer of a call. -/
structure Input where
  bytes : List UInt8
  small : bytes.length < 2 ^ 32

def Input.size (input : Input) : UInt32 := UInt32.ofNat input.bytes.length

/-- `do_decompress` with `lzf_init` and `do_lzf_decompress`: what is in the output
buffer, and `*outbuf_size`. -/
def doDecompress (input : Input) : Option (Except ErrReason (List UInt8 × Nat)) :=
  runFrom D input.size outSize (.init input.bytes)

/-! ## What it should do -/

/-- A complete block and its contents. -/
inductive Block : List UInt8 → List UInt8 → Prop
  | stored {hi lo : UInt8} {data : List UInt8} : data.length = be16 hi lo →
      Block (0x5A :: 0x56 :: 0 :: hi :: lo :: data) data
  | packed {chi clo uhi ulo : UInt8} {data : List UInt8} : data.length = be16 chi clo →
      (D.lzfDecompress data (be16 uhi ulo)).length = be16 uhi ulo →
      Block (0x5A :: 0x56 :: 1 :: chi :: clo :: uhi :: ulo :: data)
        (D.lzfDecompress data (be16 uhi ulo))

inductive Blocks : List UInt8 → List UInt8 → Prop
  | nil : Blocks [] []
  | cons {b c bs cs : List UInt8} : Block D b c → Blocks bs cs → Blocks (b ++ bs) (c ++ cs)

/-- Behind what gave `out`, `rest` brings the output to `final`: blocks, maybe an EOF,
and the checksum of all. -/
def Decodes (out rest final : List UInt8) : Prop :=
  ∃ bs contents eof crc, Blocks D bs contents ∧ rest = bs ++ (eof ++ crc) ∧
    (eof = [] ∨ eof = [0]) ∧ final = out ++ contents ∧ final.length ≤ outSize.toNat ∧
    crc = leBytes 4 (tegrablUtilsCrc32 0 final).toNat

/-- A call stays inside its buffers, succeeds on what decodes, and says what came out. -/
def DecodesAs (result : Option (Except ErrReason (List UInt8 × Nat))) (out rest : List UInt8) :
    Prop :=
  ∃ r, result = some r ∧
    ∀ final written, r = .ok (final, written) ↔
      Decodes D outSize out rest final ∧ written = final.length

def LzfRight (input : Input) : Prop :=
  DecodesAs D outSize (doDecompress D outSize input) [] input.bytes

end TX2SecureUart.Lzf
