/-
# `Sparse.Unsparse` — unpacking a sparse image

`tegrabl_unsparse.c` without the checksum, which no configuration enables.  A
download arrives in buffers; each call of `tegrabl_sparse_unsparse` goes on from
the state that the last one saved, and saves its own when it succeeds.  A pass
of its loop is a function here (`pass`), and the loop ends when a pass stops or
the buffer is used up.

A copy that leaves one of the headers overwrites the saved state and stops the
model.  A copy that leaves `fill_value` lands in the padding behind it; it is
noted and the loop goes on.
-/
import TX2SecureUart.Lib.LeBytes

namespace TX2SecureUart.Sparse

/-- `tegrabl_unsparse_state_type_t` -/
inductive Phase where
  | imageHeader
  | chunkHeader
  | raw
  | fill
  | dontCare
  | crc
deriving DecidableEq

/-- `TEGRABL_ERROR(reason, aux)`, or what `writer` or `seeker` returned -/
inductive Err where
  | badParameter
  | invalidVersion
  | overflow
  | invalidConfig (aux : Nat)
  | invalid
  | outOfRange
  | noMemory
  | device (code : Nat)
deriving DecidableEq

/-- A call of `writer` or of `seeker`. -/
inductive Event where
  | write (bytes : List UInt8)
  | seek (size : Nat)
deriving DecidableEq

/-! ## The headers -/

/-- `n` bytes of a structure, `off` into it -/
def le (bytes : List UInt8) (off n : Nat) : Nat := leNat ((bytes.drop off).take n)

def sizeofImageHeader : Nat := 28

def majorVersion (h : List UInt8) : Nat := le h 4 2
def chunkHdrSz (h : List UInt8) : Nat := le h 10 2
def blkSz (h : List UInt8) : Nat := le h 12 4
def totalBlks (h : List UInt8) : Nat := le h 16 4
def totalChunks (h : List UInt8) : Nat := le h 20 4

def sizeofChunkHeader : Nat := 12

def chunkType (c : List UInt8) : Nat := le c 0 2
def chunkSz (c : List UInt8) : Nat := le c 4 4
def totalSz (c : List UInt8) : Nat := le c 8 4

def chunkTypeRaw : Nat := 0xCAC1
def chunkTypeFill : Nat := 0xCAC2
def chunkTypeDontCare : Nat := 0xCAC3
def chunkTypeCrc : Nat := 0xCAC4

/-- `tegrabl_sparse_validate_header` -/
def validateHeader (h : List UInt8) (maxUnsparseSize : Nat) : Option Err :=
  if majorVersion h ≠ 1 then some .invalidVersion
  else if maxUnsparseSize < blkSz h * totalBlks h then some .overflow
  else none

/-- `tegrabl_sparse_validate_chunk_header`; the sums are of 32 bits -/
def validateChunkHeader (h c : List UInt8) : Option Err :=
  if chunkType c = chunkTypeRaw then
    if totalSz c ≠ (chunkHdrSz h + chunkSz c * blkSz h) % 2 ^ 32 then some (.invalidConfig 0)
    else none
  else if chunkType c = chunkTypeDontCare then
    if totalSz c ≠ chunkHdrSz h then some (.invalidConfig 1) else none
  else if chunkType c = chunkTypeFill then
    if totalSz c ≠ chunkHdrSz h + 4 then some (.invalidConfig 2) else none
  else if chunkType c = chunkTypeCrc then none
  else some .invalid

/-- The state that follows an accepted chunk header. -/
def phaseOf (c : List UInt8) : Phase :=
  if chunkType c = chunkTypeRaw then .raw
  else if chunkType c = chunkTypeFill then .fill
  else if chunkType c = chunkTypeDontCare then .dontCare
  else .crc

/-! ## The state -/

/-- `struct tegrabl_unsparse_state` -/
structure UnsparseState where
  state : Phase
  imageHeader : List UInt8
  chunkHeader : List UInt8
  offset : Nat
  remaining : Nat
  maxUnsparseSize : Nat
  fillValue : List UInt8
  chunksProcessed : Nat
deriving DecidableEq

/-- `tegrabl_sparse_init_unsparse_state`, for a size other than 0 -/
def initUnsparseState (maxUnsparseSize : Nat) : UnsparseState where
  state := .imageHeader
  imageHeader := List.replicate sizeofImageHeader 0
  chunkHeader := List.replicate sizeofChunkHeader 0
  offset := 0
  remaining := sizeofImageHeader
  maxUnsparseSize := maxUnsparseSize
  fillValue := List.replicate 4 0
  chunksProcessed := 0

/-- The locals of a call, with the state it works on. -/
structure Work where
  /-- `unsparse_state`: its arrays change at once, the rest when the call succeeds -/
  st : UnsparseState
  state : Phase
  offset : Nat
  remaining : Nat
  chunksProcessed : Nat
  /-- the `length` bytes at `sparse_buffer` -/
  buf : List UInt8
  events : List Event
  /-- whether a copy has left `fill_value` -/
  stray : Bool

inductive Stop where
  | fail (e : Err)
  /-- a copy has left `image_header` or `chunk_header` -/
  | corrupted
  /-- the loop goes round without end -/
  | hangs
deriving DecidableEq

/-- `memcpy(mem + offset, src, size)`, as far as it stays in `mem` -/
def overwrite (mem : List UInt8) (offset : Nat) (src : List UInt8) : List UInt8 :=
  (mem.take offset ++ src ++ mem.drop (offset + src.length)).take mem.length

/-- The first `n` bytes of the buffer are used. -/
def Work.advance (w : Work) (n : Nat) : Work :=
  { w with offset := w.offset + n, buf := w.buf.drop n }

/-- The next chunk's header is expected. -/
def Work.nextChunk (w : Work) : Work :=
  { w with
    st := { w.st with chunkHeader := List.replicate sizeofChunkHeader 0 }
    state := .chunkHeader
    remaining := sizeofChunkHeader
    offset := 0 }

/-! ## One pass -/

abbrev Res := Except (Stop × Work) Work

/-- What `writer` and `seeker` return, given the calls made before. -/
abbrev Device := List Event → Option Err

/-- Call `writer` or `seeker`. -/
def Work.call (io : Device) (e : Event) (w : Work) : Res :=
  match io w.events with
  | none => .ok { w with events := w.events ++ [e] }
  | some err => .error (.fail err, { w with events := w.events ++ [e] })

def passImageHeader (w : Work) : Res :=
  let size := min w.buf.length w.remaining
  if sizeofImageHeader < w.offset + size then .error (.corrupted, w)
  else
    let header := overwrite w.st.imageHeader w.offset (w.buf.take size)
    let w := { w.advance size with
      st := { w.st with imageHeader := header }
      remaining := w.remaining - size }
    if w.remaining ≠ 0 then .ok w
    else
      match validateHeader header w.st.maxUnsparseSize with
      | some e => .error (.fail e, w)
      | none => .ok { w.nextChunk with remaining := chunkHdrSz header }

/-- The chunk header is complete. -/
def Work.openChunk (w : Work) : Res :=
  match validateChunkHeader w.st.imageHeader w.st.chunkHeader with
  | some e => .error (.fail e, w)
  | none =>
      if totalChunks w.st.imageHeader < w.chunksProcessed + 1 then
        .error (.fail .outOfRange, { w with chunksProcessed := w.chunksProcessed + 1 })
      else .ok { w with
        chunksProcessed := w.chunksProcessed + 1
        state := phaseOf w.st.chunkHeader
        offset := 0
        remaining := chunkSz w.st.chunkHeader * blkSz w.st.imageHeader }

def passChunkHeader (w : Work) : Res :=
  let size := min w.buf.length w.remaining
  if w.offset < sizeofChunkHeader ∧ sizeofChunkHeader < w.offset + size then .error (.corrupted, w)
  else
    -- past the end of `chunk_header` nothing is copied
    let header := if w.offset < sizeofChunkHeader then
      overwrite w.st.chunkHeader w.offset (w.buf.take size) else w.st.chunkHeader
    let w : Work := { w.advance size with
      st := { w.st with chunkHeader := header }
      remaining := w.remaining - size }
    if w.remaining ≠ 0 then .ok w else w.openChunk

/-- Some of the data of a raw chunk has been written. -/
def Work.wrote (w : Work) (size : Nat) : Work :=
  let w : Work := { w.advance size with remaining := w.remaining - size }
  if w.remaining = 0 then w.nextChunk else w

def passRaw (io : Device) (w : Work) : Res :=
  let size := min w.buf.length w.remaining
  (w.call io (.write (w.buf.take size))).map fun w => w.wrote size

/-- `size` bytes of the local buffer, which repeats the fill value -/
def fillBytes (fillValue : List UInt8) (size : Nat) : List UInt8 :=
  (List.range size).map fun i => fillValue.getD (i % 4) 0

def sparseMaxLocalBuffer : Nat := 1024

theorem call_ok {io : Device} {e : Event} {w w' : Work} (h : w.call io e = .ok w') :
    io w.events = none ∧ w' = { w with events := w.events ++ [e] } := by
  rw [Work.call] at h
  cases hio : io w.events with
  | none =>
      rw [hio] at h
      cases h
      exact ⟨rfl, rfl⟩
  | some err =>
      rw [hio] at h
      cases h

/-- `while (remaining)` -/
def writeFill (io : Device) (w : Work) : Res :=
  if w.remaining = 0 then .ok w
  else
    let size := min w.remaining sparseMaxLocalBuffer
    match _h : { w with remaining := w.remaining - size }.call io
        (.write (fillBytes w.st.fillValue size)) with
    | .error r => .error r
    | .ok w' => writeFill io w'
termination_by w.remaining
decreasing_by
  obtain ⟨-, rfl⟩ := call_ok _h
  dsimp only [size]
  rw [sparseMaxLocalBuffer]
  omega

/-- The fill value has been received. -/
def finishFill (io : Device) (w : Work) : Res := (writeFill io w).map Work.nextChunk

def passFill (io : Device) (w : Work) : Res :=
  if w.offset < 4 then
    -- not `4 - offset`
    let size := min w.buf.length 4
    let w : Work := { w.advance size with
      st := { w.st with fillValue := overwrite w.st.fillValue w.offset (w.buf.take size) }
      stray := w.stray || 4 < w.offset + size }
    if w.offset < 4 then .ok w else finishFill io w
  else finishFill io w

def passDontCare (io : Device) (w : Work) : Res :=
  (w.call io (.seek w.remaining)).map Work.nextChunk

def pass (io : Device) (w : Work) : Res :=
  match w.state with
  | .imageHeader => passImageHeader w
  | .chunkHeader => passChunkHeader w
  | .raw => passRaw io w
  | .fill => passFill io w
  | .dontCare => passDontCare io w
  -- the pass prints a line and leaves everything as it was
  | .crc => .error (.hangs, w)

/-- The condition of the loop. -/
def Work.Busy (w : Work) : Prop := w.buf ≠ [] ∨ w.state = .dontCare

instance (w : Work) : Decidable w.Busy := instDecidableOr

/-! ## The loop ends -/

/-- The passes that use no byte: none leads back to itself. -/
def Work.rank (w : Work) : Nat :=
  match w.state with
  | .imageHeader => 3
  | .chunkHeader => if w.remaining = 0 then 2 else 0
  | .raw => 1
  | .fill => 1
  | .dontCare => 1
  | .crc => 0

def Work.measure (w : Work) : Nat := 4 * w.buf.length + w.rank

theorem rank_le (w : Work) : w.rank ≤ 3 := by
  rw [Work.rank]
  split <;> first | omega | (split <;> omega)

theorem writeFill_ok {io : Device} {w w' : Work} (h : writeFill io w = .ok w') :
    w'.buf = w.buf := by
  induction w using writeFill.induct io with
  | case1 w hzero =>
      rw [writeFill, if_pos hzero] at h
      cases h
      rfl
  | case2 w hpos size r hcall =>
      rw [writeFill, if_neg hpos] at h
      dsimp only at h
      split at h
      · cases h
      · rename_i w₁ hok
        rw [hcall] at hok
        cases hok
  | case3 w hpos size w₁ hcall ih =>
      rw [writeFill, if_neg hpos] at h
      dsimp only at h
      split at h
      · cases h
      · rename_i w₂ hok
        rw [hcall] at hok
        cases hok
        obtain ⟨-, rfl⟩ := call_ok hcall
        exact ih h

theorem passImageHeader_ok {w w' : Work} (h : passImageHeader w = .ok w') :
    w'.buf = w.buf.drop (min w.buf.length w.remaining) ∧
      (w.remaining = 0 → w'.state = .chunkHeader) := by
  rw [passImageHeader] at h
  dsimp only at h
  split at h
  · cases h
  split at h
  · rename_i hleft
    cases h
    refine ⟨rfl, fun hzero => absurd ?_ hleft⟩
    show w.remaining - _ = 0
    omega
  · split at h <;> cases h
    exact ⟨rfl, fun _ => rfl⟩

theorem openChunk_ok {w w' : Work} (h : w.openChunk = .ok w') :
    w'.buf = w.buf ∧ w'.state = phaseOf w.st.chunkHeader := by
  rw [Work.openChunk] at h
  split at h
  · cases h
  split at h <;> cases h
  exact ⟨rfl, rfl⟩

theorem passChunkHeader_ok {w w' : Work} (h : passChunkHeader w = .ok w') :
    w'.buf = w.buf.drop (min w.buf.length w.remaining) ∧
      (w.remaining = 0 → w'.state ≠ .imageHeader ∧ w'.state ≠ .chunkHeader) := by
  rw [passChunkHeader] at h
  dsimp only at h
  split at h
  · cases h
  split at h
  · rename_i hleft
    cases h
    refine ⟨rfl, fun hzero => absurd ?_ hleft⟩
    show w.remaining - _ = 0
    omega
  obtain ⟨hbuf, hstate⟩ := openChunk_ok h
  refine ⟨hbuf, fun _ => ?_⟩
  rw [hstate, phaseOf]
  grind

theorem map_ok {r : Res} {f : Work → Work} {w' : Work} (h : r.map f = .ok w') :
    ∃ w, r = .ok w ∧ w' = f w := by
  cases r with
  | error e => cases h
  | ok w =>
      cases h
      exact ⟨w, rfl, rfl⟩

theorem finishFill_ok {io : Device} {w w' : Work} (h : finishFill io w = .ok w') :
    w'.buf = w.buf ∧ w'.rank = 0 := by
  obtain ⟨w₁, hfill, rfl⟩ := map_ok h
  have hbuf := writeFill_ok hfill
  exact ⟨hbuf, rfl⟩

theorem passRaw_ok {io : Device} {w w' : Work} (h : passRaw io w = .ok w') :
    w'.buf = w.buf.drop (min w.buf.length w.remaining) ∧
      (w.remaining = 0 → w'.rank = 0) := by
  obtain ⟨w₁, hcall, rfl⟩ := map_ok h
  obtain ⟨-, rfl⟩ := call_ok hcall
  rw [Work.wrote]
  dsimp only
  split
  · exact ⟨rfl, fun _ => rfl⟩
  · rename_i hleft
    refine ⟨rfl, fun hzero => absurd ?_ hleft⟩
    show w.remaining - _ = 0
    omega

theorem passFill_ok {io : Device} {w w' : Work} (h : passFill io w = .ok w') :
    (w.offset < 4 → w'.buf = w.buf.drop (min w.buf.length 4)) ∧
      (4 ≤ w.offset → w'.buf = w.buf ∧ w'.rank = 0) := by
  rw [passFill] at h
  split at h
  · rename_i hlt
    dsimp only at h
    refine ⟨fun _ => ?_, fun hge => absurd hlt (by omega)⟩
    split at h
    · cases h
      rfl
    · exact (finishFill_ok h).1
  · rename_i hge
    exact ⟨fun hlt => absurd hlt hge, fun _ => finishFill_ok h⟩

/-- Every pass uses bytes of the buffer, or leads to a state of lower rank. -/
theorem pass_measure {io : Device} {w w' : Work} (hbusy : w.Busy) (h : pass io w = .ok w') :
    w'.measure < w.measure := by
  have hrank := rank_le w'
  have hdrop : ∀ n, w'.buf = w.buf.drop n → 0 < n → n ≤ w.buf.length →
      w'.measure < w.measure := by
    intro n hbuf hpos hle
    have hlen := congrArg List.length hbuf
    rw [List.length_drop] at hlen
    rw [Work.measure, Work.measure]
    omega
  have hsame : w'.buf = w.buf → w'.rank < w.rank → w'.measure < w.measure := by
    intro hbuf hlt
    rw [Work.measure, Work.measure, hbuf]
    omega
  have hlen : w.state ≠ .dontCare → 0 < w.buf.length := by
    intro hstate
    exact List.length_pos_iff.mpr (hbusy.resolve_right hstate)
  rw [pass] at h
  cases hstate : w.state with
  | imageHeader =>
      rw [hstate] at h
      have hpos := hlen (by rw [hstate]; decide)
      obtain ⟨hbuf, hzero⟩ := passImageHeader_ok h
      rcases Nat.eq_zero_or_pos w.remaining with hrem | hrem
      · refine hsame (by rw [hbuf, hrem, Nat.min_zero, List.drop_zero]) ?_
        rw [Work.rank, Work.rank, hzero hrem, hstate]
        dsimp only
        split <;> omega
      · exact hdrop _ hbuf (by omega) (by omega)
  | chunkHeader =>
      rw [hstate] at h
      have hpos := hlen (by rw [hstate]; decide)
      obtain ⟨hbuf, hzero⟩ := passChunkHeader_ok h
      rcases Nat.eq_zero_or_pos w.remaining with hrem | hrem
      · refine hsame (by rw [hbuf, hrem, Nat.min_zero, List.drop_zero]) ?_
        have hnot := hzero hrem
        rw [Work.rank, Work.rank, hstate]
        dsimp only
        rw [if_pos hrem]
        cases hnew : w'.state with
        | imageHeader => exact absurd hnew hnot.1
        | chunkHeader => exact absurd hnew hnot.2
        | raw => exact Nat.one_lt_two
        | fill => exact Nat.one_lt_two
        | dontCare => exact Nat.one_lt_two
        | crc => exact Nat.two_pos
      · exact hdrop _ hbuf (by omega) (by omega)
  | raw =>
      rw [hstate] at h
      have hpos := hlen (by rw [hstate]; decide)
      obtain ⟨hbuf, hzero⟩ := passRaw_ok h
      rcases Nat.eq_zero_or_pos w.remaining with hrem | hrem
      · refine hsame (by rw [hbuf, hrem, Nat.min_zero, List.drop_zero]) ?_
        rw [hzero hrem, Work.rank, hstate]
        exact Nat.one_pos
      · exact hdrop _ hbuf (by omega) (by omega)
  | fill =>
      rw [hstate] at h
      have hpos := hlen (by rw [hstate]; decide)
      obtain ⟨hshort, hlong⟩ := passFill_ok h
      rcases Nat.lt_or_ge w.offset 4 with hlt | hge
      · exact hdrop _ (hshort hlt) (by omega) (by omega)
      · obtain ⟨hbuf, hzero⟩ := hlong hge
        refine hsame hbuf ?_
        rw [hzero, Work.rank, hstate]
        exact Nat.one_pos
  | dontCare =>
      rw [hstate] at h
      obtain ⟨w₁, hcall, rfl⟩ := map_ok h
      obtain ⟨-, rfl⟩ := call_ok hcall
      refine hsame rfl ?_
      rw [Work.rank, Work.rank, hstate]
      exact Nat.one_pos
  | crc =>
      rw [hstate] at h
      cases h

/-- The loop of `tegrabl_sparse_unsparse`. -/
def loop (io : Device) (w : Work) : Res :=
  if _hbusy : w.Busy then
    match _h : pass io w with
    | .error r => .error r
    | .ok w' => loop io w'
  else .ok w
termination_by w.measure
decreasing_by exact pass_measure _hbusy _h

/-! ## The calls -/

/-- How a call ends: what it returns, the state and the calls of the device it
has made, and whether a copy has left `fill_value`. -/
structure Outcome where
  result : Except Stop Unit
  st : UnsparseState
  events : List Event
  stray : Bool

/-- The locals at the start of a call. -/
def startWork (st : UnsparseState) (buff : List UInt8) (events : List Event) : Work where
  st := st
  state := st.state
  offset := st.offset
  remaining := st.remaining
  chunksProcessed := st.chunksProcessed
  buf := buff
  events := events
  stray := false

/-- `tegrabl_sparse_unsparse`, after the calls `events` of the device -/
def unsparse (io : Device) (st : UnsparseState) (buff : List UInt8) (events : List Event) :
    Outcome :=
  if buff = [] then
    { result := .error (.fail .badParameter), st := st, events := events, stray := false }
  else
    match loop io
      { st := st
        state := st.state
        offset := st.offset
        remaining := st.remaining
        chunksProcessed := st.chunksProcessed
        buf := buff
        events := events
        stray := false } with
    | .error (stop, w) =>
        { result := .error stop, st := w.st, events := w.events, stray := w.stray }
    | .ok w =>
        { result := .ok ()
          st := { w.st with
            remaining := w.remaining
            offset := w.offset
            state := w.state
            chunksProcessed := w.chunksProcessed }
          events := w.events
          stray := w.stray }

/-- A download: one call for each buffer, up to the first that fails. -/
def download (io : Device) (st : UnsparseState) (events : List Event) : List (List UInt8) → Outcome
  | [] => { result := .ok (), st := st, events := events, stray := false }
  | buff :: rest =>
      let out := unsparse io st buff events
      match out.result with
      | .error _ => out
      | .ok () =>
          let later := download io out.st out.events rest
          { later with stray := out.stray || later.stray }

end TX2SecureUart.Sparse
