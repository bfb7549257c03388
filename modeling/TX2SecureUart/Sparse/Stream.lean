/-
# `Sparse.Stream` — what a stream of bytes says as a sparse image

The meaning of a sparse image, byte by byte and without buffers: to which part
of the image the next byte belongs, and what has been unpacked so far.  A
stream that ends early has a meaning as well, and so has one that is not an
image: it ends where it stops being one.

The code's own tests of the two kinds of header are used as they are.
-/
import TX2SecureUart.Sparse.Unsparse

namespace TX2SecureUart.Sparse

/-- A byte of the unpacked image, or a number of bytes that are skipped. -/
inductive Out where
  | byte (b : UInt8)
  | skip (size : Nat)
deriving DecidableEq

def Event.out : Event → List Out
  | .write bytes => bytes.map Out.byte
  | .seek size => [.skip size]

/-- What the calls of the device come to: the bytes written one after the other
and, between them, the seeks. -/
def flat (events : List Event) : List Out := events.flatMap Event.out

def Out.size : Out → Nat
  | .byte _ => 1
  | .skip size => size

/-- The bytes written and skipped. -/
def total (out : List Out) : Nat := (out.map Out.size).sum

/-- Where the next byte belongs. -/
inductive Place where
  /-- the image header, of which `got` has been received -/
  | imageHeader (got : List UInt8)
  /-- a chunk header of `size` bytes -/
  | chunkHeader (size : Nat) (got : List UInt8)
  /-- the data of the raw chunk with the header `c` -/
  | raw (c : List UInt8) (done left : Nat)
  /-- the value of a fill chunk that unpacks to `size` bytes -/
  | fill (c : List UInt8) (size got : Nat)
  | crc (c : List UInt8) (size : Nat)
  /-- nowhere -/
  | ended (stop : Stop)
deriving DecidableEq

structure Stream where
  maxUnsparseSize : Nat
  place : Place
  /-- the image header, once it is complete -/
  header : List UInt8
  fillValue : List UInt8
  chunks : Nat
  out : List Out

def Stream.init (maxUnsparseSize : Nat) : Stream where
  maxUnsparseSize := maxUnsparseSize
  place := .imageHeader []
  header := []
  fillValue := List.replicate 4 0
  chunks := 0
  out := []

/-- `bytes` and as many zeros as there are missing to `n` -/
def pad (n : Nat) (bytes : List UInt8) : List UInt8 := bytes ++ List.replicate (n - bytes.length) 0

def Stream.stop (σ : Stream) (stop : Stop) : Stream := { σ with place := .ended stop }

/-- The next chunk begins. -/
def Stream.nextChunk (σ : Stream) : Stream :=
  { σ with place := .chunkHeader sizeofChunkHeader [] }

/-- The image header is complete. -/
def Stream.openImage (σ : Stream) (h : List UInt8) : Stream :=
  match validateHeader h σ.maxUnsparseSize with
  | some e => σ.stop (.fail e)
  | none => { σ with header := h, place := .chunkHeader (chunkHdrSz h) [] }

/-- The header `c` of a chunk is complete. -/
def Stream.openChunk (σ : Stream) (c : List UInt8) : Stream :=
  match validateChunkHeader σ.header c with
  | some e => σ.stop (.fail e)
  | none =>
      if totalChunks σ.header < σ.chunks + 1 then σ.stop (.fail .outOfRange)
      else
        let σ := { σ with chunks := σ.chunks + 1 }
        let size := chunkSz c * blkSz σ.header
        match phaseOf c with
        | .raw => { σ with place := .raw c 0 size }
        | .fill => { σ with place := .fill c size 0 }
        | .dontCare => { σ.nextChunk with out := σ.out ++ [.skip size] }
        | _ => { σ with place := .crc c size }

/-- The byte `b` of a chunk header. -/
def Stream.chunkByte (σ : Stream) (size : Nat) (got : List UInt8) (b : UInt8) : Stream :=
  -- a header of no bytes is all zeros
  if size = 0 then σ.stop (.fail .invalid)
  else if got.length + 1 < size then { σ with place := .chunkHeader size (got ++ [b]) }
  else σ.openChunk (pad sizeofChunkHeader ((got ++ [b]).take sizeofChunkHeader))

/-- The value of a fill chunk is complete. -/
def Stream.unpackFill (σ : Stream) (size : Nat) : Stream :=
  { σ.nextChunk with out := σ.out ++ (fillBytes σ.fillValue size).map Out.byte }

def Stream.next (σ : Stream) (b : UInt8) : Stream :=
  match σ.place with
  | .imageHeader got =>
      if got.length + 1 < sizeofImageHeader then { σ with place := .imageHeader (got ++ [b]) }
      else σ.openImage (got ++ [b])
  | .chunkHeader size got => σ.chunkByte size got b
  | .raw c done left =>
      -- a chunk of no blocks has no data
      if left = 0 then σ.chunkByte sizeofChunkHeader [] b
      else
        let σ := { σ with out := σ.out ++ [Out.byte b] }
        if left = 1 then σ.nextChunk else { σ with place := .raw c (done + 1) (left - 1) }
  | .fill c size got =>
      let σ := { σ with fillValue := σ.fillValue.set got b }
      if got + 1 < 4 then { σ with place := .fill c size (got + 1) } else σ.unpackFill size
  | .crc _ _ => σ.stop .hangs
  | .ended _ => σ

def Stream.feed (σ : Stream) (bytes : List UInt8) : Stream := bytes.foldl Stream.next σ

@[simp] theorem feed_nil (σ : Stream) : σ.feed [] = σ := rfl

@[simp] theorem feed_cons (σ : Stream) (b : UInt8) (bytes : List UInt8) :
    σ.feed (b :: bytes) = (σ.next b).feed bytes := rfl

theorem feed_append (σ : Stream) (xs ys : List UInt8) :
    σ.feed (xs ++ ys) = (σ.feed xs).feed ys := List.foldl_append

/-! ## The shape of a place -/

/-- No more has been received than the place asks for. -/
def Place.Ok : Place → Prop
  | .imageHeader got => got.length < sizeofImageHeader
  | .chunkHeader size got => got.length < size ∨ size = 0 ∧ got = []
  | .fill _ _ got => got < 4
  | _ => True

structure Stream.Wf (σ : Stream) : Prop where
  fillValue : σ.fillValue.length = 4
  place : σ.place.Ok

theorem wf_init (maxUnsparseSize : Nat) : (Stream.init maxUnsparseSize).Wf :=
  ⟨rfl, show 0 < 28 by omega⟩

theorem nextChunk_wf {σ : Stream} (h : σ.fillValue.length = 4) : σ.nextChunk.Wf :=
  ⟨h, .inl (show 0 < 12 by omega)⟩

theorem openImage_wf {σ : Stream} (h : List UInt8) (hwf : σ.Wf) : (σ.openImage h).Wf := by
  rw [Stream.openImage]
  split
  · exact ⟨hwf.fillValue, trivial⟩
  · refine ⟨hwf.fillValue, ?_⟩
    exact (Nat.eq_zero_or_pos (chunkHdrSz h)).elim (fun hz => .inr ⟨hz, rfl⟩) .inl

theorem openChunk_wf {σ : Stream} (c : List UInt8) (hwf : σ.Wf) : (σ.openChunk c).Wf := by
  rw [Stream.openChunk]
  split
  · exact ⟨hwf.fillValue, trivial⟩
  · split
    · exact ⟨hwf.fillValue, trivial⟩
    · dsimp only
      split
      · exact ⟨hwf.fillValue, trivial⟩
      · exact ⟨hwf.fillValue, show 0 < 4 by omega⟩
      · exact ⟨hwf.fillValue, (nextChunk_wf hwf.fillValue).place⟩
      · exact ⟨hwf.fillValue, trivial⟩

theorem chunkByte_wf {σ : Stream} (size : Nat) (got : List UInt8) (b : UInt8) (hwf : σ.Wf) :
    (σ.chunkByte size got b).Wf := by
  rw [Stream.chunkByte]
  split
  · exact ⟨hwf.fillValue, trivial⟩
  · split
    · rename_i hlt
      refine ⟨hwf.fillValue, .inl ?_⟩
      rw [List.length_append]
      exact hlt
    · exact openChunk_wf _ hwf

theorem next_wf {σ : Stream} (b : UInt8) (hwf : σ.Wf) : (σ.next b).Wf := by
  rw [Stream.next]
  split
  · rename_i got _
    split
    · rename_i hlt
      refine ⟨hwf.fillValue, ?_⟩
      show (got ++ [b]).length < sizeofImageHeader
      rw [List.length_append]
      exact hlt
    · exact openImage_wf _ hwf
  · exact chunkByte_wf _ _ _ hwf
  · split
    · exact chunkByte_wf _ _ _ hwf
    · dsimp only
      split
      · exact nextChunk_wf hwf.fillValue
      · exact ⟨hwf.fillValue, trivial⟩
  · rename_i c size got _
    have hlen : (σ.fillValue.set got b).length = 4 := by rw [List.length_set, hwf.fillValue]
    dsimp only
    split
    · rename_i hlt
      exact ⟨hlen, hlt⟩
    · exact ⟨hlen, (nextChunk_wf hwf.fillValue).place⟩
  · exact ⟨hwf.fillValue, trivial⟩
  · exact hwf

theorem feed_wf {σ : Stream} (xs : List UInt8) (hwf : σ.Wf) : (σ.feed xs).Wf := by
  induction xs generalizing σ with
  | nil => exact hwf
  | cons b xs ih => exact ih (next_wf b hwf)

/-! ## Many bytes of one place -/

theorem exists_last {xs : List UInt8} (h : 0 < xs.length) : ∃ ys b, xs = ys ++ [b] := by
  rcases List.eq_nil_or_concat xs with rfl | ⟨ys, b, rfl⟩
  · exact absurd h (Nat.lt_irrefl 0)
  · exact ⟨ys, b, List.concat_eq_append⟩

theorem feed_imageHeader {σ : Stream} {got xs : List UInt8} (hp : σ.place = .imageHeader got)
    (hlen : got.length + xs.length < sizeofImageHeader) :
    σ.feed xs = { σ with place := .imageHeader (got ++ xs) } := by
  induction xs generalizing σ got with
  | nil => rw [feed_nil, List.append_nil, ← hp]
  | cons b xs ih =>
      rw [List.length_cons] at hlen
      have hnext : σ.next b = { σ with place := .imageHeader (got ++ [b]) } := by
        rw [Stream.next, hp]
        exact if_pos (by omega)
      rw [feed_cons, hnext, ih rfl (by rw [List.length_append, List.length_singleton]; omega)]
      simp

theorem feed_imageHeader_full {σ : Stream} {got xs : List UInt8}
    (hp : σ.place = .imageHeader got) (hlt : got.length < sizeofImageHeader)
    (hlen : got.length + xs.length = sizeofImageHeader) :
    σ.feed xs = σ.openImage (got ++ xs) := by
  have hsome : 0 < xs.length := by omega
  obtain ⟨ys, b, rfl⟩ := exists_last hsome
  rw [List.length_append, List.length_singleton] at hlen
  rw [feed_append, feed_imageHeader hp (by omega), feed_cons, feed_nil, Stream.next]
  simp only
  rw [if_neg (by rw [List.length_append]; omega), List.append_assoc]
  rfl

theorem feed_chunkHeader {σ : Stream} {size : Nat} {got xs : List UInt8}
    (hp : σ.place = .chunkHeader size got) (hlen : got.length + xs.length < size) :
    σ.feed xs = { σ with place := .chunkHeader size (got ++ xs) } := by
  induction xs generalizing σ got with
  | nil => rw [feed_nil, List.append_nil, ← hp]
  | cons b xs ih =>
      rw [List.length_cons] at hlen
      have hnext : σ.next b = { σ with place := .chunkHeader size (got ++ [b]) } := by
        rw [Stream.next, hp]
        show σ.chunkByte size got b = _
        rw [Stream.chunkByte, if_neg (by omega), if_pos (by omega)]
      rw [feed_cons, hnext, ih rfl (by rw [List.length_append, List.length_singleton]; omega)]
      simp

theorem feed_chunkHeader_full {σ : Stream} {size : Nat} {got xs : List UInt8}
    (hp : σ.place = .chunkHeader size got) (hlt : got.length < size)
    (hlen : got.length + xs.length = size) :
    σ.feed xs = σ.openChunk (pad sizeofChunkHeader ((got ++ xs).take sizeofChunkHeader)) := by
  have hsome : 0 < xs.length := by omega
  obtain ⟨ys, b, rfl⟩ := exists_last hsome
  rw [List.length_append, List.length_singleton] at hlen
  rw [feed_append, feed_chunkHeader hp (by omega), feed_cons, feed_nil, Stream.next]
  show Stream.chunkByte _ size (got ++ ys) b = _
  rw [Stream.chunkByte, if_neg (by omega), if_neg (by rw [List.length_append]; omega),
    List.append_assoc]
  rfl

theorem feed_raw {σ : Stream} {c xs : List UInt8} {done left : Nat}
    (hp : σ.place = .raw c done left) (hlen : xs.length < left) :
    σ.feed xs = { σ with
      place := .raw c (done + xs.length) (left - xs.length)
      out := σ.out ++ xs.map Out.byte } := by
  induction xs generalizing σ done left with
  | nil => simp [← hp]
  | cons b xs ih =>
      rw [List.length_cons] at hlen
      have hnext : σ.next b = { σ with
          place := .raw c (done + 1) (left - 1)
          out := σ.out ++ [Out.byte b] } := by
        rw [Stream.next, hp]
        dsimp only
        rw [if_neg (by omega), if_neg (by omega)]
      rw [feed_cons, hnext, ih rfl (by omega), List.length_cons]
      simp only [List.map_cons, List.append_assoc, List.singleton_append, Nat.sub_sub]
      rw [Nat.add_assoc, Nat.add_comm 1]

theorem feed_raw_full {σ : Stream} {c xs : List UInt8} {done left : Nat}
    (hp : σ.place = .raw c done left) (hpos : 0 < left) (hlen : xs.length = left) :
    σ.feed xs = { σ.nextChunk with out := σ.out ++ xs.map Out.byte } := by
  have hsome : 0 < xs.length := by omega
  obtain ⟨ys, b, rfl⟩ := exists_last hsome
  rw [List.length_append, List.length_singleton] at hlen
  rw [feed_append, feed_raw hp (by omega), feed_cons, feed_nil, Stream.next]
  dsimp only
  rw [if_neg (by omega), if_pos (by omega)]
  simp [Stream.nextChunk]

/-- A raw chunk of no blocks is over when the next byte comes. -/
theorem feed_raw_zero {σ : Stream} {c xs : List UInt8} {done : Nat}
    (hp : σ.place = .raw c done 0) (hne : xs ≠ []) : σ.feed xs = σ.nextChunk.feed xs := by
  cases xs with
  | nil => exact absurd rfl hne
  | cons b xs =>
      rw [feed_cons, feed_cons, Stream.next, hp]
      rfl

theorem overwrite_cons {mem xs : List UInt8} {got : Nat} {b : UInt8} (h : got < mem.length) :
    overwrite (mem.set got b) (got + 1) xs = overwrite mem got (b :: xs) := by
  have htake : (mem.set got b).take (got + 1) = mem.take got ++ [b] := by
    rw [List.take_succ_eq_append_getElem (by simpa using h), List.take_set_of_le (Nat.le_refl got)]
    simp
  rw [overwrite, overwrite, htake, List.drop_set_of_lt (by omega), List.length_set,
    List.length_cons, Nat.add_right_comm, Nat.add_assoc got]
  simp

theorem overwrite_nil (mem : List UInt8) (got : Nat) : overwrite mem got [] = mem := by
  simp [overwrite]

theorem set_overwrite {mem ys : List UInt8} {got : Nat} {b : UInt8}
    (h : got + ys.length < mem.length) :
    (overwrite mem got ys).set (got + ys.length) b = overwrite mem got (ys ++ [b]) := by
  induction ys generalizing mem got with
  | nil =>
      rw [List.length_nil, Nat.add_zero] at h
      rw [overwrite_nil, List.nil_append, ← overwrite_cons h, overwrite_nil, List.length_nil,
        Nat.add_zero]
  | cons y ys ih =>
      rw [List.length_cons] at h
      have hroom : got + 1 + ys.length < (mem.set got y).length := by
        rw [List.length_set]
        omega
      have hrest := ih hroom
      rw [List.cons_append, ← overwrite_cons (by omega), ← overwrite_cons (by omega), ← hrest,
        List.length_cons, Nat.add_right_comm, Nat.add_assoc got]

theorem feed_fill {σ : Stream} {c xs : List UInt8} {size got : Nat} (hwf : σ.fillValue.length = 4)
    (hp : σ.place = .fill c size got) (hlen : got + xs.length < 4) :
    σ.feed xs = { σ with
      place := .fill c size (got + xs.length)
      fillValue := overwrite σ.fillValue got xs } := by
  induction xs generalizing σ got with
  | nil => simp [← hp, overwrite]
  | cons b xs ih =>
      rw [List.length_cons] at hlen
      have hnext : σ.next b = { σ with
          place := .fill c size (got + 1)
          fillValue := σ.fillValue.set got b } := by
        rw [Stream.next, hp]
        dsimp only
        rw [if_pos (by omega)]
      rw [feed_cons, hnext, ih (by simpa using hwf) rfl (by omega), List.length_cons]
      simp only
      rw [overwrite_cons (by omega), Nat.add_right_comm, Nat.add_assoc got]

theorem feed_fill_full {σ : Stream} {c xs : List UInt8} {size got : Nat}
    (hwf : σ.fillValue.length = 4) (hp : σ.place = .fill c size got) (hlt : got < 4)
    (hlen : got + xs.length = 4) :
    σ.feed xs = ({ σ with fillValue := overwrite σ.fillValue got xs } : Stream).unpackFill size := by
  have hsome : 0 < xs.length := by omega
  obtain ⟨ys, b, rfl⟩ := exists_last hsome
  rw [List.length_append, List.length_singleton] at hlen
  rw [feed_append, feed_fill hwf hp (by omega), feed_cons, feed_nil, Stream.next]
  dsimp only
  rw [if_neg (by omega), set_overwrite (by omega)]
  rfl

end TX2SecureUart.Sparse
