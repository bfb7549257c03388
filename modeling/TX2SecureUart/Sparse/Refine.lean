/-
# `Sparse.Refine` — a call unpacks what its bytes say

A call of `tegrabl_sparse_unsparse` on a buffer leads from the state in which
the stream is at the buffer's first byte to the one in which it is behind its
last, and the device has been called for what the stream says, unless the device
fails first.  Two kinds of buffer are different: one that begins inside the
value of a fill chunk and reaches beyond it, and one that goes across the
twelfth byte of a longer chunk header.
-/
import TX2SecureUart.Sparse.Stream

namespace TX2SecureUart.Sparse

/-! ## The saved state of a stream -/

/-- The state that is saved when the stream is here. -/
def Stream.saved (σ : Stream) : UnsparseState :=
  let st : UnsparseState :=
    { state := .chunkHeader
      imageHeader := σ.header
      chunkHeader := List.replicate sizeofChunkHeader 0
      offset := 0
      remaining := 0
      maxUnsparseSize := σ.maxUnsparseSize
      fillValue := σ.fillValue
      chunksProcessed := σ.chunks }
  match σ.place with
  | .imageHeader got => { st with
      state := .imageHeader
      imageHeader := pad sizeofImageHeader got
      offset := got.length
      remaining := sizeofImageHeader - got.length }
  | .chunkHeader size got => { st with
      chunkHeader := pad sizeofChunkHeader (got.take sizeofChunkHeader)
      offset := got.length
      remaining := size - got.length }
  | .raw c done left => { st with
      state := .raw, chunkHeader := c, offset := done, remaining := left }
  | .fill c size got => { st with
      state := .fill, chunkHeader := c, offset := got, remaining := size }
  | .crc c size => { st with state := .crc, chunkHeader := c, remaining := size }
  | .ended _ => st

/-- The state that a call would save now. -/
def Work.saved (w : Work) : UnsparseState :=
  { w.st with
    remaining := w.remaining
    offset := w.offset
    state := w.state
    chunksProcessed := w.chunksProcessed }

/-- The call has come to where the stream is. -/
structure At (σ : Stream) (w : Work) : Prop where
  saved : w.saved = σ.saved
  out : flat w.events = σ.out

def Stream.Live (σ : Stream) : Prop := ∀ stop, σ.place ≠ .ended stop

theorem saved_ne_dontCare (σ : Stream) : σ.saved.state ≠ .dontCare := by
  rw [Stream.saved]
  cases σ.place <;> simp

theorem feed_ended {σ : Stream} {stop : Stop} (h : σ.place = .ended stop) (xs : List UInt8) :
    σ.feed xs = σ := by
  induction xs with
  | nil => rfl
  | cons b xs ih =>
      have hnext : σ.next b = σ := by rw [Stream.next, h]
      rw [feed_cons, hnext, ih]

/-! ## What has been unpacked only grows -/

theorem flat_append (xs ys : List Event) : flat (xs ++ ys) = flat xs ++ flat ys :=
  List.flatMap_append

theorem openChunk_out (σ : Stream) (c : List UInt8) : σ.out <+: (σ.openChunk c).out := by
  rw [Stream.openChunk]
  split
  · exact List.prefix_refl _
  · split
    · exact List.prefix_refl _
    · dsimp only
      split
      · exact List.prefix_refl _
      · exact List.prefix_refl _
      · exact List.prefix_append _ _
      · exact List.prefix_refl _

theorem chunkByte_out (σ : Stream) (size : Nat) (got : List UInt8) (b : UInt8) :
    σ.out <+: (σ.chunkByte size got b).out := by
  rw [Stream.chunkByte]
  split
  · exact List.prefix_refl _
  · split
    · exact List.prefix_refl _
    · exact openChunk_out σ _

theorem next_out (σ : Stream) (b : UInt8) : σ.out <+: (σ.next b).out := by
  rw [Stream.next]
  split
  · split
    · exact List.prefix_refl _
    · rw [Stream.openImage]
      split <;> exact List.prefix_refl _
  · exact chunkByte_out σ _ _ b
  · split
    · exact chunkByte_out σ _ _ b
    · dsimp only
      split <;> exact List.prefix_append _ _
  · dsimp only
    split
    · exact List.prefix_refl _
    · exact List.prefix_append _ _
  · exact List.prefix_refl _
  · exact List.prefix_refl _

theorem feed_out (σ : Stream) (xs : List UInt8) : σ.out <+: (σ.feed xs).out := by
  induction xs generalizing σ with
  | nil => exact List.prefix_refl _
  | cons b xs ih => exact (next_out σ b).trans (ih _)

/-! ## Buffers that are different -/

/-- The stream is inside a fill value, and the buffer reaches beyond it. -/
def Stream.FillCross (σ : Stream) (buff : List UInt8) : Prop :=
  ∃ c size got, σ.place = .fill c size got ∧ 0 < got ∧ 4 < got + buff.length

/-- Twelve bytes of a longer chunk header have been received. -/
def Stream.Seam (σ : Stream) : Prop :=
  ∃ size got, σ.place = .chunkHeader size got ∧ got.length = sizeofChunkHeader ∧
    sizeofChunkHeader < size

/-- The buffer goes across the twelfth byte of a longer chunk header. -/
def Stream.HeaderCross (σ : Stream) (buff : List UInt8) : Prop :=
  ∃ pre post, pre ≠ [] ∧ post ≠ [] ∧ buff = pre ++ post ∧ (σ.feed pre).Seam

/-! ## One pass -/

/-- How a pass, or a whole call, ends when the stream is then at `σ` and `rest`
of the buffer is left. -/
inductive Refined (io : Device) (σ : Stream) (rest : List UInt8) (stray : Bool) : Res → Prop
  | on {w : Work} : At σ w → σ.Live → w.buf = rest → w.stray = stray → Refined io σ rest stray (.ok w)
  /-- the stream has ended, and so does the call -/
  | ended {w : Work} {stop : Stop} : σ.place = .ended stop → flat w.events = σ.out →
      w.stray = stray → Refined io σ rest stray (.error (stop, w))
  /-- the device has failed -/
  | device {w : Work} {e : Err} (events : List Event) : io events = some e →
      flat w.events <+: σ.out → w.stray = stray → Refined io σ rest stray (.error (.fail e, w))

theorem length_pad {n : Nat} {bytes : List UInt8} (h : bytes.length ≤ n) :
    (pad n bytes).length = n := by
  rw [pad, List.length_append, List.length_replicate]
  omega

theorem overwrite_pad {n : Nat} {got xs : List UInt8} (h : got.length + xs.length ≤ n) :
    overwrite (pad n got) got.length xs = pad n (got ++ xs) := by
  have hhead : (pad n got).take got.length = got := List.take_left
  have htail : (pad n got).drop (got.length + xs.length) =
      List.replicate (n - (got ++ xs).length) 0 := by
    rw [pad, List.drop_append, List.drop_eq_nil_of_le (by omega), List.nil_append,
      List.drop_replicate, List.length_append]
    congr 1
    omega
  have hlen : (pad n (got ++ xs)).length = n := length_pad (by rw [List.length_append]; omega)
  rw [overwrite, hhead, htail, length_pad (by omega)]
  show (pad n (got ++ xs)).take n = _
  rw [List.take_of_length_le (by omega)]

/-- The fields of the work, where the stream is known. -/
theorem At.fields {σ : Stream} {w : Work} (hat : At σ w) :
    w.state = σ.saved.state ∧ w.st.imageHeader = σ.saved.imageHeader ∧
      w.st.chunkHeader = σ.saved.chunkHeader ∧ w.offset = σ.saved.offset ∧
      w.remaining = σ.saved.remaining ∧ w.st.maxUnsparseSize = σ.maxUnsparseSize ∧
      w.st.fillValue = σ.fillValue ∧ w.chunksProcessed = σ.chunks := by
  have hsaved := hat.saved
  have hmax : σ.saved.maxUnsparseSize = σ.maxUnsparseSize := by
    rw [Stream.saved]
    cases σ.place <;> rfl
  have hfill : σ.saved.fillValue = σ.fillValue := by
    rw [Stream.saved]
    cases σ.place <;> rfl
  have hchunks : σ.saved.chunksProcessed = σ.chunks := by
    rw [Stream.saved]
    cases σ.place <;> rfl
  rw [← hmax, ← hfill, ← hchunks, ← hsaved]
  exact ⟨rfl, rfl, rfl, rfl, rfl, rfl, rfl, rfl⟩

/-- A pass in the image header. -/
theorem passImageHeader_refines (io : Device) {σ : Stream} {w : Work} {got : List UInt8}
    (hat : At σ w) (hp : σ.place = .imageHeader got) (hwf : σ.Wf) :
    Refined io (σ.feed (w.buf.take (min w.buf.length w.remaining)))
      (w.buf.drop (min w.buf.length w.remaining)) w.stray (passImageHeader w) := by
  have hlt : got.length < sizeofImageHeader := by
    have hok := hwf.place
    rwa [hp] at hok
  obtain ⟨hstate, hih, hch, hoff, hrem, hmax, hfv, hcp⟩ := hat.fields
  simp only [Stream.saved, hp] at hstate hih hch hoff hrem
  have hlen : (w.buf.take (min w.buf.length w.remaining)).length =
      min w.buf.length w.remaining := by
    rw [List.length_take]
    omega
  have hcopy : overwrite w.st.imageHeader w.offset
      (w.buf.take (min w.buf.length w.remaining)) =
        pad sizeofImageHeader (got ++ w.buf.take (min w.buf.length w.remaining)) := by
    rw [hih, hoff]
    exact overwrite_pad (by omega)
  rw [passImageHeader]
  dsimp only
  rw [if_neg (by omega), hcopy]
  generalize hxs : w.buf.take (min w.buf.length w.remaining) = xs at hlen ⊢
  split
  · rename_i hleft
    have hleft : w.remaining - min w.buf.length w.remaining ≠ 0 := hleft
    have hshort : got.length + xs.length < sizeofImageHeader := by omega
    have hfeed := feed_imageHeader hp hshort
    refine .on ⟨?_, ?_⟩ ?_ rfl rfl
    · rw [hfeed]
      simp only [Work.saved, Work.advance, Stream.saved, List.length_append]
      rw [hstate, hch, hmax, hfv, hcp, hoff, hlen, hrem, Nat.sub_sub]
    · rw [hfeed]
      exact hat.out
    · intro stop hstop
      rw [hfeed] at hstop
      cases hstop
  · rename_i hleft
    have hleft : ¬ w.remaining - min w.buf.length w.remaining ≠ 0 := hleft
    have hfull : got.length + xs.length = sizeofImageHeader := by omega
    have hfeed := feed_imageHeader_full hp hlt hfull
    have hpad : pad sizeofImageHeader (got ++ xs) = got ++ xs := by
      rw [pad, List.length_append, hfull, Nat.sub_self, List.replicate_zero, List.append_nil]
    rw [hfeed, hpad, Stream.openImage]
    dsimp only [Work.advance]
    rw [hmax]
    cases hval : validateHeader (got ++ xs) σ.maxUnsparseSize with
    | some e => exact .ended rfl hat.out rfl
    | none =>
        refine .on ⟨?_, hat.out⟩ ?_ rfl rfl
        · simp only [Work.saved, Work.nextChunk, Work.advance, Stream.saved]
          rw [hfv, hcp]
          rfl
        · intro stop hstop
          cases hstop

/-- A pass that calls the device once for what the stream says. -/
theorem call_refines {io : Device} {σ : Stream} {w : Work} {e : Event} {f : Work → Work}
    (hout : flat w.events ++ e.out = σ.out) (hlive : σ.Live)
    (hsaved : (f { w with events := w.events ++ [e] }).saved = σ.saved)
    (hevents : (f { w with events := w.events ++ [e] }).events = w.events ++ [e])
    (hstray : (f { w with events := w.events ++ [e] }).stray = w.stray) :
    Refined io σ (f { w with events := w.events ++ [e] }).buf w.stray ((w.call io e).map f) := by
  have hflat : flat (w.events ++ [e]) = σ.out := by
    rw [flat_append, ← hout]
    simp [flat]
  rw [Work.call]
  cases hio : io w.events with
  | none => exact .on ⟨hsaved, by rw [hevents]; exact hflat⟩ hlive rfl hstray
  | some err =>
      refine .device w.events hio ?_ rfl
      show flat (w.events ++ [e]) <+: σ.out
      rw [hflat]

/-- A complete header; that of a chunk to be skipped is followed by the pass that
seeks. -/
theorem openChunk_refines (io : Device) {σ : Stream} {w : Work} (hih : w.st.imageHeader = σ.header)
    (hmax : w.st.maxUnsparseSize = σ.maxUnsparseSize) (hfv : w.st.fillValue = σ.fillValue)
    (hcp : w.chunksProcessed = σ.chunks) (hout : flat w.events = σ.out) :
    Refined io (σ.openChunk w.st.chunkHeader) w.buf w.stray w.openChunk ∨
      ∃ w', w.openChunk = .ok w' ∧ w'.state = .dontCare ∧
        Refined io (σ.openChunk w.st.chunkHeader) w.buf w.stray (passDontCare io w') := by
  rw [Work.openChunk, Stream.openChunk, ← hih, ← hcp]
  cases hval : validateChunkHeader w.st.imageHeader w.st.chunkHeader with
  | some e => exact .inl (.ended rfl hout rfl)
  | none =>
      dsimp only
      split
      · exact .inl (.ended rfl hout rfl)
      · have hphase : phaseOf w.st.chunkHeader = .raw ∨ phaseOf w.st.chunkHeader = .fill ∨
            phaseOf w.st.chunkHeader = .dontCare ∨ phaseOf w.st.chunkHeader = .crc := by
          rw [phaseOf]
          grind
        rcases hphase with h | h | h | h
        · rw [h]
          refine .inl (.on ⟨?_, hout⟩ (fun stop hstop => by cases hstop) rfl rfl)
          simp only [Work.saved, Stream.saved, hih, hmax, hfv]
        · rw [h]
          refine .inl (.on ⟨?_, hout⟩ (fun stop hstop => by cases hstop) rfl rfl)
          simp only [Work.saved, Stream.saved, hih, hmax, hfv]
        · rw [h]
          refine .inr ⟨_, rfl, rfl, ?_⟩
          refine call_refines (w := { w with
            chunksProcessed := w.chunksProcessed + 1
            state := .dontCare
            offset := 0
            remaining := chunkSz w.st.chunkHeader * blkSz w.st.imageHeader })
            (f := Work.nextChunk) ?_ ?_ ?_ rfl rfl
          · rw [hout]
            rfl
          · intro stop hstop
            cases hstop
          · simp only [Work.saved, Work.nextChunk, Stream.saved, Stream.nextChunk, hih, hmax, hfv]
            rfl
        · rw [h]
          refine .inl (.on ⟨?_, hout⟩ (fun stop hstop => by cases hstop) rfl rfl)
          simp only [Work.saved, Stream.saved, hih, hmax, hfv]

/-- A pass in a chunk header that stays in the array; the one that ends the
header of a chunk to be skipped is followed by the pass that seeks. -/
theorem passChunkHeader_refines (io : Device) {σ : Stream} {w : Work} {size : Nat}
    {got : List UInt8} (hat : At σ w) (hp : σ.place = .chunkHeader size got)
    (hlt : got.length < size)
    (hfit : ¬ (w.offset < sizeofChunkHeader ∧
      sizeofChunkHeader < w.offset + min w.buf.length w.remaining)) :
    Refined io (σ.feed (w.buf.take (min w.buf.length w.remaining)))
        (w.buf.drop (min w.buf.length w.remaining)) w.stray (passChunkHeader w) ∨
      ∃ w', passChunkHeader w = .ok w' ∧ w'.state = .dontCare ∧
        Refined io (σ.feed (w.buf.take (min w.buf.length w.remaining)))
          (w.buf.drop (min w.buf.length w.remaining)) w.stray (passDontCare io w') := by
  obtain ⟨hstate, hih, hch, hoff, hrem, hmax, hfv, hcp⟩ := hat.fields
  simp only [Stream.saved, hp] at hstate hih hch hoff hrem
  have hlen : (w.buf.take (min w.buf.length w.remaining)).length =
      min w.buf.length w.remaining := by
    rw [List.length_take]
    omega
  have hcopy : (if w.offset < sizeofChunkHeader then
      overwrite w.st.chunkHeader w.offset (w.buf.take (min w.buf.length w.remaining))
      else w.st.chunkHeader) = pad sizeofChunkHeader
        ((got ++ w.buf.take (min w.buf.length w.remaining)).take sizeofChunkHeader) := by
    rw [hch, hoff]
    split
    · rename_i hshort
      have hall : (got ++ w.buf.take (min w.buf.length w.remaining)).length ≤
          sizeofChunkHeader := by
        rw [List.length_append]
        omega
      rw [List.take_of_length_le (by omega), overwrite_pad (by omega), List.take_of_length_le hall]
    · rw [List.take_append_of_le_length (by omega)]
  rw [passChunkHeader]
  dsimp only
  rw [if_neg hfit, hcopy]
  generalize hxs : w.buf.take (min w.buf.length w.remaining) = xs at hlen ⊢
  split
  · rename_i hleft
    have hleft : w.remaining - min w.buf.length w.remaining ≠ 0 := hleft
    have hshort : got.length + xs.length < size := by omega
    have hfeed := feed_chunkHeader hp hshort
    refine .inl (.on ⟨?_, ?_⟩ ?_ rfl rfl)
    · rw [hfeed]
      simp only [Work.saved, Work.advance, Stream.saved, List.length_append]
      rw [hstate, hih, hmax, hfv, hcp, hoff, hlen, hrem, Nat.sub_sub]
    · rw [hfeed]
      exact hat.out
    · intro stop hstop
      rw [hfeed] at hstop
      cases hstop
  · rename_i hleft
    have hleft : ¬ w.remaining - min w.buf.length w.remaining ≠ 0 := hleft
    have hfull : got.length + xs.length = size := by omega
    rw [feed_chunkHeader_full hp hlt hfull]
    exact openChunk_refines io (w := { w.advance (min w.buf.length w.remaining) with
        st := { w.st with chunkHeader := pad sizeofChunkHeader ((got ++ xs).take sizeofChunkHeader) }
        remaining := w.remaining - min w.buf.length w.remaining }) hih hmax hfv hcp hat.out

/-- A pass in the data of a raw chunk. -/
theorem passRaw_refines (io : Device) {σ : Stream} {w : Work} {c : List UInt8} {done left : Nat}
    (hat : At σ w) (hp : σ.place = .raw c done left) (hpos : 0 < left) :
    Refined io (σ.feed (w.buf.take (min w.buf.length w.remaining)))
      (w.buf.drop (min w.buf.length w.remaining)) w.stray (passRaw io w) := by
  obtain ⟨hstate, hih, hch, hoff, hrem, hmax, hfv, hcp⟩ := hat.fields
  simp only [Stream.saved, hp] at hstate hih hch hoff hrem
  have hlen : (w.buf.take (min w.buf.length w.remaining)).length =
      min w.buf.length w.remaining := by
    rw [List.length_take]
    omega
  rw [passRaw]
  have hbuf : ∀ events, (Work.wrote { w with events := events }
      (min w.buf.length w.remaining)).buf = w.buf.drop (min w.buf.length w.remaining) := by
    intro events
    rw [Work.wrote]
    dsimp only
    split <;> rfl
  generalize hxs : w.buf.take (min w.buf.length w.remaining) = xs at hlen ⊢
  rw [← hbuf (w.events ++ [.write xs])]
  rcases Nat.lt_or_ge xs.length left with hlt | hge
  · have hfeed := feed_raw hp hlt
    have hwrote : Work.wrote { w with events := w.events ++ [.write xs] }
        (min w.buf.length w.remaining) = { w.advance (min w.buf.length w.remaining) with
          remaining := w.remaining - min w.buf.length w.remaining
          events := w.events ++ [.write xs] } := by
      rw [Work.wrote]
      dsimp only
      rw [if_neg (by omega)]
      rfl
    rw [hfeed]
    refine call_refines (f := fun w' => w'.wrote (min w.buf.length w.remaining)) ?_ ?_ ?_ ?_ ?_
    · rw [hat.out]
      rfl
    · intro stop hstop
      cases hstop
    · rw [hwrote]
      simp only [Work.saved, Work.advance, Stream.saved]
      rw [hstate, hih, hch, hmax, hfv, hcp, hoff, hlen, hrem]
    · rw [hwrote]
    · rw [hwrote]
      rfl
  · have hall : xs.length = left := by omega
    have hfeed := feed_raw_full hp hpos hall
    have hwrote : Work.wrote { w with events := w.events ++ [.write xs] }
        (min w.buf.length w.remaining) = { (w.advance (min w.buf.length w.remaining)).nextChunk with
          events := w.events ++ [.write xs] } := by
      rw [Work.wrote]
      dsimp only
      rw [if_pos (by omega)]
      rfl
    rw [hfeed]
    refine call_refines (f := fun w' => w'.wrote (min w.buf.length w.remaining)) ?_ ?_ ?_ ?_ ?_
    · rw [hat.out]
      rfl
    · intro stop hstop
      cases hstop
    · dsimp only
      rw [hwrote]
      simp only [Work.saved, Work.advance, Work.nextChunk, Stream.saved, Stream.nextChunk]
      rw [hih, hmax, hfv, hcp]
      rfl
    · rw [hwrote]
    · rw [hwrote]
      rfl

/-- The pass that finds a raw chunk without data. -/
theorem passRaw_zero_refines (io : Device) {σ : Stream} {w : Work} {c : List UInt8} {done : Nat}
    (hat : At σ w) (hp : σ.place = .raw c done 0) :
    Refined io σ.nextChunk w.buf w.stray (passRaw io w) := by
  obtain ⟨hstate, hih, hch, hoff, hrem, hmax, hfv, hcp⟩ := hat.fields
  simp only [Stream.saved, hp] at hstate hih hch hoff hrem
  have hmin : min w.buf.length w.remaining = 0 := by omega
  rw [passRaw]
  rw [hmin, List.take_zero]
  have hwrote : Work.wrote { w with events := w.events ++ [.write []] } 0 =
      { w.nextChunk with events := w.events ++ [.write []] } := by
    rw [Work.wrote]
    dsimp only
    rw [if_pos (by omega)]
    rfl
  have hbuf : (Work.wrote { w with events := w.events ++ [.write []] } 0).buf = w.buf := by
    rw [hwrote]
    rfl
  rw [← hbuf]
  refine call_refines (f := fun w' => w'.wrote 0) ?_ ?_ ?_ ?_ ?_
  · rw [hat.out]
    exact List.append_nil _
  · intro stop hstop
    cases hstop
  · rw [hwrote]
    simp only [Work.saved, Work.nextChunk, Stream.saved, Stream.nextChunk]
    rw [hih, hmax, hfv, hcp]
    rfl
  · rw [hwrote]
  · rw [hwrote]
    rfl

/-! ## A fill chunk -/

theorem fillBytes_add {m : Nat} (hm : m % 4 = 0) (v : List UInt8) (n : Nat) :
    fillBytes v (m + n) = fillBytes v m ++ fillBytes v n := by
  rw [fillBytes, fillBytes, fillBytes, List.range_add, List.map_append, List.map_map]
  congr 1
  apply List.map_congr_left
  intro i _
  show v.getD ((m + i) % 4) 0 = v.getD (i % 4) 0
  congr 1
  omega

/-- A call of the device either succeeds or ends everything. -/
theorem call_cases (io : Device) (e : Event) (w : Work) :
    (io w.events = none ∧ w.call io e = .ok { w with events := w.events ++ [e] }) ∨
    ∃ err, io w.events = some err ∧
      w.call io e = .error (.fail err, { w with events := w.events ++ [e] }) := by
  rw [Work.call]
  cases hio : io w.events with
  | none => exact .inl ⟨rfl, rfl⟩
  | some err => exact .inr ⟨err, rfl, rfl⟩

/-- The loop over the local buffer writes the repeated value, as far as the
device takes it. -/
theorem writeFill_cases (io : Device) (w : Work) :
    (∃ events, writeFill io w = .ok { w with remaining := 0, events := events } ∧
      flat events = flat w.events ++ (fillBytes w.st.fillValue w.remaining).map Out.byte) ∨
    ∃ e before w', writeFill io w = .error (.fail e, w') ∧ io before = some e ∧
      flat w'.events <+: flat w.events ++ (fillBytes w.st.fillValue w.remaining).map Out.byte ∧
      w'.stray = w.stray := by
  have hsplit : ∀ (v : List UInt8) (n : Nat), fillBytes v n =
      fillBytes v (min n sparseMaxLocalBuffer) ++
        fillBytes v (n - min n sparseMaxLocalBuffer) := by
    intro v n
    rcases Nat.le_total n sparseMaxLocalBuffer with hle | hge
    · rw [Nat.min_eq_left hle, Nat.sub_self]
      exact (List.append_nil _).symm
    · rw [Nat.min_eq_right hge, ← fillBytes_add rfl, Nat.add_sub_cancel' hge]
  induction w using writeFill.induct io with
  | case1 w hzero =>
      rw [writeFill, if_pos hzero, hzero]
      refine .inl ⟨w.events, ?_, (List.append_nil _).symm⟩
      rw [← hzero]
  | case2 w hpos size r hcall =>
      rw [writeFill, if_neg hpos]
      rcases call_cases io (.write (fillBytes w.st.fillValue size))
        { w with remaining := w.remaining - size } with ⟨-, hok⟩ | ⟨err, hio, herr⟩
      · rw [hcall] at hok
        cases hok
      · dsimp only
        split
        · rename_i r' hcall'
          rw [herr] at hcall'
          cases hcall'
          refine .inr ⟨err, w.events, _, rfl, hio, ?_, rfl⟩
          rw [hsplit w.st.fillValue w.remaining, List.map_append, ← List.append_assoc, flat_append]
          simp [flat, Event.out, size]
        · rename_i w' hcall'
          rw [herr] at hcall'
          cases hcall'
  | case3 w hpos size w₁ hcall ih =>
      obtain ⟨-, rfl⟩ := call_ok hcall
      have hflat : flat (w.events ++ [.write (fillBytes w.st.fillValue size)]) ++
          (fillBytes w.st.fillValue (w.remaining - size)).map Out.byte =
            flat w.events ++ (fillBytes w.st.fillValue w.remaining).map Out.byte := by
        rw [hsplit w.st.fillValue w.remaining, List.map_append, ← List.append_assoc, flat_append]
        simp [flat, Event.out, size]
      have heq : writeFill io w = writeFill io { w with
          remaining := w.remaining - size
          events := w.events ++ [.write (fillBytes w.st.fillValue size)] } := by
        rw [writeFill, if_neg hpos]
        dsimp only
        split
        · rename_i r hcall'
          rw [hcall] at hcall'
          cases hcall'
        · rename_i w' hcall'
          rw [hcall] at hcall'
          cases hcall'
          rfl
      rw [heq, ← hflat]
      exact ih

/-- What a copy brings beyond the end is lost. -/
theorem overwrite_take {mem : List UInt8} {off : Nat} (h : off ≤ mem.length) (src : List UInt8) :
    overwrite mem off src = overwrite mem off (src.take (mem.length - off)) := by
  have hhead : (mem.take off).length = off := by
    rw [List.length_take]
    omega
  rcases Nat.le_total src.length (mem.length - off) with hle | hge
  · rw [List.take_of_length_le hle]
  · have hlen : (src.take (mem.length - off)).length = mem.length - off := by
      rw [List.length_take]
      omega
    rw [overwrite, overwrite, hlen, List.drop_of_length_le (by omega),
      List.drop_of_length_le (by omega), List.append_nil, List.append_nil, List.take_append, hhead,
      List.take_append, hhead, List.take_take (i := mem.length - off), Nat.min_self]

/-- A pass in the value of a fill chunk takes the stream to the end of the value at
most, and the rest of what it copies is lost. -/
theorem passFill_takes (io : Device) {σ : Stream} {w : Work} {c : List UInt8} {size got : Nat}
    (hat : At σ w) (hp : σ.place = .fill c size got) (hwf : σ.Wf) :
    Refined io (σ.feed ((w.buf.take (min w.buf.length 4)).take (4 - got)))
      (w.buf.drop (min w.buf.length 4)) (w.stray || decide (4 < got + min w.buf.length 4))
      (passFill io w) := by
  obtain ⟨hstate, hih, hch, hoff, hrem, hmax, hfv, hcp⟩ := hat.fields
  simp only [Stream.saved, hp] at hstate hih hch hoff hrem
  have hlt : got < 4 := by
    have hok := hwf.place
    rwa [hp] at hok
  have hlen : (w.buf.take (min w.buf.length 4)).length = min w.buf.length 4 := by
    rw [List.length_take]
    omega
  rw [passFill, if_pos (by omega), hoff]
  dsimp only
  generalize hxs : w.buf.take (min w.buf.length 4) = xs at hlen ⊢
  have hcopy : overwrite w.st.fillValue got xs = overwrite σ.fillValue got (xs.take (4 - got)) := by
    rw [hfv, ← hwf.fillValue]
    exact overwrite_take (by have hfour := hwf.fillValue; omega) xs
  rw [hcopy]
  split
  · rename_i hshort
    have hshort : w.offset + min w.buf.length 4 < 4 := hshort
    rw [List.take_of_length_le (by omega), feed_fill hwf.fillValue hp (by omega)]
    refine .on ⟨?_, hat.out⟩ (fun stop hstop => by cases hstop) rfl rfl
    simp only [Work.saved, Work.advance, Stream.saved]
    rw [hstate, hih, hch, hmax, hcp, hoff, hlen, hrem]
  · rename_i hfull
    have hfull : ¬ w.offset + min w.buf.length 4 < 4 := hfull
    rw [feed_fill_full hwf.fillValue hp hlt (by rw [List.length_take]; omega), Stream.unpackFill,
      finishFill]
    rcases writeFill_cases io { w.advance (min w.buf.length 4) with
        st := { w.st with fillValue := overwrite σ.fillValue got (xs.take (4 - got)) }
        stray := w.stray || decide (4 < got + min w.buf.length 4) } with
      ⟨events, hok, hflat⟩ | ⟨e, before, w', herr, hio, hpre, hst⟩
    · rw [hok]
      refine .on ⟨?_, ?_⟩ (fun stop hstop => by cases hstop) rfl rfl
      · simp only [Work.saved, Work.advance, Work.nextChunk, Stream.saved, Stream.nextChunk]
        rw [hih, hmax, hcp]
        rfl
      · refine hflat.trans ?_
        simp only [Work.advance]
        rw [hat.out, hrem]
    · rw [herr]
      refine .device before hio (hpre.trans ?_) hst
      simp only [Work.advance]
      rw [hat.out, hrem]

/-- A pass in the value of a fill chunk that does not reach beyond it. -/
theorem passFill_refines (io : Device) {σ : Stream} {w : Work} {c : List UInt8} {size got : Nat}
    (hat : At σ w) (hp : σ.place = .fill c size got) (hwf : σ.Wf)
    (hfit : got + min w.buf.length 4 ≤ 4) :
    Refined io (σ.feed (w.buf.take (min w.buf.length 4)))
      (w.buf.drop (min w.buf.length 4)) w.stray (passFill io w) := by
  have hpass := passFill_takes io hat hp hwf
  rw [decide_eq_false (by omega), Bool.or_false,
    List.take_of_length_le (by rw [List.length_take]; omega)] at hpass
  exact hpass

/-! ## A pass takes the stream along -/

theorem openImage_not_seam (σ : Stream) (h : List UInt8) : ¬ (σ.openImage h).Seam := by
  rintro ⟨size, got, hp, hlen, -⟩
  rw [Stream.openImage] at hp
  split at hp <;> cases hp
  exact absurd hlen (by decide)

theorem openChunk_not_seam (σ : Stream) (c : List UInt8) : ¬ (σ.openChunk c).Seam := by
  rintro ⟨size, got, hp, hlen, -⟩
  rw [Stream.openChunk] at hp
  split at hp
  · cases hp
  split at hp
  · cases hp
  dsimp only at hp
  split at hp <;> cases hp
  exact absurd hlen (by decide)

theorem openImage_not_fill (σ : Stream) (h buff : List UInt8) : ¬ (σ.openImage h).FillCross buff := by
  rintro ⟨c, size, got, hp, -⟩
  rw [Stream.openImage] at hp
  split at hp <;> cases hp

theorem openChunk_not_fill (σ : Stream) (c buff : List UInt8) :
    ¬ (σ.openChunk c).FillCross buff := by
  rintro ⟨c', size, got, hp, hpos, -⟩
  rw [Stream.openChunk] at hp
  split at hp
  · cases hp
  split at hp
  · cases hp
  dsimp only at hp
  split at hp <;> cases hp
  exact absurd hpos (Nat.lt_irrefl 0)

/-- After `n` bytes of the buffer the stream is at `σ'`, and the rest of the buffer
is as different for it as the whole was. -/
structure Reaches (σ : Stream) (buff : List UInt8) (σ' : Stream) (n : Nat) : Prop where
  le : n ≤ buff.length
  feed : ∀ xs, (n = 0 → xs ≠ []) → σ.feed (buff.take n ++ xs) = σ'.feed xs
  wf : σ'.Wf
  fresh : ¬ σ'.FillCross (buff.drop n)
  cross : σ.HeaderCross buff ↔ σ'.HeaderCross (buff.drop n)

/-- The usual case: bytes are used, and none of them is a seam. -/
theorem reaches_feed {σ : Stream} {buff : List UInt8} {n : Nat} (hwf : σ.Wf)
    (hle : n ≤ buff.length) (hfresh : ¬ (σ.feed (buff.take n)).FillCross (buff.drop n))
    (hseam : ∀ m, 0 < m → m ≤ n → m < buff.length → ¬ (σ.feed (buff.take m)).Seam) :
    Reaches σ buff (σ.feed (buff.take n)) n where
  le := hle
  feed := fun xs _ => feed_append σ _ xs
  wf := feed_wf _ hwf
  fresh := hfresh
  cross := by
    constructor
    · rintro ⟨pre, post, hpre, hpost, rfl, hs⟩
      have hprelen := List.length_pos_iff.mpr hpre
      have hpostlen := List.length_pos_iff.mpr hpost
      rcases Nat.lt_or_ge n pre.length with hlt | hge
      · refine ⟨pre.drop n, post, ?_, hpost, List.drop_append_of_le_length (by omega), ?_⟩
        · exact List.length_pos_iff.mp (by rw [List.length_drop]; omega)
        · rw [List.take_append_of_le_length (by omega), ← feed_append, List.take_append_drop]
          exact hs
      · refine absurd hs ?_
        have h := hseam pre.length hprelen hge (by rw [List.length_append]; omega)
        rwa [List.take_left] at h
    · rintro ⟨pre, post, hpre, hpost, hdrop, hs⟩
      refine ⟨buff.take n ++ pre, post, ?_, hpost, ?_, ?_⟩
      · exact List.append_ne_nil_of_right_ne_nil _ hpre
      · rw [List.append_assoc, ← hdrop, List.take_append_drop]
      · rw [feed_append]
        exact hs

/-- The other case: no byte is used, and the next one means the same to both. -/
theorem reaches_zero {σ σ' : Stream} {buff : List UInt8} (hwf : σ'.Wf)
    (hfeed : ∀ xs, xs ≠ [] → σ.feed xs = σ'.feed xs) (hfresh : ¬ σ'.FillCross buff) :
    Reaches σ buff σ' 0 where
  le := Nat.zero_le _
  feed := fun xs hxs => hfeed xs (hxs rfl)
  wf := hwf
  fresh := hfresh
  cross := by
    constructor
    · rintro ⟨pre, post, hpre, hpost, rfl, hs⟩
      exact ⟨pre, post, hpre, hpost, rfl, by rwa [← hfeed pre hpre]⟩
    · rintro ⟨pre, post, hpre, hpost, hdrop, hs⟩
      exact ⟨pre, post, hpre, hpost, hdrop, by rwa [hfeed pre hpre]⟩

/-- What a pass does: it leaves an array, or it takes the stream along. -/
def PassSpec (io : Device) (σ : Stream) (w : Work) : Prop :=
  (σ.HeaderCross w.buf ∧ pass io w = .error (.corrupted, w)) ∨
  ∃ σ' n, Reaches σ w.buf σ' n ∧
    (Refined io σ' (w.buf.drop n) w.stray (pass io w) ∨
      ∃ w', pass io w = .ok w' ∧ w'.state = .dontCare ∧
        Refined io σ' (w.buf.drop n) w.stray (passDontCare io w'))

theorem pass_imageHeader (io : Device) {σ : Stream} {w : Work} {got : List UInt8} (hat : At σ w)
    (hwf : σ.Wf) (hp : σ.place = .imageHeader got) : PassSpec io σ w := by
  have hlt : got.length < sizeofImageHeader := by
    have hok := hwf.place
    rwa [hp] at hok
  obtain ⟨hstate, -, -, hoff, hrem, -⟩ := hat.fields
  simp only [Stream.saved, hp] at hstate hoff hrem
  have hplace : ∀ m, m ≤ min w.buf.length w.remaining →
      σ.feed (w.buf.take m) = { σ with place := .imageHeader (got ++ w.buf.take m) } ∨
      σ.feed (w.buf.take m) = σ.openImage (got ++ w.buf.take m) := by
    intro m hm
    have hlen : (w.buf.take m).length = m := by
      rw [List.length_take]
      omega
    rcases Nat.lt_or_ge (got.length + m) sizeofImageHeader with hshort | hfull
    · exact .inl (feed_imageHeader hp (by omega))
    · exact .inr (feed_imageHeader_full hp hlt (by omega))
  refine .inr ⟨_, min w.buf.length w.remaining, reaches_feed hwf (by omega) ?_ ?_,
    .inl ?_⟩
  · rcases hplace _ (Nat.le_refl _) with h | h <;> rw [h]
    · rintro ⟨c, size, got', hp', -⟩
      cases hp'
    · exact openImage_not_fill _ _ _
  · intro m _ hm _
    rcases hplace m hm with h | h <;> rw [h]
    · rintro ⟨size, got', hp', -⟩
      cases hp'
    · exact openImage_not_seam _ _
  · rw [pass, hstate]
    exact passImageHeader_refines io hat hp hwf

/-- The pass over a chunk header, when the array is left and when it is not. -/
theorem pass_chunkHeader (io : Device) {σ : Stream} {w : Work} {size : Nat} {got : List UInt8}
    (hat : At σ w) (hwf : σ.Wf) (hp : σ.place = .chunkHeader size got) (hlt : got.length < size) :
    PassSpec io σ w := by
  obtain ⟨hstate, -, -, hoff, hrem, -⟩ := hat.fields
  simp only [Stream.saved, hp] at hstate hoff hrem
  have hshort : ∀ m, m ≤ w.buf.length → got.length + m < size →
      σ.feed (w.buf.take m) = { σ with place := .chunkHeader size (got ++ w.buf.take m) } := by
    intro m hm hsize
    refine feed_chunkHeader hp ?_
    rw [List.length_take]
    omega
  have hpass : pass io w = passChunkHeader w := by rw [pass, hstate]
  rcases Classical.em (w.offset < sizeofChunkHeader ∧
    sizeofChunkHeader < w.offset + min w.buf.length w.remaining) with hout | hfit
  · -- the twelfth byte is inside the buffer
    have hm : sizeofChunkHeader - got.length < w.buf.length := by omega
    refine .inl ⟨⟨w.buf.take (sizeofChunkHeader - got.length),
      w.buf.drop (sizeofChunkHeader - got.length), ?_, ?_, ?_, ?_⟩, ?_⟩
    · exact List.length_pos_iff.mp (by rw [List.length_take]; omega)
    · exact List.length_pos_iff.mp (by rw [List.length_drop]; omega)
    · rw [List.take_append_drop]
    · refine ⟨size, _, by rw [hshort _ (by omega) (by omega)], ?_, by omega⟩
      rw [List.length_append, List.length_take]
      omega
    · rw [hpass, passChunkHeader]
      exact if_pos hout
  have hplace : ∀ m, m ≤ min w.buf.length w.remaining →
      (got.length + m < size ∧
        σ.feed (w.buf.take m) = { σ with place := .chunkHeader size (got ++ w.buf.take m) }) ∨
      ∃ c, σ.feed (w.buf.take m) = σ.openChunk c := by
    intro m hm
    rcases Nat.lt_or_ge (got.length + m) size with hlt' | hge
    · exact .inl ⟨hlt', hshort m (by omega) hlt'⟩
    · refine .inr ⟨_, feed_chunkHeader_full hp hlt ?_⟩
      rw [List.length_take]
      omega
  refine .inr ⟨_, min w.buf.length w.remaining, reaches_feed hwf (by omega) ?_ ?_, ?_⟩
  · rcases hplace _ (Nat.le_refl _) with ⟨-, h⟩ | ⟨c, h⟩ <;> rw [h]
    · rintro ⟨c, size', got', hp', -⟩
      cases hp'
    · exact openChunk_not_fill _ _ _
  · intro m hpos hm hbuf
    rcases hplace m hm with ⟨hlt', h⟩ | ⟨c, h⟩ <;> rw [h]
    · rintro ⟨size', got', hp', hlen, -⟩
      cases hp'
      rw [List.length_append, List.length_take] at hlen
      omega
    · exact openChunk_not_seam _ _
  · rw [hpass]
    exact passChunkHeader_refines io hat hp hlt hfit

/-- A chunk header of no bytes is taken for one of zeros. -/
theorem pass_noHeader (io : Device) {σ : Stream} {w : Work} (hat : At σ w) (hwf : σ.Wf)
    (hp : σ.place = .chunkHeader 0 []) : PassSpec io σ w := by
  obtain ⟨hstate, -, hch, hoff, hrem, -⟩ := hat.fields
  simp only [Stream.saved, hp] at hstate hch hoff hrem
  have hzeros : w.st.chunkHeader = List.replicate sizeofChunkHeader 0 := hch
  have hinvalid : validateChunkHeader w.st.imageHeader (List.replicate sizeofChunkHeader 0) =
      some .invalid := by
    have htype : chunkType (List.replicate sizeofChunkHeader 0) = 0 := by decide
    rw [validateChunkHeader, htype]
    rfl
  have hmin : min w.buf.length w.remaining = 0 := by rw [hrem]; exact Nat.min_zero _
  obtain ⟨w', hpass, hevents, hstray⟩ : ∃ w', pass io w = .error (.fail .invalid, w') ∧
      w'.events = w.events ∧ w'.stray = w.stray := by
    rw [pass, hstate]
    show ∃ w', passChunkHeader w = _ ∧ _
    rw [passChunkHeader, hmin, if_neg (by rw [hoff]; decide), hoff, List.take_zero, overwrite_nil,
      hzeros, ite_self]
    dsimp only
    rw [if_neg (by rw [hrem]; decide), Work.openChunk]
    dsimp only [Work.advance]
    rw [hinvalid]
    exact ⟨_, rfl, rfl, rfl⟩
  refine .inr ⟨σ.stop (.fail .invalid), 0, reaches_zero ⟨hwf.fillValue, trivial⟩ ?_ ?_, ?_⟩
  · intro xs hxs
    cases xs with
    | nil => exact absurd rfl hxs
    | cons b xs =>
        have hnext : σ.next b = σ.stop (.fail .invalid) := by
          rw [Stream.next, hp]
          rfl
        rw [feed_cons, hnext, feed_ended rfl, feed_ended rfl]
  · rintro ⟨c, size, got, hp', -⟩
    cases hp'
  · rw [hpass]
    refine .inl (.ended rfl ?_ hstray)
    rw [hevents]
    exact hat.out

/-- The stream ends in a checksum chunk, which the loop never leaves. -/
theorem pass_crc (io : Device) {σ : Stream} {w : Work} {c : List UInt8} {size : Nat}
    (hat : At σ w) (hwf : σ.Wf) (hp : σ.place = .crc c size) : PassSpec io σ w := by
  obtain ⟨hstate, -⟩ := hat.fields
  simp only [Stream.saved, hp] at hstate
  refine .inr ⟨σ.stop .hangs, 0, reaches_zero ⟨hwf.fillValue, trivial⟩ ?_ ?_, ?_⟩
  · intro xs hxs
    cases xs with
    | nil => exact absurd rfl hxs
    | cons b xs =>
        have hnext : σ.next b = σ.stop .hangs := by rw [Stream.next, hp]
        rw [feed_cons, hnext, feed_ended rfl, feed_ended rfl]
  · rintro ⟨c', size', got, hp', -⟩
    cases hp'
  · rw [pass, hstate]
    exact .inl (.ended rfl hat.out rfl)

theorem pass_raw (io : Device) {σ : Stream} {w : Work} {c : List UInt8} {done left : Nat}
    (hat : At σ w) (hwf : σ.Wf) (hp : σ.place = .raw c done left) : PassSpec io σ w := by
  obtain ⟨hstate, -, -, -, hrem, -⟩ := hat.fields
  simp only [Stream.saved, hp] at hstate hrem
  have hpass : pass io w = passRaw io w := by rw [pass, hstate]
  rcases Nat.eq_zero_or_pos left with rfl | hpos
  · refine .inr ⟨σ.nextChunk, 0, reaches_zero (nextChunk_wf hwf.fillValue) ?_ ?_, .inl ?_⟩
    · intro xs hxs
      exact feed_raw_zero hp hxs
    · rintro ⟨c', size', got, hp', -⟩
      cases hp'
    · rw [hpass]
      exact passRaw_zero_refines io hat hp
  · have hplace : ∀ m, m ≤ min w.buf.length w.remaining →
        (σ.feed (w.buf.take m)).place = .raw c (done + m) (left - m) ∨
        (σ.feed (w.buf.take m)).place = .chunkHeader sizeofChunkHeader [] := by
      intro m hm
      have hlen : (w.buf.take m).length = m := by
        rw [List.length_take]
        omega
      rcases Nat.lt_or_ge m left with hlt | hge
      · exact .inl (by rw [feed_raw hp (by omega), hlen])
      · exact .inr (by rw [feed_raw_full hp hpos (by omega)]; rfl)
    refine .inr ⟨_, min w.buf.length w.remaining, reaches_feed hwf (by omega) ?_ ?_, .inl ?_⟩
    · rintro ⟨c', size', got, hp', -⟩
      rcases hplace _ (Nat.le_refl _) with h | h <;> rw [h] at hp' <;> cases hp'
    · rintro m _ hm _ ⟨size', got, hp', hlen, -⟩
      rcases hplace m hm with h | h <;> rw [h] at hp' <;> cases hp'
      exact absurd hlen (by decide)
    · rw [hpass]
      exact passRaw_refines io hat hp hpos

theorem pass_fill (io : Device) {σ : Stream} {w : Work} {c : List UInt8} {size got : Nat}
    (hat : At σ w) (hwf : σ.Wf) (hp : σ.place = .fill c size got)
    (hfit : ¬ σ.FillCross w.buf) : PassSpec io σ w := by
  have hlt : got < 4 := by
    have hok := hwf.place
    rwa [hp] at hok
  obtain ⟨hstate, -⟩ := hat.fields
  simp only [Stream.saved, hp] at hstate
  have hroom : got + min w.buf.length 4 ≤ 4 := by
    rcases Nat.eq_zero_or_pos got with rfl | hpos
    · omega
    · have hnot : ¬ 4 < got + w.buf.length := fun h => hfit ⟨c, size, got, hp, hpos, h⟩
      omega
  have hplace : ∀ m, m ≤ min w.buf.length 4 →
      got + m < 4 ∧ (σ.feed (w.buf.take m)).place = .fill c size (got + m) ∨
      (σ.feed (w.buf.take m)).place = .chunkHeader sizeofChunkHeader [] := by
    intro m hm
    have hlen : (w.buf.take m).length = m := by
      rw [List.length_take]
      omega
    rcases Nat.lt_or_ge (got + m) 4 with hshort | hge
    · exact .inl ⟨hshort, by rw [feed_fill hwf.fillValue hp (by omega), hlen]⟩
    · exact .inr (by rw [feed_fill_full hwf.fillValue hp hlt (by omega)]; rfl)
  refine .inr ⟨_, min w.buf.length 4, reaches_feed hwf (by omega) ?_ ?_, .inl ?_⟩
  · rintro ⟨c', size', got', hp', -, hcross⟩
    rcases hplace _ (Nat.le_refl _) with ⟨hshort, h⟩ | h <;> rw [h] at hp' <;> cases hp'
    rw [List.length_drop] at hcross
    omega
  · rintro m _ hm _ ⟨size', got', hp', hlen, -⟩
    rcases hplace m hm with ⟨-, h⟩ | h <;> rw [h] at hp' <;> cases hp'
    exact absurd hlen (by decide)
  · rw [pass, hstate]
    exact passFill_refines io hat hp hwf hroom

/-- Every pass that does not begin inside a fill value it goes beyond. -/
theorem pass_spec (io : Device) {σ : Stream} {w : Work} (hat : At σ w) (hwf : σ.Wf)
    (hlive : σ.Live) (hfit : ¬ σ.FillCross w.buf) : PassSpec io σ w := by
  have hok := hwf.place
  cases hp : σ.place with
  | imageHeader got => exact pass_imageHeader io hat hwf hp
  | chunkHeader size got =>
      rw [hp] at hok
      rcases hok with hlt | ⟨rfl, rfl⟩
      · exact pass_chunkHeader io hat hwf hp hlt
      · exact pass_noHeader io hat hwf hp
  | raw c done left => exact pass_raw io hat hwf hp
  | fill c size got => exact pass_fill io hat hwf hp hfit
  | crc c size => exact pass_crc io hat hwf hp
  | ended stop => exact absurd hp (hlive stop)

end TX2SecureUart.Sparse
