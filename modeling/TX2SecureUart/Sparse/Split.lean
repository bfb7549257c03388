/-
# `Sparse.Split` — an image in one buffer and in many

An image unpacks to the same however it is cut into buffers, unless a buffer
begins inside a fill value and reaches beyond it: as many bytes as the earlier
buffers held of the value are then lost from the next chunk header.  An image
that is too large is refused at once, and a cut inside its header shows in the
state.
-/
import TX2SecureUart.Sparse.Bounds

namespace TX2SecureUart.Sparse

/-- A device that never fails. -/
def willing : Device := fun _ => none

theorem willing_eq (events : List Event) : willing events = none := rfl

/-! ## Buffers of an image -/

/-- No buffer begins inside a fill value and reaches beyond it. -/
def FillsWhole (σ : Stream) : List (List UInt8) → Prop
  | [] => True
  | buff :: rest => ¬ σ.FillCross buff ∧ FillsWhole (σ.feed buff) rest

/-- Behind the image header, chunk headers have at most twelve bytes. -/
inductive Place.Short : Place → Prop
  | chunkHeader {size : Nat} (got : List UInt8) : size ≤ sizeofChunkHeader →
      Place.Short (.chunkHeader size got)
  | raw (c : List UInt8) (done left : Nat) : Place.Short (.raw c done left)
  | fill (c : List UInt8) (size got : Nat) : Place.Short (.fill c size got)
  | crc (c : List UInt8) (size : Nat) : Place.Short (.crc c size)
  | ended (stop : Stop) : Place.Short (.ended stop)

theorem openChunk_short (σ : Stream) (c : List UInt8) : (σ.openChunk c).place.Short := by
  rw [Stream.openChunk]
  split
  · exact .ended _
  · split
    · exact .ended _
    · dsimp only
      split
      · exact .raw _ _ _
      · exact .fill _ _ _
      · exact .chunkHeader [] (Nat.le_refl _)
      · exact .crc _ _

theorem chunkByte_short {σ : Stream} {size : Nat} (got : List UInt8) (b : UInt8)
    (hsize : size ≤ sizeofChunkHeader) : (σ.chunkByte size got b).place.Short := by
  rw [Stream.chunkByte]
  split
  · exact .ended _
  · split
    · exact .chunkHeader _ hsize
    · exact openChunk_short σ _

theorem next_short {σ : Stream} (b : UInt8) (h : σ.place.Short) : (σ.next b).place.Short := by
  rw [Stream.next]
  cases hp : σ.place with
  | imageHeader got =>
      rw [hp] at h
      cases h
  | chunkHeader size got =>
      rw [hp] at h
      cases h with
      | chunkHeader _ hsize => exact chunkByte_short got b hsize
  | raw c done left =>
      dsimp only
      split
      · exact chunkByte_short [] b (Nat.le_refl _)
      · split
        · exact .chunkHeader [] (Nat.le_refl _)
        · exact .raw _ _ _
  | fill c size got =>
      dsimp only
      split
      · exact .fill _ _ _
      · exact .chunkHeader [] (Nat.le_refl _)
  | crc c size => exact .ended _
  | ended stop => exact h

theorem feed_short {σ : Stream} (xs : List UInt8) (h : σ.place.Short) : (σ.feed xs).place.Short := by
  induction xs generalizing σ with
  | nil => exact h
  | cons b xs ih => exact ih (next_short b h)

theorem short_not_seam {σ : Stream} (h : σ.place.Short) : ¬ σ.Seam := by
  rintro ⟨size, got, hp, -, hlt⟩
  rw [hp] at h
  cases h with
  | chunkHeader _ hsize => exact absurd hlt (Nat.not_lt.mpr hsize)

theorem ready_short {σ : Stream} (h : σ.Ready) : σ.place.Short := by
  rcases h with hp | ⟨c, done, hp⟩ <;> rw [hp]
  · exact .chunkHeader [] (Nat.le_refl _)
  · exact .raw _ _ _

theorem header_short (img : Image) (max : Nat) :
    ((Stream.init max).feed img.header.bytes).place.Short := by
  rcases Nat.lt_or_ge max (img.blkSz * img.totalBlks) with hlarge | hfits
  · rw [feed_tooLarge img hlarge]
    exact .ended _
  · exact ready_short (feed_headerBytes img hfits).1.ready

/-- A beginning of an image ends inside the image header or behind it. -/
theorem prefix_cases (img : Image) {xs ys : List UInt8} (h : xs ++ ys = img.bytes) :
    xs.length < sizeofImageHeader ∨
      ∃ zs, xs = img.header.bytes ++ zs ∧ zs ++ ys = img.chunks.flatMap Chunk.bytes := by
  rcases Nat.lt_or_ge xs.length sizeofImageHeader with hlt | hge
  · exact .inl hlt
  · have hlen := img.header.length_bytes
    rw [Image.bytes] at h
    obtain ⟨zs, hzs, hrest⟩ | ⟨zs, hzs, hrest⟩ := List.append_eq_append_iff.mp h
    · have hnil : zs = [] := by
        have hlens := congrArg List.length hzs
        rw [List.length_append] at hlens
        exact List.length_eq_zero_iff.mp (by omega)
      subst hnil
      refine .inr ⟨[], ?_, ?_⟩
      · rw [hzs, List.append_nil, List.append_nil]
      · rw [hrest, List.nil_append, List.nil_append]
    · exact .inr ⟨zs, hzs, hrest.symm⟩

/-- The stream is at no seam anywhere in an image. -/
theorem image_not_seam (img : Image) (max : Nat) {xs ys : List UInt8} (h : xs ++ ys = img.bytes) :
    ¬ ((Stream.init max).feed xs).Seam := by
  rcases prefix_cases img h with hlt | ⟨zs, rfl, -⟩
  · have hp : (Stream.init max).place = .imageHeader [] := rfl
    rw [feed_imageHeader hp (by simpa using hlt)]
    rintro ⟨size, got, hp, -⟩
    cases hp
  · rw [feed_append]
    exact short_not_seam (feed_short zs (header_short img max))

theorem image_fits (img : Image) (max : Nat) {xs ys buff : List UInt8}
    (h : xs ++ buff ++ ys = img.bytes) (hfill : ¬ ((Stream.init max).feed xs).FillCross buff) :
    ((Stream.init max).feed xs).Fits buff := by
  refine ⟨hfill, ?_⟩
  rintro ⟨pre, post, -, -, rfl, hseam⟩
  rw [← feed_append] at hseam
  have hbytes : xs ++ pre ++ (post ++ ys) = img.bytes := by
    rw [← h]
    simp only [List.append_assoc]
  exact image_not_seam img max hbytes hseam

/-- Buffers that begin an image fit when they are not cut inside fill values. -/
theorem image_allFit (img : Image) (max : Nat) {xs ys : List UInt8} {buffers : List (List UInt8)}
    (h : xs ++ buffers.flatten ++ ys = img.bytes)
    (hfills : FillsWhole ((Stream.init max).feed xs) buffers) :
    AllFit ((Stream.init max).feed xs) buffers := by
  induction buffers generalizing xs with
  | nil => trivial
  | cons buff rest ih =>
      obtain ⟨hfill, hrest⟩ := hfills
      rw [List.flatten_cons, ← List.append_assoc] at h
      have hbuff : xs ++ buff ++ (rest.flatten ++ ys) = img.bytes := by
        rw [← h]
        simp only [List.append_assoc]
      refine ⟨image_fits img max hbuff hfill, ?_⟩
      rw [← feed_append] at hrest ⊢
      exact ih h hrest

/-- The same from the first byte on. -/
theorem begins_allFit (img : Image) (max : Nat) {buffers : List (List UInt8)} {ys : List UInt8}
    (h : buffers.flatten ++ ys = img.bytes) (hfills : FillsWhole (.init max) buffers) :
    AllFit (.init max) buffers := by
  rw [← feed_nil (Stream.init max)] at hfills ⊢
  exact image_allFit img max h hfills

/-! ## The two ways to unpack an image -/

/-- The two come to the same.  A call that does not return leaves no state. -/
structure Same (a b : Outcome) : Prop where
  result : a.result = b.result
  out : flat a.events = flat b.events
  st : a.result ≠ .error .hangs → a.st = b.st

/-- Where the stream is behind an image. -/
theorem feed_image (img : Image) {max : Nat} (h : img.blkSz * img.totalBlks ≤ max) :
    ((Stream.init max).feed img.bytes).Ready ∨
      ((Stream.init max).feed img.bytes).place = .ended .hangs := by
  rw [Image.bytes, feed_append]
  rcases feed_chunks img.chunks (n := 0) (feed_headerBytes img h).1 with hbefore | hp
  · exact .inl hbefore.ready
  · exact .inr hp

theorem fillsWhole_one (max : Nat) (buff : List UInt8) : FillsWhole (.init max) [buff] := by
  refine ⟨?_, trivial⟩
  rintro ⟨c, size, got, hp, -⟩
  cases hp

theorem image_ne_nil (img : Image) : img.bytes ≠ [] := by
  intro hnil
  have hlen := congrArg List.length hnil
  rw [Image.bytes, List.length_append, img.header.length_bytes] at hlen
  exact absurd hlen (by rw [sizeofImageHeader]; simp)

/-- The image in one call. -/
def whole (img : Image) (max : Nat) : Outcome :=
  unsparse willing (initUnsparseState max) img.bytes []

/-- The image in one call for each buffer. -/
def inBuffers (max : Nat) (buffers : List (List UInt8)) : Outcome :=
  download willing (initUnsparseState max) [] buffers

theorem whole_refines (img : Image) (max : Nat) :
    CallRefined willing ((Stream.init max).feed img.bytes) (whole img max) := by
  have hbytes : [img.bytes].flatten ++ [] = img.bytes := by simp
  have hfit := begins_allFit img max hbytes (fillsWhole_one max img.bytes)
  rw [whole, ← saved_init]
  exact unsparse_refines willing rfl (wf_init max) (init_live max) hfit.1 (image_ne_nil img)

/-- The image in buffers that are not cut inside fill values. -/
theorem split_refines (img : Image) (max : Nat) {buffers : List (List UInt8)}
    (hne : ∀ buff ∈ buffers, buff ≠ []) (hbytes : buffers.flatten = img.bytes)
    (hfills : FillsWhole (.init max) buffers) :
    CallRefined willing ((Stream.init max).feed img.bytes) (inBuffers max buffers) := by
  have hfit := begins_allFit img max ((List.append_nil _).trans hbytes) hfills
  rw [inBuffers, ← saved_init, ← hbytes]
  exact download_refines willing rfl (wf_init max) (init_live max) hne hfit

theorem CallRefined.stray {io : Device} {σ : Stream} {out : Outcome} (h : CallRefined io σ out) :
    out.stray = false := by
  cases h with
  | on _ _ _ _ hstray => exact hstray
  | ended _ _ _ _ hstray => exact hstray
  | device _ _ _ _ _ hstray => exact hstray

/-- Two downloads that take the stream to the same place come to the same, unless
the stream ends there with an error. -/
theorem same_of_refined {σ : Stream} {a b : Outcome} (ha : CallRefined willing σ a)
    (hb : CallRefined willing σ b) (hok : σ.Ready ∨ σ.place = .ended .hangs) : Same a b := by
  have hlive : σ.Ready → ∀ stop, σ.place ≠ .ended stop := by
    intro hready stop hstop
    rcases hready with hp | ⟨c, done, hp⟩ <;> rw [hp] at hstop <;> cases hstop
  rcases hok with hready | hp
  · cases ha with
    | ended stop _ hstop => exact absurd hstop (hlive hready stop)
    | device e events _ hio => cases hio
    | on hres hst hflat =>
        cases hb with
        | ended stop _ hstop => exact absurd hstop (hlive hready stop)
        | device e events _ hio => cases hio
        | on hres' hst' hflat' =>
            exact ⟨hres.trans hres'.symm, hflat.trans hflat'.symm, fun _ => hst.trans hst'.symm⟩
  · cases ha with
    | on _ _ _ hlive => exact absurd hp (hlive _)
    | device e events _ hio => cases hio
    | ended stop hres hstop hflat =>
        rw [hp] at hstop
        cases hstop
        cases hb with
        | on _ _ _ hlive => exact absurd hp (hlive _)
        | device e events _ hio => cases hio
        | ended stop hres' hstop hflat' =>
            rw [hp] at hstop
            cases hstop
            exact ⟨hres.trans hres'.symm, hflat.trans hflat'.symm, fun h => absurd hres h⟩

/-! ## A cut inside a fill value -/

/-- A chunk whose value has been received in part has as much of it to come. -/
theorem fill_within {blk n : Nat} {σ : Stream} (h : σ.Before blk (n + 1)) (c : Chunk blk)
    {xs zs c' : List UInt8} {size got : Nat} (hsplit : xs ++ zs = c.bytes) (hmore : zs ≠ [])
    (hp : (σ.feed xs).place = .fill c' size got) : zs.length = 4 - got := by
  have hlen := c.header.length_bytes
  rcases Nat.lt_or_ge xs.length sizeofChunkHeader with hlt | hge
  · rcases eq_or_ne xs [] with rfl | hne
    · rcases h.ready with hready | ⟨c, done, hready⟩ <;> rw [feed_nil, hready] at hp <;> cases hp
    · have hnext : σ.nextChunk.place = .chunkHeader sizeofChunkHeader [] := rfl
      rw [ready_feed h.ready hne, feed_chunkHeader hnext (by simpa using hlt)] at hp
      cases hp
  · rw [Chunk.bytes] at hsplit
    obtain ⟨ys, hys, hbody⟩ : ∃ ys, xs = c.header.bytes ++ ys ∧ ys ++ zs = c.body.bytes := by
      have htake := congrArg (List.take sizeofChunkHeader) hsplit
      have hdrop := congrArg (List.drop sizeofChunkHeader) hsplit
      rw [List.take_append_of_le_length hge, List.take_left' hlen] at htake
      rw [List.drop_append_of_le_length hge, List.drop_left' hlen] at hdrop
      exact ⟨xs.drop sizeofChunkHeader, by rw [← htake, List.take_append_drop], hdrop⟩
    have hlens := congrArg List.length hbody
    have hpos := List.length_pos_iff.mpr hmore
    have hok := c.ok
    rw [List.length_append] at hlens
    rw [hys, feed_append, feed_header h c, Stream.opened] at hp
    cases hb : c.body with
    | raw data =>
        rw [hb] at hp hok hlens
        have hsize : data.length = c.chunkSz * blk := hok
        dsimp only [Body.bytes] at hlens
        dsimp only at hp
        rw [feed_raw rfl (by omega)] at hp
        cases hp
    | fill value =>
        rw [hb] at hp hok hlens
        have hsize : value.length = 4 := hok
        dsimp only [Body.bytes] at hlens
        dsimp only at hp
        rw [feed_fill (by exact h.fillValue) rfl (by omega)] at hp
        cases hp
        omega
    | dontCare =>
        rw [hb] at hlens
        dsimp only [Body.bytes, List.length_nil] at hlens
        omega
    | crc value =>
        rw [hb] at hp
        cases ys with
        | nil => cases hp
        | cons b ys =>
            rw [feed_cons, feed_ended rfl] at hp
            cases hp

/-- Behind a value that has been received in part come the rest of it and whole
chunks. -/
theorem fill_inside {blk : Nat} (cs : List (Chunk blk)) {n : Nat} {σ : Stream}
    (h : σ.Before blk (cs.length + n)) {xs ys c' : List UInt8} {size got : Nat}
    (hsplit : xs ++ ys = cs.flatMap Chunk.bytes) (hp : (σ.feed xs).place = .fill c' size got) :
    ∃ (mid : List UInt8) (ds : List (Chunk blk)),
      ys = mid ++ ds.flatMap Chunk.bytes ∧ mid.length = 4 - got ∧ ∀ d ∈ ds, d ∈ cs := by
  induction cs generalizing σ xs with
  | nil =>
      obtain ⟨rfl, -⟩ := List.append_eq_nil_iff.mp hsplit
      rcases h.ready with hready | ⟨c, done, hready⟩ <;> rw [feed_nil, hready] at hp <;> cases hp
  | cons c cs ih =>
      rw [List.length_cons, Nat.add_right_comm] at h
      rw [List.flatMap_cons] at hsplit
      rcases List.append_eq_append_iff.mp hsplit with ⟨zs, hzs, hys⟩ | ⟨xs', hxs, hrest⟩
      · rcases eq_or_ne zs [] with rfl | hne
        · -- the chunk ends where `xs` does
          rw [List.append_nil] at hzs
          rcases Classical.em (c.body.chunkType = chunkTypeCrc) with hcrc | hcrc
          · have hend := feed_crc h c hcrc
            rw [hzs, hp] at hend
            cases hend
          · have hready := (feed_chunk h c hcrc).1.ready
            rcases hready with hready | ⟨c, done, hready⟩ <;> rw [hzs, hp] at hready <;>
              cases hready
        · refine ⟨zs, cs, hys, fill_within h c hzs.symm hne hp, ?_⟩
          intro d hd
          exact List.mem_cons_of_mem c hd
      · rw [hxs, feed_append] at hp
        rcases Classical.em (c.body.chunkType = chunkTypeCrc) with hcrc | hcrc
        · rw [feed_ended (feed_crc h c hcrc), feed_crc h c hcrc] at hp
          cases hp
        · obtain ⟨mid, ds, hys, hmid, hmem⟩ := ih (feed_chunk h c hcrc).1 hrest.symm hp
          refine ⟨mid, ds, hys, hmid, ?_⟩
          intro d hd
          exact List.mem_cons_of_mem c (hmem d hd)

/-- A call on a buffer that begins inside a fill value and reaches beyond it takes
the stream to the end of the value, and goes on behind the four bytes it has
copied. -/
theorem unsparse_loses {σ : Stream} {buff c : List UInt8} {size got : Nat} {events : List Event}
    (hout : flat events = σ.out) (hwf : σ.Wf) (hp : σ.place = .fill c size got) (hpos : 0 < got)
    (hbeyond : 4 < got + buff.length)
    (hseam : ¬ (σ.feed (buff.take (4 - got))).HeaderCross (buff.drop 4)) :
    (unsparse willing σ.saved buff events).stray = true ∧
      CallRefined willing ((σ.feed (buff.take (4 - got))).feed (buff.drop 4))
        { unsparse willing σ.saved buff events with stray := false } := by
  have hlt : got < 4 := by
    have hok := hwf.place
    rwa [hp] at hok
  have hne : buff ≠ [] := List.length_pos_iff.mp (by omega)
  have hat := at_startWork buff hout
  have hstate : (startWork σ.saved buff events).state = .fill := by
    show σ.saved.state = .fill
    rw [Stream.saved, hp]
  have hplace : (σ.feed (buff.take (4 - got))).place = .chunkHeader sizeofChunkHeader [] := by
    rw [feed_fill_full hwf.fillValue hp hlt (by rw [List.length_take]; omega)]
    rfl
  have hpass := passFill_takes willing hat hp hwf
  have htake : ((buff.take (min buff.length 4)).take (4 - got)) = buff.take (4 - got) := by
    rw [List.take_take]
    congr 1
    omega
  have hdrop : buff.drop (min buff.length 4) = buff.drop 4 := by
    rcases Nat.le_total buff.length 4 with hle | hge
    · rw [List.drop_of_length_le (by omega), List.drop_of_length_le (by omega)]
    · rw [Nat.min_eq_right hge]
  change Refined willing (σ.feed ((buff.take (min buff.length 4)).take (4 - got)))
    (buff.drop (min buff.length 4)) (false || decide (4 < got + min buff.length 4))
    (passFill willing (startWork σ.saved buff events)) at hpass
  rw [htake, hdrop, Bool.false_or, decide_eq_true (by omega)] at hpass
  rw [unsparse_eq hne, loop_step (.inl hne), pass, hstate]
  dsimp only
  cases hres : passFill willing (startWork σ.saved buff events) with
  | error r =>
      rw [hres] at hpass
      cases hpass with
      | ended hend =>
          rw [hplace] at hend
          cases hend
      | device events hio => cases hio
  | ok w =>
      rw [hres] at hpass
      cases hpass with
      | on hat' hlive hbuf hstray =>
          have hfresh : ¬ (σ.feed (buff.take (4 - got))).FillCross w.buf := by
            rintro ⟨c', size', got', hp', -⟩
            rw [hplace] at hp'
            cases hp'
          have hloop := loop_refines willing hat' (feed_wf _ hwf) hlive hfresh (hbuf ▸ hseam)
          rw [hbuf, hstray] at hloop
          exact hloop.call

/-- The buffers behind one that is cut inside a fill value. -/
theorem download_loses {σ : Stream} {buff c : List UInt8} {rest : List (List UInt8)}
    {size got : Nat} {events : List Event} (hout : flat events = σ.out) (hwf : σ.Wf)
    (hne : ∀ b ∈ rest, b ≠ []) (hp : σ.place = .fill c size got) (hpos : 0 < got)
    (hbeyond : 4 < got + buff.length)
    (hseam : ¬ (σ.feed (buff.take (4 - got))).HeaderCross (buff.drop 4))
    (hfit : AllFit ((σ.feed (buff.take (4 - got))).feed (buff.drop 4)) rest) :
    CallRefined willing (((σ.feed (buff.take (4 - got))).feed (buff.drop 4)).feed rest.flatten)
      { download willing σ.saved events (buff :: rest) with stray := false } := by
  obtain ⟨-, hcall⟩ := unsparse_loses hout hwf hp hpos hbeyond hseam
  rw [download]
  cases hcall with
  | device e evs _ hio => cases hio
  | ended stop hres hplace hflat =>
      have hres : (unsparse willing σ.saved buff events).result = .error stop := hres
      rw [hres, feed_ended hplace]
      exact .ended stop hres hplace hflat rfl
  | on hres hst hflat hlive =>
      have hres : (unsparse willing σ.saved buff events).result = .ok () := hres
      have hst : (unsparse willing σ.saved buff events).st = Stream.saved _ := hst
      rw [hres, hst]
      have hlater := download_refines willing hflat (feed_wf _ (feed_wf _ hwf)) hlive hne hfit
      cases hlater with
      | on h₁ h₂ h₃ h₄ => exact .on h₁ h₂ h₃ h₄ rfl
      | ended stop h₁ h₂ h₃ => exact .ended stop h₁ h₂ h₃ rfl
      | device e evs _ hio => cases hio

/-- A whole download with such a buffer. -/
theorem download_lost {σ : Stream} {pre rest : List (List UInt8)} {buff c : List UInt8}
    {size got : Nat} {events : List Event} (hout : flat events = σ.out) (hwf : σ.Wf)
    (hlive : σ.Live) (hnepre : ∀ b ∈ pre, b ≠ []) (hne : ∀ b ∈ rest, b ≠ []) (hfits : AllFit σ pre)
    (hp : (σ.feed pre.flatten).place = .fill c size got) (hpos : 0 < got)
    (hbeyond : 4 < got + buff.length)
    (hseam : ¬ ((σ.feed pre.flatten).feed (buff.take (4 - got))).HeaderCross (buff.drop 4))
    (hfit : AllFit (((σ.feed pre.flatten).feed (buff.take (4 - got))).feed (buff.drop 4)) rest) :
    CallRefined willing
      ((((σ.feed pre.flatten).feed (buff.take (4 - got))).feed (buff.drop 4)).feed rest.flatten)
      { download willing σ.saved events (pre ++ buff :: rest) with stray := false } := by
  induction pre generalizing σ events with
  | nil => exact download_loses hout hwf hne hp hpos hbeyond hseam hfit
  | cons b pre ih =>
      obtain ⟨hneb, hnepre⟩ := List.forall_mem_cons.mp hnepre
      obtain ⟨hfitb, hfits⟩ := hfits
      rw [List.flatten_cons, feed_append] at hp hseam hfit ⊢
      rw [List.cons_append, download]
      cases unsparse_refines willing hout hwf hlive hfitb hneb with
      | device e evs _ hio => cases hio
      | ended stop _ hplace =>
          rw [feed_ended hplace, hplace] at hp
          cases hp
      | on hres hst hflat hlive =>
          rw [hres, hst]
          exact ih hflat (feed_wf _ hwf) hlive hnepre hfits hp hseam hfit

/-! ## A chunk header without its first bytes -/

theorem invalid_type {c : List UInt8} (hraw : chunkType c ≠ chunkTypeRaw)
    (hdc : chunkType c ≠ chunkTypeDontCare) (hfill : chunkType c ≠ chunkTypeFill)
    (hcrc : chunkType c ≠ chunkTypeCrc) (h : List UInt8) :
    validateChunkHeader h c = some .invalid := by
  rw [validateChunkHeader, if_neg hraw, if_neg hdc, if_neg hfill, if_neg hcrc]

/-- A header whose reserved field is zero is no header from its second, third or
fourth byte on. -/
theorem shifted_invalid {blk : Nat} (d : Chunk blk) (hres : d.reserved = 0) (zs : List UInt8)
    {s : Nat} (hpos : 0 < s) (hlt : s < 4) (h : List UInt8) :
    validateChunkHeader h (((d.bytes ++ zs).drop s).take sizeofChunkHeader) = some .invalid := by
  obtain ⟨rest, hbytes⟩ : ∃ rest, d.bytes ++ zs = UInt8.ofNat d.body.chunkType ::
      UInt8.ofNat (d.body.chunkType / 256) :: 0 :: 0 :: UInt8.ofNat d.chunkSz :: rest := by
    refine ⟨leBytes 3 (d.chunkSz / 256) ++ leBytes 4 (sizeofChunkHeader + d.body.bytes.length) ++
      d.body.bytes ++ zs, ?_⟩
    simp [Chunk.bytes, ChunkHeader.bytes, Chunk.header, hres, leBytes]
  have hhigh : d.body.chunkType / 256 = 0xCA := by
    cases d.body <;> simp only [Body.chunkType] <;> rfl
  have htype : chunkType (((d.bytes ++ zs).drop s).take sizeofChunkHeader) =
      leNat (((d.bytes ++ zs).drop s).take 2) := by
    rw [chunkType, le, List.drop_zero, List.take_take]
    rfl
  have hcase : s = 1 ∨ s = 2 ∨ s = 3 := by omega
  have hvalue : leNat (((d.bytes ++ zs).drop s).take 2) = 0xCA ∨
      ∃ x, leNat (((d.bytes ++ zs).drop s).take 2) = 256 * x := by
    rw [hbytes, hhigh]
    rcases hcase with rfl | rfl | rfl
    · exact .inl rfl
    · exact .inr ⟨0, rfl⟩
    · refine .inr ⟨(UInt8.ofNat d.chunkSz).toNat, ?_⟩
      simp [leNat]
  rw [← htype] at hvalue
  refine invalid_type ?_ ?_ ?_ ?_ h <;>
    simp only [chunkTypeRaw, chunkTypeDontCare, chunkTypeFill, chunkTypeCrc] <;>
    rcases hvalue with hv | ⟨x, hv⟩ <;> omega

/-- Where the stream is in bytes that are no chunk header. -/
theorem feed_invalid {σ : Stream} (hp : σ.place = .chunkHeader sizeofChunkHeader [])
    {ys : List UInt8}
    (hinvalid : ∀ h, validateChunkHeader h (ys.take sizeofChunkHeader) = some .invalid)
    {xs zs : List UInt8} (hsplit : xs ++ zs = ys) :
    xs.length < sizeofChunkHeader ∧ (σ.feed xs).place = .chunkHeader sizeofChunkHeader xs ∨
      (σ.feed xs).place = .ended (.fail .invalid) := by
  rcases Nat.lt_or_ge xs.length sizeofChunkHeader with hlt | hge
  · refine .inl ⟨hlt, ?_⟩
    rw [feed_chunkHeader hp (by simpa using hlt)]
    rfl
  · have htake : ys.take sizeofChunkHeader = xs.take sizeofChunkHeader := by
      rw [← hsplit, List.take_append_of_le_length hge]
    have hlen : (xs.take sizeofChunkHeader).length = sizeofChunkHeader := by
      rw [List.length_take]
      omega
    have hstop : σ.feed (xs.take sizeofChunkHeader) = σ.stop (.fail .invalid) := by
      rw [feed_chunkHeader_full hp (by decide) (by simpa using hlen), List.nil_append,
        pad_full hlen, Stream.openChunk, ← htake, hinvalid]
    refine .inr ?_
    rw [← List.take_append_drop sizeofChunkHeader xs, feed_append, hstop, feed_ended rfl]
    rfl

/-- Buffers fit when the stream is nowhere in them inside a fill value or at a
seam. -/
theorem allFit_of_places {σ : Stream} {buffers : List (List UInt8)}
    (hfill : ∀ xs ys, xs ++ ys = buffers.flatten → ∀ c size got,
      (σ.feed xs).place ≠ .fill c size got)
    (hseam : ∀ xs ys, xs ++ ys = buffers.flatten → ¬ (σ.feed xs).Seam) : AllFit σ buffers := by
  induction buffers generalizing σ with
  | nil => trivial
  | cons buff rest ih =>
      rw [List.flatten_cons] at hfill hseam
      refine ⟨⟨?_, ?_⟩, ih ?_ ?_⟩
      · rintro ⟨c, size, got, hp, -⟩
        exact hfill [] _ rfl c size got hp
      · rintro ⟨pre, post, -, -, rfl, hs⟩
        exact hseam pre _ (List.append_assoc _ _ _).symm hs
      · intro xs ys hsplit c size got
        rw [← feed_append]
        exact hfill (buff ++ xs) ys (by rw [List.append_assoc, hsplit]) c size got
      · intro xs ys hsplit
        rw [← feed_append]
        exact hseam (buff ++ xs) ys (by rw [List.append_assoc, hsplit])

/-! ## When the ways come to the same -/

theorem first_cut {σ : Stream} {buffers : List (List UInt8)} (h : ¬ FillsWhole σ buffers) :
    ∃ pre buff rest, buffers = pre ++ buff :: rest ∧ FillsWhole σ pre ∧
      (σ.feed pre.flatten).FillCross buff := by
  induction buffers generalizing σ with
  | nil => exact absurd trivial h
  | cons b bs ih =>
      rcases Classical.em (σ.FillCross b) with hcross | hcross
      · exact ⟨[], b, bs, rfl, trivial, hcross⟩
      · have hrest : ¬ FillsWhole (σ.feed b) bs := fun hbs => h ⟨hcross, hbs⟩
        obtain ⟨pre, buff, rest, rfl, hpre, hcut⟩ := ih hrest
        refine ⟨b :: pre, buff, rest, rfl, ⟨hcross, hpre⟩, ?_⟩
        rwa [List.flatten_cons, feed_append]

/-- What the stream comes to when the bytes behind a cut fill value are lost: a
header of no known type, or less than a header. -/
theorem cut_outcome (img : Image) {max : Nat} (hfits : img.blkSz * img.totalBlks ≤ max)
    (hres : ∀ c ∈ img.chunks, c.reserved = 0) {buffers : List (List UInt8)}
    (hne : ∀ buff ∈ buffers, buff ≠ []) (hbytes : buffers.flatten = img.bytes)
    (hcut : ¬ FillsWhole (.init max) buffers) :
    (inBuffers max buffers).result = .error (.fail .invalid) ∨
      (inBuffers max buffers).result = .ok () ∧ (inBuffers max buffers).st.state = .chunkHeader ∧
        (inBuffers max buffers).st.offset ≠ 0 := by
  obtain ⟨pre, buff, rest, rfl, hpre, c, size, got, hp, hpos, hbeyond⟩ := first_cut hcut
  have hwf := feed_wf pre.flatten (wf_init max)
  have hlt : got < 4 := by
    have hok := hwf.place
    rwa [hp] at hok
  rw [List.flatten_append, List.flatten_cons] at hbytes
  -- what comes behind the value
  obtain ⟨mid, ds, hrest, hmid, hmem⟩ : ∃ (mid : List UInt8) (ds : List (Chunk img.blkSz)),
      buff ++ rest.flatten = mid ++ ds.flatMap Chunk.bytes ∧ mid.length = 4 - got ∧
        ∀ d ∈ ds, d ∈ img.chunks := by
    rcases prefix_cases img hbytes with hshort | ⟨zs, hzs, hsplit⟩
    · have hstart : (Stream.init max).place = .imageHeader [] := rfl
      rw [feed_imageHeader hstart (by simpa using hshort)] at hp
      cases hp
    · rw [hzs, feed_append] at hp
      exact fill_inside img.chunks (n := 0) (feed_headerBytes img hfits).1 hsplit hp
  have hmidtake : mid = buff.take (4 - got) := by
    have htake := congrArg (List.take (4 - got)) hrest
    rw [List.take_append_of_le_length (by omega), List.take_left' hmid] at htake
    exact htake.symm
  have hlens := congrArg List.length hrest
  rw [List.length_append, List.length_append, hmid] at hlens
  obtain ⟨d, ds, rfl⟩ : ∃ d ds', ds = d :: ds' := by
    cases ds with
    | nil =>
        rw [List.flatMap_nil, List.length_nil] at hlens
        omega
    | cons d ds => exact ⟨d, ds, rfl⟩
  have hdlen : sizeofChunkHeader ≤ d.bytes.length := by
    rw [Chunk.bytes, List.length_append, d.header.length_bytes]
    exact Nat.le_add_right _ _
  rw [List.flatMap_cons] at hrest
  obtain ⟨s, hspos, hslt, hys⟩ : ∃ s, 0 < s ∧ s < 4 ∧
      buff.drop 4 ++ rest.flatten = (d.bytes ++ ds.flatMap Chunk.bytes).drop s := by
    refine ⟨min buff.length 4 - (4 - got), by omega, by omega, ?_⟩
    have hdrop := congrArg (List.drop (min buff.length 4)) hrest
    rw [List.drop_append_of_le_length (by omega), List.drop_append, hmid,
      List.drop_of_length_le (l := mid) (by omega), List.nil_append] at hdrop
    rw [← hdrop]
    congr 1
    rcases Nat.le_total buff.length 4 with hle | hge
    · rw [List.drop_of_length_le hle, List.drop_of_length_le (by omega)]
    · rw [Nat.min_eq_right hge]
  -- where the stream then is
  have hplace : (((Stream.init max).feed pre.flatten).feed (buff.take (4 - got))).place =
      .chunkHeader sizeofChunkHeader [] := by
    rw [feed_fill_full hwf.fillValue hp hlt (by rw [List.length_take]; omega)]
    rfl
  have hinvalid : ∀ h, validateChunkHeader h
      ((buff.drop 4 ++ rest.flatten).take sizeofChunkHeader) = some .invalid := by
    intro h
    rw [hys]
    exact shifted_invalid d (hres d (hmem d List.mem_cons_self)) _ hspos hslt h
  have hfit : AllFit (((Stream.init max).feed pre.flatten).feed (buff.take (4 - got)))
      (buff.drop 4 :: rest) := by
    refine allFit_of_places ?_ ?_
    · intro xs ys hsplit c' size' got' hp'
      rcases feed_invalid hplace hinvalid hsplit with ⟨-, h⟩ | h <;> rw [h] at hp' <;> cases hp'
    · rintro xs ys hsplit ⟨size', got', hp', -, hlong⟩
      rcases feed_invalid hplace hinvalid hsplit with ⟨-, h⟩ | h <;> rw [h] at hp' <;> cases hp'
      exact absurd hlong (Nat.lt_irrefl _)
  have hrefined := download_lost (show flat [] = (Stream.init max).out from rfl) (wf_init max)
    (init_live max)
    (fun b hb => hne b (List.mem_append_left _ hb))
    (fun b hb => hne b (List.mem_append_right _ (List.mem_cons_of_mem _ hb)))
    (begins_allFit img max hbytes hpre) hp hpos hbeyond hfit.1.header hfit.2
  rw [← feed_append] at hrefined
  rw [inBuffers, ← saved_init]
  rcases feed_invalid hplace hinvalid (List.append_nil _) with ⟨hshort, hend⟩ | hend
  · refine .inr ?_
    cases hrefined with
    | device e evs _ hio => cases hio
    | ended stop _ hstop =>
        rw [hend] at hstop
        cases hstop
    | on hresult hst =>
        have hst : (download willing (Stream.init max).saved [] (pre ++ buff :: rest)).st = _ := hst
        refine ⟨hresult, ?_⟩
        rw [hst, Stream.saved, hend]
        refine ⟨rfl, ?_⟩
        show (buff.drop 4 ++ rest.flatten).length ≠ 0
        rw [hys, List.length_drop, List.length_append]
        rw [sizeofChunkHeader] at hdlen
        omega
  · refine .inl ?_
    cases hrefined with
    | device e evs _ hio => cases hio
    | on _ _ _ hlive => exact absurd hend (hlive _)
    | ended stop hresult hstop =>
        rw [hend] at hstop
        cases hstop
        exact hresult

/-! ## An image that is too large -/

/-- A call whose buffer completes an image header that is refused. -/
theorem unsparse_refused {σ : Stream} {got buff : List UInt8} {events : List Event} {e : Err}
    (hp : σ.place = .imageHeader got) (hlt : got.length < sizeofImageHeader)
    (hfull : sizeofImageHeader ≤ got.length + buff.length)
    (hval : validateHeader (got ++ buff.take (sizeofImageHeader - got.length)) σ.maxUnsparseSize =
      some e) :
    unsparse willing σ.saved buff events =
      { result := .error (.fail e)
        st := { σ.saved with
          imageHeader := got ++ buff.take (sizeofImageHeader - got.length) }
        events := events
        stray := false } := by
  have hne : buff ≠ [] := List.length_pos_iff.mp (by omega)
  have hmin : min buff.length (sizeofImageHeader - got.length) =
      sizeofImageHeader - got.length := by omega
  have hcopy : overwrite (pad sizeofImageHeader got) got.length
      (buff.take (sizeofImageHeader - got.length)) =
        got ++ buff.take (sizeofImageHeader - got.length) := by
    have hlen : (got ++ buff.take (sizeofImageHeader - got.length)).length =
        sizeofImageHeader := by
      rw [List.length_append, List.length_take]
      omega
    rw [overwrite_pad (by rw [List.length_take]; omega), pad, hlen, Nat.sub_self,
      List.replicate_zero, List.append_nil]
  rw [unsparse_eq hne, loop_step (.inl hne), Stream.saved, hp]
  dsimp only [startWork, pass, passImageHeader, Work.advance]
  rw [hmin, if_neg (by omega), hcopy, if_neg (by omega), hval]
  rfl

theorem header_take (img : Image) {xs ys : List UInt8} (h : xs ++ ys = img.bytes)
    (hlen : sizeofImageHeader ≤ xs.length) : xs.take sizeofImageHeader = img.header.bytes := by
  have htake := congrArg (List.take sizeofImageHeader) h
  rw [List.take_append_of_le_length hlen, Image.bytes, List.take_left' img.header.length_bytes]
    at htake
  exact htake

theorem tooLarge_val (img : Image) {max : Nat} (hlarge : max < img.blkSz * img.totalBlks)
    {got buff ys : List UInt8} (h : got ++ buff ++ ys = img.bytes)
    (hlt : got.length < sizeofImageHeader) (hfull : sizeofImageHeader ≤ got.length + buff.length) :
    validateHeader (got ++ buff.take (sizeofImageHeader - got.length)) max = some .overflow := by
  have htake : got ++ buff.take (sizeofImageHeader - got.length) = img.header.bytes := by
    rw [← header_take img h (by rw [List.length_append]; omega), List.take_append,
      List.take_of_length_le (l := got) (by omega)]
  rw [htake, validateHeader_bytes, if_pos hlarge]

theorem header_le (img : Image) : sizeofImageHeader ≤ img.bytes.length := by
  rw [Image.bytes, List.length_append, img.header.length_bytes]
  exact Nat.le_add_right _ _

theorem fillsWhole_of_places {σ : Stream} {buffers : List (List UInt8)}
    (hfill : ∀ xs ys, xs ++ ys = buffers.flatten → ∀ c size got,
      (σ.feed xs).place ≠ .fill c size got) : FillsWhole σ buffers := by
  induction buffers generalizing σ with
  | nil => trivial
  | cons buff rest ih =>
      rw [List.flatten_cons] at hfill
      refine ⟨?_, ih ?_⟩
      · rintro ⟨c, size, got, hp, -⟩
        exact hfill [] _ rfl c size got hp
      · intro xs ys hsplit c size got
        rw [← feed_append]
        exact hfill (buff ++ xs) ys (by rw [List.append_assoc, hsplit]) c size got

theorem tooLarge_fills (img : Image) {max : Nat} (hlarge : max < img.blkSz * img.totalBlks)
    {buffers : List (List UInt8)} (hbytes : buffers.flatten = img.bytes) :
    FillsWhole (.init max) buffers := by
  refine fillsWhole_of_places ?_
  intro xs ys hsplit c size got hp
  rcases prefix_cases img (hsplit.trans hbytes) with hshort | ⟨zs, rfl, -⟩
  · have hstart : (Stream.init max).place = .imageHeader [] := rfl
    rw [feed_imageHeader hstart (by simpa using hshort)] at hp
    cases hp
  · have hend := feed_tooLarge img hlarge
    rw [feed_append, feed_ended hend, hend] at hp
    cases hp

/-- When a buffer ends inside the header, the state stays there. -/
theorem tooLarge_offset (img : Image) {max : Nat} (hlarge : max < img.blkSz * img.totalBlks)
    {got : List UInt8} {buffers : List (List UInt8)} {events : List Event}
    (hgot : got ≠ [] ∨ ∀ buff ∈ buffers.head?, buff.length < sizeofImageHeader)
    (hlt : got.length < sizeofImageHeader) (hne : ∀ buff ∈ buffers, buff ≠ [])
    (hbytes : got ++ buffers.flatten = img.bytes) (hout : flat events = []) :
    (download willing ((Stream.init max).feed got).saved events buffers).st.offset ≠ 0 := by
  have hstart : (Stream.init max).place = .imageHeader [] := rfl
  have hplace : ∀ xs : List UInt8, xs.length < sizeofImageHeader →
      (Stream.init max).feed xs = { Stream.init max with place := .imageHeader xs } := by
    intro xs hxs
    exact feed_imageHeader hstart (by simpa using hxs)
  induction buffers generalizing got events with
  | nil =>
      have hlen := header_le img
      rw [← hbytes, List.flatten_nil, List.append_nil] at hlen
      exact absurd hlt (Nat.not_lt.mpr hlen)
  | cons buff rest ih =>
      obtain ⟨hnebuff, hnerest⟩ := List.forall_mem_cons.mp hne
      rw [List.flatten_cons, ← List.append_assoc] at hbytes
      rw [download]
      rcases Nat.lt_or_ge (got ++ buff).length sizeofImageHeader with hshort | hfull
      · have hfit : ((Stream.init max).feed got).Fits buff := by
          refine image_fits img max hbytes ?_
          rintro ⟨c, size, n, hp, -⟩
          rw [hplace got hlt] at hp
          cases hp
        have hlive : ((Stream.init max).feed got).Live := by
          intro stop hstop
          rw [hplace got hlt] at hstop
          cases hstop
        have hout' : flat events = ((Stream.init max).feed got).out := by
          rw [hout, hplace got hlt]
          rfl
        have hcall := unsparse_refines willing hout' (feed_wf got (wf_init max)) hlive hfit hnebuff
        rw [← feed_append] at hcall
        cases hcall with
        | device e evs _ hio => cases hio
        | ended stop _ hstop =>
            rw [hplace _ hshort] at hstop
            cases hstop
        | on hres hst hflat =>
            rw [hres, hst]
            refine ih (.inl (List.append_ne_nil_of_right_ne_nil got hnebuff)) hshort hnerest hbytes ?_
            rw [hflat, hplace _ hshort]
            rfl
      · rw [List.length_append] at hfull
        have hval := tooLarge_val img hlarge hbytes hlt hfull
        have hp : ((Stream.init max).feed got).place = .imageHeader got := by rw [hplace got hlt]
        have hmax : ((Stream.init max).feed got).maxUnsparseSize = max := by
          rw [hplace got hlt]
          rfl
        rw [unsparse_refused hp hlt hfull (by rw [hmax]; exact hval)]
        show ((Stream.init max).feed got).saved.offset ≠ 0
        rw [hplace got hlt]
        show got.length ≠ 0
        rcases hgot with hgot | hfirst
        · exact (List.length_pos_iff.mpr hgot).ne'
        · have hbuff := hfirst buff rfl
          omega

/-! ## Every image, every split -/

/-- An image of allowed size is not cut inside a fill value; the header of one that
is too large is in the first buffer. -/
def CutWell (img : Image) (max : Nat) (buffers : List (List UInt8)) : Prop :=
  if max < img.blkSz * img.totalBlks then
    ∀ buff ∈ buffers.head?, sizeofImageHeader ≤ buff.length
  else FillsWhole (.init max) buffers

theorem whole_tooLarge (img : Image) {max : Nat} (hlarge : max < img.blkSz * img.totalBlks)
    {buff ys : List UInt8} (hbytes : buff ++ ys = img.bytes)
    (hfull : sizeofImageHeader ≤ buff.length) :
    unsparse willing (initUnsparseState max) buff [] =
      { result := .error (.fail .overflow)
        st := { initUnsparseState max with imageHeader := img.header.bytes }
        events := []
        stray := false } := by
  have hp : (Stream.init max).place = .imageHeader [] := rfl
  have hfull' : sizeofImageHeader ≤ ([] : List UInt8).length + buff.length := by simpa using hfull
  have hval := tooLarge_val img hlarge (by rw [List.nil_append]; exact hbytes) (by decide) hfull'
  rw [← saved_init, unsparse_refused hp (by decide) hfull' hval, List.length_nil, Nat.sub_zero,
    List.nil_append, header_take img hbytes hfull]

/-- An image that is too large. -/
theorem tooLarge_same (img : Image) {max : Nat} (hlarge : max < img.blkSz * img.totalBlks)
    {buffers : List (List UInt8)} (hne : ∀ buff ∈ buffers, buff ≠ [])
    (hbytes : buffers.flatten = img.bytes) :
    (inBuffers max buffers).stray = (whole img max).stray ∧
      (Same (inBuffers max buffers) (whole img max) ↔ CutWell img max buffers) := by
  have hlen := header_le img
  have hwhole := whole_tooLarge img hlarge (List.append_nil _) hlen
  cases buffers with
  | nil =>
      rw [← hbytes] at hlen
      exact absurd hlen (by decide)
  | cons buff rest =>
      obtain ⟨hnebuff, hnerest⟩ := List.forall_mem_cons.mp hne
      have hcut : CutWell img max (buff :: rest) ↔ sizeofImageHeader ≤ buff.length := by
        rw [CutWell, if_pos hlarge]
        simp
      rw [hcut, whole, hwhole, inBuffers]
      rcases Nat.lt_or_ge buff.length sizeofImageHeader with hshort | hfull
      · have hfirst : ∀ b ∈ (buff :: rest).head?, b.length < sizeofImageHeader := by
          intro b hb
          cases hb
          exact hshort
        have hstart : ([] : List UInt8).length < sizeofImageHeader := by decide
        have hoffset := tooLarge_offset img hlarge (.inr hfirst) hstart hne hbytes
          (show flat [] = [] from rfl)
        refine ⟨?_, fun hsame => absurd ?_ hoffset, fun hfull => absurd hshort (by omega)⟩
        · exact (split_refines img max hne hbytes (tooLarge_fills img hlarge hbytes)).stray
        · rw [feed_nil, saved_init, hsame.st (by rw [hsame.result]; simp)]
          rfl
      · rw [download, whole_tooLarge img hlarge hbytes hfull]
        exact ⟨rfl, fun _ => hfull, fun _ => ⟨rfl, rfl, fun _ => rfl⟩⟩

/-- An image of allowed size in buffers that are cut well. -/
theorem fits_same (img : Image) {max : Nat} (hfits : img.blkSz * img.totalBlks ≤ max)
    {buffers : List (List UInt8)} (hne : ∀ buff ∈ buffers, buff ≠ [])
    (hbytes : buffers.flatten = img.bytes) (hfills : FillsWhole (.init max) buffers) :
    Same (inBuffers max buffers) (whole img max) :=
  same_of_refined (split_refines img max hne hbytes hfills) (whole_refines img max)
    (feed_image img hfits)

theorem download_strays {σ : Stream} {pre rest : List (List UInt8)} {buff : List UInt8}
    {events : List Event} (hout : flat events = σ.out) (hwf : σ.Wf) (hlive : σ.Live)
    (hnepre : ∀ b ∈ pre, b ≠ []) (hne : buff ≠ []) (hfits : AllFit σ pre)
    (hcross : (σ.feed pre.flatten).FillCross buff) :
    (download willing σ.saved events (pre ++ buff :: rest)).stray = true := by
  induction pre generalizing σ events with
  | nil =>
      have hstray := unsparse_strays willing hout hwf hcross hne
      rw [List.nil_append, download]
      cases hres : (unsparse willing σ.saved buff events).result with
      | error stop => exact hstray
      | ok u =>
          show (_ || _) = true
          rw [hstray, Bool.true_or]
  | cons b pre ih =>
      obtain ⟨hneb, hnepre⟩ := List.forall_mem_cons.mp hnepre
      obtain ⟨hfitb, hfits⟩ := hfits
      rw [List.flatten_cons, feed_append] at hcross
      rw [List.cons_append, download]
      cases unsparse_refines willing hout hwf hlive hfitb hneb with
      | device e evs _ hio => cases hio
      | ended stop _ hplace =>
          rw [feed_ended hplace] at hcross
          obtain ⟨c, size, got, hp, -⟩ := hcross
          rw [hplace] at hp
          cases hp
      | on hres hst hflat hlive =>
          rw [hres, hst]
          show (_ || _) = true
          rw [ih hflat (feed_wf _ hwf) hlive hnepre hfits hcross, Bool.or_true]

/-- A cut inside a fill value makes a copy leave it. -/
theorem cut_strays (img : Image) {max : Nat} {buffers : List (List UInt8)}
    (hne : ∀ buff ∈ buffers, buff ≠ []) (hbytes : buffers.flatten = img.bytes)
    (hcut : ¬ FillsWhole (.init max) buffers) : (inBuffers max buffers).stray = true := by
  obtain ⟨pre, buff, rest, rfl, hpre, hcross⟩ := first_cut hcut
  rw [List.flatten_append] at hbytes
  rw [inBuffers, ← saved_init]
  refine download_strays rfl (wf_init max) (init_live max) ?_ ?_ (begins_allFit img max hbytes hpre)
    hcross
  · intro b hb
    exact hne b (List.mem_append_left _ hb)
  · exact hne buff (List.mem_append_right _ List.mem_cons_self)

/-- In one call no beginning of a chunk header is left over. -/
theorem whole_ends (img : Image) {max : Nat} (hfits : img.blkSz * img.totalBlks ≤ max) :
    (whole img max).result ≠ .error (.fail .invalid) ∧
      ((whole img max).result = .ok () → (whole img max).st.state = .chunkHeader →
        (whole img max).st.offset = 0) := by
  have hplace := feed_image img hfits
  cases whole_refines img max with
  | device e evs _ hio => cases hio
  | ended stop hres hstop =>
      rw [hres]
      refine ⟨?_, fun h => by cases h⟩
      rintro ⟨⟩
      rcases hplace with (hp | ⟨c, done, hp⟩) | hp <;> rw [hp] at hstop <;> cases hstop
  | on hres hst hflat hlive =>
      rw [hres, hst]
      refine ⟨by simp, fun _ => ?_⟩
      rcases hplace with (hp | ⟨c, done, hp⟩) | hp
      · rw [Stream.saved, hp]
        exact fun _ => rfl
      · rw [Stream.saved, hp]
        intro hstate
        cases hstate
      · exact absurd hp (hlive _)

theorem cut_differs (img : Image) {max : Nat} (hfits : img.blkSz * img.totalBlks ≤ max)
    (hres : ∀ c ∈ img.chunks, c.reserved = 0) {buffers : List (List UInt8)}
    (hne : ∀ buff ∈ buffers, buff ≠ []) (hbytes : buffers.flatten = img.bytes)
    (hcut : ¬ FillsWhole (.init max) buffers) :
    ¬ Same (inBuffers max buffers) (whole img max) := by
  intro hsame
  obtain ⟨hvalid, hoffset⟩ := whole_ends img hfits
  rcases cut_outcome img hfits hres hne hbytes hcut with hresult | ⟨hresult, hstate, hpart⟩
  · exact hvalid (hsame.result.symm.trans hresult)
  · have hst := hsame.st (by rw [hresult]; simp)
    rw [hst] at hstate hpart
    exact hpart (hoffset (hsame.result.symm.trans hresult) hstate)

/-- An image, in every split into buffers that are not empty, leaves the same as in
one call exactly when it is cut well; and when the reserved fields are zero, a cut
that is not well shows in what is returned, written or saved. -/
theorem split_same_iff (img : Image) (max : Nat) {buffers : List (List UInt8)}
    (hne : ∀ buff ∈ buffers, buff ≠ []) (hbytes : buffers.flatten = img.bytes) :
    (Same (inBuffers max buffers) (whole img max) ∧
        (inBuffers max buffers).stray = (whole img max).stray ↔ CutWell img max buffers) ∧
      ((∀ c ∈ img.chunks, c.reserved = 0) →
        (Same (inBuffers max buffers) (whole img max) ↔ CutWell img max buffers)) := by
  rcases Nat.lt_or_ge max (img.blkSz * img.totalBlks) with hlarge | hfits
  · obtain ⟨hstray, hsame⟩ := tooLarge_same img hlarge hne hbytes
    rw [hsame]
    exact ⟨and_iff_left hstray, fun _ => Iff.rfl⟩
  · have hcut : CutWell img max buffers ↔ FillsWhole (.init max) buffers := by
      rw [CutWell, if_neg (Nat.not_lt.mpr hfits)]
    have hwhole : (whole img max).stray = false := (whole_refines img max).stray
    rw [hcut]
    refine ⟨⟨?_, ?_⟩, fun hres => ⟨?_, fits_same img hfits hne hbytes⟩⟩
    · rintro ⟨-, hstray⟩
      refine Classical.not_not.mp fun hnot => ?_
      rw [cut_strays img hne hbytes hnot, hwhole] at hstray
      cases hstray
    · intro hfills
      have hsplit : (inBuffers max buffers).stray = false :=
        (split_refines img max hne hbytes hfills).stray
      exact ⟨fits_same img hfits hne hbytes hfills, hsplit.trans hwhole.symm⟩
    · intro hsame
      exact Classical.not_not.mp fun hnot => cut_differs img hfits hres hne hbytes hnot hsame

/-- A fill chunk of one block and a block to be skipped. -/
def fillImage : Image where
  minorVersion := 0
  blkSz := 4096
  imageChecksum := 0
  chunks :=
    [{ reserved := 0
       chunkSz := 1
       body := .fill [1, 2, 3, 4]
       chunkSz_lt := by decide
       ok := rfl
       totalSz_lt := by decide },
     { reserved := 0
       chunkSz := 1
       body := .dontCare
       chunkSz_lt := by decide
       ok := trivial
       totalSz_lt := by decide }]
  blkSz_lt := by decide
  totalBlks_lt := by decide
  totalChunks_lt := by decide

/-- The first buffer ends behind the first byte of the fill value. -/
def fillBuffers : List (List UInt8) := [fillImage.bytes.take 41, fillImage.bytes.drop 41]

theorem fillBuffers_flatten : fillBuffers.flatten = fillImage.bytes := by
  simp [fillBuffers]

theorem fillBuffers_ne : ∀ buff ∈ fillBuffers, buff ≠ [] := by decide +kernel

theorem split_same_iff_fillImage :
    (Same (inBuffers 8192 fillBuffers) (whole fillImage 8192) ∧
        (inBuffers 8192 fillBuffers).stray = (whole fillImage 8192).stray ↔
          CutWell fillImage 8192 fillBuffers) ∧
      ((∀ c ∈ fillImage.chunks, c.reserved = 0) →
        (Same (inBuffers 8192 fillBuffers) (whole fillImage 8192) ↔
          CutWell fillImage 8192 fillBuffers)) :=
  split_same_iff fillImage 8192 fillBuffers_ne fillBuffers_flatten

theorem fillImage_differs : ¬ Same (inBuffers 8192 fillBuffers) (whole fillImage 8192) := by
  have hcross : ((Stream.init 8192).feed (fillImage.bytes.take 41)).FillCross
      (fillImage.bytes.drop 41) := by
    refine ⟨chunkBytes chunkTypeFill 16, 4096, 1, ?_, by decide, ?_⟩ <;> decide +kernel
  refine cut_differs fillImage ?_ ?_ fillBuffers_ne fillBuffers_flatten ?_
  · decide
  · intro c hc
    rcases List.mem_pair.mp hc with rfl | rfl <;> rfl
  · exact fun h => h.2.1 hcross

end TX2SecureUart.Sparse
