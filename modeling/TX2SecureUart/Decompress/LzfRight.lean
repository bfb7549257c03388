/-
# `Decompress.LzfRight` — when `do_decompress` meets the lzf format

The loop tests for the payload with the header still counted, leaves on what is
missing without an error, goes on with the sizes of the last block when a type-1
header is cut, and looks at the checksum only when it has come to it.  `Settles`
is what an input has to be like for none of that to show.
-/
import TX2SecureUart.Decompress.Lzf

namespace TX2SecureUart.Lzf

open Storage

/-- A whole header and what is behind it. -/
def Header (rest : List UInt8) (csize : Option Nat) (ucsize : Nat) (tail : List UInt8) : Prop :=
  (∃ hi lo, rest = 0x5A :: 0x56 :: 0 :: hi :: lo :: tail ∧ csize = none ∧ ucsize = be16 hi lo) ∨
    ∃ chi clo uhi ulo, rest = 0x5A :: 0x56 :: 1 :: chi :: clo :: uhi :: ulo :: tail ∧
      csize = some (be16 chi clo) ∧ ucsize = be16 uhi ulo

/-- The checksum behind `out`. -/
def crcOf (out : List UInt8) : List UInt8 := leBytes 4 (tegrablUtilsCrc32 0 out).toNat

/-- What comes out of the block with this header. -/
def contentsAt (D : BlockDecompressor) (csize : Option Nat) (ucsize : Nat) (tail : List UInt8) :
    List UInt8 :=
  contentsOf D csize ucsize (tail.take (remSize csize ucsize))

/-- From `rest` on, with `out` written and the sizes of the last block, the call
does what the format asks for. -/
inductive Settles (D : BlockDecompressor) (outSize : UInt32) :
    Option Nat → Nat → List UInt8 → List UInt8 → Prop
  /-- Nothing but a checksum is left. -/
  | csum {c : Option Nat} {u : Nat} {out rest : List UInt8} :
      rest.length = 4 → Settles D outSize c u out rest
  /-- An EOF, and the right checksum, which is not looked at. -/
  | eof {c : Option Nat} {u : Nat} {out : List UInt8} : Settles D outSize c u out (0 :: crcOf out)
  | noBlock {c : Option Nat} {u : Nat} {out rest : List UInt8} :
      4 < rest.length → rest.head? ≠ some 0 → rest.take 3 ≠ [0x5A, 0x56, 0] →
      rest.take 3 ≠ [0x5A, 0x56, 1] → Settles D outSize c u out rest
  /-- Of a type-1 header there is only a part, and the block before it would not fit again. -/
  | cut {c : Option Nat} {u : Nat} {out rest : List UInt8} :
      4 < rest.length → rest.length < type1HdrSize → rest.take 3 = [0x5A, 0x56, 1] →
      remSize c u ≤ rest.length → outSize.toNat < out.length + u → Settles D outSize c u out rest
  /-- The payload is missing, and the header is not taken for a checksum. -/
  | missing {c c' : Option Nat} {u u' : Nat} {out rest tail : List UInt8} :
      Header rest c' u' tail → rest.length < remSize c' u' → tail.length ≤ 4 →
      rest.take 4 ≠ crcOf out → Settles D outSize c u out rest
  | noRoom {c c' : Option Nat} {u u' : Nat} {out rest tail : List UInt8} :
      Header rest c' u' tail → remSize c' u' ≤ rest.length → outSize.toNat < out.length + u' →
      Settles D outSize c u out rest
  | undecoded {c c' : Option Nat} {u u' : Nat} {out rest tail : List UInt8} :
      Header rest c' u' tail → remSize c' u' ≤ tail.length →
      (contentsAt D c' u' tail).length ≠ u' → Settles D outSize c u out rest
  | block {c c' : Option Nat} {u u' : Nat} {out rest tail : List UInt8} :
      Header rest c' u' tail → remSize c' u' ≤ tail.length →
      (contentsAt D c' u' tail).length = u' → out.length + u' ≤ outSize.toNat →
      Settles D outSize c' u' (out ++ contentsAt D c' u' tail) (tail.drop (remSize c' u')) →
      Settles D outSize c u out rest

variable {D : BlockDecompressor} {inSize outSize : UInt32} {csize csize' : Option Nat}
  {ucsize ucsize' written : Nat} {out rest tail tail' final contents b c : List UInt8}
  {s t : LzfState}

/-! ## Headers -/

theorem length_crcOf (out : List UInt8) : (crcOf out).length = 4 := length_leBytes 4 _

theorem Header.unique (h : Header rest csize ucsize tail) (h' : Header rest csize' ucsize' tail') :
    csize' = csize ∧ ucsize' = ucsize ∧ tail' = tail := by
  rcases h with ⟨hi, lo, rfl, rfl, rfl⟩ | ⟨chi, clo, uhi, ulo, rfl, rfl, rfl⟩
  · rcases h' with ⟨hi', lo', heq, rfl, rfl⟩ | ⟨chi', clo', uhi', ulo', heq, -, -⟩
    · cases heq
      exact ⟨rfl, rfl, rfl⟩
    · simp at heq
  · rcases h' with ⟨hi', lo', heq, -, -⟩ | ⟨chi', clo', uhi', ulo', heq, rfl, rfl⟩
    · simp at heq
    · cases heq
      exact ⟨rfl, rfl, rfl⟩

/-- The size of a header. -/
def hdrSize (csize : Option Nat) : Nat := if csize.isSome then type1HdrSize else minHdrSize

theorem Header.length (h : Header rest csize ucsize tail) :
    rest.length = hdrSize csize + tail.length := by
  rcases h with ⟨hi, lo, rfl, rfl, rfl⟩ | ⟨chi, clo, uhi, ulo, rfl, rfl, rfl⟩
  · rw [Nat.add_comm]
    rfl
  · rw [Nat.add_comm]
    rfl

theorem hdrSize_pos (csize : Option Nat) : 4 < hdrSize csize := by
  rw [hdrSize]
  split <;> decide

theorem Header.four_lt (h : Header rest csize ucsize tail) : 4 < rest.length := by
  have := hdrSize_pos csize
  have := h.length
  omega

theorem Header.append (h : Header rest csize ucsize tail) (more : List UInt8) :
    Header (rest ++ more) csize ucsize (tail ++ more) := by
  rcases h with ⟨hi, lo, rfl, rfl, rfl⟩ | ⟨chi, clo, uhi, ulo, rfl, rfl, rfl⟩
  · exact .inl ⟨hi, lo, rfl, rfl, rfl⟩
  · exact .inr ⟨chi, clo, uhi, ulo, rfl, rfl, rfl⟩

/-- A header at the front of a shorter input. -/
theorem Header.cutAt (h : Header rest csize ucsize tail) (data more : List UInt8)
    (ht : tail = data ++ more) : ∃ b, rest = b ++ more ∧ Header b csize ucsize data := by
  rcases h with ⟨hi, lo, rfl, rfl, rfl⟩ | ⟨chi, clo, uhi, ulo, rfl, rfl, rfl⟩
  · exact ⟨_, by rw [ht]; rfl, .inl ⟨hi, lo, rfl, rfl, rfl⟩⟩
  · exact ⟨_, by rw [ht]; rfl, .inr ⟨chi, clo, uhi, ulo, rfl, rfl, rfl⟩⟩

theorem Header.head (h : Header rest csize ucsize tail) : rest.head? = some 0x5A := by
  rcases h with ⟨hi, lo, rfl, rfl, rfl⟩ | ⟨chi, clo, uhi, ulo, rfl, rfl, rfl⟩ <;> rfl

theorem Header.kind (h : Header rest csize ucsize tail) :
    rest.take 3 = [0x5A, 0x56, 0] ∨
      rest.take 3 = [0x5A, 0x56, 1] ∧ type1HdrSize ≤ rest.length := by
  rcases h with ⟨hi, lo, rfl, rfl, rfl⟩ | ⟨chi, clo, uhi, ulo, rfl, rfl, rfl⟩
  · exact .inl rfl
  · exact .inr ⟨rfl, Nat.le_add_left 7 tail.length⟩

/-- A stored payload is its contents. -/
theorem contentsAt_none (h : ucsize ≤ tail.length) : (contentsAt D none ucsize tail).length = ucsize :=
  List.length_take_of_le h

/-- A block is a header and its payload. -/
theorem block_iff : Block D b c ↔ ∃ csize ucsize data, Header b csize ucsize data ∧
    data.length = remSize csize ucsize ∧ c = contentsOf D csize ucsize data ∧ c.length = ucsize := by
  constructor
  · intro h
    cases h with
    | @stored hi lo data hlen =>
        exact ⟨none, be16 hi lo, c, .inl ⟨hi, lo, rfl, rfl, rfl⟩, hlen, rfl, hlen⟩
    | @packed chi clo uhi ulo data hlen hout =>
        exact ⟨some (be16 chi clo), be16 uhi ulo, data, .inr ⟨chi, clo, uhi, ulo, rfl, rfl, rfl⟩,
          hlen, rfl, hout⟩
  · rintro ⟨csize, ucsize, data, h, hlen, rfl, hout⟩
    rcases h with ⟨hi, lo, rfl, rfl, rfl⟩ | ⟨chi, clo, uhi, ulo, rfl, rfl, rfl⟩
    · exact .stored hlen
    · exact .packed hlen hout

/-! ## What decodes -/

theorem Decodes.out_le (h : Decodes D outSize out rest final) : out.length ≤ outSize.toNat := by
  obtain ⟨bs, contents, eof, crc, -, -, -, rfl, hfit, -⟩ := h
  rw [List.length_append] at hfit
  omega

theorem Decodes.four_le (h : Decodes D outSize out rest final) : 4 ≤ rest.length := by
  obtain ⟨bs, contents, eof, crc, -, rfl, -, -, -, rfl⟩ := h
  simp only [List.length_append, length_leBytes]
  omega

theorem decodes_csum (h : out.length ≤ outSize.toNat) : Decodes D outSize out (crcOf out) out :=
  ⟨[], [], [], crcOf out, .nil, rfl, .inl rfl, (List.append_nil _).symm, h, rfl⟩

theorem decodes_eof (h : out.length ≤ outSize.toNat) : Decodes D outSize out (0 :: crcOf out) out :=
  ⟨[], [], [0], crcOf out, .nil, rfl, .inr rfl, (List.append_nil _).symm, h, rfl⟩

/-- A block in front. -/
theorem Header.decodes (h : Header rest csize ucsize tail)
    (hin : remSize csize ucsize ≤ tail.length) (hout : (contentsAt D csize ucsize tail).length = ucsize)
    (hd : Decodes D outSize (out ++ contentsAt D csize ucsize tail)
      (tail.drop (remSize csize ucsize)) final) : Decodes D outSize out rest final := by
  obtain ⟨bs, contents, eof, crc, hbs, hrest, heof, hfinal, hfit, hcrc⟩ := hd
  have hsplit : tail = tail.take (remSize csize ucsize) ++ (bs ++ (eof ++ crc)) := by
    rw [← hrest, List.take_append_drop]
  obtain ⟨b, hb, hhdr⟩ := h.cutAt (tail.take (remSize csize ucsize)) _ hsplit
  have hblock : Block D b (contentsAt D csize ucsize tail) :=
    block_iff.mpr ⟨csize, ucsize, _, hhdr, List.length_take_of_le hin, rfl, hout⟩
  refine ⟨b ++ bs, contentsAt D csize ucsize tail ++ contents, eof, crc, .cons hblock hbs, ?_, heof,
    ?_, hfit, hcrc⟩
  · rw [hb, List.append_assoc]
  · rw [hfinal, List.append_assoc]

/-- The ways to decode: no block is left, or one is first. -/
theorem Decodes.cases (h : Decodes D outSize out rest final) :
    (final = out ∧ (rest = crcOf out ∨ rest = 0 :: crcOf out)) ∨
      ∃ csize ucsize tail, Header rest csize ucsize tail ∧ remSize csize ucsize ≤ tail.length ∧
        (contentsAt D csize ucsize tail).length = ucsize ∧
        Decodes D outSize (out ++ contentsAt D csize ucsize tail)
          (tail.drop (remSize csize ucsize)) final := by
  obtain ⟨bs, contents, eof, crc, hbs, rfl, heof, rfl, hfit, rfl⟩ := h
  cases hbs with
  | nil =>
      rw [List.append_nil]
      rcases heof with rfl | rfl
      · exact .inl ⟨rfl, .inl rfl⟩
      · exact .inl ⟨rfl, .inr rfl⟩
  | @cons b c bs cs hb hbs =>
      obtain ⟨csize, ucsize, data, hhdr, hlen, rfl, hout⟩ := block_iff.mp hb
      have hcontents : contentsAt D csize ucsize (data ++ (bs ++ (eof ++
          leBytes 4 (tegrablUtilsCrc32 0 (out ++ (contentsOf D csize ucsize data ++ cs))).toNat))) =
          contentsOf D csize ucsize data := by
        rw [contentsAt, List.take_left' hlen]
      refine .inr ⟨csize, ucsize, _, (List.append_assoc b bs _) ▸ hhdr.append _, ?_, ?_, ?_⟩
      · rw [List.length_append, hlen]
        exact Nat.le_add_right _ _
      · rw [hcontents, hout]
      · rw [hcontents, List.drop_left' hlen]
        exact ⟨bs, cs, eof, _, hbs, rfl, heof, (List.append_assoc _ _ _).symm, hfit, rfl⟩

/-- With a header in front only a block decodes. -/
theorem Header.decodes_iff (h : Header rest csize ucsize tail) :
    Decodes D outSize out rest final ↔ remSize csize ucsize ≤ tail.length ∧
      (contentsAt D csize ucsize tail).length = ucsize ∧
      Decodes D outSize (out ++ contentsAt D csize ucsize tail)
        (tail.drop (remSize csize ucsize)) final := by
  constructor
  · intro hd
    rcases hd.cases with ⟨-, rfl | rfl⟩ | ⟨csize', ucsize', tail', h', hin, hout, hrest⟩
    · exact absurd h.four_lt (by rw [length_crcOf]; decide)
    · cases h.head
    · obtain ⟨rfl, rfl, rfl⟩ := h.unique h'
      exact ⟨hin, hout, hrest⟩
  · rintro ⟨hin, hout, hd⟩
    exact h.decodes hin hout hd

/-- Without a header nothing decodes but the end of the blocks. -/
theorem decodes_of_noHeader (h : ∀ csize ucsize tail, ¬ Header rest csize ucsize tail)
    (hd : Decodes D outSize out rest final) :
    final = out ∧ (rest = crcOf out ∨ rest = 0 :: crcOf out) := by
  rcases hd.cases with h' | ⟨csize, ucsize, tail, h', -⟩
  · exact h'
  · exact absurd h' (h csize ucsize tail)

/-! ## Results -/

theorem not_decodesAs_none : ¬ DecodesAs D outSize none out rest := by
  rintro ⟨r, h, -⟩
  cases h

theorem decodesAs_error {err : ErrReason} :
    DecodesAs D outSize (some (.error err)) out rest ↔ ∀ final, ¬ Decodes D outSize out rest final := by
  constructor
  · rintro ⟨r, hr, h⟩ final hd
    cases hr
    cases (h final final.length).mpr ⟨hd, rfl⟩
  · intro h
    refine ⟨_, rfl, fun final written => ⟨?_, fun hd => absurd hd.1 (h final)⟩⟩
    intro heq
    cases heq

/-- A success without anything to decode. -/
theorem not_decodesAs_ok {r : List UInt8 × Nat} (h : ∀ final, ¬ Decodes D outSize out rest final) :
    ¬ DecodesAs D outSize (some (.ok r)) out rest := by
  rintro ⟨r', hr, hiff⟩
  cases hr
  exact h _ ((hiff r.1 r.2).mp rfl).1

/-- A success that leaves the output as it is. -/
theorem decodesAs_ok (h : ∀ final, Decodes D outSize out rest final → final = out) :
    DecodesAs D outSize (some (.ok (out, out.length))) out rest ↔ Decodes D outSize out rest out := by
  constructor
  · rintro ⟨r, hr, hiff⟩
    cases hr
    exact ((hiff out out.length).mp rfl).1
  · intro hd
    refine ⟨_, rfl, fun final written => ⟨?_, ?_⟩⟩
    · intro heq
      cases heq
      exact ⟨hd, rfl⟩
    · rintro ⟨hfinal, rfl⟩
      rw [h final hfinal]

/-- A block in front changes nothing of what is right. -/
theorem Header.decodesAs {result : Option (Except ErrReason (List UInt8 × Nat))}
    (h : Header rest csize ucsize tail) (hin : remSize csize ucsize ≤ tail.length)
    (hout : (contentsAt D csize ucsize tail).length = ucsize) :
    DecodesAs D outSize result out rest ↔ DecodesAs D outSize result
      (out ++ contentsAt D csize ucsize tail) (tail.drop (remSize csize ucsize)) := by
  have hiff : ∀ final, Decodes D outSize out rest final ↔ Decodes D outSize
      (out ++ contentsAt D csize ucsize tail) (tail.drop (remSize csize ucsize)) final := by
    intro final
    rw [h.decodes_iff]
    exact ⟨fun hd => hd.2.2, fun hd => ⟨hin, hout, hd⟩⟩
  simp only [DecodesAs, hiff]

/-! ## The passes -/

/-- What follows a pass. -/
def afterPass (D : BlockDecompressor) (inSize outSize : UInt32) :
    Option Flow → Option (Except ErrReason (List UInt8 × Nat))
  | none => none
  | some (.fail err) => some (.error err)
  | some (.leave t) => checkCsum inSize t
  | some (.again t) => runFrom D inSize outSize t

theorem runFrom_pass (h : s.processedSize < inSize.toNat ∧ s.dataRead < csumOffset inSize) :
    runFrom D inSize outSize s = afterPass D inSize outSize (pass D inSize outSize s) := by
  rw [runFrom, lzfLoop, dif_pos h]
  split <;> rename_i heq <;> rw [heq] <;> rfl

theorem runFrom_done (h : ¬ (s.processedSize < inSize.toNat ∧ s.dataRead < csumOffset inSize)) :
    runFrom D inSize outSize s = checkCsum inSize s := by
  rw [runFrom, lzfLoop, dif_neg h]
  rfl

/-- The loop in front of `rest`. -/
def LzfState.front (inSize : UInt32) (csize : Option Nat) (ucsize : Nat) (out rest : List UInt8) :
    LzfState where
  dataCsize := csize
  dataUcsize := ucsize
  dataRead := inSize.toNat - rest.length
  csum := tegrablUtilsCrc32 0 out
  inBuffer := some rest
  processedSize := inSize.toNat - rest.length
  out := out
  writtenSize := out.length

/-- The same behind the header of `rest`. -/
def LzfState.behind (inSize : UInt32) (csize : Option Nat) (ucsize : Nat) (out rest : List UInt8) :
    LzfState :=
  { LzfState.front inSize csize ucsize out rest with
    dataRead := inSize.toNat - rest.length + hdrSize csize
    processedSize := inSize.toNat - rest.length + hdrSize csize }

theorem csumOffset_eq (h : 4 ≤ inSize.toNat) : csumOffset inSize = inSize.toNat - 4 :=
  UInt32.toNat_sub_of_le _ _ (UInt32.le_iff_toNat_le.mpr h)

theorem readBytes_some {k : Nat} (h : k ≤ rest.length) : readBytes (some rest) k = some (rest.take k) := by
  rw [readBytes]
  split
  · next h0 => rw [h0, List.take_zero]
  · exact if_pos h

theorem readBytes_short {k : Nat} (h : rest.length < k) : readBytes (some rest) k = none := by
  rw [readBytes, if_neg (by omega)]
  exact if_neg (Nat.not_le.mpr h)

/-- The checksum is compared with the next bytes. -/
theorem checkCsum_front (h4 : 4 ≤ inSize.toNat) (hrest : rest.length = 4) :
    checkCsum inSize (.front inSize csize ucsize out rest) =
      some (if rest ≠ crcOf out then .error .invalid else .ok (out, out.length)) := by
  have hread : csumOffset inSize ≤ (LzfState.front inSize csize ucsize out rest).dataRead := by
    rw [csumOffset_eq h4]
    exact Nat.sub_le_sub_left hrest.le _
  rw [checkCsum, if_pos hread]
  show Option.map _ (readBytes (some rest) 4) = _
  rw [readBytes_some hrest.ge, List.take_of_length_le hrest.le]
  rfl

/-- Less than a checksum is left. -/
theorem runFrom_short (h4 : 4 ≤ inSize.toNat) (hrest : rest.length < 4) :
    runFrom D inSize outSize (.front inSize csize ucsize out rest) = none := by
  have hread : csumOffset inSize ≤ (LzfState.front inSize csize ucsize out rest).dataRead := by
    rw [csumOffset_eq h4]
    exact Nat.sub_le_sub_left hrest.le _
  rw [runFrom_done (fun h => absurd h.2 (Nat.not_lt.mpr hread)), checkCsum, if_pos hread]
  show Option.map _ (readBytes (some rest) 4) = _
  rw [readBytes_short hrest]
  rfl

/-- More than a checksum is left. -/
theorem runFrom_front (hlen : 4 < rest.length) (hle : rest.length ≤ inSize.toNat) :
    runFrom D inSize outSize (.front inSize csize ucsize out rest) = afterPass D inSize outSize
      (pass D inSize outSize (.front inSize csize ucsize out rest)) := by
  refine runFrom_pass ⟨?_, ?_⟩
  · show inSize.toNat - rest.length < inSize.toNat
    omega
  · rw [csumOffset_eq (by omega)]
    show inSize.toNat - rest.length < inSize.toNat - 4
    omega

/-- Leaving before the checksum is a success. -/
theorem checkCsum_early (hlen : 4 < rest.length) (hle : rest.length ≤ inSize.toNat) :
    checkCsum inSize (.front inSize csize ucsize out rest) = some (.ok (out, out.length)) := by
  refine if_neg (Nat.not_le.mpr ?_)
  rw [csumOffset_eq (by omega)]
  show inSize.toNat - rest.length < inSize.toNat - 4
  omega

theorem front_unprocessed (hle : rest.length ≤ inSize.toNat) :
    inSize.toNat - (LzfState.front inSize csize ucsize out rest).processedSize = rest.length := by
  show inSize.toNat - (inSize.toNat - rest.length) = rest.length
  omega

variable {h0 h1 h2 h3 h4 h5 h6 : UInt8}

/-- A stored block is taken. -/
theorem pass_zero (hle : (0x5A :: 0x56 :: 0 :: h3 :: h4 :: tail).length ≤ inSize.toNat) :
    pass D inSize outSize (.front inSize csize ucsize out (0x5A :: 0x56 :: 0 :: h3 :: h4 :: tail)) =
      payload D outSize (some tail) (0x5A :: 0x56 :: 0 :: h3 :: h4 :: tail).length
        (.behind inSize none (be16 h3 h4) out (0x5A :: 0x56 :: 0 :: h3 :: h4 :: tail)) := by
  have hmin : ¬ (0x5A :: 0x56 :: 0 :: h3 :: h4 :: tail : List UInt8).length < minHdrSize :=
    Nat.not_lt.mpr (Nat.le_add_left 5 tail.length)
  rw [pass, front_unprocessed hle, if_neg hmin]
  rfl

/-- A type-1 header may be there in part only. -/
theorem pass_one (hle : (0x5A :: 0x56 :: 1 :: h3 :: h4 :: tail).length ≤ inSize.toNat) :
    pass D inSize outSize (.front inSize csize ucsize out (0x5A :: 0x56 :: 1 :: h3 :: h4 :: tail)) =
      typeOne D outSize h3 h4 tail (0x5A :: 0x56 :: 1 :: h3 :: h4 :: tail).length
        (.front inSize csize ucsize out (0x5A :: 0x56 :: 1 :: h3 :: h4 :: tail)) := by
  have hmin : ¬ (0x5A :: 0x56 :: 1 :: h3 :: h4 :: tail : List UInt8).length < minHdrSize :=
    Nat.not_lt.mpr (Nat.le_add_left 5 tail.length)
  rw [pass, front_unprocessed hle, if_neg hmin]
  rfl

/-- A header is taken, and its payload is next. -/
theorem pass_header (h : Header rest csize' ucsize' tail) (hle : rest.length ≤ inSize.toNat) :
    pass D inSize outSize (.front inSize csize ucsize out rest) =
      payload D outSize (some tail) rest.length (.behind inSize csize' ucsize' out rest) := by
  rcases h with ⟨hi, lo, rfl, rfl, rfl⟩ | ⟨chi, clo, uhi, ulo, rfl, rfl, rfl⟩
  · exact pass_zero hle
  · have htype : ¬ (0x5A :: 0x56 :: 1 :: chi :: clo :: uhi :: ulo :: tail : List UInt8).length <
        type1HdrSize := Nat.not_lt.mpr (Nat.le_add_left 7 tail.length)
    rw [pass_one hle]
    unfold typeOne
    rw [if_neg htype]
    rfl

theorem five_bytes (h : 4 < rest.length) :
    ∃ h0 h1 h2 h3 h4 tail, rest = h0 :: h1 :: h2 :: h3 :: h4 :: tail := by
  rcases rest with _ | ⟨h0, _ | ⟨h1, _ | ⟨h2, _ | ⟨h3, _ | ⟨h4, tail⟩⟩⟩⟩⟩
  · exact absurd h (by decide)
  · exact absurd h (by simp)
  · exact absurd h (by simp)
  · exact absurd h (by simp)
  · exact absurd h (by simp)
  · exact ⟨h0, h1, h2, h3, h4, tail, rfl⟩

theorem pass_eof (hlen : 4 < (0 :: rest).length) (hle : (0 :: rest).length ≤ inSize.toNat) :
    pass D inSize outSize (.front inSize csize ucsize out (0 :: rest)) =
      some (.leave (.front inSize csize ucsize out (0 :: rest))) := by
  obtain ⟨h0, h1, h2, h3, h4, tail, hrest⟩ := five_bytes hlen
  cases hrest
  rw [pass, front_unprocessed hle, if_neg (Nat.not_lt.mpr hlen)]
  rfl

/-- What is neither an EOF nor the beginning of a header is an error. -/
theorem pass_invalid (hlen : 4 < rest.length) (hle : rest.length ≤ inSize.toNat)
    (heof : rest.head? ≠ some 0) (hzero : rest.take 3 ≠ [0x5A, 0x56, 0])
    (hone : rest.take 3 ≠ [0x5A, 0x56, 1]) :
    pass D inSize outSize (.front inSize csize ucsize out rest) = some (.fail .invalid) := by
  obtain ⟨h0, h1, h2, h3, h4, tail, rfl⟩ := five_bytes hlen
  have h0ne : h0 ≠ 0 := fun h => heof (congrArg some h)
  rw [pass, front_unprocessed hle, if_neg (Nat.not_lt.mpr hlen)]
  show (if h0 = 0 then some (Flow.leave _) else if h0 ≠ 0x5A ∨ h1 ≠ 0x56 then some (.fail .invalid)
    else if h2 = 0 then payload _ _ _ _ _ else if h2 = 1 then typeOne _ _ _ _ _ _ _
    else some (.fail .invalid)) = _
  rw [if_neg h0ne]
  by_cases hmagic : h0 ≠ 0x5A ∨ h1 ≠ 0x56
  · rw [if_pos hmagic]
  · obtain ⟨rfl, rfl⟩ : h0 = 0x5A ∧ h1 = 0x56 := by simpa [not_or] using hmagic
    have hz : h2 ≠ 0 := fun h => hzero (by rw [h]; rfl)
    have ho : h2 ≠ 1 := fun h => hone (by rw [h]; rfl)
    rw [if_neg hmagic, if_neg hz, if_neg ho]

/-! ## The payload -/

theorem payload_missing (h : rest.length < remSize csize ucsize) :
    payload D outSize (some tail) rest.length (.behind inSize csize ucsize out rest) =
      some (.leave (.behind inSize csize ucsize out rest)) := if_pos h

/-- Behind a header so close to the end that it has been counted up to the checksum,
the header is compared. -/
theorem checkCsum_behind (h : Header rest csize ucsize tail) (hle : rest.length ≤ inSize.toNat) :
    checkCsum inSize (.behind inSize csize ucsize out rest) =
      some (if tail.length ≤ 4 ∧ rest.take 4 ≠ crcOf out then .error .invalid
        else .ok (out, out.length)) := by
  have hlen := h.length
  have hfour := h.four_lt
  have hread : csumOffset inSize ≤ (LzfState.behind inSize csize ucsize out rest).dataRead ↔
      tail.length ≤ 4 := by
    rw [csumOffset_eq (by omega)]
    show inSize.toNat - 4 ≤ inSize.toNat - rest.length + hdrSize csize ↔ _
    omega
  rw [checkCsum]
  by_cases htail : tail.length ≤ 4
  · rw [if_pos (hread.mpr htail)]
    show Option.map _ (readBytes (some rest) 4) = _
    rw [readBytes_some hfour.le]
    show some (if rest.take 4 ≠ crcOf out then _ else _) = _
    by_cases hcrc : rest.take 4 ≠ crcOf out
    · rw [if_pos hcrc, if_pos ⟨htail, hcrc⟩]
    · rw [if_neg hcrc, if_neg (fun h => hcrc h.2)]
      rfl
  · rw [if_neg (fun h => htail (hread.mp h)), if_neg (fun h => htail h.1)]
    rfl

theorem payload_noRoom (hin : remSize csize ucsize ≤ rest.length) (hout : out.length ≤ outSize.toNat)
    (hroom : outSize.toNat < out.length + ucsize) :
    payload D outSize (some tail) rest.length (.behind inSize csize ucsize out rest) =
      some (.fail .overflow) := by
  have hlt : outSize.toNat - (LzfState.behind inSize csize ucsize out rest).out.length <
      (LzfState.behind inSize csize ucsize out rest).dataUcsize := by
    show outSize.toNat - out.length < ucsize
    omega
  have hnot : ¬ rest.length < remSize (LzfState.behind inSize csize ucsize out rest).dataCsize
    (LzfState.behind inSize csize ucsize out rest).dataUcsize := Nat.not_lt.mpr hin
  rw [payload, if_neg hnot, if_pos hlt]

/-- The payload is read. -/
theorem payload_read (hin : remSize csize ucsize ≤ rest.length)
    (hroom : out.length + ucsize ≤ outSize.toNat) :
    payload D outSize (some tail) rest.length (.behind inSize csize ucsize out rest) =
      (readBytes (some tail) (remSize csize ucsize)).bind fun bytes =>
        if csize.isSome && (contentsOf D csize ucsize bytes).length != ucsize then
          some (.fail .badParameter)
        else advance outSize (some tail) (contentsOf D csize ucsize bytes)
          (.behind inSize csize ucsize out rest) := by
  have hlt : ¬ outSize.toNat - (LzfState.behind inSize csize ucsize out rest).out.length <
      (LzfState.behind inSize csize ucsize out rest).dataUcsize := by
    show ¬ outSize.toNat - out.length < ucsize
    omega
  have hnot : ¬ rest.length < remSize (LzfState.behind inSize csize ucsize out rest).dataCsize
    (LzfState.behind inSize csize ucsize out rest).dataUcsize := Nat.not_lt.mpr hin
  rw [payload, if_neg hnot, if_neg hlt]
  rfl

theorem crc32_append (xs ys : List UInt8) :
    tegrablUtilsCrc32 (tegrablUtilsCrc32 0 xs) ys = tegrablUtilsCrc32 0 (xs ++ ys) := by
  rw [tegrablUtilsCrc32, tegrablUtilsCrc32, tegrablUtilsCrc32, List.foldl_append, UInt32.xor_assoc,
    UInt32.xor_self, UInt32.xor_zero]

/-- The next pass begins behind the block. -/
theorem advance_block (h : Header rest csize ucsize tail) (hle : rest.length ≤ inSize.toNat)
    (hin : remSize csize ucsize ≤ tail.length) (hlen : contents.length = ucsize)
    (hroom : out.length + ucsize ≤ outSize.toNat) :
    advance outSize (some tail) contents (.behind inSize csize ucsize out rest) =
      some (.again (.front inSize csize ucsize (out ++ contents)
        (tail.drop (remSize csize ucsize)))) := by
  have hrest := h.length
  have hfit : (LzfState.behind inSize csize ucsize out rest).out.length + contents.length ≤
      outSize.toNat := by
    show out.length + contents.length ≤ outSize.toNat
    omega
  have hcount : inSize.toNat - rest.length + hdrSize csize + remSize csize ucsize =
      inSize.toNat - (tail.drop (remSize csize ucsize)).length := by
    rw [List.length_drop]
    omega
  have hwritten : out.length + ucsize = (out ++ contents).length := by
    rw [List.length_append, hlen]
  rw [advance, if_pos hfit]
  simp only [LzfState.behind, LzfState.front, hcount, hwritten, crc32_append, Option.map_some]

/-! ## A block in front -/

theorem runFrom_missing (h : Header rest csize' ucsize' tail) (hle : rest.length ≤ inSize.toNat)
    (hmiss : rest.length < remSize csize' ucsize') :
    runFrom D inSize outSize (.front inSize csize ucsize out rest) =
      some (if tail.length ≤ 4 ∧ rest.take 4 ≠ crcOf out then .error .invalid
        else .ok (out, out.length)) := by
  rw [runFrom_front h.four_lt hle, pass_header h hle, payload_missing hmiss]
  exact checkCsum_behind h hle

theorem runFrom_noRoom (h : Header rest csize' ucsize' tail) (hle : rest.length ≤ inSize.toNat)
    (hin : remSize csize' ucsize' ≤ rest.length) (hout : out.length ≤ outSize.toNat)
    (hroom : outSize.toNat < out.length + ucsize') :
    runFrom D inSize outSize (.front inSize csize ucsize out rest) = some (.error .overflow) := by
  rw [runFrom_front h.four_lt hle, pass_header h hle, payload_noRoom hin hout hroom]
  rfl

/-- The payload goes past the input. -/
theorem runFrom_past (h : Header rest csize' ucsize' tail) (hle : rest.length ≤ inSize.toNat)
    (hin : remSize csize' ucsize' ≤ rest.length) (hroom : out.length + ucsize' ≤ outSize.toNat)
    (hpast : tail.length < remSize csize' ucsize') :
    runFrom D inSize outSize (.front inSize csize ucsize out rest) = none := by
  rw [runFrom_front h.four_lt hle, pass_header h hle, payload_read hin hroom, readBytes_short hpast]
  rfl

theorem runFrom_undecoded (h : Header rest csize' ucsize' tail) (hle : rest.length ≤ inSize.toNat)
    (hin : remSize csize' ucsize' ≤ tail.length) (hroom : out.length + ucsize' ≤ outSize.toNat)
    (hno : (contentsAt D csize' ucsize' tail).length ≠ ucsize') :
    runFrom D inSize outSize (.front inSize csize ucsize out rest) = some (.error .badParameter) := by
  have hrest := h.length
  have hcheck : (csize'.isSome && (contentsAt D csize' ucsize' tail).length != ucsize') = true := by
    cases csize' with
    | none => exact absurd (contentsAt_none hin) hno
    | some k => simp [hno]
  rw [runFrom_front h.four_lt hle, pass_header h hle, payload_read (by omega) hroom,
    readBytes_some hin]
  show afterPass D inSize outSize (if csize'.isSome && (contentsAt D csize' ucsize' tail).length !=
    ucsize' then some (.fail .badParameter) else _) = _
  rw [if_pos hcheck]
  rfl

theorem runFrom_block (h : Header rest csize' ucsize' tail) (hle : rest.length ≤ inSize.toNat)
    (hin : remSize csize' ucsize' ≤ tail.length) (hroom : out.length + ucsize' ≤ outSize.toNat)
    (hcontents : (contentsAt D csize' ucsize' tail).length = ucsize') :
    runFrom D inSize outSize (.front inSize csize ucsize out rest) =
      runFrom D inSize outSize (.front inSize csize' ucsize'
        (out ++ contentsAt D csize' ucsize' tail) (tail.drop (remSize csize' ucsize'))) := by
  have hrest := h.length
  have hcheck : ¬ (csize'.isSome && (contentsAt D csize' ucsize' tail).length != ucsize') = true := by
    simp [hcontents]
  rw [runFrom_front h.four_lt hle, pass_header h hle, payload_read (by omega) hroom,
    readBytes_some hin]
  show afterPass D inSize outSize (if csize'.isSome && (contentsAt D csize' ucsize' tail).length !=
    ucsize' then _ else advance outSize (some tail) (contentsAt D csize' ucsize' tail)
      (.behind inSize csize' ucsize' out rest)) = _
  rw [if_neg hcheck, advance_block h hle hin hcontents hroom]
  rfl

/-- Of a type-1 header there is only a part; the last block is done again from `NULL`. -/
theorem runFrom_cut (hlen : 4 < rest.length) (hle : rest.length ≤ inSize.toNat)
    (hshort : rest.length < type1HdrSize) (htake : rest.take 3 = [0x5A, 0x56, 1]) :
    runFrom D inSize outSize (.front inSize csize ucsize out rest) = afterPass D inSize outSize
      (payload D outSize none rest.length (.front inSize csize ucsize out rest)) := by
  rw [runFrom_front hlen hle]
  obtain ⟨h0, h1, h2, h3, h4, tail, rfl⟩ := five_bytes hlen
  cases htake
  rw [pass_one hle]
  unfold typeOne
  rw [if_pos hshort]

/-! ## Every input -/

/-- Less than a checksum does not settle. -/
theorem Settles.four_le (h : Settles D outSize csize ucsize out rest) : 4 ≤ rest.length := by
  cases h with
  | csum hlen => exact hlen.ge
  | eof =>
      rw [List.length_cons, length_crcOf]
      decide
  | noBlock hlen _ _ _ => exact hlen.le
  | cut hlen _ _ _ _ => exact hlen.le
  | missing h _ _ _ => exact h.four_lt.le
  | noRoom h _ _ => exact h.four_lt.le
  | undecoded h _ _ => exact h.four_lt.le
  | block h _ _ _ _ => exact h.four_lt.le

/-- With a header in front, its block decides. -/
theorem Header.settles_iff (h : Header rest csize' ucsize' tail) :
    Settles D outSize csize ucsize out rest ↔
      (rest.length < remSize csize' ucsize' ∧ tail.length ≤ 4 ∧ rest.take 4 ≠ crcOf out) ∨
      (remSize csize' ucsize' ≤ rest.length ∧ outSize.toNat < out.length + ucsize') ∨
      (remSize csize' ucsize' ≤ tail.length ∧ (contentsAt D csize' ucsize' tail).length ≠ ucsize') ∨
      (remSize csize' ucsize' ≤ tail.length ∧ (contentsAt D csize' ucsize' tail).length = ucsize' ∧
        out.length + ucsize' ≤ outSize.toNat ∧
        Settles D outSize csize' ucsize' (out ++ contentsAt D csize' ucsize' tail)
          (tail.drop (remSize csize' ucsize'))) := by
  constructor
  · intro hs
    cases hs with
    | csum hlen => exact absurd h.four_lt (by omega)
    | eof => cases h.head
    | noBlock _ _ hzero hone => exact absurd h.kind (by tauto)
    | cut _ hlen htake _ _ =>
        rcases h.kind with hkind | hkind
        · rw [htake] at hkind
          exact absurd hkind (by decide)
        · exact absurd hlen (Nat.not_lt.mpr hkind.2)
    | missing h' hmiss htail htake =>
        obtain ⟨rfl, rfl, rfl⟩ := h.unique h'
        exact .inl ⟨hmiss, htail, htake⟩
    | noRoom h' hin hroom =>
        obtain ⟨rfl, rfl, rfl⟩ := h.unique h'
        exact .inr (.inl ⟨hin, hroom⟩)
    | undecoded h' hin hout =>
        obtain ⟨rfl, rfl, rfl⟩ := h.unique h'
        exact .inr (.inr (.inl ⟨hin, hout⟩))
    | block h' hin hout hroom hs =>
        obtain ⟨rfl, rfl, rfl⟩ := h.unique h'
        exact .inr (.inr (.inr ⟨hin, hout, hroom, hs⟩))
  · rintro (⟨hmiss, htail, htake⟩ | ⟨hin, hroom⟩ | ⟨hin, hout⟩ | ⟨hin, hout, hroom, hs⟩)
    · exact .missing h hmiss htail htake
    · exact .noRoom h hin hroom
    · exact .undecoded h hin hout
    · exact .block h hin hout hroom hs

variable (D outSize) in
/-- The call from `rest` on is right. -/
def RightFrom (inSize : UInt32) (csize : Option Nat) (ucsize : Nat) (out rest : List UInt8) : Prop :=
  DecodesAs D outSize (runFrom D inSize outSize (.front inSize csize ucsize out rest)) out rest

/-- A header in front, when the question is settled for what is behind its block. -/
theorem header_case (h : Header rest csize' ucsize' tail) (hle : rest.length ≤ inSize.toNat)
    (hout : out.length ≤ outSize.toNat)
    (ih : 4 ≤ (tail.drop (remSize csize' ucsize')).length → remSize csize' ucsize' ≤ tail.length →
      (contentsAt D csize' ucsize' tail).length = ucsize' →
      out.length + ucsize' ≤ outSize.toNat →
      (RightFrom D outSize inSize csize' ucsize' (out ++ contentsAt D csize' ucsize' tail)
          (tail.drop (remSize csize' ucsize')) ↔
        Settles D outSize csize' ucsize' (out ++ contentsAt D csize' ucsize' tail)
          (tail.drop (remSize csize' ucsize')))) :
    RightFrom D outSize inSize csize ucsize out rest ↔ Settles D outSize csize ucsize out rest := by
  have hrest := h.length
  have hfour := h.four_lt
  rw [h.settles_iff]
  rcases Nat.lt_or_ge rest.length (remSize csize' ucsize') with hmiss | hin
  · have hno : ∀ final, ¬ Decodes D outSize out rest final := by
      intro final hd
      have := (h.decodes_iff.mp hd).1
      omega
    rw [RightFrom, runFrom_missing h hle hmiss]
    by_cases hcmp : tail.length ≤ 4 ∧ rest.take 4 ≠ crcOf out
    · rw [if_pos hcmp, decodesAs_error]
      exact ⟨fun _ => .inl ⟨hmiss, hcmp⟩, fun _ => hno⟩
    · rw [if_neg hcmp]
      refine ⟨fun hd => absurd hd (not_decodesAs_ok hno), ?_⟩
      rintro (⟨-, hcmp'⟩ | ⟨hin, -⟩ | ⟨hin, -⟩ | ⟨hin, -⟩)
      · exact absurd hcmp' hcmp
      all_goals omega
  rcases Nat.lt_or_ge outSize.toNat (out.length + ucsize') with hroom | hroom
  · rw [RightFrom, runFrom_noRoom h hle hin hout hroom, decodesAs_error]
    refine ⟨fun _ => .inr (.inl ⟨hin, hroom⟩), fun _ final hd => ?_⟩
    obtain ⟨-, hcontents, hd'⟩ := h.decodes_iff.mp hd
    have := hd'.out_le
    rw [List.length_append, hcontents] at this
    omega
  rcases Nat.lt_or_ge tail.length (remSize csize' ucsize') with hpast | htail
  · rw [RightFrom, runFrom_past h hle hin hroom hpast]
    refine ⟨fun hd => absurd hd not_decodesAs_none, ?_⟩
    rintro (⟨hmiss, -⟩ | ⟨-, hroom'⟩ | ⟨htail, -⟩ | ⟨htail, -⟩)
    all_goals omega
  by_cases hcontents : (contentsAt D csize' ucsize' tail).length = ucsize'
  · rw [RightFrom, runFrom_block h hle htail hroom hcontents, h.decodesAs htail hcontents, ← RightFrom]
    have hback : RightFrom D outSize inSize csize' ucsize' (out ++ contentsAt D csize' ucsize' tail)
          (tail.drop (remSize csize' ucsize')) ↔
        Settles D outSize csize' ucsize' (out ++ contentsAt D csize' ucsize' tail)
          (tail.drop (remSize csize' ucsize')) := by
      rcases Nat.lt_or_ge (tail.drop (remSize csize' ucsize')).length 4 with hend | hmore
      · rw [RightFrom, runFrom_short (by omega) hend]
        exact ⟨fun hd => absurd hd not_decodesAs_none,
          fun hs => absurd hs.four_le (Nat.not_le.mpr hend)⟩
      · exact ih hmore htail hcontents hroom
    rw [hback]
    refine ⟨fun hs => .inr (.inr (.inr ⟨htail, hcontents, hroom, hs⟩)), ?_⟩
    rintro (⟨hmiss, -⟩ | ⟨-, hroom'⟩ | ⟨-, hno⟩ | ⟨-, -, -, hs⟩)
    · omega
    · omega
    · exact absurd hcontents hno
    · exact hs
  · rw [RightFrom, runFrom_undecoded h hle htail hroom hcontents, decodesAs_error]
    exact ⟨fun _ => .inr (.inr (.inl ⟨htail, hcontents⟩)),
      fun _ final hd => hcontents (h.decodes_iff.mp hd).2.1⟩

/-- The sizes of the last block go with what came out of it. -/
def LastBlock (D : BlockDecompressor) (csize : Option Nat) (ucsize : Nat) : Prop :=
  csize = some 0 → (D.lzfDecompress [] ucsize).length = ucsize

theorem lastBlock_next (h : (contentsAt D csize ucsize tail).length = ucsize) :
    LastBlock D csize ucsize := by
  intro h0
  rw [contentsAt, h0] at h
  exact h

theorem noHeader_of_cut (hshort : rest.length < type1HdrSize) (htake : rest.take 3 = [0x5A, 0x56, 1]) :
    ¬ Header rest csize ucsize tail := by
  intro h
  rcases h.kind with hkind | hkind
  · rw [htake] at hkind
    exact absurd hkind (by decide)
  · exact absurd hshort (Nat.not_lt.mpr hkind.2)

theorem settles_cut_iff (hlen : 4 < rest.length) (hshort : rest.length < type1HdrSize)
    (htake : rest.take 3 = [0x5A, 0x56, 1]) :
    Settles D outSize csize ucsize out rest ↔
      remSize csize ucsize ≤ rest.length ∧ outSize.toNat < out.length + ucsize := by
  constructor
  · intro hs
    cases hs with
    | csum h => omega
    | eof => cases htake
    | noBlock _ _ _ hone => exact absurd htake hone
    | cut _ _ _ hrem hroom => exact ⟨hrem, hroom⟩
    | missing h _ _ _ => exact absurd h (noHeader_of_cut hshort htake)
    | noRoom h _ _ => exact absurd h (noHeader_of_cut hshort htake)
    | undecoded h _ _ => exact absurd h (noHeader_of_cut hshort htake)
    | block h _ _ _ _ => exact absurd h (noHeader_of_cut hshort htake)
  · rintro ⟨hrem, hroom⟩
    exact .cut hlen hshort htake hrem hroom

theorem runFrom_null (h : s.processedSize < inSize.toNat ∧ s.dataRead < csumOffset inSize)
    (hbuf : s.inBuffer = none) (hmin : ¬ inSize.toNat - s.processedSize < minHdrSize) :
    runFrom D inSize outSize s = none := by
  rw [runFrom_pass h, pass, if_neg hmin, hbuf]
  rfl

/-- A block that is done again from `NULL` leads to a read there. -/
theorem again_from_null (hlen : 4 < rest.length) (hle : rest.length ≤ inSize.toNat)
    (hlast : LastBlock D csize ucsize) (hin : remSize csize ucsize ≤ rest.length)
    (hroom : out.length + ucsize ≤ outSize.toNat) :
    afterPass D inSize outSize
      (payload D outSize none rest.length (.front inSize csize ucsize out rest)) = none := by
  have hlt : ¬ outSize.toNat - (LzfState.front inSize csize ucsize out rest).out.length <
      (LzfState.front inSize csize ucsize out rest).dataUcsize := by
    show ¬ outSize.toNat - out.length < ucsize
    omega
  have hnot : ¬ rest.length < remSize (LzfState.front inSize csize ucsize out rest).dataCsize
    (LzfState.front inSize csize ucsize out rest).dataUcsize := Nat.not_lt.mpr hin
  rw [payload, if_neg hnot, if_neg hlt]
  by_cases hrem : remSize csize ucsize = 0
  · have hcontents : (contentsOf D csize ucsize []).length = ucsize := by
      cases csize with
      | none => exact hrem.symm
      | some k => exact hlast (congrArg some hrem)
    have hcheck : ¬ (csize.isSome && (contentsOf D csize ucsize []).length != ucsize) = true := by
      simp [hcontents]
    have hfit : (LzfState.front inSize csize ucsize out rest).out.length +
        (contentsOf D csize ucsize []).length ≤ outSize.toNat := by
      show out.length + _ ≤ _
      omega
    have hread : readBytes none (remSize (LzfState.front inSize csize ucsize out rest).dataCsize
        (LzfState.front inSize csize ucsize out rest).dataUcsize) = some [] := if_pos hrem
    rw [hread]
    show afterPass D inSize outSize (if csize.isSome && (contentsOf D csize ucsize []).length !=
      ucsize then _ else advance outSize none (contentsOf D csize ucsize [])
        (.front inSize csize ucsize out rest)) = none
    rw [if_neg hcheck, advance, if_pos hfit]
    have hproc : inSize.toNat - rest.length + remSize csize ucsize = inSize.toNat - rest.length := by
      rw [hrem, Nat.add_zero]
    refine runFrom_null ⟨?_, ?_⟩ rfl ?_
    · show inSize.toNat - rest.length + remSize csize ucsize < inSize.toNat
      omega
    · rw [csumOffset_eq (by omega)]
      show inSize.toNat - rest.length + remSize csize ucsize < inSize.toNat - 4
      omega
    · show ¬ inSize.toNat - (inSize.toNat - rest.length + remSize csize ucsize) < 5
      omega
  · have hread : readBytes none (remSize (LzfState.front inSize csize ucsize out rest).dataCsize
        (LzfState.front inSize csize ucsize out rest).dataUcsize) = none := if_neg hrem
    rw [hread]
    rfl

theorem cut_case (hlen : 4 < rest.length) (hle : rest.length ≤ inSize.toNat)
    (hshort : rest.length < type1HdrSize) (htake : rest.take 3 = [0x5A, 0x56, 1])
    (hout : out.length ≤ outSize.toNat) (hlast : LastBlock D csize ucsize) :
    RightFrom D outSize inSize csize ucsize out rest ↔ Settles D outSize csize ucsize out rest := by
  have hno : ∀ final, ¬ Decodes D outSize out rest final := by
    intro final hd
    rcases (decodes_of_noHeader (fun c u t => noHeader_of_cut hshort htake) hd).2 with h | h
    · rw [h, length_crcOf] at hlen
      exact absurd hlen (Nat.lt_irrefl 4)
    · rw [h] at htake
      cases htake
  rw [settles_cut_iff hlen hshort htake, RightFrom, runFrom_cut hlen hle hshort htake]
  rcases Nat.lt_or_ge rest.length (remSize csize ucsize) with hmiss | hin
  · have hpay : payload D outSize none rest.length (.front inSize csize ucsize out rest) =
        some (.leave (.front inSize csize ucsize out rest)) := if_pos hmiss
    rw [hpay]
    show DecodesAs D outSize (checkCsum inSize _) out rest ↔ _
    rw [checkCsum_early hlen hle]
    exact ⟨fun hd => absurd hd (not_decodesAs_ok hno), fun h => absurd h.1 (Nat.not_le.mpr hmiss)⟩
  · rcases Nat.lt_or_ge outSize.toNat (out.length + ucsize) with hroom | hroom
    · have hpay : payload D outSize none rest.length (.front inSize csize ucsize out rest) =
          some (.fail .overflow) := by
        have hlt : outSize.toNat - (LzfState.front inSize csize ucsize out rest).out.length <
            (LzfState.front inSize csize ucsize out rest).dataUcsize := by
          show outSize.toNat - out.length < ucsize
          omega
        have hnot : ¬ rest.length < remSize (LzfState.front inSize csize ucsize out rest).dataCsize
          (LzfState.front inSize csize ucsize out rest).dataUcsize := Nat.not_lt.mpr hin
        rw [payload, if_neg hnot, if_pos hlt]
      rw [hpay]
      show DecodesAs D outSize (some (.error .overflow)) out rest ↔ _
      rw [decodesAs_error]
      exact ⟨fun _ => ⟨hin, hroom⟩, fun _ => hno⟩
    · rw [again_from_null hlen hle hlast hin hroom]
      exact ⟨fun hd => absurd hd not_decodesAs_none, fun h => absurd h.2 (Nat.not_lt.mpr hroom)⟩

/-- An EOF with more than a checksum behind it, or with a wrong one, is a success too. -/
theorem eof_case (hlen : 4 < (0 :: rest).length) (hle : (0 :: rest).length ≤ inSize.toNat)
    (hout : out.length ≤ outSize.toNat) :
    RightFrom D outSize inSize csize ucsize out (0 :: rest) ↔
      Settles D outSize csize ucsize out (0 :: rest) := by
  have hno : ∀ c u t, ¬ Header (0 :: rest) c u t := by
    intro c u t h
    cases h.head
  have hend : ∀ final, Decodes D outSize out (0 :: rest) final → final = out :=
    fun final hd => (decodes_of_noHeader hno hd).1
  rw [RightFrom, runFrom_front hlen hle, pass_eof hlen hle]
  show DecodesAs D outSize (checkCsum inSize _) out (0 :: rest) ↔ _
  rw [checkCsum_early hlen hle, decodesAs_ok hend]
  constructor
  · intro hd
    rcases (decodes_of_noHeader hno hd).2 with h | h
    · rw [h, length_crcOf] at hlen
      exact absurd hlen (Nat.lt_irrefl 4)
    · cases h
      exact .eof
  · intro hs
    cases hs with
    | csum h => omega
    | eof => exact decodes_eof hout
    | noBlock _ h _ _ => exact absurd rfl h
    | cut _ _ h _ _ => cases h
    | missing h _ _ _ => exact absurd h (hno _ _ _)
    | noRoom h _ _ => exact absurd h (hno _ _ _)
    | undecoded h _ _ => exact absurd h (hno _ _ _)
    | block h _ _ _ _ => exact absurd h (hno _ _ _)

theorem noBlock_case (hlen : 4 < rest.length) (hle : rest.length ≤ inSize.toNat)
    (heof : rest.head? ≠ some 0) (hzero : rest.take 3 ≠ [0x5A, 0x56, 0])
    (hone : rest.take 3 ≠ [0x5A, 0x56, 1]) :
    RightFrom D outSize inSize csize ucsize out rest ↔ Settles D outSize csize ucsize out rest := by
  have hno : ∀ c u t, ¬ Header rest c u t := by
    intro c u t h
    rcases h.kind with h | h
    · exact hzero h
    · exact hone h.1
  rw [RightFrom, runFrom_front hlen hle, pass_invalid hlen hle heof hzero hone]
  show DecodesAs D outSize (some (.error .invalid)) out rest ↔ _
  rw [decodesAs_error]
  refine ⟨fun _ => .noBlock hlen heof hzero hone, fun _ final hd => ?_⟩
  rcases (decodes_of_noHeader hno hd).2 with h | h
  · rw [h, length_crcOf] at hlen
    exact absurd hlen (Nat.lt_irrefl 4)
  · rw [h] at heof
    exact heof rfl

/-- With four bytes left they are compared. -/
theorem csum_case (hrest : rest.length = 4) (hle : rest.length ≤ inSize.toNat)
    (hout : out.length ≤ outSize.toNat) :
    RightFrom D outSize inSize csize ucsize out rest ↔ Settles D outSize csize ucsize out rest := by
  have hno : ∀ c u t, ¬ Header rest c u t := by
    intro c u t h
    have := h.four_lt
    omega
  have hstop : ¬ ((LzfState.front inSize csize ucsize out rest).processedSize < inSize.toNat ∧
      (LzfState.front inSize csize ucsize out rest).dataRead < csumOffset inSize) := by
    rintro ⟨-, h⟩
    rw [csumOffset_eq (by omega)] at h
    change inSize.toNat - rest.length < inSize.toNat - 4 at h
    omega
  refine ⟨fun _ => .csum hrest, fun _ => ?_⟩
  rw [RightFrom, runFrom_done hstop, checkCsum_front (by omega) hrest]
  by_cases hcrc : rest ≠ crcOf out
  · rw [if_pos hcrc, decodesAs_error]
    intro final hd
    rcases (decodes_of_noHeader hno hd).2 with h | h
    · exact hcrc h
    · rw [h, List.length_cons, length_crcOf] at hrest
      omega
  · rw [if_neg hcrc, decodesAs_ok (fun final hd => (decodes_of_noHeader hno hd).1)]
    rw [not_not.mp hcrc]
    exact decodes_csum hout

/-- More than four bytes begin with an EOF, a whole header, a part of one, or none. -/
theorem front_cases (hlen : 4 < rest.length) :
    (∃ t, rest = 0 :: t) ∨ (∃ c u t, Header rest c u t) ∨
      (rest.length < type1HdrSize ∧ rest.take 3 = [0x5A, 0x56, 1]) ∨
      (rest.head? ≠ some 0 ∧ rest.take 3 ≠ [0x5A, 0x56, 0] ∧ rest.take 3 ≠ [0x5A, 0x56, 1]) := by
  obtain ⟨h0, h1, h2, h3, h4, tail, rfl⟩ := five_bytes hlen
  by_cases heof : h0 = 0
  · exact .inl ⟨_, by rw [heof]⟩
  by_cases hzero : [h0, h1, h2] = [0x5A, 0x56, 0]
  · cases hzero
    exact .inr (.inl ⟨none, be16 h3 h4, tail, .inl ⟨h3, h4, rfl, rfl, rfl⟩⟩)
  by_cases hone : [h0, h1, h2] = [0x5A, 0x56, 1]
  · rcases tail with _ | ⟨h5, _ | ⟨h6, data⟩⟩
    · exact .inr (.inr (.inl ⟨(by decide : 5 < 7), hone⟩))
    · exact .inr (.inr (.inl ⟨(by decide : 6 < 7), hone⟩))
    · cases hone
      exact .inr (.inl ⟨some (be16 h3 h4), be16 h5 h6, data, .inr ⟨h3, h4, h5, h6, rfl, rfl, rfl⟩⟩)
  · exact .inr (.inr (.inr ⟨fun h => heof (Option.some.inj h), hzero, hone⟩))

/-- From every place on, the call is right exactly when the rest settles; by
induction on what is left. -/
theorem right_from_iff (hle : rest.length ≤ inSize.toNat) (hmin : 4 ≤ rest.length)
    (hout : out.length ≤ outSize.toNat) (hlast : LastBlock D csize ucsize) :
    RightFrom D outSize inSize csize ucsize out rest ↔ Settles D outSize csize ucsize out rest := by
  induction hn : rest.length using Nat.strong_induction_on generalizing rest csize ucsize out with
  | _ k ih =>
      rcases Nat.eq_or_lt_of_le hmin with hfour | hlen
      · exact csum_case hfour.symm hle hout
      · rcases front_cases hlen with ⟨t, rfl⟩ | ⟨c, u, t, h⟩ | ⟨hshort, htake⟩ | ⟨heof, hzero, hone⟩
        · exact eof_case hlen hle hout
        · refine header_case h hle hout ?_
          intro hmore hin hcontents hroom
          have hrest := h.length
          have hsize := hdrSize_pos c
          have hdrop := List.length_drop (i := remSize c u) (l := t)
          refine ih _ ?_ ?_ hmore ?_ (lastBlock_next hcontents) rfl
          · omega
          · omega
          · rw [List.length_append, hcontents]
            exact hroom
        · exact cut_case hlen hle hshort htake hout hlast
        · exact noBlock_case hlen hle heof hzero hone

theorem size_toNat (input : Input) : input.size.toNat = input.bytes.length :=
  Nat.mod_eq_of_lt input.small

theorem init_eq_front (input : Input) :
    LzfState.init input.bytes = .front input.size (some 0) 0 [] input.bytes := by
  rw [LzfState.front, size_toNat, Nat.sub_self]
  rfl

/-- With fewer than four bytes `csum_offset` has wrapped: nothing is done, and that is a
success. -/
theorem short_case (input : Input) (hshort : input.bytes.length < 4) :
    ¬ LzfRight D outSize input := by
  have hsize := size_toNat input
  have hno : ∀ final, ¬ Decodes D outSize [] input.bytes final :=
    fun final hd => absurd hd.four_le (Nat.not_le.mpr hshort)
  have hoff : 0 < csumOffset input.size := by
    have hne : input.size - 4 ≠ 0 := by
      intro h
      have := congrArg UInt32.toNat (sub_eq_zero.mp h)
      rw [hsize] at this
      exact absurd this (Nat.ne_of_lt hshort)
    exact Nat.pos_of_ne_zero (fun h => hne (UInt32.toNat_inj.mp h))
  have hcheck : checkCsum input.size (.init input.bytes) = some (.ok ([], 0)) :=
    if_neg (Nat.not_le.mpr hoff)
  have hresult : doDecompress D outSize input = some (.ok ([], 0)) := by
    rw [doDecompress]
    by_cases hgo : (LzfState.init input.bytes).processedSize < input.size.toNat ∧
        (LzfState.init input.bytes).dataRead < csumOffset input.size
    · have hmin : input.size.toNat - (LzfState.init input.bytes).processedSize < minHdrSize := by
        show input.size.toNat - 0 < 5
        omega
      rw [runFrom_pass hgo, pass, if_pos hmin]
      exact hcheck
    · rw [runFrom_done hgo, hcheck]
  rw [LzfRight, hresult]
  exact not_decodesAs_ok hno

/-- A call is right exactly for an input that settles. -/
theorem lzf_right_iff (D : BlockDecompressor) (outSize : UInt32) (input : Input) :
    LzfRight D outSize input ↔ Settles D outSize (some 0) 0 [] input.bytes := by
  rcases Nat.lt_or_ge input.bytes.length 4 with hshort | hmin
  · exact ⟨fun h => absurd h (short_case input hshort),
      fun h => absurd h.four_le (Nat.not_le.mpr hshort)⟩
  · rw [LzfRight, doDecompress, init_eq_front]
    refine right_from_iff (size_toNat input).ge hmin (Nat.zero_le _) (fun _ => ?_)
    exact Nat.le_zero.mp (D.bounded [] 0)

/-- A stored block of 100 bytes of which five are there. -/
def truncated : Input where
  bytes := [0x5A, 0x56, 0, 0, 100, 0x61, 0x62, 0x63, 0x64, 0x65]
  small := by decide

def noDecompressor : BlockDecompressor where
  lzfDecompress := fun _ _ => []
  bounded := fun _ _ => Nat.zero_le _

/-- The call succeeds with nothing. -/
theorem truncated_succeeds : doDecompress noDecompressor 100 truncated = some (.ok ([], 0)) ∧
    ¬ LzfRight noDecompressor 100 truncated := by
  have h : Header truncated.bytes none 100 [0x61, 0x62, 0x63, 0x64, 0x65] :=
    .inl ⟨0, 100, rfl, rfl, rfl⟩
  have hresult : doDecompress noDecompressor 100 truncated = some (.ok ([], 0)) := by
    rw [doDecompress, init_eq_front, runFrom_missing h (by decide) (by decide)]
    rfl
  refine ⟨hresult, ?_⟩
  rw [LzfRight, hresult]
  refine not_decodesAs_ok fun final hd => ?_
  exact absurd (h.decodes_iff.mp hd).1 (by decide)

end TX2SecureUart.Lzf
