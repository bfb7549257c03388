/-
# `Sparse.Terminates` — when a call of `tegrabl_sparse_unsparse` comes to an end

The two builds of `tegrabl_unsparse.c` differ in the checksum they keep of what
they write, and in what they do with a chunk that carries one.  With
`TEGRABL_CONFIG_ENABLE_SPARSE_CRC32` it is received and compared.  Without, a
pass over such a chunk prints a line and leaves everything as it was, so the
loop goes round for as long as there are bytes in the buffer: for ever.

The passes are counted here, so that a call that does not end can be told from
one that does.
-/
import TX2SecureUart.Sparse.Unsparse
import TX2SecureUart.Storage.Crc32

namespace TX2SecureUart.Sparse

open Storage (tegrablUtilsCrc32)

/-- `struct tegrabl_unsparse_state`, with the fields of the build with the checksum -/
structure CrcState where
  st : UnsparseState
  /-- `image_crc` and `computed_crc`, which lie one behind the other -/
  crcs : List UInt8

def initCrcState (maxUnsparseSize : Nat) : CrcState where
  st := initUnsparseState maxUnsparseSize
  crcs := List.replicate 8 0

/-- The locals of a call, with the state it works on. -/
structure CrcWork where
  work : Work
  crcs : List UInt8
  computedCrc : UInt32
  /-- whether `error` is `TEGRABL_ERR_VERIFY_FAILED` -/
  verifyFailed : Bool

abbrev CrcRes := Except (Stop × CrcWork) CrcWork

def CrcWork.imageCrc (w : CrcWork) : UInt32 := UInt32.ofNat (leNat (w.crcs.take 4))

/-! ## One pass -/

/-- The checksum after a call of the device. -/
def addCrc (crc : UInt32) : Event → UInt32
  | .write bytes => tegrablUtilsCrc32 crc bytes
  | .seek _ => crc

/-- Whether a pass from `w` to `w'` has assigned to `error`. -/
def setsError (w w' : Work) : Bool :=
  match w.state with
  | .imageHeader => w'.state ≠ .imageHeader
  | .chunkHeader => w'.state ≠ .chunkHeader
  | .raw => true
  | .fill => w'.events ≠ w.events
  | .dontCare => true
  | .crc => false

/-- What a pass that leads to `work` does to the checksum and to `error`. -/
def CrcWork.follow (crc32 : Bool) (w : CrcWork) (work : Work) : CrcWork :=
  { w with
    work := work
    computedCrc := if crc32 then
      (work.events.drop w.work.events.length).foldl addCrc w.computedCrc else w.computedCrc
    verifyFailed := w.verifyFailed && !setsError w.work work }

/-- The state `TEGRABL_UNSPARSE_PARTIAL_CHUNK_CRC`, with the checksum. -/
def passCrc (w : CrcWork) : CrcWork :=
  if w.work.offset < 4 then
    -- not `4 - offset`: the copy can go on into `computed_crc`
    let size := min w.work.buf.length 4
    { w with
      work := w.work.advance size
      crcs := overwrite w.crcs w.work.offset (w.work.buf.take size) }
  else
    -- `error` is set, but the loop goes on
    { w with
      work := w.work.nextChunk
      verifyFailed := w.verifyFailed || w.imageCrc ≠ w.computedCrc }

/-- A pass, in the build with the checksum or in the one without. -/
def passIn (crc32 : Bool) (io : Device) (w : CrcWork) : CrcRes :=
  if w.work.state = .crc then .ok (if crc32 then passCrc w else w)
  else
    match pass io w.work with
    | .error (stop, work) => .error (stop, w.follow crc32 work)
    | .ok work => .ok (w.follow crc32 work)

/-! ## A call -/

/-- The loop, if it ends within `n` passes. -/
def loopWithin (crc32 : Bool) (io : Device) : Nat → CrcWork → Option CrcRes
  | 0, _ => none
  | n + 1, w =>
      if w.work.Busy then
        match passIn crc32 io w with
        | .error r => some (.error r)
        | .ok w' => loopWithin crc32 io n w'
      else some (.ok w)

def startCrc (st : CrcState) (buff : List UInt8) (events : List Event) : CrcWork where
  work := startWork st.st buff events
  crcs := st.crcs
  computedCrc := UInt32.ofNat (leNat (st.crcs.drop 4))
  verifyFailed := false

structure CrcOutcome where
  /-- when the loop is left at its end, whether `error` is `TEGRABL_NO_ERROR` -/
  result : Except Stop Bool
  st : CrcState
  events : List Event

/-- What a call returns and saves. -/
def finish (crc32 : Bool) : CrcRes → CrcOutcome
  | .error (stop, w) =>
      { result := .error stop, st := { st := w.work.st, crcs := w.crcs }, events := w.work.events }
  | .ok w =>
      { result := .ok !w.verifyFailed
        st :=
          { st := { w.work.st with
              remaining := w.work.remaining
              offset := w.work.offset
              state := w.work.state
              chunksProcessed := w.work.chunksProcessed }
            crcs := if crc32 then w.crcs.take 4 ++ leBytes 4 w.computedCrc.toNat else w.crcs }
        events := w.work.events }

/-- `tegrabl_sparse_unsparse`, if it ends within `n` passes -/
def unsparseWithin (crc32 : Bool) (io : Device) (n : Nat) (st : CrcState) (buff : List UInt8)
    (events : List Event) : Option CrcOutcome :=
  if buff = [] then
    some { result := .error (.fail .badParameter), st := st, events := events }
  else (loopWithin crc32 io n (startCrc st buff events)).map (finish crc32)

/-- The call comes to an end. -/
def Ends (crc32 : Bool) (io : Device) (st : CrcState) (buff : List UInt8) (events : List Event) :
    Prop :=
  ∃ n out, unsparseWithin crc32 io n st buff events = some out

/-- The loop comes to a chunk with a checksum, with bytes left. -/
inductive MeetsCrc (io : Device) : Work → Prop where
  | here {w : Work} : w.state = .crc → w.buf ≠ [] → MeetsCrc io w
  | later {w w' : Work} : w.Busy → pass io w = .ok w' → MeetsCrc io w' → MeetsCrc io w

/-! ## Without the checksum -/

theorem pass_not_crc {io : Device} {w w' : Work} (h : pass io w = .ok w') : w.state ≠ .crc := by
  intro hstate
  rw [pass, hstate] at h
  cases h

theorem passIn_of_pass {crc32 : Bool} {io : Device} {w : CrcWork} {work : Work}
    (h : pass io w.work = .ok work) : passIn crc32 io w = .ok (w.follow crc32 work) := by
  rw [passIn, if_neg (pass_not_crc h), h]

theorem pass_of_passIn {crc32 : Bool} {io : Device} {w w' : CrcWork}
    (hstate : w.work.state ≠ .crc) (h : passIn crc32 io w = .ok w') :
    pass io w.work = .ok w'.work := by
  rw [passIn, if_neg hstate] at h
  split at h
  · cases h
  · rename_i work hpass
    cases h
    exact hpass

theorem loopWithin_busy {crc32 : Bool} {io : Device} {w w' : CrcWork} (hbusy : w.work.Busy)
    (h : passIn crc32 io w = .ok w') (n : Nat) :
    loopWithin crc32 io (n + 1) w = loopWithin crc32 io n w' := by
  rw [loopWithin, if_pos hbusy, h]

/-- No number of passes gets past a chunk with a checksum. -/
theorem loopWithin_meetsCrc {io : Device} {w : CrcWork} (h : MeetsCrc io w.work) (n : Nat) :
    loopWithin false io n w = none := by
  induction n generalizing w with
  | zero => rfl
  | succ n ih =>
      have hmeets := h
      cases h with
      | here hstate hbuf =>
          have hpass : passIn false io w = .ok w := by
            rw [passIn, if_pos hstate]
            rfl
          rw [loopWithin_busy (.inl hbuf) hpass]
          exact ih hmeets
      | later hbusy hpass hlater =>
          rw [loopWithin_busy hbusy (passIn_of_pass hpass)]
          exact ih hlater

/-- The loop of `Sparse.Unsparse` says of such a run that it has no end. -/
theorem loop_meetsCrc {io : Device} {w : Work} (h : MeetsCrc io w) :
    ∃ w', loop io w = .error (.hangs, w') := by
  induction h with
  | @here w hstate hbuf =>
      have hpass : pass io w = .error (.hangs, w) := by
        rw [pass, hstate]
      refine ⟨w, ?_⟩
      rw [loop, dif_pos (.inl hbuf)]
      split
      · rename_i r hr
        rw [← hr, hpass]
      · rename_i w' hr
        rw [hpass] at hr
        cases hr
  | later hbusy hpass _ ih =>
      obtain ⟨w', hloop⟩ := ih
      refine ⟨w', ?_⟩
      rw [loop, dif_pos hbusy]
      split
      · rename_i r hr
        rw [hpass] at hr
        cases hr
      · rename_i w₁ hr
        rw [hpass] at hr
        cases hr
        exact hloop

/-! ## The measure -/

/-- Behind the measure of a pass without the checksum, its state comes first. -/
def CrcWork.measure (w : CrcWork) : Nat :=
  2 * w.work.measure + (if w.work.state = .crc then 1 else 0)

theorem passCrc_measure {w : CrcWork} (hstate : w.work.state = .crc) (hbuf : w.work.buf ≠ []) :
    (passCrc w).measure < w.measure := by
  have hpos : 0 < w.work.buf.length := List.length_pos_iff.mpr hbuf
  have hrank : w.work.rank = 0 := by rw [Work.rank, hstate]
  rw [passCrc]
  split
  · have hnew : (w.work.advance (min w.work.buf.length 4)).rank = 0 := by
      have hsame : (w.work.advance (min w.work.buf.length 4)).state = .crc := hstate
      rw [Work.rank, hsame]
    have hlen : (w.work.advance (min w.work.buf.length 4)).buf.length =
        w.work.buf.length - min w.work.buf.length 4 := List.length_drop
    rw [CrcWork.measure, CrcWork.measure, Work.measure, Work.measure]
    dsimp only
    rw [hnew, hrank, hlen, if_pos hstate]
    split <;> omega
  · have hnew : w.work.nextChunk.measure = w.work.measure := by
      rw [Work.measure, Work.measure, hrank]
      rfl
    rw [CrcWork.measure, CrcWork.measure]
    dsimp only
    have hstate' : w.work.nextChunk.state ≠ .crc := by
      show Phase.chunkHeader ≠ .crc
      decide
    rw [hnew, if_pos hstate, if_neg hstate']
    exact Nat.lt_succ_self _

theorem passIn_measure {crc32 : Bool} {io : Device} {w w' : CrcWork} (hbusy : w.work.Busy)
    (hcrc : crc32 = true ∨ w.work.state ≠ .crc) (h : passIn crc32 io w = .ok w') :
    w'.measure < w.measure := by
  rcases eq_or_ne w.work.state .crc with hstate | hstate
  · have hbuf : w.work.buf ≠ [] := by
      refine hbusy.resolve_right ?_
      rw [hstate]
      decide
    rw [passIn, if_pos hstate, if_pos (hcrc.resolve_right (not_not.mpr hstate))] at h
    cases h
    exact passCrc_measure hstate hbuf
  · have hlt := pass_measure hbusy (pass_of_passIn hstate h)
    rw [CrcWork.measure, CrcWork.measure, if_neg hstate]
    split <;> omega

theorem loopWithin_ends {crc32 : Bool} {io : Device} {w : CrcWork}
    (h : crc32 = true ∨ ¬ MeetsCrc io w.work) : ∃ n r, loopWithin crc32 io n w = some r := by
  induction hm : w.measure using Nat.strong_induction_on generalizing w with
  | _ m ih =>
      by_cases hbusy : w.work.Busy
      · have hcrc : crc32 = true ∨ w.work.state ≠ .crc := by
          refine h.imp_right fun hmeets hstate => hmeets (.here hstate ?_)
          refine hbusy.resolve_right ?_
          rw [hstate]
          decide
        cases hpass : passIn crc32 io w with
        | error r =>
            refine ⟨1, .error r, ?_⟩
            rw [loopWithin, if_pos hbusy, hpass]
        | ok w' =>
            have hlt := passIn_measure hbusy hcrc hpass
            have h' : crc32 = true ∨ ¬ MeetsCrc io w'.work := by
              rcases hcrc with hon | hstate
              · exact .inl hon
              · refine h.imp_right fun hmeets hlater => hmeets ?_
                exact .later hbusy (pass_of_passIn hstate hpass) hlater
            obtain ⟨n, r, hloop⟩ := ih _ (hm ▸ hlt) h' rfl
            exact ⟨n + 1, r, (loopWithin_busy hbusy hpass n).trans hloop⟩
      · exact ⟨1, .ok w, by rw [loopWithin, if_neg hbusy]⟩

theorem pass_nil {io : Device} {w w' : Work} (hbusy : w.Busy) (h : pass io w = .ok w')
    (hbuf : w.buf = []) : w'.buf = [] := by
  have hlt := pass_measure hbusy h
  have hrank := rank_le w
  rw [Work.measure, Work.measure, hbuf, List.length_nil] at hlt
  exact List.length_eq_zero_iff.mp (by omega)

theorem MeetsCrc.ne_nil {io : Device} {w : Work} (h : MeetsCrc io w) : w.buf ≠ [] := by
  induction h with
  | here _ hbuf => exact hbuf
  | later hbusy hpass _ ih => exact fun hnil => ih (pass_nil hbusy hpass hnil)

theorem unsparseWithin_meetsCrc {io : Device} {st : CrcState} {buff : List UInt8}
    {events : List Event} (h : MeetsCrc io (startWork st.st buff events)) (n : Nat) :
    unsparseWithin false io n st buff events = none := by
  have hne : buff ≠ [] := h.ne_nil
  have hloop : loopWithin false io n (startCrc st buff events) = none := loopWithin_meetsCrc h n
  rw [unsparseWithin, if_neg hne, hloop, Option.map_none]

/-- An image of one chunk that carries a checksum, with the checksum. -/
def crcImage : List UInt8 :=
  [0x3A, 0xFF, 0x26, 0xED, 1, 0, 0, 0, 28, 0, 12, 0, 0, 16, 0, 0, 0, 0, 0, 0, 1, 0, 0, 0,
    0, 0, 0, 0] ++
  [0xC4, 0xCA, 0, 0, 0, 0, 0, 0, 16, 0, 0, 0] ++ [0, 0, 0, 0]

end TX2SecureUart.Sparse
