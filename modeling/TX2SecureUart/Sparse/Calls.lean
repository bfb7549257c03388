/-
# `Sparse.Calls` — whole calls and whole downloads

The passes of a call, put together, take the stream over the whole buffer; the
calls of a download, put together, take it over all of them.  So a download
unpacks what its bytes say, however they are cut into buffers, as long as every
buffer fits.  A buffer that does not fit makes a copy leave its array.
-/
import TX2SecureUart.Sparse.Refine

namespace TX2SecureUart.Sparse

/-! ## The loop -/

theorem loop_done {io : Device} {w : Work} (h : ¬ w.Busy) : loop io w = .ok w := by
  rw [loop, dif_neg h]

theorem loop_step {io : Device} {w : Work} (hbusy : w.Busy) :
    loop io w = (pass io w).bind (loop io) := by
  rw [loop, dif_pos hbusy]
  split
  · rename_i r h
    rw [h]
    rfl
  · rename_i w' h
    rw [h]
    rfl

theorem At.not_busy {σ : Stream} {w : Work} (hat : At σ w) (h : w.buf = []) : ¬ w.Busy := by
  rintro (hne | hstate)
  · exact hne h
  · rw [hat.fields.1] at hstate
    exact saved_ne_dontCare σ hstate

/-- What the next pass leads to, the one that seeks included. -/
def nextRes (io : Device) (w : Work) : Res :=
  match pass io w with
  | .error r => .error r
  | .ok w' => if w'.state = .dontCare then passDontCare io w' else .ok w'

theorem pass_dontCare {io : Device} {w : Work} (h : w.state = .dontCare) :
    pass io w = passDontCare io w := by
  rw [pass, h]

theorem nextRes_measure {io : Device} {w w' : Work} (hbusy : w.Busy)
    (h : nextRes io w = .ok w') : w'.measure < w.measure := by
  rw [nextRes] at h
  cases hpass : pass io w with
  | error r =>
      rw [hpass] at h
      cases h
  | ok w₁ =>
      rw [hpass] at h
      have hlt := pass_measure hbusy hpass
      dsimp only at h
      split at h
      · rename_i hstate
        rw [← pass_dontCare hstate] at h
        exact (pass_measure (.inr hstate) h).trans hlt
      · cases h
        exact hlt

theorem loop_next {io : Device} {w : Work} (hbusy : w.Busy) :
    loop io w = (nextRes io w).bind (loop io) := by
  rw [loop_step hbusy, nextRes]
  cases pass io w with
  | error r => rfl
  | ok w₁ =>
      dsimp only
      split
      · rename_i hstate
        rw [← pass_dontCare hstate]
        exact loop_step (.inr hstate)
      · rfl

/-- The specification of a pass, with the seek. -/
theorem next_spec (io : Device) {σ : Stream} {w : Work} (hat : At σ w) (hwf : σ.Wf)
    (hlive : σ.Live) (hfit : ¬ σ.FillCross w.buf) :
    (σ.HeaderCross w.buf ∧ nextRes io w = .error (.corrupted, w)) ∨
    ∃ σ' n, Reaches σ w.buf σ' n ∧ Refined io σ' (w.buf.drop n) w.stray (nextRes io w) := by
  rcases pass_spec io hat hwf hlive hfit with ⟨hcross, hpass⟩ | ⟨σ', n, hreach, hres | hseek⟩
  · exact .inl ⟨hcross, by rw [nextRes, hpass]⟩
  · refine .inr ⟨σ', n, hreach, ?_⟩
    rw [nextRes]
    cases hpass : pass io w with
    | error r =>
        rw [hpass] at hres
        exact hres
    | ok w' =>
        rw [hpass] at hres
        have hstate : w'.state ≠ .dontCare := by
          cases hres with
          | on hat' => exact hat'.fields.1 ▸ saved_ne_dontCare σ'
        dsimp only
        rw [if_neg hstate]
        exact hres
  · obtain ⟨w', hpass, hstate, hres⟩ := hseek
    refine .inr ⟨σ', n, hreach, ?_⟩
    rw [nextRes, hpass]
    dsimp only
    rw [if_pos hstate]
    exact hres

theorem Reaches.feed_all {σ σ' : Stream} {buff : List UInt8} {n : Nat} (h : Reaches σ buff σ' n)
    (hne : buff ≠ []) : σ.feed buff = σ'.feed (buff.drop n) := by
  have hfeed := h.feed (buff.drop n) (fun hn => by rw [hn, List.drop_zero]; exact hne)
  rwa [List.take_append_drop] at hfeed

/-- A call on a buffer that fits takes the stream over the buffer. -/
theorem loop_refines (io : Device) {σ : Stream} {w : Work} (hat : At σ w) (hwf : σ.Wf)
    (hlive : σ.Live) (hfit : ¬ σ.FillCross w.buf) (hcross : ¬ σ.HeaderCross w.buf) :
    Refined io (σ.feed w.buf) [] w.stray (loop io w) := by
  induction hn : w.measure using Nat.strong_induction_on generalizing w σ with
  | _ m ih =>
      rcases eq_or_ne w.buf [] with hnil | hne
      · rw [loop_done (hat.not_busy hnil), hnil, feed_nil]
        exact .on hat hlive hnil rfl
      rcases next_spec io hat hwf hlive hfit with ⟨hc, -⟩ | ⟨σ', n, hreach, hres⟩
      · exact absurd hc hcross
      rw [loop_next (.inl hne), hreach.feed_all hne]
      cases hnext : nextRes io w with
      | error r =>
          rw [hnext] at hres
          cases hres with
          | ended hp hout hstray =>
              rw [feed_ended hp]
              exact .ended hp hout hstray
          | device events hio hpre hstray =>
              exact .device events hio (hpre.trans (feed_out _ _)) hstray
      | ok w' =>
          rw [hnext] at hres
          have hlt := nextRes_measure (.inl hne) hnext
          cases hres with
          | on hat' hlive' hbuf hstray =>
              have hstep := ih _ (hn ▸ hlt) hat' hreach.wf hlive' (hbuf ▸ hreach.fresh)
                (hbuf ▸ fun h => hcross (hreach.cross.mpr h)) rfl
              rw [hbuf, hstray] at hstep
              exact hstep

/-- A call on a buffer that goes across the seam of a longer chunk header leaves
the array, if the device does not fail before. -/
theorem loop_corrupts {io : Device} (hio : ∀ events, io events = none) {σ : Stream} {w : Work}
    (hat : At σ w) (hwf : σ.Wf) (hlive : σ.Live) (hfit : ¬ σ.FillCross w.buf)
    (hcross : σ.HeaderCross w.buf) : ∃ w', loop io w = .error (.corrupted, w') := by
  induction hn : w.measure using Nat.strong_induction_on generalizing w σ with
  | _ m ih =>
      have hne : w.buf ≠ [] := by
        obtain ⟨pre, post, hpre, -, hbuf, -⟩ := hcross
        rw [hbuf]
        exact List.append_ne_nil_of_left_ne_nil hpre _
      rw [loop_next (.inl hne)]
      rcases next_spec io hat hwf hlive hfit with ⟨-, hpass⟩ | ⟨σ', n, hreach, hres⟩
      · exact ⟨w, by rw [hpass]; rfl⟩
      have hcross' := hreach.cross.mp hcross
      cases hnext : nextRes io w with
      | error r =>
          rw [hnext] at hres
          cases hres with
          | ended hp hout hstray =>
              obtain ⟨pre, post, -, -, -, size, got, hseam, -⟩ := hcross'
              rw [feed_ended hp, hp] at hseam
              cases hseam
          | device events he => exact absurd (he.symm.trans (hio events)) (Option.some_ne_none _)
      | ok w' =>
          rw [hnext] at hres
          have hlt := nextRes_measure (.inl hne) hnext
          cases hres with
          | on hat' hlive' hbuf hstray =>
              exact ih _ (hn ▸ hlt) hat' hreach.wf hlive' (hbuf ▸ hreach.fresh) (hbuf ▸ hcross') rfl

/-! ## A copy that has left `fill_value` -/

def resWork : Res → Work
  | .ok w => w
  | .error (_, w) => w

theorem call_stray {io : Device} {e : Event} {w : Work} {f : Work → Work} (h : w.stray = true)
    (hf : ∀ w, (f w).stray = w.stray) : (resWork ((w.call io e).map f)).stray = true := by
  rcases call_cases io e w with ⟨-, hcall⟩ | ⟨err, -, hcall⟩
  · rw [hcall]
    exact (hf _).trans h
  · rw [hcall]
    exact h

theorem writeFill_stray {io : Device} {w : Work} (h : w.stray = true) :
    (resWork ((writeFill io w).map Work.nextChunk)).stray = true := by
  rcases writeFill_cases io w with ⟨events, hok, -⟩ | ⟨e, before, w', herr, -, -, hstray⟩
  · rw [hok]
    exact h
  · rw [herr]
    exact hstray.trans h

theorem openChunk_stray {w : Work} (h : w.stray = true) : (resWork w.openChunk).stray = true := by
  rw [Work.openChunk]
  split
  · exact h
  · split <;> exact h

theorem pass_stray {io : Device} {w : Work} (h : w.stray = true) :
    (resWork (pass io w)).stray = true := by
  rw [pass]
  split
  · rw [passImageHeader]
    dsimp only
    split
    · exact h
    · split
      · exact h
      · split <;> exact h
  · rw [passChunkHeader]
    dsimp only
    split
    · exact h
    · split
      · exact h
      · exact openChunk_stray h
  · refine call_stray h ?_
    intro w'
    rw [Work.wrote]
    dsimp only
    split <;> rfl
  · rw [passFill]
    split
    · dsimp only
      split
      · show (w.stray || _) = true
        rw [h, Bool.true_or]
      · exact writeFill_stray (by rw [h, Bool.true_or])
    · exact writeFill_stray h
  · exact call_stray h (fun _ => rfl)
  · exact h

theorem loop_stray {io : Device} {w : Work} (h : w.stray = true) :
    (resWork (loop io w)).stray = true := by
  induction hn : w.measure using Nat.strong_induction_on generalizing w with
  | _ m ih =>
      rcases Classical.em w.Busy with hbusy | hidle
      · rw [loop_step hbusy]
        have hstray : (resWork (pass io w)).stray = true := pass_stray h
        cases hpass : pass io w with
        | error r =>
            rw [hpass] at hstray
            exact hstray
        | ok w' =>
            rw [hpass] at hstray
            exact ih _ (hn ▸ pass_measure hbusy hpass) hstray rfl
      · rw [loop_done hidle]
        exact h

/-- A call on a buffer that reaches beyond the fill value it begins in. -/
theorem loop_strays (io : Device) {σ : Stream} {w : Work} (hat : At σ w) (hwf : σ.Wf)
    (hcross : σ.FillCross w.buf) : (resWork (loop io w)).stray = true := by
  obtain ⟨c, size, got, hp, hpos, hbeyond⟩ := hcross
  have hlt : got < 4 := by
    have hok := hwf.place
    rwa [hp] at hok
  obtain ⟨hstate, -, -, hoff, -⟩ := hat.fields
  simp only [Stream.saved, hp] at hstate hoff
  have hbusy : w.Busy := .inl (List.length_pos_iff.mp (by omega))
  have hstray : (resWork (pass io w)).stray = true := by
    rw [pass, hstate]
    show (resWork (passFill io w)).stray = true
    rw [passFill, if_pos (by omega)]
    dsimp only
    have hover : (w.stray || decide (4 < w.offset + min w.buf.length 4)) = true := by
      rw [decide_eq_true (by omega), Bool.or_true]
    rw [hover]
    split
    · rfl
    · exact writeFill_stray rfl
  rw [loop_step hbusy]
  cases hpass : pass io w with
  | error r =>
      rw [hpass] at hstray
      exact hstray
  | ok w' =>
      rw [hpass] at hstray
      exact loop_stray hstray

/-! ## The calls -/

/-- How a call, or a download, ends when the stream is then at `σ`. -/
inductive CallRefined (io : Device) (σ : Stream) (out : Outcome) : Prop
  | on : out.result = .ok () → out.st = σ.saved → flat out.events = σ.out → σ.Live →
      out.stray = false → CallRefined io σ out
  /-- the stream has ended, and so does the download -/
  | ended (stop : Stop) : out.result = .error stop → σ.place = .ended stop →
      flat out.events = σ.out → out.stray = false → CallRefined io σ out
  /-- the device has failed -/
  | device (e : Err) (events : List Event) : out.result = .error (.fail e) → io events = some e →
      flat out.events <+: σ.out → out.stray = false → CallRefined io σ out

/-- The buffer is not one of those that are different. -/
structure Stream.Fits (σ : Stream) (buff : List UInt8) : Prop where
  fill : ¬ σ.FillCross buff
  header : ¬ σ.HeaderCross buff

theorem at_startWork {σ : Stream} {events : List Event} (buff : List UInt8)
    (hout : flat events = σ.out) : At σ (startWork σ.saved buff events) := ⟨rfl, hout⟩

/-- What a call returns and leaves when its loop has ended so. -/
def outcome : Res → Outcome
  | .error (stop, w) => { result := .error stop, st := w.st, events := w.events, stray := w.stray }
  | .ok w => { result := .ok (), st := w.saved, events := w.events, stray := w.stray }

theorem unsparse_eq {io : Device} {st : UnsparseState} {buff : List UInt8} {events : List Event}
    (hne : buff ≠ []) :
    unsparse io st buff events = outcome (loop io (startWork st buff events)) := by
  rw [unsparse, if_neg hne]
  rfl

theorem Refined.call {io : Device} {σ : Stream} {stray : Bool} {r : Res}
    (h : Refined io σ [] stray r) :
    (outcome r).stray = stray ∧ CallRefined io σ { outcome r with stray := false } := by
  cases h with
  | on hat hlive hbuf hstray => exact ⟨hstray, .on rfl hat.saved hat.out hlive rfl⟩
  | ended hp hout hstray => exact ⟨hstray, .ended _ rfl hp hout rfl⟩
  | device events hio hpre hstray => exact ⟨hstray, .device _ events rfl hio hpre rfl⟩

theorem unsparse_refines (io : Device) {σ : Stream} {buff : List UInt8} {events : List Event}
    (hout : flat events = σ.out) (hwf : σ.Wf) (hlive : σ.Live) (hfit : σ.Fits buff)
    (hne : buff ≠ []) : CallRefined io (σ.feed buff) (unsparse io σ.saved buff events) := by
  have hloop := loop_refines io (at_startWork buff hout) hwf hlive hfit.fill hfit.header
  obtain ⟨hstray, hcall⟩ := hloop.call
  have hfalse : (outcome (loop io (startWork σ.saved buff events))).stray = false := hstray
  rw [unsparse_eq hne]
  rw [← hfalse] at hcall
  exact hcall

/-- A call on a buffer that reaches beyond the fill value it begins in. -/
theorem unsparse_strays (io : Device) {σ : Stream} {buff : List UInt8} {events : List Event}
    (hout : flat events = σ.out) (hwf : σ.Wf) (hcross : σ.FillCross buff) (hne : buff ≠ []) :
    (unsparse io σ.saved buff events).stray = true := by
  have hstray := loop_strays io (at_startWork buff hout) hwf hcross
  rw [unsparse_eq hne]
  cases hres : loop io (startWork σ.saved buff events) with
  | error r =>
      rw [hres] at hstray
      exact hstray
  | ok w =>
      rw [hres] at hstray
      exact hstray

/-- A call on a buffer that does not fit makes a copy leave its array. -/
theorem unsparse_leaves {io : Device} (hio : ∀ events, io events = none) {σ : Stream}
    {buff : List UInt8} {events : List Event} (hout : flat events = σ.out) (hwf : σ.Wf)
    (hlive : σ.Live) (hfit : ¬ σ.Fits buff) (hne : buff ≠ []) :
    (unsparse io σ.saved buff events).stray = true ∨
      (unsparse io σ.saved buff events).result = .error .corrupted := by
  rcases Classical.em (σ.FillCross buff) with hfill | hfill
  · exact .inl (unsparse_strays io hout hwf hfill hne)
  · have hheader : σ.HeaderCross buff := Classical.not_not.mp fun h => hfit ⟨hfill, h⟩
    obtain ⟨w', hres⟩ := loop_corrupts hio (at_startWork buff hout) hwf hlive hfill hheader
    rw [unsparse_eq hne, hres]
    exact .inr rfl

/-! ## Downloads -/

/-- Every buffer fits where the stream is when it arrives. -/
def AllFit (σ : Stream) : List (List UInt8) → Prop
  | [] => True
  | buff :: rest => σ.Fits buff ∧ AllFit (σ.feed buff) rest

/-- A download whose buffers fit unpacks what its bytes say. -/
theorem download_refines (io : Device) {σ : Stream} {buffers : List (List UInt8)}
    {events : List Event} (hout : flat events = σ.out) (hwf : σ.Wf) (hlive : σ.Live)
    (hne : ∀ buff ∈ buffers, buff ≠ []) (hfit : AllFit σ buffers) :
    CallRefined io (σ.feed buffers.flatten) (download io σ.saved events buffers) := by
  induction buffers generalizing σ events with
  | nil => exact .on rfl rfl hout hlive rfl
  | cons buff rest ih =>
      obtain ⟨hfirst, hrest⟩ := hfit
      obtain ⟨hnebuff, hnerest⟩ := List.forall_mem_cons.mp hne
      have hcall := unsparse_refines io hout hwf hlive hfirst hnebuff
      rw [List.flatten_cons, feed_append, download]
      cases hcall with
      | on hres hst hev hlive' hstray =>
          have hlater := ih hev (feed_wf buff hwf) hlive' hnerest hrest
          rw [hres, hst, hstray]
          cases hlater with
          | on h₁ h₂ h₃ h₄ h₅ => exact .on h₁ h₂ h₃ h₄ h₅
          | ended stop h₁ h₂ h₃ h₄ => exact .ended stop h₁ h₂ h₃ h₄
          | device e evs h₁ h₂ h₃ h₄ => exact .device e evs h₁ h₂ h₃ h₄
      | ended stop hres hp hev hstray =>
          rw [hres, feed_ended hp]
          exact .ended stop hres hp hev hstray
      | device e evs hres hio hpre hstray =>
          rw [hres]
          exact .device e evs hres hio (hpre.trans (feed_out _ _)) hstray

theorem allFit_ended {σ : Stream} {stop : Stop} (h : σ.place = .ended stop)
    (buffers : List (List UInt8)) : AllFit σ buffers := by
  induction buffers with
  | nil => trivial
  | cons buff rest ih =>
      refine ⟨⟨?_, ?_⟩, by rw [feed_ended h]; exact ih⟩
      · rintro ⟨c, size, got, hp, -⟩
        rw [h] at hp
        cases hp
      · rintro ⟨pre, post, -, -, -, size, got, hp, -⟩
        rw [feed_ended h, h] at hp
        cases hp

/-- A download with a buffer that does not fit makes a copy leave its array. -/
theorem download_leaves {io : Device} (hio : ∀ events, io events = none) {σ : Stream}
    {buffers : List (List UInt8)} {events : List Event} (hout : flat events = σ.out) (hwf : σ.Wf)
    (hlive : σ.Live) (hne : ∀ buff ∈ buffers, buff ≠ []) (hfit : ¬ AllFit σ buffers) :
    (download io σ.saved events buffers).stray = true ∨
      (download io σ.saved events buffers).result = .error .corrupted := by
  induction buffers generalizing σ events with
  | nil => exact absurd trivial hfit
  | cons buff rest ih =>
      obtain ⟨hnebuff, hnerest⟩ := List.forall_mem_cons.mp hne
      rw [download]
      rcases Classical.em (σ.Fits buff) with hfirst | hfirst
      · have hrest : ¬ AllFit (σ.feed buff) rest := fun h => hfit ⟨hfirst, h⟩
        have hcall := unsparse_refines io hout hwf hlive hfirst hnebuff
        cases hcall with
        | on hres hst hev hlive' hstray =>
            rw [hres, hst, hstray]
            exact ih hev (feed_wf buff hwf) hlive' hnerest hrest
        | ended stop hres hp hev hstray => exact absurd (allFit_ended hp rest) hrest
        | device e evs hres he => exact absurd (he.symm.trans (hio evs)) (Option.some_ne_none _)
      · rcases unsparse_leaves hio hout hwf hlive hfirst hnebuff with hstray | hres
        · cases hres : (unsparse io σ.saved buff events).result with
          | error stop => exact .inl hstray
          | ok u =>
              refine .inl ?_
              show (_ || _) = true
              rw [hstray, Bool.true_or]
        · rw [hres]
          exact .inr hres

end TX2SecureUart.Sparse
