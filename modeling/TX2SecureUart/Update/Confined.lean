/-
# `Update.Confined` — incomplete payloads

`Confined` is what is expected of a call on a buffer: nothing outside the buffer
is looked at, and a payload of which a part is missing is refused with nothing
written.  The completeness check of the code compares the size of the buffer with
bytes of the handle that are always zero, so the payloads for which the
expectation holds are, apart from buffers without a blob and blobs without
entries, those of which nothing is missing and whose strings end where they
should: `Contained`.
-/
import TX2SecureUart.Update.Updated

namespace TX2SecureUart.Update

open Prog Storage StrRead

variable (buf : Buffer) (bh : BlobInfo)

/-- The size of a blob, from its own header or from the signed header. -/
def blobSize : Nat := buf.word 20

/-- The size that a payload declares: that of its blob, or of the signed header,
the blob and the signature. -/
def totalSize : Nat :=
  if bh.offset = 0 then blobSize buf else sizeofSignedHeader + blobSize buf + buf.word 24

def declaredType : Nat := buf.word (bh.offset + 32)

def declaredEntries : Nat := buf.word (bh.offset + 28)

/-- An entry and its data are in the blob. -/
structure InBlob (i : Nat) : Prop where
  entry : entryAt buf bh i + 120 ≤ bh.offset + blobSize buf
  data : dataAt buf bh i + sizeAt buf bh i ≤ bh.offset + blobSize buf

/-- The payload is shorter than it declares, or some entry or data of an update blob
is not in the blob. -/
def Incomplete : Prop :=
  buf.bytes.length < totalSize buf bh ∨
    (declaredType buf bh = blobUpdate ∧ ∃ i < declaredEntries buf bh, ¬ InBlob buf bh i)

/-- The call failed, and the storage was not used. -/
def Rejected (r : EStateM.Result Stop State Unit) : Prop :=
  (∃ e, faultOf r = some (.err e)) ∧ (stateOf r).log = []

/-- The static variables before a call; the spec may be known. -/
structure Idle (s : State) : Prop where
  list : s.list = []
  log : s.log = []
  spec : s.globalNctSpec = [] ∨ ∃ id config, s.globalNctSpec = formatSpec id config

/-- What is expected of a call on this buffer, on any device, however the primitives
answer. -/
def Confined : Prop :=
  ∀ dev pat suffix s, Idle s →
    (∀ fuel, faultOf (checkAndUpdateBlPayload buf dev pat suffix fuel s) ≠ some .outOfBounds) ∧
    ∀ bh, blobLayout buf = some (some bh) → Incomplete buf bh →
      ∃ fuel, Rejected (checkAndUpdateBlPayload buf dev pat suffix fuel s)

/-- The payload, as a device with these criteria sees it. -/
def seenBy (c : Criteria) : Payload := ⟨buf, bh, declaredEntries buf bh, some c⟩

/-- A device can have these criteria. -/
def DeviceCriteria (c : Criteria) : Prop := ∃ id config, c.spec = formatSpec id config

/-- Every `spec_info` that some device looks at ends in the buffer; every name that
some device writes under does too, and the local buffers have room for it. -/
structure StringsEnd : Prop where
  specs : ∀ c, DeviceCriteria c → ∀ n j, (seenBy buf bh c).Reached n →
    Examined buf bh (declaredEntries buf bh) c n j → SpecEnds buf bh j
  names : ∀ c, DeviceCriteria c → ∀ n j, (seenBy buf bh c).Reached n →
    Chosen buf bh (declaredEntries buf bh) c n j → NameOk buf (entryAt buf bh j)

/-- The payloads that the code can be given. -/
inductive Contained : Prop
  | null : buf.addr = 0 → Contained
  /-- The bytes that the magics are compared with are there, and differ. -/
  | noBlob : blobLayout buf = some none → Contained
  /-- A blob of another type, complete. -/
  | otherType (bh : BlobInfo) : blobLayout buf = some (some bh) →
      bh.offset + 36 ≤ buf.bytes.length → declaredType buf bh ≠ blobUpdate →
      totalSize buf bh ≤ buf.bytes.length → Contained
  /-- An update blob without entries, complete or not. -/
  | empty (bh : BlobInfo) : blobLayout buf = some (some bh) →
      bh.offset + 36 ≤ buf.bytes.length → declaredType buf bh = blobUpdate →
      43 ≤ buf.bytes.length → declaredEntries buf bh = 0 → Contained
  | complete (bh : BlobInfo) : blobLayout buf = some (some bh) →
      declaredType buf bh = blobUpdate → declaredEntries buf bh ≠ 0 →
      ¬ Incomplete buf bh → StringsEnd buf bh → Contained

variable {buf bh} {dev : Device} {pat : Pattern} {s t u : State} {suffix : List UInt8} {fuel : Nat}

/-! ## Layouts -/

theorem blobLayout_cases (h : blobLayout buf = some (some bh)) :
    24 ≤ buf.bytes.length ∧
      (bh.offset = 0 ∨ (bh.offset = sizeofSignedHeader ∧ 28 ≤ buf.bytes.length)) := by
  rw [blobLayout, Option.bind_eq_bind] at h
  obtain ⟨signed, -, h⟩ := Option.bind_eq_some_iff.mp h
  cases signed with
  | true =>
      rw [if_pos rfl] at h
      obtain ⟨size, hsize, h⟩ := Option.bind_eq_some_iff.mp h
      obtain ⟨sig, hsig, h⟩ := Option.bind_eq_some_iff.mp h
      have hlen := (load32_eq_some buf hsig).1
      have hbh : _ = bh := Option.some.inj (Option.some.inj h)
      rw [← hbh]
      exact ⟨by omega, .inr ⟨rfl, hlen⟩⟩
  | false =>
      rw [if_neg Bool.false_ne_true] at h
      obtain ⟨blob, -, h⟩ := Option.bind_eq_some_iff.mp h
      cases blob with
      | true =>
          rw [if_pos rfl] at h
          obtain ⟨size, hsize, h⟩ := Option.bind_eq_some_iff.mp h
          have hlen := (load32_eq_some buf hsize).1
          have hbh : _ = bh := Option.some.inj (Option.some.inj h)
          rw [← hbh]
          exact ⟨hlen, .inl rfl⟩
      | false =>
          rw [if_neg Bool.false_ne_true] at h
          cases Option.some.inj h

theorem blobEnd_le_totalSize (h : blobLayout buf = some (some bh)) :
    bh.offset + blobSize buf ≤ totalSize buf bh := by
  rw [totalSize]
  rcases (blobLayout_cases h).2 with h0 | ⟨hs, -⟩
  · rw [if_pos h0, h0, Nat.zero_add]
  · rw [if_neg (by rw [hs, sizeofSignedHeader]; decide), hs]
    omega

/-- A complete update blob with entries is in the buffer. -/
theorem updateBlob_of_complete (haddr : buf.addr ≠ 0) (h : blobLayout buf = some (some bh))
    (htype : declaredType buf bh = blobUpdate) (hnum : declaredEntries buf bh ≠ 0)
    (hc : ¬ Incomplete buf bh) :
    UpdateBlob buf bh (declaredEntries buf bh) ∧
      ∀ i < declaredEntries buf bh,
        dataAt buf bh i + sizeAt buf bh i ≤ buf.bytes.length := by
  have htotal : totalSize buf bh ≤ buf.bytes.length := by
    by_contra hlt
    exact hc (.inl (Nat.not_le.mp hlt))
  have hend := blobEnd_le_totalSize h
  have hin : ∀ i < declaredEntries buf bh, InBlob buf bh i := by
    intro i hi
    by_contra hnot
    exact hc (.inr ⟨htype, i, hi, hnot⟩)
  have hfirst := (hin 0 (Nat.pos_of_ne_zero hnum)).entry
  have hoff : bh.offset ≤ entryAt buf bh 0 := by
    rw [entryAt]
    omega
  refine ⟨⟨haddr, h, by omega, ⟨by omega, htype, ?_⟩, rfl⟩, ?_⟩
  · intro i hi
    have := (hin i hi).entry
    omega
  · intro i hi
    have := (hin i hi).data
    omega

/-! ## Payloads that the code can be given -/

/-- A call before the entries of a blob: nothing is written, and it returns or fails. -/
theorem wp_before_entries (h : blobLayout buf = some none ∨ ∃ bh, blobLayout buf = some (some bh) ∧
      bh.offset + 36 ≤ buf.bytes.length ∧ declaredType buf bh ≠ blobUpdate) :
    wp (checkAndUpdateBlPayload buf dev pat suffix fuel) (fun _ _ => True)
      (fun stop _ => ∃ e, stop = .err e) s := by
  rw [checkAndUpdateBlPayload]
  split
  case isTrue => exact ⟨_, rfl⟩
  case isFalse =>
    rw [wp_bind, blobInit, wp_bind, wp_nextFault, wp_ite]
    split
    case isTrue => exact ⟨_, rfl⟩
    case isFalse =>
      rw [wp_bind]
      rcases h with hnone | ⟨bh, hsome, hlen, htype⟩
      · refine wp_read_some hnone ?_
        simp only [wp_pure, Option.elim_none, invalid, tegrablError, if_true]
      · refine wp_read_some hsome ?_
        show wp (if buf.bytes.length < blobGetSize bh then
            throw (.err (tegrablError .bootloaderUpdate .invalid 0))
          else clearingList (updateFromBlob buf dev pat bh suffix fuel)) _ _ _
        rw [blobGetSize_eq, if_neg (Nat.not_lt_zero _)]
        refine wp_clearingList (fun _ _ => True) (fun _ _ => False) ?_
          (fun _ _ h => h) (fun _ _ h => h.elim) (fun _ _ _ h => h.elim)
        rw [updateFromBlob, wp_bind]
        refine wp_read_some (load32_of_le buf (by omega)) ?_
        rw [wp_ite, if_pos (show buf.word (bh.offset + 32) ≠ blobUpdate from htype)]
        trivial

theorem faultOf_ne_of_wp {r : EStateM.Result Stop State Unit}
    {Q : Unit → State → Prop} {E : Stop → State → Prop}
    (h : wp (checkAndUpdateBlPayload buf dev pat suffix fuel) Q E s)
    (hr : checkAndUpdateBlPayload buf dev pat suffix fuel s = r)
    (hE : ∀ u, ¬ E .outOfBounds u) : faultOf r ≠ some .outOfBounds := by
  intro hout
  have hstop := wp_error h (hr.trans (eq_error_of_faultOf hout))
  exact hE _ hstop

theorem deviceCriteria_of_idle (hs : Idle s) {c : Criteria}
    (hc : (specOf dev s).map (⟨·, dev.production⟩) = some c) : DeviceCriteria c := by
  obtain ⟨spec, hspec, rfl⟩ := Option.map_eq_some_iff.mp hc
  rw [specOf] at hspec
  split at hspec
  case isTrue hne =>
    obtain rfl := Option.some.inj hspec
    exact hs.spec.resolve_left hne
  case isFalse =>
    obtain ⟨ids, -, rfl⟩ := Option.map_eq_some_iff.mp hspec
    exact ⟨ids.1, ids.2, rfl⟩

/-- No partition of a complete payload whose strings end leads outside it. -/
theorem allClean_of_complete (hs : Idle s) (hends : StringsEnd buf bh)
    (hdata : ∀ i < declaredEntries buf bh,
      dataAt buf bh i + sizeAt buf bh i ≤ buf.bytes.length) :
    (payloadOf buf bh (declaredEntries buf bh) dev s).AllClean := by
  intro n hn c hc
  have hdev := deviceCriteria_of_idle hs hc
  have hreached : (seenBy buf bh c).Reached n := by
    induction hn with
    | entry hi h256 => exact .entry (P := seenBy buf bh c) hi h256
    | dependency _ hd ih => exact .dependency ih hd
  refine ⟨fun j hj => hends.specs c hdev n j hreached hj, ?_⟩
  intro j hj
  exact ⟨hends.names c hdev n j hreached hj, .inr (hdata j hj.lt)⟩

theorem confined_null (haddr : buf.addr = 0) : Confined buf := by
  intro dev pat suffix s hs
  have hrun : ∀ fuel, checkAndUpdateBlPayload buf dev pat suffix fuel s =
      .error (.err (tegrablError .bootloaderUpdate .invalid 0)) s := by
    intro fuel
    rw [checkAndUpdateBlPayload, if_pos haddr]
    rfl
  refine ⟨?_, ?_⟩
  · intro fuel hout
    rw [hrun fuel] at hout
    cases hout
  · intro bh _ _
    refine ⟨0, ?_⟩
    rw [hrun 0]
    exact ⟨⟨_, rfl⟩, hs.log⟩

theorem confined_of_contained (h : Contained buf) : Confined buf := by
  by_cases haddr : buf.addr = 0
  · exact confined_null haddr
  intro dev pat suffix s hs
  cases h with
  | null hnull => exact absurd hnull haddr
  | noBlob hlayout =>
      refine ⟨fun fuel => faultOf_ne_of_wp (wp_before_entries (.inl hlayout)) rfl ?_, ?_⟩
      · rintro u ⟨e, he⟩
        cases he
      · intro bh hbh
        rw [hlayout] at hbh
        cases hbh
  | otherType bh hlayout hheader htype htotal =>
      refine ⟨fun fuel => faultOf_ne_of_wp
        (wp_before_entries (.inr ⟨bh, hlayout, hheader, htype⟩)) rfl ?_, ?_⟩
      · rintro u ⟨e, he⟩
        cases he
      · intro bh' hbh' hinc
        obtain rfl : bh = bh' := Option.some.inj (Option.some.inj (hlayout.symm.trans hbh'))
        rcases hinc with hlt | ⟨hupdate, -⟩
        · exact absurd htotal (Nat.not_le.mpr hlt)
        · exact absurd hupdate htype
  | empty bh hlayout hheader htype hlevels hnum =>
      have hb : UpdateBlob buf bh (declaredEntries buf bh) := by
        refine ⟨haddr, hlayout, hlevels, ⟨hheader, htype, ?_⟩, rfl⟩
        intro i hi
        rw [hnum] at hi
        exact absurd hi (Nat.not_lt_zero i)
      have hwp := fun fuel => wp_checkAndUpdateBlPayload dev pat suffix fuel hb hs.list rfl
      have hrejected : ∀ fuel, Rejected (checkAndUpdateBlPayload buf dev pat suffix fuel s) := by
        intro fuel
        generalize hr : checkAndUpdateBlPayload buf dev pat suffix fuel s = r
        cases r with
        | ok a u => exact absurd hnum (wp_ok (hwp fuel) hr).1
        | error stop u =>
            rcases wp_error (hwp fuel) hr with h | ⟨hne, -⟩
            · obtain ⟨e, rfl⟩ := h.err
              exact ⟨⟨e, rfl⟩, h.log.trans hs.log⟩
            · exact absurd hnum hne
      refine ⟨?_, fun _ _ _ => ⟨0, hrejected 0⟩⟩
      intro fuel hout
      obtain ⟨⟨e, he⟩, -⟩ := hrejected fuel
      rw [hout] at he
      cases he
  | complete bh hlayout htype hnum hcomplete hends =>
      obtain ⟨hb, hdata⟩ := updateBlob_of_complete haddr hlayout htype hnum hcomplete
      refine ⟨?_, ?_⟩
      · intro fuel
        refine faultOf_ne_of_wp (wp_checkAndUpdateBlPayload _ pat _ _ hb hs.list rfl) rfl ?_
        rintro u (h | ⟨-, h | ⟨h, -⟩⟩)
        · obtain ⟨e, he⟩ := h.err
          cases he
        · rcases h.halts with ⟨-, hnot⟩ | ⟨⟨e, he⟩, -⟩
          · exact hnot (allClean_of_complete hs hends hdata)
          · cases he
        · cases h
      · intro bh' hbh' hinc
        obtain rfl : bh = bh' := Option.some.inj (Option.some.inj (hlayout.symm.trans hbh'))
        exact absurd hinc hcomplete

/-! ## Payloads that it cannot be given -/

/-- A device without a spec: it skips every partition. -/
def speclessDevice : Device := ⟨none, false, none⟩

theorem wp_getSpecInfo_specless (hs : s.globalNctSpec = []) :
    wp (getSpecInfo speclessDevice) (fun b t => b = false ∧ t.globalNctSpec = [])
      (fun _ _ => False) s := by
  rw [getSpecInfo, wp_bind, wp_get, wp_ite, if_neg (not_not.mpr hs)]
  exact ⟨rfl, hs⟩

/-- Stopping without an error. -/
def NoError (stop : Stop) (_ : State) : Prop := ∀ e, stop ≠ .err e

theorem noError_outOfBounds (s : State) : NoError .outOfBounds s := fun _ h => by cases h

theorem wp_recursive_specless (num : Nat) : ∀ (depth : Nat) (part : Str) (s : State),
    s.globalNctSpec = [] →
      wp (updatePartitionRecursive buf speclessDevice calm bh num depth part)
        (fun _ t => t.globalNctSpec = []) NoError s
  | 0, _, _, _ => fun _ h => by cases h
  | depth + 1, part, s, hs => by
      rw [updatePartitionRecursive, wp_bind, wp_get, wp_bind]
      refine wp_read ?_ (fun _ => noError_outOfBounds s)
      intro has _
      rw [wp_ite]
      split
      case isTrue => exact hs
      case isFalse =>
        rw [wp_bind]
        refine wp_read ?_ (fun _ => noError_outOfBounds s)
        intro dep _
        refine wp_seq (R := fun _ t => t.globalNctSpec = []) ?_ ?_
        · cases dep with
          | none => exact hs
          | some d => exact wp_recursive_specless num depth (.const d) s hs
        · intro _ t ht
          rw [wp_bind, updatePartition, wp_bind]
          refine wp_mono (wp_getSpecInfo_specless ht) ?_ (fun _ _ h => h.elim)
          rintro _ u ⟨rfl, hu⟩
          exact hu

theorem wp_updateEntries_specless (ht : Table buf bh 0) (num : Nat) :
    ∀ (fuel i : Nat) (s : State), s.globalNctSpec = [] →
      wp (updateEntries buf speclessDevice calm bh num fuel i none) (fun _ _ => True) NoError s
  | 0, _, _, _ => fun _ h => by cases h
  | fuel + 1, i, s, hs => by
      rw [updateEntries, wp_ite]
      split
      case isFalse => trivial
      case isTrue =>
        rw [wp_bind]
        refine wp_read_some (blobGetEntry_eq ht i) ?_
        rw [wp_bind]
        refine wp_conseq (wp_recursive_specless num _ _ s hs) ?_
        intro _ t ht'
        exact wp_updateEntries_specless ht num fuel _ t ht'

/-- A call that comes to the blob. -/
theorem wp_calm_blob (haddr : buf.addr ≠ 0) (hlayout : blobLayout buf = some (some bh))
    {Q : Unit → State → Prop} {E : Stop → State → Prop}
    (h : wp (clearingList (updateFromBlob buf dev calm bh suffix fuel)) Q E { calls := 1 }) :
    wp (checkAndUpdateBlPayload buf dev calm suffix fuel) Q E {} := by
  rw [checkAndUpdateBlPayload, if_neg haddr, wp_bind, blobInit, wp_bind, wp_nextFault, wp_ite,
    if_neg (by decide), wp_bind]
  refine wp_read_some hlayout ?_
  show wp (if buf.bytes.length < blobGetSize bh then
      throw (.err (tegrablError .bootloaderUpdate .invalid 0))
    else clearingList (updateFromBlob buf dev calm bh suffix fuel)) _ _ _
  rw [blobGetSize_eq, if_neg (Nat.not_lt_zero _)]
  exact h

variable (suffix fuel) in
/-- A blob of type UPDATE whose header can be read, on a device without a spec. -/
theorem wp_specless (haddr : buf.addr ≠ 0) (hlayout : blobLayout buf = some (some bh))
    (hheader : bh.offset + 36 ≤ buf.bytes.length) (htype : declaredType buf bh = blobUpdate)
    (hnum : declaredEntries buf bh ≠ 0) :
    wp (checkAndUpdateBlPayload buf speclessDevice calm suffix fuel) (fun _ _ => True) NoError
      {} := by
  refine wp_calm_blob haddr hlayout ?_
  refine wp_clearingList (fun _ _ => True) NoError ?_ (fun _ _ h => h)
    (fun e _ h => absurd rfl (h e)) (fun _ _ _ h => h)
  rw [updateFromBlob, wp_bind]
  refine wp_read_some (load32_of_le buf (by omega)) ?_
  rw [wp_ite, if_neg (show ¬ buf.word (bh.offset + 32) ≠ blobUpdate from not_not.mpr htype),
    wp_bind]
  rw [isUpdateAllSlotsRequired, wp_bind, wp_get, wp_ite, if_neg (by decide), if_pos rfl,
    checkRatchet, wp_bind]
  refine wp_read_some (a := none) rfl ?_
  rw [wp_bind, wp_modify, wp_pure, wp_bind, wp_modify, wp_bind]
  refine wp_read_some (load32_of_le buf (by omega)) ?_
  rw [wp_ite, if_neg (show ¬ buf.word (bh.offset + 28) = 0 from hnum)]
  refine wp_updateEntries_specless ⟨hheader, htype, ?_⟩ _ fuel 0 _ rfl
  exact fun i hi => absurd hi (Nat.not_lt_zero i)

/-- A run that leaves the buffer. -/
theorem not_confined (dev : Device) (h : wp (checkAndUpdateBlPayload buf dev calm [] 0) (fun _ _ => False)
    (fun stop _ => stop = .outOfBounds) {}) : ¬ Confined buf := by
  intro hc
  refine (hc dev calm [] {} ⟨rfl, rfl, .inl rfl⟩).1 0 ?_
  generalize hr : checkAndUpdateBlPayload buf dev calm [] 0 {} = r
  cases r with
  | ok a u => exact (wp_ok h hr).elim
  | error stop u =>
      obtain rfl := wp_error h hr
      rfl

theorem layout_of_confined (h : Confined buf) (haddr : buf.addr ≠ 0) :
    ∃ layout, blobLayout buf = some layout := by
  by_contra hnone
  have hlayout : blobLayout buf = none := by
    cases hl : blobLayout buf with
    | none => rfl
    | some layout => exact absurd ⟨layout, hl⟩ hnone
  refine not_confined speclessDevice ?_ h
  rw [checkAndUpdateBlPayload, if_neg haddr, wp_bind, blobInit, wp_bind, wp_nextFault, wp_ite,
    if_neg (by decide), wp_bind]
  refine wp_read ?_ (fun _ => rfl)
  intro layout hsome
  rw [hlayout] at hsome
  cases hsome

theorem load32_none {off : Nat} (h : ¬ off + 4 ≤ buf.bytes.length) : load32 buf off = none :=
  if_neg h

theorem header_of_confined (h : Confined buf) (haddr : buf.addr ≠ 0)
    (hlayout : blobLayout buf = some (some bh)) : bh.offset + 36 ≤ buf.bytes.length := by
  by_contra hshort
  refine not_confined speclessDevice (wp_calm_blob haddr hlayout ?_) h
  refine wp_clearingList (fun _ _ => False) (fun stop _ => stop = .outOfBounds) ?_
    (fun _ _ h => h.elim) (fun _ _ h => by cases h) (fun _ _ _ h => h)
  rw [updateFromBlob, wp_bind]
  refine wp_read ?_ (fun _ => rfl)
  intro type htype
  rw [blobGetType, load32_none (by omega)] at htype
  cases htype

/-- A device whose ratchet levels are as high as they can be. -/
def ratchetedDevice : Device := ⟨none, false, some (255, 255, 255)⟩

theorem levels_of_confined (h : Confined buf) (haddr : buf.addr ≠ 0)
    (hlayout : blobLayout buf = some (some bh)) (htype : declaredType buf bh = blobUpdate) :
    43 ≤ buf.bytes.length := by
  by_contra hshort
  have hheader := header_of_confined h haddr hlayout
  refine not_confined ratchetedDevice (wp_calm_blob haddr hlayout ?_) h
  refine wp_clearingList (fun _ _ => False) (fun stop _ => stop = .outOfBounds) ?_
    (fun _ _ h => h.elim) (fun _ _ h => by cases h) (fun _ _ _ h => h)
  rw [updateFromBlob, wp_bind]
  refine wp_read_some (load32_of_le buf (by omega)) ?_
  rw [wp_ite, if_neg (show ¬ buf.word (bh.offset + 32) ≠ blobUpdate from not_not.mpr htype),
    wp_bind, isUpdateAllSlotsRequired, wp_bind, wp_get, wp_ite, if_neg (by decide), if_pos rfl,
    checkRatchet, wp_bind]
  have hnone : isRatchetUpdateRequired buf ratchetedDevice = none := by
    show (load8 buf 42).bind _ = none
    rw [load8, List.getElem?_eq_none (by omega)]
    rfl
  refine wp_read ?_ (fun _ => rfl)
  intro answer hanswer
  rw [hnone] at hanswer
  cases hanswer

/-- A blob of another type is left alone with success. -/
theorem complete_of_confined (h : Confined buf) (haddr : buf.addr ≠ 0)
    (hlayout : blobLayout buf = some (some bh)) (hheader : bh.offset + 36 ≤ buf.bytes.length)
    (htype : declaredType buf bh = blobUpdate → declaredEntries buf bh ≠ 0) :
    ¬ Incomplete buf bh := by
  intro hinc
  obtain ⟨fuel, ⟨e, he⟩, -⟩ :=
    (h speclessDevice calm [] {} ⟨rfl, rfl, .inl rfl⟩).2 bh hlayout hinc
  have hrun := eq_error_of_faultOf he
  by_cases hupdate : declaredType buf bh = blobUpdate
  · have hwp := wp_specless [] fuel haddr hlayout hheader hupdate
      (htype hupdate)
    exact wp_error hwp hrun e rfl
  · have hwp : wp (checkAndUpdateBlPayload buf speclessDevice calm [] fuel) (fun _ _ => True)
        (fun _ _ => False) {} := by
      refine wp_calm_blob haddr hlayout ?_
      refine wp_clearingList (fun _ _ => True) (fun _ _ => False) ?_ (fun _ _ h => h)
        (fun _ _ h => h.elim) (fun _ _ _ h => h.elim)
      rw [updateFromBlob, wp_bind]
      refine wp_read_some (load32_of_le buf (by omega)) ?_
      rw [wp_ite, if_pos (show buf.word (bh.offset + 32) ≠ blobUpdate from hupdate)]
      trivial
    exact wp_error hwp hrun

/-- A device with given criteria, none of whose fuses can be read. -/
def deviceOf (id config : List UInt8) (production : Bool) : Device :=
  ⟨some (id, config), production, none⟩

/-- On a device with the criteria, a run comes to every partition. -/
theorem stringsEnd_of_confined (h : Confined buf) (hb : UpdateBlob buf bh (declaredEntries buf bh))
    (hnum : declaredEntries buf bh ≠ 0) : StringsEnd buf bh := by
  have hclean : ∀ c, DeviceCriteria c → ∀ n, (seenBy buf bh c).Reached n →
      (seenBy buf bh c).Clean n := by
    rintro ⟨spec, production⟩ ⟨id, config, rfl⟩ n hn
    have hdef := (h (deviceOf id config production) calm [] {} ⟨rfl, rfl, .inl rfl⟩).1 257
    obtain ⟨bs, hbs, -, hmem, -⟩ := calm_run _ hb rfl rfl hnum hdef
    obtain ⟨b, hb', rfl⟩ := List.mem_map.mp (hmem n hn)
    exact hbs.clean b hb'
  refine ⟨?_, ?_⟩
  · intro c hc n j hn hj
    exact (hclean c hc n hn c rfl).1 j hj
  · intro c hc n j hn hj
    exact ((hclean c hc n hn c rfl).2 j hj).1

theorem contained_of_confined (h : Confined buf) : Contained buf := by
  by_cases haddr : buf.addr = 0
  · exact .null haddr
  obtain ⟨layout, hlayout⟩ := layout_of_confined h haddr
  cases layout with
  | none => exact .noBlob hlayout
  | some bh =>
      have hheader := header_of_confined h haddr hlayout
      by_cases htype : declaredType buf bh = blobUpdate
      · have hlevels := levels_of_confined h haddr hlayout htype
        by_cases hnum : declaredEntries buf bh = 0
        · exact .empty bh hlayout hheader htype hlevels hnum
        · have hcomplete := complete_of_confined h haddr hlayout hheader (fun _ => hnum)
          obtain ⟨hb, -⟩ := updateBlob_of_complete haddr hlayout htype hnum hcomplete
          exact .complete bh hlayout htype hnum hcomplete (stringsEnd_of_confined h hb hnum)
      · have hcomplete := complete_of_confined h haddr hlayout hheader
          (fun hupdate => absurd hupdate htype)
        refine .otherType bh hlayout hheader htype ?_
        by_contra hlt
        exact hcomplete (.inl (Nat.not_le.mp hlt))

/-- An update for `mb2` whose last byte has not arrived. -/
def truncatedPayload : Buffer :=
  ⟨0x90000000, blobBytes 172 [imageEntry "mb2" 168 4 0] [1, 2, 3]⟩

end TX2SecureUart.Update
