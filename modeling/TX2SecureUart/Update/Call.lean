/-
# `Update.Call` — one call of `tegrabl_check_and_update_bl_payload`

On a payload that is an update blob, a call is refused before its entries are
looked at, or it walks them: to the end, until something fails, or for ever.
-/
import TX2SecureUart.Update.Run

namespace TX2SecureUart.Update

open Prog Storage StrRead

/-- What the ratchet check says of a payload, unless an earlier answer is kept. -/
def requiredOf (buf : Buffer) (dev : Device) (s : State) : Bool :=
  if s.isNewBupChecked then s.isRequired else (isRatchetUpdateRequired buf dev).join.getD false

/-- A payload on a device, for which the spec may be known already. -/
def payloadOf (buf : Buffer) (bh : BlobInfo) (num : Nat) (dev : Device) (s : State) : Payload where
  buf := buf
  bh := bh
  num := num
  criteria := (specOf dev s).map (⟨·, dev.production⟩)

/-- The job of a call. -/
def callJob (buf : Buffer) (bh : BlobInfo) (num : Nat) (dev : Device) (pat : Pattern)
    (suffix : List UInt8) (s : State) : Job where
  toPayload := payloadOf buf bh num dev s
  pat := pat
  required := requiredOf buf dev s
  suffix := suffix

/-- The buffer holds a blob of type UPDATE, and its header and its table of entries
are in it. -/
structure UpdateBlob (buf : Buffer) (bh : BlobInfo) (num : Nat) : Prop where
  addr : buf.addr ≠ 0
  layout : blobLayout buf = some (some bh)
  levels : 43 ≤ buf.bytes.length
  table : Table buf bh num
  count : buf.word (bh.offset + 28) = num

/-- The call failed before any entry was looked at. -/
structure Refused (dev : Device) (J : Job) (s : State) (stop : Stop) (u : State) : Prop where
  err : ∃ e, stop = .err e
  blame : ¬ Faultless J.pat J.suffix ∨ J.num = 0
  log : u.log = s.log
  spec : specOf dev u = specOf dev s
  flags : (u.isNewBupChecked = s.isNewBupChecked ∧ u.isRequired = s.isRequired) ∨
    (u.isNewBupChecked = true ∧ u.isRequired = J.required)

variable {buf : Buffer} {bh : BlobInfo} {num : Nat} {dev : Device} {pat : Pattern} {s t u : State}
  {J : Job} {suffix : List UInt8} {fuel : Nat}

theorem wp_clearingList {m : UpdateM Unit} {Q : Unit → State → Prop}
    {E : Stop → State → Prop} (Q' : Unit → State → Prop) (E' : Stop → State → Prop) (h : wp m Q' E' s)
    (hQ : ∀ a t, Q' a t → Q a { t with list := [] })
    (herr : ∀ e t, E' (.err e) t → E (.err e) { t with list := [] })
    (hstop : ∀ stop t, (∀ e, stop ≠ .err e) → E' stop t → E stop t) :
    wp (clearingList m) Q E s := by
  unfold wp at h ⊢
  rw [clearingList]
  cases hm : m s with
  | ok a t =>
      rw [hm] at h
      exact hQ a t h
  | error stop t =>
      rw [hm] at h
      cases stop with
      | err e => exact herr e t h
      | outOfBounds => exact hstop _ t (fun _ h => by cases h) h
      | assertion => exact hstop _ t (fun _ h => by cases h) h
      | spinning => exact hstop _ t (fun _ h => by cases h) h

/-- The levels of a payload of 43 bytes can be read. -/
theorem isRatchetUpdateRequired_of_le (h : 43 ≤ buf.bytes.length) (dev : Device) :
    ∃ answer, isRatchetUpdateRequired buf dev = some answer := by
  have hload : ∀ off, off < 43 → ∃ v, load8 buf off = some v := by
    intro off hoff
    have hin : off < buf.bytes.length := by omega
    refine ⟨buf.bytes[off].toNat, ?_⟩
    rw [load8, List.getElem?_eq_getElem hin]
    rfl
  obtain ⟨r, hr⟩ := hload 42 (by omega)
  obtain ⟨m, hm⟩ := hload 40 (by omega)
  obtain ⟨t, ht⟩ := hload 41 (by omega)
  rw [isRatchetUpdateRequired]
  cases dev.ratchetLevels with
  | none => exact ⟨_, rfl⟩
  | some levels =>
      simp only [hr, hm, ht, Option.bind_eq_bind, Option.bind_some]
      split
      · exact ⟨_, rfl⟩
      · split <;> exact ⟨_, rfl⟩

theorem wp_isUpdateAllSlotsRequired (h : 43 ≤ buf.bytes.length) :
    wp (isUpdateAllSlotsRequired buf dev true)
      (fun _ t => t = { s with isRequired := requiredOf buf dev s, isNewBupChecked := true })
      (fun _ _ => False) s := by
  rw [isUpdateAllSlotsRequired, wp_bind, wp_get, wp_ite]
  split
  case isTrue hchk =>
    rw [wp_pure, requiredOf, if_pos hchk]
    cases s
    simp_all
  case isFalse hchk =>
    obtain ⟨answer, hanswer⟩ := isRatchetUpdateRequired_of_le h dev
    rw [if_pos rfl, checkRatchet, wp_bind]
    refine wp_read_some hanswer ?_
    rw [requiredOf, if_neg hchk, hanswer]
    rfl

/-- The entries of an update blob. -/
theorem wp_updateFromBlob (hb : UpdateBlob buf bh num) (hlist : s.list = [])
    (hJ : callJob buf bh num dev pat suffix s = J) :
    wp (updateFromBlob buf dev pat bh suffix fuel) (fun _ u => J.num ≠ 0 ∧ Complete dev J s u)
      (fun stop u => Refused dev J s stop u ∨ J.num ≠ 0 ∧ (Broken dev J s stop u ∨
        (stop = .spinning ∧ Running dev J s u fuel))) s := by
  have hheader := hb.table.header
  rw [updateFromBlob, wp_bind]
  refine wp_read_some (load32_of_le buf (by omega)) ?_
  rw [hb.table.type, wp_ite, if_neg (not_not.mpr rfl), wp_bind]
  refine wp_mono (wp_isUpdateAllSlotsRequired hb.levels) ?_ (fun _ _ h => h.elim)
  rintro _ t rfl
  rw [wp_bind, wp_modify, wp_bind]
  refine wp_read_some (load32_of_le buf (by omega)) ?_
  rw [hb.count, wp_ite]
  split
  case isTrue hzero =>
    subst hJ
    exact .inl ⟨⟨_, rfl⟩, .inr hzero, rfl, rfl, .inr ⟨rfl, rfl⟩⟩
  case isFalse hzero =>
    subst hJ
    refine wp_mono (wp_updateEntries (J := callJob buf bh num dev pat suffix s) (s := s) hb.table
      fuel 0 _ [] ?_ (fun i hi => absurd hi (Nat.not_lt_zero i)) (fun _ => Nat.zero_le _)) ?_ ?_
    · refine ⟨rfl, .nil, rfl, ?_, ?_, (List.append_nil _).symm⟩
      · show s.list.map _ = _
        rw [hlist]
        rfl
      · intro p hp
        exact absurd (hlist ▸ hp) List.not_mem_nil
    · exact fun _ _ h => ⟨hzero, h⟩
    · intro stop u h
      rw [Nat.zero_add] at h
      exact .inr ⟨hzero, h⟩

variable (dev pat suffix fuel) in
/-- What a call on an update blob does. -/
theorem wp_checkAndUpdateBlPayload (hb : UpdateBlob buf bh num) (hlist : s.list = [])
    (hJ : callJob buf bh num dev pat suffix s = J) :
    wp (checkAndUpdateBlPayload buf dev pat suffix fuel) (fun _ u => J.num ≠ 0 ∧ Complete dev J s u)
      (fun stop u => Refused dev J s stop u ∨ J.num ≠ 0 ∧ (Broken dev J s stop u ∨
        (stop = .spinning ∧ Running dev J s u fuel))) s := by
  rw [checkAndUpdateBlPayload, if_neg hb.addr, wp_bind, blobInit, wp_bind, wp_nextFault, wp_ite]
  split
  case isTrue hfail =>
    obtain ⟨e, he⟩ := Option.isSome_iff_exists.mp hfail
    subst hJ
    exact .inl ⟨⟨_, rfl⟩, .inl (not_faultless_of_fails he), rfl, rfl, .inl ⟨rfl, rfl⟩⟩
  case isFalse =>
    rw [wp_bind]
    refine wp_read_some hb.layout ?_
    show wp (if buf.bytes.length < blobGetSize bh then
        throw (.err (tegrablError .bootloaderUpdate .invalid 0))
      else clearingList (updateFromBlob buf dev pat bh suffix fuel)) _ _ _
    rw [blobGetSize_eq, if_neg (Nat.not_lt_zero _)]
    refine wp_clearingList _ _
      (wp_updateFromBlob hb (s := { s with calls := s.calls + 1 }) hlist hJ) ?_ ?_ ?_
    · rintro _ u ⟨hnum, hu⟩
      exact ⟨hnum, hu.short, hu.unchecked, hu.job, hu.blocks⟩
    · rintro e u (h | ⟨hnum, h | ⟨hstop, -⟩⟩)
      · exact .inl ⟨h.err, h.blame, h.log, h.spec, h.flags⟩
      · exact .inr ⟨hnum, .inl ⟨h.halts, h.job, h.checked, h.ragged⟩⟩
      · cases hstop
    · rintro stop u hne (h | ⟨hnum, h | ⟨hstop, hrun⟩⟩)
      · obtain ⟨e, he⟩ := h.err
        exact absurd he (hne e)
      · exact .inr ⟨hnum, .inl ⟨h.halts, h.job, h.checked, h.ragged⟩⟩
      · obtain ⟨bs, hw, hcov⟩ := hrun.walked
        exact .inr ⟨hnum, .inr ⟨hstop, hrun.passes_le, bs,
          ⟨hw.job, hw.blocks, hw.checked, hw.names, hw.readable, hw.writes⟩, hcov⟩⟩

end TX2SecureUart.Update
