/-
# `Update.Entries` — the loop over the entries comes to its end

The loop of `tegrabl_check_and_update_bl_payload` counts the entries, of which
there are up to 2^32, in a `uint8_t`.  A payload of fewer than 256 entries is
walked from the first to the last.  With 256 the counter comes back to 0, every
partition is on the list by then, and nothing ends the loop.

A pass more or less is a unit of `fuel` here: that the loop is still running
after `k` passes says that the entry that the counter stands at is next.
-/
import TX2SecureUart.Update.Confined

namespace TX2SecureUart.Update

open Prog Storage StrRead

/-- The loop is still running. -/
def Spins (r : EStateM.Result Stop State Unit) : Prop := ∃ t, r = .error .spinning t

/-- `tegrabl_blob_get_entry` is called for the entry `i`. -/
def Considers (buf : Buffer) (dev : Device) (pat : Pattern) (suffix : List UInt8) (s : State)
    (num i : Nat) : Prop :=
  i < num ∧ ∃ k, k % 256 = i ∧ Spins (checkAndUpdateBlPayload buf dev pat suffix k s)

/-- A call comes to an end; and when it succeeds, no entry has been passed over. -/
structure Walks (buf : Buffer) (num : Nat) (dev : Device) (pat : Pattern) (suffix : List UInt8)
    (s : State) : Prop where
  ends : ∃ fuel, ¬ Spins (checkAndUpdateBlPayload buf dev pat suffix fuel s)
  all : ∀ fuel u, checkAndUpdateBlPayload buf dev pat suffix fuel s = .ok () u →
    ∀ i < num, Considers buf dev pat suffix s num i

variable {buf : Buffer} {bh : BlobInfo} {num : Nat} {dev : Device} {pat : Pattern} {s t u : State}
  {suffix : List UInt8} {fuel : Nat}

/-! ## One pass more -/

theorem spins_throw : Spins ((throw .spinning : UpdateM Unit) s) := ⟨s, rfl⟩

variable (buf dev pat bh) in
/-- What one pass does before the next. -/
theorem updateEntries_pass {i : Nat} (status : Option TegrablErr) (h : i < num) (s : State) :
    (∃ r, ¬ (∃ u, r = .ok () u) ∧ ∀ k, updateEntries buf dev pat bh num (k + 1) i status s = r) ∨
      ∃ status' t, ∀ k, updateEntries buf dev pat bh num (k + 1) i status s =
        updateEntries buf dev pat bh num k ((i + 1) % 256) status' t := by
  simp only [updateEntries, if_pos h]
  cases hentry : blobGetEntry buf bh i with
  | none =>
      refine .inl ⟨.error .outOfBounds s, ?_, fun k => rfl⟩
      rintro ⟨u, hu⟩
      cases hu
  | some r =>
      cases r with
      | error e => exact .inr ⟨some e, s, fun k => rfl⟩
      | ok entry =>
          cases hpart : updatePartitionRecursive buf dev pat bh num (updateSequence.length + 1)
              (.field entry) s with
          | ok a t =>
              refine .inr ⟨none, t, fun k => ?_⟩
              show (updatePartitionRecursive buf dev pat bh num (updateSequence.length + 1)
                (.field entry) >>= fun _ => updateEntries buf dev pat bh num k ((i + 1) % 256) none) s
                = _
              rw [run_bind, hpart]
          | error stop t =>
              refine .inl ⟨.error stop t, ?_, fun k => ?_⟩
              · rintro ⟨u, hu⟩
                cases hu
              · show (updatePartitionRecursive buf dev pat bh num (updateSequence.length + 1)
                  (.field entry) >>= fun _ => updateEntries buf dev pat bh num k ((i + 1) % 256) none) s
                  = _
                rw [run_bind, hpart]

/-- A loop that has come to an end does not change with more passes. -/
theorem updateEntries_succ {k i : Nat} {status : Option TegrablErr}
    (h : ¬ Spins (updateEntries buf dev pat bh num k i status s)) :
    updateEntries buf dev pat bh num (k + 1) i status s =
      updateEntries buf dev pat bh num k i status s := by
  induction k generalizing i status s with
  | zero => exact absurd spins_throw h
  | succ k ih =>
      by_cases hlt : i < num
      · rcases updateEntries_pass buf bh dev pat status hlt s with
          ⟨r, -, hr⟩ | ⟨status', t, hr⟩
        · rw [hr, hr]
        · rw [hr] at h
          rw [hr, hr, ih h]
      · rw [updateEntries, if_neg hlt, updateEntries, if_neg hlt]

/-- A short walk succeeds only behind the last entry. -/
theorem updateEntries_short {k i : Nat} {status : Option TegrablErr} (hnum : num < 256)
    (hk : k + i ≤ num) : ∀ u, updateEntries buf dev pat bh num k i status s ≠ .ok () u := by
  induction k generalizing i status s with
  | zero =>
      intro u hu
      cases hu
  | succ k ih =>
      intro u hu
      have hlt : i < num := by omega
      have hnext : (i + 1) % 256 = i + 1 := Nat.mod_eq_of_lt (by omega)
      rcases updateEntries_pass buf bh dev pat status hlt s with
        ⟨r, hno, hr⟩ | ⟨status', t, hr⟩
      · rw [hr] at hu
        exact hno ⟨u, hu⟩
      · rw [hr, hnext] at hu
        exact ih (by omega) u hu

/-! ## The call around the loop -/

/-- What comes before the loop fails, or leads to the loop, however long that runs. -/
theorem updateFromBlob_cases (dev : Device) (pat : Pattern) (suffix : List UInt8) (s : State)
    (hb : UpdateBlob buf bh num) :
    (∃ stop t, ∀ k, updateFromBlob buf dev pat bh suffix k s = .error stop t) ∨
      ∃ t, ∀ k, updateFromBlob buf dev pat bh suffix k s =
        updateEntries buf dev pat bh num k 0 none t := by
  have hheader := hb.table.header
  have htype : ¬ buf.word (bh.offset + 32) ≠ blobUpdate := not_not.mpr hb.table.type
  have hcount := hb.count
  simp only [updateFromBlob, run_bind, blobGetType, blobGetNumEntries,
    load32_of_le buf (show bh.offset + 32 + 4 ≤ buf.bytes.length by omega),
    load32_of_le buf (show bh.offset + 28 + 4 ≤ buf.bytes.length by omega), read, run_pure,
    if_neg htype]
  cases isUpdateAllSlotsRequired buf dev true s with
  | error stop t => exact .inl ⟨stop, t, fun _ => rfl⟩
  | ok required t =>
      by_cases hzero : num = 0
      · simp only [run_modify, hcount, if_pos hzero]
        exact .inl ⟨_, _, fun _ => rfl⟩
      · simp only [run_modify, hcount, if_neg hzero]
        exact .inr ⟨_, fun _ => rfl⟩

theorem clearingList_error {m : UpdateM Unit} {stop : Stop} (h : m s = .error stop t) :
    ∃ u, clearingList m s = .error stop u := by
  rw [clearingList, h]
  cases stop with
  | err e => exact ⟨_, rfl⟩
  | outOfBounds => exact ⟨t, rfl⟩
  | assertion => exact ⟨t, rfl⟩
  | spinning => exact ⟨t, rfl⟩

theorem call_cases (dev : Device) (pat : Pattern) (suffix : List UInt8) (s : State)
    (hb : UpdateBlob buf bh num) :
    (∃ stop t, ∀ k, checkAndUpdateBlPayload buf dev pat suffix k s = .error stop t) ∨
      ∃ t, ∀ k, checkAndUpdateBlPayload buf dev pat suffix k s =
        clearingList (updateEntries buf dev pat bh num k 0 none) t := by
  have hinit : (∃ t, blobInit buf pat s = .ok (.error (tegrablError .nvblob .noMemory 0)) t) ∨
      ∃ t, blobInit buf pat s = .ok (.ok bh) t := by
    simp only [blobInit, nextFault, run_bind, run_get, run_set, run_pure]
    by_cases hfail : (pat.fails s.calls).isSome = true
    · simp only [if_pos hfail]
      exact .inl ⟨_, rfl⟩
    · simp only [if_neg hfail, hb.layout]
      exact .inr ⟨_, rfl⟩
  simp only [checkAndUpdateBlPayload, if_neg hb.addr, run_bind]
  rcases hinit with ⟨t, hinit⟩ | ⟨t, hinit⟩
  · simp only [hinit]
    exact .inl ⟨_, t, fun _ => rfl⟩
  · simp only [hinit, blobGetSize_eq, if_neg (Nat.not_lt_zero _)]
    rcases updateFromBlob_cases dev pat suffix t hb with ⟨stop, t', hr⟩ | ⟨t', hr⟩
    · obtain ⟨u, hu⟩ := clearingList_error (hr 0)
      exact .inl ⟨stop, u, fun k => by rw [← hu, clearingList, hr, clearingList, hr]⟩
    · exact .inr ⟨t', fun k => by rw [clearingList, hr, clearingList]⟩

theorem spins_clearingList {m : UpdateM Unit} : Spins (clearingList m s) ↔ Spins (m s) := by
  rw [clearingList]
  cases hm : m s with
  | ok a t =>
      constructor
      · rintro ⟨u, hu⟩
        cases hu
      · rintro ⟨u, hu⟩
        cases hu
  | error stop t =>
      cases stop with
      | err e =>
          constructor
          · rintro ⟨u, hu⟩
            cases hu
          · rintro ⟨u, hu⟩
            cases hu
      | outOfBounds => exact Iff.rfl
      | assertion => exact Iff.rfl
      | spinning => exact Iff.rfl

theorem ok_of_clearingList {m : UpdateM Unit} (h : clearingList m s = .ok () u) :
    ∃ t, m s = .ok () t := by
  rw [clearingList] at h
  cases hm : m s with
  | ok a t => exact ⟨t, rfl⟩
  | error stop t =>
      rw [hm] at h
      cases stop <;> cases h

/-- A call that has come to an end does not change with more passes. -/
theorem call_mono (hb : UpdateBlob buf bh num) {k m : Nat} (hle : k ≤ m)
    (h : ¬ Spins (checkAndUpdateBlPayload buf dev pat suffix k s)) :
    checkAndUpdateBlPayload buf dev pat suffix m s =
      checkAndUpdateBlPayload buf dev pat suffix k s := by
  induction m, hle using Nat.le_induction with
  | base => rfl
  | succ m _ ih =>
      rw [← ih]
      rcases call_cases dev pat suffix s hb with ⟨stop, t, hr⟩ | ⟨t, hr⟩
      · rw [hr, hr]
      · rw [← ih, hr, spins_clearingList] at h
        rw [hr, hr, clearingList, clearingList, updateEntries_succ h]

/-! ## Fewer than 256 entries -/

theorem ends_of_short (hb : UpdateBlob buf bh num) (hlist : s.list = []) (hnum : num < 256) :
    ¬ Spins (checkAndUpdateBlPayload buf dev pat suffix (num + 1) s) := by
  rintro ⟨t, ht⟩
  rcases wp_error (wp_checkAndUpdateBlPayload dev pat suffix (num + 1) hb hlist rfl) ht with
    h | ⟨-, h | ⟨-, hrun⟩⟩
  · obtain ⟨e, he⟩ := h.err
    cases he
  · rcases h.halts with ⟨hstop, -⟩ | ⟨⟨e, he⟩, -⟩
    · cases hstop
    · cases he
  · exact absurd (hrun.passes_le hnum) (Nat.not_succ_le_self num)

/-- A success comes only after every entry. -/
theorem considers_of_ok (hb : UpdateBlob buf bh num) (hnum : num < 256)
    (h : checkAndUpdateBlPayload buf dev pat suffix fuel s = .ok () u) {i : Nat} (hi : i < num) :
    Considers buf dev pat suffix s num i := by
  refine ⟨hi, i, Nat.mod_eq_of_lt (by omega), ?_⟩
  by_contra hspin
  have hend : ¬ Spins (checkAndUpdateBlPayload buf dev pat suffix fuel s) := by
    rintro ⟨t, ht⟩
    rw [h] at ht
    cases ht
  -- both have come to an end, so they are the same
  have hsame : checkAndUpdateBlPayload buf dev pat suffix i s = .ok () u := by
    rw [← h, ← call_mono hb (Nat.le_max_left i fuel) hspin,
      ← call_mono hb (Nat.le_max_right i fuel) hend]
  rcases call_cases dev pat suffix s hb with ⟨stop, t, hr⟩ | ⟨t, hr⟩
  · rw [hr] at hsame
    cases hsame
  · rw [hr] at hsame
    obtain ⟨v, hv⟩ := ok_of_clearingList hsame
    exact updateEntries_short hnum (by omega) v hv

/-! ## 256 entries and more -/

/-- On a device without a spec nothing is written, and nothing ends the loop. -/
theorem spins_of_long (hb : UpdateBlob buf bh num) (hnum : ¬ num < 256) (fuel : Nat) :
    Spins (checkAndUpdateBlPayload buf speclessDevice calm [] fuel {}) := by
  have hwp := wp_checkAndUpdateBlPayload speclessDevice calm [] fuel hb (s := {}) rfl rfl
  cases hr : checkAndUpdateBlPayload buf speclessDevice calm [] fuel {} with
  | ok a u => exact absurd (wp_ok hwp hr).2.short hnum
  | error stop u =>
      rcases wp_error hwp hr with h | ⟨-, h | ⟨rfl, -⟩⟩
      · rcases h.blame with hf | hzero
        · exact absurd faultless_calm hf
        · exact absurd (show num = 0 from hzero) (by omega)
      · rcases h.halts with ⟨-, hunclean⟩ | ⟨-, hf⟩
        · refine absurd ?_ hunclean
          intro n _ c hc
          have hnone : (none : Option Criteria) = some c := hc
          cases hnone
        · exact absurd faultless_calm hf
      · exact ⟨u, rfl⟩

/-- The header of a blob of 256 entries. -/
def longHeader : List UInt8 :=
  ascii "NVIDIA__BLOB__V2" ++ leBytes 4 2 ++ leBytes 4 30768 ++ leBytes 4 48 ++ leBytes 4 256 ++
    leBytes 4 blobUpdate ++ leBytes 4 0 ++ padded 8 []

/-- Entries with empty names. -/
def longPayload : Buffer := ⟨0x90000000, longHeader ++ List.replicate 30720 0⟩

def longHandle : BlobInfo := ⟨0x90000000, 0, 30768, 24⟩

theorem length_longHeader : longHeader.length = 48 := by decide

theorem length_longPayload : longPayload.bytes.length = 30768 := by
  rw [longPayload, List.length_append, List.length_replicate, length_longHeader]

theorem word_longPayload {off : Nat} (h : off + 4 ≤ 48) :
    longPayload.word off = leNat ((longHeader.drop off).take 4) := by
  have hle : off ≤ longHeader.length := by
    rw [length_longHeader]
    omega
  have hlen : 4 ≤ (longHeader.drop off).length := by
    rw [List.length_drop, length_longHeader]
    omega
  rw [Buffer.word, Buffer.tail, longPayload, List.drop_append_of_le_length hle,
    List.take_append_of_le_length hlen]

theorem longPayload_updateBlob : UpdateBlob longPayload longHandle 256 := by
  have hlen := length_longPayload
  have hwords : longPayload.word 20 = 30768 ∧ longPayload.word 24 = 48 ∧
      longPayload.word 28 = 256 ∧ longPayload.word 32 = blobUpdate := by
    refine ⟨?_, ?_, ?_, ?_⟩ <;> exact (word_longPayload (by decide)).trans (by decide)
  obtain ⟨hsize, hentries, hcount, htype⟩ := hwords
  have hload : load32 longPayload 20 = some 30768 := by
    rw [load32_of_le longPayload (by omega), hsize]
  refine ⟨by decide, ?_, by omega, ⟨by rw [hlen]; decide, htype, ?_⟩, hcount⟩
  · have hsigned : strncmp 20 (longPayload.tail 0) signedUpdateMagic = some false := rfl
    have hmagic : strncmp 16 (longPayload.tail 0) updateMagic = some true := rfl
    simp only [blobLayout, hsigned, hmagic, hload, Option.bind_eq_bind, Option.bind_some,
      Bool.false_eq_true, if_false, if_true]
    rfl
  · intro i hi
    have hentry : entryAt longPayload longHandle i = 48 + 120 * i := by
      show 0 + longPayload.word 24 + 120 * i = _
      rw [hentries, Nat.zero_add]
    rw [hentry, hlen]
    omega

end TX2SecureUart.Update
