/-
# `Boot.CmdlinePrepare` — `tegrabl_linuxboot_prepare_cmdline` stays in `s_cmdline`

Behind `init_cmd_list` nothing goes wrong: `ptr` and `remain` go up to the end of
`s_cmdline` together, and every hook writes up to there and ends what it writes.  So
the whole function stays in the buffer as `init_cmd_list` does.
-/
import TX2SecureUart.Boot.CmdlineInit

namespace TX2SecureUart.Cmdline

open Writes (overwrite)

/-- The hooks write up to the end, and there is a terminator. -/
structure PrepState.Fine (s : PrepState) : Prop where
  room : s.ptr + s.remain = commandLineSize
  terminated : 0 ∈ s.st.sCmdline

section
variable {s : PrepState} {h : Hook} {st : Statics}

/-- A hook leaves a terminator. -/
theorem Hook.terminates (h : Hook) {buf : List UInt8} {ptr len : Nat} (hbuf : 0 ∈ buf) :
    0 ∈ overwrite buf ptr (h.writes len) := by
  obtain hnil | ⟨text, htext⟩ := h.terminated len
  · rw [overwrite, hnil, List.append_nil, List.length_nil, Nat.add_zero, List.take_append_drop]
    exact hbuf
  · rw [overwrite, htext]
    exact List.mem_append_left _ (List.mem_append_right _ (List.mem_append_right _ List.mem_cons_self))

theorem PrepState.Fine.call (hs : s.Fine) :
    ∃ t, s.call h = some t ∧ t.Fine ∧ t.ptr = s.ptr ∧ t.remain = s.remain := by
  have hin : s.ptr + (h.writes s.remain).length ≤ s.st.sCmdline.length := by
    rw [s.st.size, ← hs.room]
    exact Nat.add_le_add_left (h.bounded _) _
  exact ⟨_, dif_pos hin, ⟨hs.room, h.terminates hs.terminated⟩, rfl, rfl⟩

/-- What is reported beyond `remain` is not believed. -/
theorem PrepState.Fine.advance (hs : s.Fine) (idx : Int) : (s.advance idx).Fine := by
  unfold PrepState.advance
  split
  · rename_i hidx
    refine ⟨?_, hs.terminated⟩
    have hroom := hs.room
    show s.ptr + idx.toNat + (s.remain - idx.toNat) = commandLineSize
    omega
  · exact hs

theorem PrepState.Fine.addParam (hs : s.Fine) (param : Param) : ∃ t, addParam s param = some t ∧ t.Fine := by
  unfold Cmdline.addParam
  split
  · exact ⟨s, rfl, hs⟩
  · cases param.append with
    | none => exact ⟨s, rfl, hs⟩
    | some h =>
        obtain ⟨t, hcall, ht, -⟩ := hs.call (h := h)
        refine ⟨t.advance (h.returns s.remain), ?_, ht.advance _⟩
        show (s.call h).map _ = _
        rw [hcall]
        rfl

theorem PrepState.Fine.addParams (hs : s.Fine) (params : List Param) :
    ∃ t, addParams s params = some t ∧ t.Fine := by
  induction params generalizing s with
  | nil => exact ⟨s, rfl, hs⟩
  | cons param params ih =>
      obtain ⟨t, hparam, ht⟩ := hs.addParam param
      rw [Cmdline.addParams, List.foldlM_cons, hparam]
      exact ih ht

theorem PrepState.Fine.bootimg (hs : s.Fine) (bootimg : Option Hook) :
    ∃ done t, addBootimg bootimg s = some (done, t) ∧ t.Fine := by
  cases bootimg with
  | none => exact ⟨false, s, rfl, hs⟩
  | some h =>
      obtain ⟨t, hcall, ht, -⟩ := hs.call (h := h)
      rw [addBootimg, hcall, Option.map_some]
      split
      · exact ⟨true, t, rfl, ht⟩
      · exact ⟨false, _, rfl, ht.advance _⟩

/-- From `init_cmd_list` on nothing goes wrong. -/
theorem PrepState.Fine.appendAll (hs : s.Fine) (bootimg : Option Hook) (common extra : List Param) :
    ∃ st, appendAll bootimg common extra s = some st ∧ 0 ∈ st.sCmdline := by
  obtain ⟨done, t, hboot, ht⟩ := hs.bootimg bootimg
  rw [Cmdline.appendAll, hboot]
  cases done with
  | true => exact ⟨t.st, rfl, ht.terminated⟩
  | false =>
      obtain ⟨u, hparams, hu⟩ := ht.addParams (common ++ extra)
      refine ⟨u.st, ?_, hu.terminated⟩
      show (Cmdline.addParams t (common ++ extra)).map (·.st) = _
      rw [hparams]
      rfl

variable (st) in
/-- What `init_cmd_list` leaves, if it stays in the buffer. -/
theorem initLine_safe (initcmdline : Option CString) :
    if (∀ cmdline ∈ initcmdline, InitSafe st.nIgnoreFastboot cmdline.chars) then
      ∃ i st', initLine st initcmdline = some (i, st') ∧ i ≤ commandLineSize ∧ 0 ∈ st'.sCmdline
    else initLine st initcmdline = none := by
  cases initcmdline with
  | none =>
      rw [if_pos (fun c hc => absurd hc (Option.not_mem_none c))]
      refine ⟨0, _, rfl, Nat.zero_le _, ?_⟩
      exact List.mem_iff_getElem?.mpr ⟨0, List.getElem?_set_self (by rw [st.size]; exact Nat.zero_lt_succ _)⟩
  | some cmdline =>
      have hends := initCmdList_ends st cmdline
      have hall : (∀ c ∈ some cmdline, InitSafe st.nIgnoreFastboot c.chars) ↔
          InitSafe st.nIgnoreFastboot cmdline.chars :=
        ⟨fun h => h cmdline rfl, fun h c hc => Option.mem_some.mp hc ▸ h⟩
      by_cases hsafe : InitSafe st.nIgnoreFastboot cmdline.chars
      · rw [if_pos (hall.mpr hsafe)]
        rw [if_pos hsafe] at hends
        obtain ⟨st', hinit, hleft⟩ := hends
        refine ⟨st'.nOrigCmdlen, st', ?_, st'.nOrigCmdlen_lt.le,
          List.mem_iff_getElem?.mpr ⟨_, hleft.terminated⟩⟩
        rw [initLine, hinit]
        rfl
      · rw [if_neg (fun h => hsafe (hall.mp h)), initLine]
        rw [if_neg hsafe] at hends
        rw [hends]
        rfl

end

/-! ## The whole function -/

/-- `s_cmdline` is neither read nor written outside, and it is terminated, just if it
is so in `init_cmd_list`. -/
theorem prepareCmdline_safe_iff (st : Statics) (initcmdline : Option CString) (bootimg : Option Hook)
    (commonParams extraParams : List Param) :
    (∃ st', prepareCmdline st initcmdline bootimg commonParams extraParams = some st' ∧
        0 ∈ st'.sCmdline) ↔
      ∀ cmdline ∈ initcmdline, InitSafe st.nIgnoreFastboot cmdline.chars := by
  have hinit := initLine_safe st.cleared initcmdline
  show _ ↔ ∀ cmdline ∈ initcmdline, InitSafe st.cleared.nIgnoreFastboot cmdline.chars
  by_cases hsafe : ∀ cmdline ∈ initcmdline, InitSafe st.cleared.nIgnoreFastboot cmdline.chars
  · rw [if_pos hsafe] at hinit
    obtain ⟨i, st', hline, hle, hterm⟩ := hinit
    have hs : PrepState.Fine { st := st', ptr := i, remain := commandLineSize - i } :=
      ⟨Nat.add_sub_of_le hle, hterm⟩
    refine ⟨fun _ => hsafe, fun _ => ?_⟩
    rw [prepareCmdline, hline]
    exact hs.appendAll bootimg commonParams extraParams
  · rw [if_neg hsafe] at hinit
    refine ⟨?_, fun h => absurd h hsafe⟩
    rintro ⟨st', hprep, -⟩
    rw [prepareCmdline, hinit] at hprep
    cases hprep

theorem length_zeros : (List.replicate commandLineSize (0 : UInt8)).length = commandLineSize :=
  List.length_replicate

/-- Before the first call. -/
def initialStatics : Statics where
  sCmdline := List.replicate commandLineSize 0
  size := length_zeros
  nOrigCmdlen := 0
  nOrigCmdlen_lt := Nat.zero_lt_succ _
  nIgnoreFastboot := false

/-- A DTB that only says `ignorefastboot`. -/
def onlyIgnored : CString := ⟨ignoreFastbootCmd, by decide⟩

/-- `next` is zero again, and `s_cmdline[-1]` is read. -/
theorem onlyIgnored_overruns :
    ¬ ∃ st', prepareCmdline initialStatics (some onlyIgnored) none [] [] = some st' ∧
      0 ∈ st'.sCmdline := by
  rintro ⟨st', hprep, -⟩
  have hinit := initLine_safe initialStatics.cleared (some onlyIgnored)
  rw [if_neg (fun h => (h onlyIgnored rfl).notOnlyIgnored ⟨rfl, by decide, by decide⟩)] at hinit
  rw [prepareCmdline, hinit] at hprep
  cases hprep

end TX2SecureUart.Cmdline
