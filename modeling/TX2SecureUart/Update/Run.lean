/-
# `Update.Run` — what a whole run does

The program keeps to the blocks of `Update.Walk`: a step lemma for one partition,
an induction on the depth of its dependencies, and one on the passes of the loop
over the entries.
-/
import TX2SecureUart.Update.Walk

namespace TX2SecureUart.Update

open Prog Storage StrRead

/-- The job of walking the entries from a state on. -/
def jobOf (buf : Buffer) (bh : BlobInfo) (num : Nat) (dev : Device) (pat : Pattern) (s : State) :
    Job where
  buf := buf
  bh := bh
  num := num
  criteria := (specOf dev s).map (⟨·, dev.production⟩)
  pat := pat
  required := s.isRequired
  suffix := s.updateSlotSuffix

variable {buf : Buffer} {bh : BlobInfo} {num : Nat} {dev : Device} {pat : Pattern} {s t u : State}
  {J : Job} {n d : List UInt8} {bs : List Block}

theorem Frame.job {ws : List Write} (h : Frame dev s t ws) :
    jobOf buf bh num dev pat t = jobOf buf bh num dev pat s := by
  rw [jobOf, jobOf, h.spec, h.required, h.suffix]

/-! ## One partition -/

theorem wp_alignData (dev : Device) {data size : Nat} :
    wp (alignData buf pat data size) (fun _ t => Frame dev s t [])
      (Halted dev pat (InRange buf data size) s (· = [])) s := by
  rw [alignData, wp_ite]
  split
  case isTrue => exact Frame.refl dev s
  case isFalse =>
    have hcall := (Frame.refl dev s).call
    simp only [wp_bind, wp_nextFault, wp_ite]
    split
    case isTrue hfail =>
      obtain ⟨e, he⟩ := Option.isSome_iff_exists.mp hfail
      exact halted_err (not_faultless_of_fails he) hcall rfl
    case isFalse =>
      refine wp_readRange (fun _ => hcall) ?_
      intro hout
      refine Halted.after hcall ?_ id (fun ws hws => hws)
      exact halted_outOfBounds hout rfl

/-- The entry that the search found is written. -/
theorem wp_writeEntry (ht : Table buf bh num) (hchk : s.isNewBupChecked = true) {c : Criteria}
    {j : Nat} (hj : Chosen buf bh num c n j) :
    wp (writeEntry buf dev pat bh j (entryAt buf bh j))
      (fun _ t => Made buf dev pat s (entryAt buf bh j) (dataAt buf bh j) (sizeAt buf bh j) t)
      (Halted dev pat (NameOk buf (entryAt buf bh j) ∧
          InRange buf (dataAt buf bh j) (sizeAt buf bh j)) s
        (Tried buf pat s (entryAt buf bh j) (dataAt buf bh j) (sizeAt buf bh j))) s := by
  have hin := ht.inside j hj.lt
  rw [writeEntry, wp_bind]
  refine wp_read_some (blobGetEntryData_eq ht hj.lt) ?_
  rw [wp_bind]
  refine wp_orFail ?_ (fun e he => by cases he)
  intro found hfound
  cases hfound
  rw [wp_bind]
  refine wp_read ?_ ?_
  case refine_2 =>
    intro hnone
    refine halted_outOfBounds ?_ (.inl rfl)
    rintro ⟨hok, -⟩
    rw [hok.cstring] at hnone
    cases hnone
  intro target htarget
  have hends : 0 ∈ buf.tail (entryAt buf bh j) := by
    by_contra hnot
    rw [cstring_of_not_mem hnot] at htarget
    cases htarget
  have hopen := (Frame.refl dev s).call
  simp only [wp_bind, wp_partitionOpen]
  refine wp_throwIf ?_ (fun e he => halted_err (not_faultless_of_opens he) hopen (.inl rfl))
  intro _
  rw [wp_bind]
  refine wp_mono (wp_eraseOnQspi dev target) ?_ ?_
  case refine_2 =>
    intro stop t ht
    exact ht.after hopen (fun _ => trivial) (fun ws hws => .inl hws)
  intro _ t₁ ht₁
  have hframe₁ := hopen.trans ht₁
  rw [wp_bind]
  refine wp_mono (wp_alignData dev) ?_ ?_
  case refine_2 =>
    intro stop t ht
    exact ht.after hframe₁ (fun h => h.2) (fun ws hws => .inl hws)
  intro _ t₂ ht₂
  have hframe := hframe₁.trans ht₂
  rw [wp_bind]
  refine wp_read_some (load32_of_le buf (by omega)) ?_
  have hread : Readable (gptPartNameLen - 1) (buf.tail (entryAt buf bh j)) :=
    readable_tail (by rw [gptPartNameLen]; omega)
  refine wp_mono (wp_writeABPartition hread hends (hframe.checked.trans hchk)) ?_ ?_
  · rintro _ u ⟨hok, slots, hplan, hu⟩
    rw [hframe.required, hframe.suffix] at hplan
    exact ⟨hok, slots, hplan, hframe.trans hu⟩
  · intro stop u hu
    refine hu.after hframe id ?_
    intro ws hws
    rw [Tried, hframe.required, hframe.suffix] at hws
    exact hws

theorem formatSpec_ne_nil (id config : List UInt8) : formatSpec id config ≠ [] := by
  intro h
  have hlen := congrArg List.length h
  have hdot : (ascii ".").length = 1 := by decide
  rw [formatSpec, List.length_take, List.length_append, List.length_append, hdot] at hlen
  simp at hlen

/-- Asking for the spec settles it. -/
theorem wp_getSpecInfo :
    wp (getSpecInfo dev)
      (fun b t => Frame dev s t [] ∧ specOf dev s = if b then some t.globalNctSpec else none)
      (fun _ _ => False) s := by
  rw [getSpecInfo, wp_bind, wp_get, wp_ite]
  split
  case isTrue h => exact ⟨Frame.refl dev s, if_pos h⟩
  case isFalse h =>
    have hspec : specOf dev s = dev.nctSpec.map (fun ids => formatSpec ids.1 ids.2) := if_neg h
    cases hnct : dev.nctSpec with
    | none =>
        rw [hnct] at hspec
        exact ⟨Frame.refl dev s, hspec⟩
    | some ids =>
        rw [hnct] at hspec
        have hafter : specOf dev { s with globalNctSpec := formatSpec ids.1 ids.2 } =
            some (formatSpec ids.1 ids.2) := if_pos (formatSpec_ne_nil ids.1 ids.2)
        exact ⟨⟨rfl, hafter.trans hspec.symm, rfl, rfl, rfl, (List.append_nil _).symm⟩, hspec⟩

theorem wp_updatePartition (ht : Table buf bh num) (hJ : jobOf buf bh num dev pat s = J)
    (hchk : s.isNewBupChecked = true) {part : Str}
    (hpart : Readable gptPartNameLen (part.bytes buf)) :
    wp (updatePartition buf dev pat bh part num)
      (fun _ t => ∃ ws, Frame dev s t ws ∧ J.Outcome (part.name buf) ws ∧
        J.Clean (part.name buf))
      (Halted dev pat (J.Clean (part.name buf)) s (J.Unfinished (part.name buf))) s := by
  subst hJ
  rw [updatePartition, wp_bind]
  refine wp_mono wp_getSpecInfo ?_ (fun _ _ h => h.elim)
  rintro b t ⟨hframe, hspec⟩
  rw [wp_ite]
  cases b with
  | false =>
      have hnone : (jobOf buf bh num dev pat s).criteria = none := by
        rw [if_neg Bool.false_ne_true] at hspec
        rw [jobOf, hspec]
        rfl
      refine ⟨[], hframe, .none ?_, ?_⟩
      · rintro j ⟨c, hc, -⟩
        rw [hnone] at hc
        cases hc
      · intro c hc
        rw [hnone] at hc
        cases hc
  | true =>
      rw [if_pos rfl] at hspec
      have hc : (jobOf buf bh num dev pat s).criteria = some ⟨t.globalNctSpec, dev.production⟩ := by
        rw [jobOf, hspec]
        rfl
      rw [if_pos rfl, findAndWrite, wp_bind, wp_get, wp_bind]
      have hsearch := findEntry_spec (c := ⟨t.globalNctSpec, dev.production⟩) ht hpart
      generalize hr : findEntry buf bh t.globalNctSpec dev.production part 0 num = r at hsearch
      cases hsearch with
      | left hex hnot =>
          refine ⟨.inl ⟨rfl, ?_⟩, [], hframe, .none⟩
          intro hclean
          exact hnot ((hclean _ hc).1 _ hex)
      | missing hnone hends =>
          refine wp_read_some rfl ?_
          rw [wp_bind]
          refine wp_orFail ?_ (fun e he => by cases he)
          intro found hfound
          cases hfound
          have hnot := not_chosen hnone
          refine ⟨[], hframe, .none ?_, ?_⟩
          · rintro j ⟨c, hc', hj⟩
            rw [hc] at hc'
            cases hc'
            exact hnot j hj
          · intro c hc'
            rw [hc] at hc'
            cases hc'
            exact ⟨hends, fun j hj => absurd hj (hnot j)⟩
      | found hj hends =>
          rename_i j
          refine wp_read_some rfl ?_
          rw [wp_bind]
          refine wp_orFail ?_ (fun e he => by cases he)
          intro found hfound
          cases hfound
          have hchooses : (jobOf buf bh num dev pat s).Chooses (part.name buf) j := ⟨_, hc, hj⟩
          have hname : (Str.field (entryAt buf bh j)).name buf = part.name buf := hj.name
          refine wp_mono (wp_writeEntry ht (hframe.checked.trans hchk) hj) ?_ ?_
          · rintro _ u ⟨hok, slots, hplan, hu⟩
            rw [hframe.required, hframe.suffix, hname] at hplan
            rw [hname] at hu
            refine ⟨_, hframe.trans hu, .made hchooses hplan, ?_⟩
            intro c hc'
            rw [hc] at hc'
            cases hc'
            refine ⟨hends, ?_⟩
            intro i hi
            rw [hi.unique hj]
            exact hok
          · intro stop u hu
            refine hu.after hframe ?_ ?_
            · intro hclean
              exact (hclean _ hc).2 j hj
            · rintro ws (rfl | ⟨slots, hplan, hatt⟩)
              · exact .none
              · rw [hframe.required, hframe.suffix, hname] at hplan
                rw [hname] at hatt
                exact .tried hchooses hplan hatt

/-! ## A partition and those it depends on -/

/-- A state in which the partitions of `bs` are done with, in a run begun in `s`. -/
structure Walked (dev : Device) (J : Job) (s t : State) (bs : List Block) : Prop where
  job : jobOf J.buf J.bh J.num dev J.pat t = J
  blocks : J.Blocks bs
  checked : t.isNewBupChecked = true
  names : t.list.map (Str.name J.buf) = (bs.map Block.name).reverse
  readable : ∀ p ∈ t.list, Readable gptPartNameLen (p.bytes J.buf)
  writes : writesOf t.log = writesOf s.log ++ bs.flatMap Block.ws

/-- A state in which such a run was given up. -/
structure Broken (dev : Device) (J : Job) (s : State) (stop : Stop) (t : State) : Prop where
  halts : Halts J.pat J.suffix J.AllClean stop
  job : jobOf J.buf J.bh J.num dev J.pat t = J
  checked : t.isNewBupChecked = true
  ragged : ∃ bs ws, J.Blocks bs ∧ J.Ragged bs ws ∧
    writesOf t.log = writesOf s.log ++ bs.flatMap Block.ws ++ ws

theorem Walked.mem_names (h : Walked dev J s t bs) :
    n ∈ t.list.map (Str.name J.buf) ↔ n ∈ bs.map Block.name := by
  rw [h.names, List.mem_reverse]

/-- The part of the run that stopped left the list as it was. -/
theorem Walked.broken (h : Walked dev J s t bs) (hnew : n ∉ bs.map Block.name)
    (hdeps : ∀ d, (n, d) ∈ updateSequence → d ∈ bs.map Block.name) (hreached : J.Reached n)
    {stop : Stop} (hstop : Halted dev J.pat (J.Clean n) t (J.Unfinished n) stop u) :
    Broken dev J s stop u := by
  obtain ⟨hhalts, ws, hframe, hun⟩ := hstop
  have hsuffix : t.updateSlotSuffix = J.suffix := congrArg Job.suffix h.job
  rw [hsuffix] at hhalts
  refine ⟨hhalts.mono (fun hall => hall n hreached), hframe.job.trans h.job,
    hframe.checked.trans h.checked, bs, ws, h.blocks, .inr ⟨n, hnew, hreached, hdeps, hun⟩, ?_⟩
  rw [hframe.writes, h.writes]

theorem wp_updatePartitionRecursive (ht : Table J.buf J.bh J.num) :
    ∀ (depth : Nat) (part : Str) (t : State) (bs : List Block),
      Readable gptPartNameLen (part.bytes J.buf) → J.Reached (part.name J.buf) →
      rank (part.name J.buf) < depth → Walked dev J s t bs →
      wp (updatePartitionRecursive J.buf dev J.pat J.bh J.num depth part)
        (fun _ u => ∃ more, Walked dev J s u (bs ++ more) ∧
          part.name J.buf ∈ (bs ++ more).map Block.name ∧
          ∀ b ∈ more, rank b.name ≤ rank (part.name J.buf))
        (Broken dev J s) t
  | 0, _, _, _, _, _, hrank, _ => absurd hrank (Nat.not_lt_zero _)
  | depth + 1, part, t, bs, hpart, hreached, hrank, hw => by
      rw [updatePartitionRecursive, wp_bind, wp_get, wp_bind]
      refine wp_read_some (listHas_eq hpart hw.readable) ?_
      rw [wp_ite]
      split
      case isTrue hmem =>
        refine ⟨[], ?_, ?_, fun _ h => absurd h List.not_mem_nil⟩
        · rwa [List.append_nil]
        · rw [List.append_nil]
          exact hw.mem_names.mp (of_decide_eq_true hmem)
      case isFalse hmem =>
      have hnew : part.name J.buf ∉ bs.map Block.name :=
        fun h => hmem (decide_eq_true (hw.mem_names.mpr h))
      obtain ⟨dep, hdep, hiff⟩ := getDependency_spec J.buf hpart
      rw [wp_bind]
      refine wp_read_some hdep ?_
      -- the dependency first; what it adds comes earlier in the chain
      refine wp_seq (R := fun _ u => ∃ more, Walked dev J s u (bs ++ more) ∧
        (∀ d, (part.name J.buf, d) ∈ updateSequence → d ∈ (bs ++ more).map Block.name) ∧
        ∀ b ∈ more, rank b.name < rank (part.name J.buf)) ?_ ?_
      · cases dep with
        | none =>
            refine ⟨[], ?_, ?_, fun _ h => absurd h List.not_mem_nil⟩
            · rwa [List.append_nil]
            · intro d hd
              cases (hiff d).mp hd
        | some d =>
            have hd : (part.name J.buf, d) ∈ updateSequence := (hiff d).mpr rfl
            have hname := name_const_dependency hd J.buf
            have hlt := rank_dependency hd
            have ih := wp_updatePartitionRecursive ht depth (.const d) t bs
              (readable_of_mem (by simp [Str.bytes]))
              (by rw [hname]; exact .dependency hreached hd) (by rw [hname]; omega) hw
            refine wp_conseq ih ?_
            rintro _ u ⟨more, hu, hmem', hle⟩
            rw [hname] at hmem' hle
            refine ⟨more, hu, ?_, fun b hb => Nat.lt_of_le_of_lt (hle b hb) hlt⟩
            intro d' hd'
            obtain rfl := Option.some.inj ((hiff d').mp hd')
            exact hmem'
      rintro _ u ⟨more, hu, hdeps, hlt⟩
      have hnew' : part.name J.buf ∉ (bs ++ more).map Block.name := by
        rw [List.map_append]
        intro h
        rcases List.mem_append.mp h with h | h
        · exact hnew h
        · obtain ⟨b, hb, hbn⟩ := List.mem_map.mp h
          have := hlt b hb
          rw [hbn] at this
          exact absurd this (Nat.lt_irrefl _)
      rw [wp_bind]
      refine wp_mono (wp_updatePartition ht hu.job hu.checked hpart) ?_ ?_
      case refine_2 =>
        intro stop v hv
        exact hu.broken hnew' hdeps hreached hv
      rintro _ v ⟨ws, hframe, hout, hclean⟩
      simp only [addToList, wp_bind, wp_nextFault, wp_ite]
      split
      case isTrue hfail =>
        obtain ⟨e, he⟩ := Option.isSome_iff_exists.mp hfail
        exact hu.broken hnew' hdeps hreached
          (halted_err (not_faultless_of_fails he) hframe.call hout.unfinished)
      case isFalse =>
        have hblocks := hu.blocks.snoc (b := ⟨part.name J.buf, ws⟩) hnew' hout hclean hreached hdeps
        refine ⟨more ++ [⟨part.name J.buf, ws⟩], ?_, ?_, ?_⟩
        · rw [← List.append_assoc]
          refine ⟨hframe.job.trans hu.job, hblocks, hframe.checked.trans hu.checked, ?_, ?_, ?_⟩
          · show part.name J.buf :: v.list.map (Str.name J.buf) = _
            rw [hframe.list, hu.names]
            simp
          · intro p hp
            rcases List.mem_cons.mp hp with rfl | hp
            · exact hpart
            · exact hu.readable p (hframe.list ▸ hp)
          · show writesOf v.log = _
            rw [hframe.writes, hu.writes]
            simp
        · simp
        · intro b hb
          rcases List.mem_append.mp hb with hb | hb
          · exact Nat.le_of_lt (hlt b hb)
          · obtain rfl := List.mem_singleton.mp hb
            exact Nat.le_refl _

/-! ## The loop over the entries -/

/-- The partitions of the first `m` entries are done with; the counter sees 256. -/
def Covered (J : Job) (m : Nat) (bs : List Block) : Prop :=
  ∀ i < m, i < 256 → i < J.num → entryName J.buf J.bh i ∈ bs.map Block.name

/-- A run that came to its end. -/
structure Complete (dev : Device) (J : Job) (s u : State) : Prop where
  short : J.num < 256
  unchecked : u.isNewBupChecked = false
  job : jobOf J.buf J.bh J.num dev J.pat u = J
  blocks : ∃ bs, J.Blocks bs ∧ writesOf u.log = writesOf s.log ++ bs.flatMap Block.ws ∧
    Covered J J.num bs

/-- A run whose loop is still running after `passes` passes. -/
structure Running (dev : Device) (J : Job) (s u : State) (passes : Nat) : Prop where
  passes_le : J.num < 256 → passes ≤ J.num
  walked : ∃ bs, Walked dev J s u bs ∧ Covered J passes bs

/-- After `m` passes the counter is `m % 256`. -/
theorem wp_updateEntries (ht : Table J.buf J.bh J.num) :
    ∀ (fuel m : Nat) (t : State) (bs : List Block), Walked dev J s t bs → Covered J m bs →
      (J.num < 256 → m ≤ J.num) →
      wp (updateEntries J.buf dev J.pat J.bh J.num fuel (m % 256) none)
        (fun _ u => Complete dev J s u)
        (fun stop u => Broken dev J s stop u ∨
          (stop = .spinning ∧ Running dev J s u (m + fuel))) t
  | 0, m, t, bs, hw, hcov, hm => .inr ⟨rfl, hm, bs, hw, hcov⟩
  | fuel + 1, m, t, bs, hw, hcov, hm => by
      rw [updateEntries, wp_ite]
      split
      case isFalse hend =>
        have hshort : J.num < 256 := by
          have := Nat.mod_lt m (show 0 < 256 by decide)
          omega
        refine ⟨hshort, rfl, hw.job, bs, hw.blocks, hw.writes, ?_⟩
        intro i hi
        have := Nat.mod_le m 256
        exact hcov i (by omega)
      case isTrue hlt =>
        have hin := ht.inside _ hlt
        rw [wp_bind]
        refine wp_read_some (blobGetEntry_eq ht _) ?_
        rw [wp_bind]
        have hread : Readable gptPartNameLen
            ((Str.field (entryAt J.buf J.bh (m % 256))).bytes J.buf) :=
          readable_tail (by rw [gptPartNameLen]; omega)
        refine wp_mono (wp_updatePartitionRecursive ht _ _ t bs hread
          (.entry hlt (Nat.mod_lt m (by decide))) (rank_le _) hw) ?_ (fun _ _ h => .inl h)
        rintro _ u ⟨more, hu, hmem, -⟩
        have hcov' : Covered J (m + 1) (bs ++ more) := by
          intro i hi h256 hnum
          rcases Nat.lt_or_eq_of_le (Nat.lt_succ_iff.mp hi) with hlt' | rfl
          · rw [List.map_append]
            exact List.mem_append_left _ (hcov i hlt' h256 hnum)
          · rw [Nat.mod_eq_of_lt h256] at hmem
            exact hmem
        have hnext : (m % 256 + 1) % 256 = (m + 1) % 256 := by omega
        have ih := wp_updateEntries ht fuel (m + 1) u (bs ++ more) hu hcov' ?_
        · rw [hnext]
          refine wp_mono ih (fun _ _ h => h) ?_
          rintro stop v (h | ⟨hstop, hrun⟩)
          · exact .inl h
          · refine .inr ⟨hstop, ?_⟩
            rwa [Nat.add_right_comm] at hrun
        · intro hshort
          have := hm hshort
          rw [Nat.mod_eq_of_lt (by omega)] at hlt
          omega

end TX2SecureUart.Update
