/-
# `Sm.EksInfo` — the encrypted keys behind the boot arguments

`process_boot_params` notes where the encrypted keys lie, and `get_and_clear_eks_info` hands
that out.  Here a read of the block is checked against the length that `sm_get_boot_args`
reports: the mapping covers whole pages, but what follows the arguments is not theirs.
-/
import TX2SecureUart.Sm.BootArgs

namespace TX2SecureUart.BootArgs

open Prog

inductive RegionStop where
  | boot (stop : Stop)
  /-- a read behind the end of the arguments -/
  | outside
deriving DecidableEq

abbrev RegionM := EStateM RegionStop State

def boot {α : Type} (m : BootM α) : RegionM α := embed id (fun t _ => t) .boot m

def readInside (env : Env) (off n : Nat) : RegionM (List UInt8) :=
  if off + n ≤ env.length.toNat then boot (readBlock env off n) else throw .outside

/-- `parse_bootargs` -/
def parseInside (env : Env) : RegionM Unit := do
  let uid0 ← readInside env 8 4
  let uid1 ← readInside env 12 4
  let uid2 ← readInside env 16 4
  let uid3 ← readInside env 20 4
  let uartId ← readInside env 4 4
  let rbData ← readInside env 80 64
  boot (modify fun s => { s with parsed := { s.parsed with
    deviceUid := [leNat uid0, leNat uid1, leNat uid2, leNat uid3]
    debugUartId := leNat uartId
    rbData := rbData } })

/-- The address of `keys_params`, as it is recorded. -/
def keysPaddr (env : Env) (bootParams : UInt64) : UInt64 :=
  env.kvaddrToPaddr (bootParams + UInt64.ofNat sizeofBootParams)

/-- `process_boot_params` -/
def processInside (env : Env) : RegionM Int := do
  match ← boot (smGetBootArgs env) with
  | .error ret => pure ret
  | .ok (bootParams, totalLength) =>
      if bootParams == 0 then
        boot smPutBootArgs
        pure errNotConfigured
      else if totalLength.toNat < sizeofBootParams then
        boot smPutBootArgs
        pure errBadLen
      else
        parseInside env
        let keysLength := leNat (← readInside env sizeofBootParams 4)
        if keysLength > maximumEncryptedKeysSize then
          boot (storeEksInfo 0 0)
          boot smPutBootArgs
          pure errBadLen
        else
          boot (storeEksInfo (keysPaddr env bootParams) keysLength)
          if env.partner != noError then
            pure env.partner
          else
            boot smPutBootArgs
            pure env.partner

/-- `get_and_clear_eks_info`, with whether `info` is not `NULL`: the result and what is stored
through it. -/
def getAndClearEksInfo (platformIsBootstrapping info : Bool) : BootM (Int × Option (UInt64 × Nat)) := do
  let s ← get
  if platformIsBootstrapping = false then pure (errNotAllowed, none)
  else if info = false then pure (errInvalidArgs, none)
  else
    storeEksInfo 0 0
    pure (noError, some (s.parsed.eksPaddr, s.parsed.eksBlobLength))

/-! ## The checked program is the program -/

/-- Whatever `m` returns, `n` returns. -/
def Refines {α : Type} (m : RegionM α) (n : BootM α) : Prop :=
  ∀ s a t, m s = .ok a t → n s = .ok a t

theorem refines_boot {α : Type} (m : BootM α) : Refines (boot m) m := by
  intro s a t h
  unfold boot embed at h
  cases hm : m (id s) with
  | ok b u =>
    rw [hm] at h
    cases h
    exact hm
  | error e u =>
    rw [hm] at h
    cases h

theorem refines_pure {α : Type} (a : α) : Refines (pure a) (pure a) := by
  intro s b t h
  cases h
  rfl

theorem refines_bind {α β : Type} {m : RegionM α} {n : BootM α} {f : α → RegionM β} {g : α → BootM β}
    (hm : Refines m n) (hf : ∀ a, Refines (f a) (g a)) : Refines (m >>= f) (n >>= g) := by
  intro s b t h
  rw [run_bind] at h ⊢
  cases hrun : m s with
  | ok a u =>
    rw [hrun] at h
    rw [hm s a u hrun]
    exact hf a u b t h
  | error e u =>
    rw [hrun] at h
    cases h

theorem refines_ite {α : Type} {c : Prop} [Decidable c] {m m' : RegionM α} {n n' : BootM α}
    (hm : Refines m n) (hm' : Refines m' n') : Refines (if c then m else m') (if c then n else n') := by
  by_cases hc : c
  · rw [if_pos hc, if_pos hc]
    exact hm
  · rw [if_neg hc, if_neg hc]
    exact hm'

theorem refines_readInside (env : Env) (off n : Nat) :
    Refines (readInside env off n) (readBlock env off n) := by
  unfold readInside
  split
  · exact refines_boot _
  · intro s a t h
    cases h

theorem refines_parse (env : Env) : Refines (parseInside env) (parseBootargs env) :=
  refines_bind (refines_readInside env _ _) fun _ => refines_bind (refines_readInside env _ _) fun _ =>
    refines_bind (refines_readInside env _ _) fun _ => refines_bind (refines_readInside env _ _) fun _ =>
      refines_bind (refines_readInside env _ _) fun _ => refines_bind (refines_readInside env _ _) fun _ =>
        refines_boot _

/-- Where every read is inside the arguments, the check changes nothing. -/
theorem refines_process (env : Env) : Refines (processInside env) (processBootParams env) := by
  refine refines_bind (refines_boot _) ?_
  intro r
  cases r with
  | error ret => exact refines_pure ret
  | ok p =>
    obtain ⟨bootParams, totalLength⟩ := p
    have hput : ∀ ret : Int, Refines (do boot smPutBootArgs; pure ret) (do smPutBootArgs; pure ret) :=
      fun ret => refines_bind (refines_boot _) fun _ => refines_pure ret
    refine refines_ite (hput _) (refines_ite (hput _) ?_)
    refine refines_bind (refines_parse env) fun _ => refines_bind (refines_readInside env _ _) fun keys => ?_
    refine refines_ite (refines_bind (refines_boot _) fun _ => hput _) ?_
    exact refines_bind (refines_boot _) fun _ => refines_ite (refines_pure _) (hput _)

/-! ## What is recorded -/

@[simp] theorem wp_boot {α : Type} {m : BootM α} {Q : α → State → Prop}
    {E : RegionStop → State → Prop} {s : State} :
    wp (boot m) Q E s ↔ wp m Q (fun e t => E (.boot e) t) s := by
  unfold boot
  exact wp_embed

/-- The block is mapped, and nothing is recorded yet. -/
structure FreshBlock (s : State) : Prop where
  bootArgs : s.args.bootArgs ≠ 0
  mapped : s.args.mapped = true
  eksPaddr : s.parsed.eksPaddr = 0
  eksBlobLength : s.parsed.eksBlobLength = 0

/-- Giving the reference back leaves what was read. -/
theorem smPutBootArgs_parsed (s : State) : always smPutBootArgs (fun _ t => t.parsed = s.parsed) s := by
  have hloop : ∀ t : State, t.parsed = s.parsed →
      wp (forM (List.range smpMaxCpus) resumeCpu) (fun _ u => u.parsed = s.parsed) (fun _ _ => False) t :=
    fun t ht => wp_forM (f := resumeCpu) (I := fun _ u => u.parsed = s.parsed) (fun _ _ _ hu => hu) _ ht
  simp only [always, smPutBootArgs, resumeNsthreads, vmmFreeRegion, wp_bind, wp_get, wp_modify, wp_ite,
    wp_pure]
  split
  · trivial
  · split
    · refine hloop _ ?_
      split
      · rfl
      · rfl
    · trivial

/-- A read inside the arguments. -/
theorem wp_readInside {env : Env} {off n : Nat} {s : State} (hmapped : s.args.mapped = true)
    (hinside : off + n ≤ env.length.toNat) {Q : List UInt8 → State → Prop}
    {E : RegionStop → State → Prop} :
    wp (readInside env off n) Q E s ↔ Q ((List.range n).map fun i => env.bytes (off + i)) s := by
  rw [readInside, if_pos hinside, wp_boot, readBlock, wp_bind, wp_get, hmapped, if_pos rfl, wp_pure]

theorem wp_readInside_outside {env : Env} {off n : Nat} {s : State}
    (houtside : env.length.toNat < off + n) {Q : List UInt8 → State → Prop}
    {E : RegionStop → State → Prop} : wp (readInside env off n) Q E s ↔ E .outside s := by
  rw [readInside, if_neg (Nat.not_le_of_lt houtside), wp_throw]

theorem wp_parseInside {env : Env} {s : State} (hmapped : s.args.mapped = true)
    (hlong : sizeofBootParams ≤ env.length.toNat) {Q : Unit → State → Prop}
    {E : RegionStop → State → Prop}
    (h : ∀ t, t.args = s.args → Q () t) : wp (parseInside env) Q E s := by
  have hread : ∀ off n, off + n ≤ sizeofBootParams → off + n ≤ env.length.toNat :=
    fun off n hoff => Nat.le_trans hoff hlong
  unfold parseInside
  simp only [wp_bind, wp_readInside hmapped (hread _ _ (by decide : 8 + 4 ≤ sizeofBootParams)),
    wp_readInside hmapped (hread _ _ (by decide : 12 + 4 ≤ sizeofBootParams)),
    wp_readInside hmapped (hread _ _ (by decide : 16 + 4 ≤ sizeofBootParams)),
    wp_readInside hmapped (hread _ _ (by decide : 20 + 4 ≤ sizeofBootParams)),
    wp_readInside hmapped (hread _ _ (by decide : 4 + 4 ≤ sizeofBootParams)),
    wp_readInside hmapped (hread _ _ (by decide : 80 + 64 ≤ sizeofBootParams)), wp_boot, wp_modify]
  exact h _ rfl

/-- The result, and what is recorded, where no read goes outside. -/
def Env.outcome (env : Env) (bootParams : UInt64) : Int × UInt64 × Nat :=
  if env.length.toNat < sizeofBootParams then (errBadLen, 0, 0)
  else if env.keysLength > maximumEncryptedKeysSize then (errBadLen, 0, 0)
  else (env.partner, keysPaddr env bootParams, env.keysLength)

/-- The header of the keys is read, though it is not all inside the arguments. -/
def Env.HeaderOutside (env : Env) : Prop :=
  sizeofBootParams ≤ env.length.toNat ∧ env.length.toNat < sizeofBootParams + 4

/-- One call: it stops at the header of the keys, or does what `outcome` says. -/
theorem processInside_outcome (env : Env) {s : State} (hs : FreshBlock s) :
    wp (processInside env)
      (fun ret t => ¬env.HeaderOutside ∧
        (ret, t.parsed.eksPaddr, t.parsed.eksBlobLength) = env.outcome s.args.bootArgs)
      (fun e _ => e = .outside ∧ env.HeaderOutside) s := by
  have hput : ∀ (ret : Int) (t : State), ¬env.HeaderOutside →
      (ret, t.parsed.eksPaddr, t.parsed.eksBlobLength) = env.outcome s.args.bootArgs →
      wp (do boot smPutBootArgs; pure ret)
        (fun ret t => ¬env.HeaderOutside ∧
          (ret, t.parsed.eksPaddr, t.parsed.eksBlobLength) = env.outcome s.args.bootArgs)
        (fun e _ => e = .outside ∧ env.HeaderOutside) t := by
    intro ret t hheader hout
    rw [wp_bind, wp_boot]
    refine wp_mono (smPutBootArgs_parsed t) ?_ ?_
    · intro _ u hu
      rw [wp_pure, hu]
      exact ⟨hheader, hout⟩
    · intro _ _ h
      exact h.elim
  have hne : (s.args.bootArgs == 0) = false := beq_eq_false_iff_ne.mpr hs.bootArgs
  unfold processInside
  rw [wp_bind, wp_boot, smGetBootArgs, wp_bind, wp_get, hne, if_neg Bool.false_ne_true, wp_bind, wp_set,
    wp_pure]
  show wp (if (s.args.bootArgs == 0) = true then _ else _) _ _ _
  rw [hne, if_neg Bool.false_ne_true, wp_ite]
  split
  · next hshort =>
    refine hput _ _ (fun h => absurd h.1 (Nat.not_le_of_lt hshort)) ?_
    rw [Env.outcome, if_pos hshort, hs.eksPaddr, hs.eksBlobLength]
  · next hlong =>
    rw [wp_bind]
    refine wp_parseInside ?_ (Nat.le_of_not_lt hlong) ?_
    · exact hs.mapped
    intro t hargs
    have hmapped : t.args.mapped = true := (congrArg Args.mapped hargs).trans hs.mapped
    rw [wp_bind]
    by_cases hheader : env.HeaderOutside
    · rw [wp_readInside_outside hheader.2]
      exact ⟨rfl, hheader⟩
    · have hinside : sizeofBootParams + 4 ≤ env.length.toNat :=
        Nat.le_of_not_lt fun h => hheader ⟨Nat.le_of_not_lt hlong, h⟩
      rw [wp_readInside hmapped hinside, wp_ite]
      split
      · next hbig =>
        rw [wp_bind, wp_boot, storeEksInfo, wp_modify]
        refine hput _ _ hheader ?_
        have hbig' : env.keysLength > maximumEncryptedKeysSize := hbig
        rw [Env.outcome, if_neg hlong, if_pos hbig']
      · next hsmall =>
        have hout : env.outcome s.args.bootArgs =
            (env.partner, keysPaddr env s.args.bootArgs, env.keysLength) := by
          have hsmall' : ¬env.keysLength > maximumEncryptedKeysSize := hsmall
          rw [Env.outcome, if_neg hlong, if_neg hsmall']
        rw [wp_bind, wp_boot, storeEksInfo, wp_modify, wp_ite]
        split
        · rw [wp_pure]
          exact ⟨hheader, hout.symm⟩
        · exact hput _ _ hheader hout.symm

/-- Nothing outside the arguments is read or recorded, and nothing at all on an error. -/
structure Kept (env : Env) (ret : Int) (t : State) : Prop where
  recorded : t.parsed.eksPaddr ≠ 0 →
    sizeofBootParams + t.parsed.eksBlobLength ≤ env.length.toNat
  error : ret ≠ noError → t.parsed.eksPaddr = 0
  handedOut : ∀ bootstrapping info r u,
    getAndClearEksInfo bootstrapping info t = .ok r u → ∀ paddr blobLength,
      r.2 = some (paddr, blobLength) → paddr ≠ 0 →
        sizeofBootParams + blobLength ≤ env.length.toNat

/-- The condition on the arguments and on what is recorded of them. -/
theorem kept_iff {env : Env} {ret : Int} {t : State} :
    Kept env ret t ↔ (t.parsed.eksPaddr ≠ 0 →
      sizeofBootParams + t.parsed.eksBlobLength ≤ env.length.toNat ∧ ret = noError) := by
  constructor
  · intro h hne
    exact ⟨h.recorded hne, Classical.not_not.mp fun herr => hne (h.error herr)⟩
  · intro h
    refine ⟨fun hne => (h hne).1, fun herr => Classical.not_not.mp fun hne => herr (h hne).2, ?_⟩
    rintro bootstrapping info r u hrun paddr blobLength hr hne
    unfold getAndClearEksInfo at hrun
    rw [run_bind, run_get] at hrun
    cases bootstrapping with
    | false =>
      cases hrun
      cases hr
    | true =>
      cases info with
      | false =>
        cases hrun
        cases hr
      | true =>
        cases hrun
        cases hr
        exact (h hne).1

/-- `process_boot_params` keeps to the arguments exactly when they are too short for the fixed part,
or long enough for the header of the keys as well, and the keys, unless they are refused for
their size or have no physical address, end inside and the partner's function accepts. -/
theorem processInside_keeps_iff (env : Env) (s : State) (hs : FreshBlock s) :
    (∃ ret t, processInside env s = .ok ret t ∧ Kept env ret t) ↔
      env.length.toNat < sizeofBootParams ∨
        sizeofBootParams + 4 ≤ env.length.toNat ∧
          (env.keysLength > maximumEncryptedKeysSize ∨ keysPaddr env s.args.bootArgs = 0 ∨
            sizeofBootParams + env.keysLength ≤ env.length.toNat ∧ env.partner = noError) := by
  have hout := processInside_outcome env hs
  constructor
  · rintro ⟨ret, t, hrun, hkept⟩
    obtain ⟨hheader, hres⟩ := wp_ok hout hrun
    rw [kept_iff] at hkept
    by_cases hshort : env.length.toNat < sizeofBootParams
    · exact .inl hshort
    · refine .inr ⟨Nat.le_of_not_lt fun h => hheader ⟨Nat.le_of_not_lt hshort, h⟩, ?_⟩
      rw [Env.outcome, if_neg hshort] at hres
      by_cases hbig : env.keysLength > maximumEncryptedKeysSize
      · exact .inl hbig
      · rw [if_neg hbig, Prod.mk.injEq, Prod.mk.injEq] at hres
        obtain ⟨hret, hpaddr, hlen⟩ := hres
        rw [hret, hpaddr, hlen] at hkept
        by_cases hnull : keysPaddr env s.args.bootArgs = 0
        · exact .inr (.inl hnull)
        · exact .inr (.inr (hkept hnull))
  · intro hcond
    have hheader : ¬env.HeaderOutside := by
      rintro ⟨hlong, hend⟩
      rcases hcond with hshort | ⟨hinside, -⟩
      · omega
      · omega
    cases hrun : processInside env s with
    | error e t => exact absurd (wp_error hout hrun).2 hheader
    | ok ret t =>
      refine ⟨ret, t, rfl, kept_iff.mpr ?_⟩
      have hres := (wp_ok hout hrun).2
      rw [Env.outcome] at hres
      rcases hcond with hshort | ⟨hinside, hkeys⟩
      · rw [if_pos hshort] at hres
        intro hne
        exact absurd (congrArg (fun r => r.2.1) hres) hne
      · rw [if_neg (by omega)] at hres
        by_cases hbig : env.keysLength > maximumEncryptedKeysSize
        · rw [if_pos hbig] at hres
          intro hne
          exact absurd (congrArg (fun r => r.2.1) hres) hne
        · rw [if_neg hbig, Prod.mk.injEq, Prod.mk.injEq] at hres
          obtain ⟨hret, hpaddr, hlen⟩ := hres
          rw [hret, hpaddr, hlen]
          intro hne
          exact (hkeys.resolve_left hbig).resolve_left hne

/-- A block of `length` bytes, all zero but the first of the header of the keys. -/
def keysBlock (length : UInt64) (keysLength : UInt8) : Env :=
  { zeroBlock noError with
    length
    bytes := fun i => if i = sizeofBootParams then keysLength else 0 }

/-- The block is mapped at page 1. -/
def mappedBlock : State :=
  { State.init with args := .held 4096 1 }

theorem mappedBlock_fresh : FreshBlock mappedBlock := ⟨by decide, rfl, rfl, rfl⟩

theorem hundredKeys_kept :
    ∃ ret t, processInside (keysBlock 300 100) mappedBlock = .ok ret t ∧ Kept (keysBlock 300 100) ret t :=
  (processInside_keeps_iff _ _ mappedBlock_fresh).mpr (.inr ⟨by decide, .inr (.inr ⟨by decide, rfl⟩)⟩)

/-- The arguments end behind the header, and a hundred bytes after it are recorded. -/
theorem hundredKeys_recorded :
    ¬∃ ret t, processInside (keysBlock 148 100) mappedBlock = .ok ret t ∧
      Kept (keysBlock 148 100) ret t := by
  rintro ⟨ret, t, hrun, hkept⟩
  have hlen : t.parsed.eksPaddr ≠ 0 ∧ t.parsed.eksBlobLength = 100 := by
    have hres := (wp_ok (processInside_outcome _ mappedBlock_fresh) hrun).2
    have hfull : Env.outcome (keysBlock 148 100) mappedBlock.args.bootArgs = (noError, 4240, 100) := by
      decide
    rw [hfull, Prod.mk.injEq, Prod.mk.injEq] at hres
    rw [hres.2.1, hres.2.2]
    decide
  have hin := hkept.recorded hlen.1
  rw [hlen.2] at hin
  exact absurd hin (by decide)

end TX2SecureUart.BootArgs
