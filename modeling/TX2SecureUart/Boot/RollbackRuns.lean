/-
# `Boot.RollbackRuns` — the rollback level never goes back

A run is a sequence of boots on one fuse.  What a boot may do to the fuse is said
once, by `Burns`: it only sets bits of a value that has all the bits of the old
one.  Refusal of older levels in all later boots follows from that, since the
level of a fuse value is its number of binary digits.
-/
import TX2SecureUart.Boot.Rollback

namespace TX2SecureUart.Boot

open Prog Storage

/-! ## Levels -/

theorem size_half {n : Nat} (h : n ≠ 0) : Nat.size n = Nat.size (n / 2) + 1 := by
  refine Nat.le_antisymm (Nat.size_le.mpr ?_) ?_
  · have := Nat.lt_size_self (n / 2)
    rw [Nat.pow_succ]
    omega
  · refine Nat.lt_size.mpr ?_
    cases hs : Nat.size (n / 2) with
    | zero => exact Nat.pos_of_ne_zero h
    | succ m =>
        have hle : 2 ^ m ≤ n / 2 := Nat.lt_size.mp (by omega)
        rw [Nat.pow_succ]
        omega

theorem countLevel_toNat (level : UInt8) (v : UInt32) (h : level.toNat + Nat.size v.toNat < 256) :
    (countLevel level v).toNat = level.toNat + Nat.size v.toNat := by
  induction level, v using countLevel.induct with
  | case1 level =>
      rw [countLevel, dif_pos rfl]
      rfl
  | case2 level v hv ih =>
      have hne : v.toNat ≠ 0 := fun h0 => hv (UInt32.toNat_inj.mp h0)
      have hshift : (v >>> 1).toNat = v.toNat / 2 := by
        rw [UInt32.toNat_shiftRight]
        rfl
      have hsize := size_half hne
      have hnext : (level + 1).toNat = level.toNat + 1 := by
        rw [UInt8.toNat_add, show (1 : UInt8).toNat = 1 from rfl]
        omega
      rw [hshift, hnext] at ih
      rw [countLevel, dif_neg hv, ih (by omega)]
      omega

theorem size_lt (v : UInt32) : Nat.size v.toNat ≤ 32 := Nat.size_le.mpr v.toNat_lt

/-- The level of a fuse value is the number of its binary digits. -/
theorem fusevalueToLevel_toNat (v : UInt32) :
    (tegrablRollbackFusevalueToLevel v).toNat = Nat.size v.toNat := by
  have h := size_lt v
  rw [tegrablRollbackFusevalueToLevel, countLevel_toNat 0 v (by
    rw [show (0 : UInt8).toNat = 0 from rfl]; omega)]
  exact Nat.zero_add _

theorem levelToFusevalue_of_lt {level : UInt8} (h : level < 32) :
    ∃ v, tegrablRollbackLevelToFusevalue level = .ok v ∧ v.toNat = 2 ^ level.toNat - 1 := by
  have hlt : level.toNat < 32 := UInt8.lt_iff_toNat_lt.mp h
  refine ⟨_, if_pos h, ?_⟩
  have hshift : ((1 : UInt32) <<< level.toUInt32).toNat = 2 ^ level.toNat := by
    rw [UInt32.toNat_shiftLeft, UInt8.toNat_toUInt32, Nat.mod_eq_of_lt hlt,
      show (1 : UInt32).toNat = 1 from rfl, Nat.shiftLeft_eq, Nat.one_mul]
    exact Nat.mod_eq_of_lt (Nat.pow_lt_pow_right Nat.one_lt_two hlt)
  have hone : (1 : UInt32) ≤ 1 <<< level.toUInt32 := by
    rw [UInt32.le_iff_toNat_le, hshift]
    exact Nat.one_le_two_pow
  rw [UInt32.toNat_sub_of_le _ _ hone, hshift]
  rfl

theorem levelToFusevalue_of_ge {level : UInt8} (h : ¬ level < 32) :
    tegrablRollbackLevelToFusevalue level = .error .undefined := if_neg h

theorem size_two_pow_sub_one (k : Nat) : Nat.size (2 ^ k - 1) = k := by
  have hpos := Nat.one_le_two_pow (n := k)
  refine Nat.le_antisymm (Nat.size_le.mpr (by omega)) ?_
  cases k with
  | zero => exact Nat.zero_le _
  | succ m =>
      refine Nat.lt_size.mpr ?_
      have := Nat.one_le_two_pow (n := m)
      rw [Nat.pow_succ]
      omega

/-- A level that 32 bits can hold is converted, to more than any lower one, and
converted back; any other is refused. -/
def ConversionLawful (level : UInt8) : Prop :=
  if level ≤ 32 then
    ∃ v, tegrablRollbackLevelToFusevalue level = .ok v ∧ v.toNat = 2 ^ level.toNat - 1 ∧
      tegrablRollbackFusevalueToLevel v = level ∧
      ∀ lower < level, ∃ v', tegrablRollbackLevelToFusevalue lower = .ok v' ∧ v' < v
  else ∃ e, tegrablRollbackLevelToFusevalue level = .error (.err e)

theorem conversionLawful_iff (level : UInt8) : ConversionLawful level ↔ level < 32 := by
  constructor
  · intro h
    by_cases hlt : level < 32
    · exact hlt
    · rw [ConversionLawful, levelToFusevalue_of_ge hlt] at h
      split at h
      · obtain ⟨v, hv, -⟩ := h
        cases hv
      · obtain ⟨e, he⟩ := h
        cases he
  · intro hlt
    have hle : level ≤ 32 := UInt8.le_iff_toNat_le.mpr (by
      have := UInt8.lt_iff_toNat_lt.mp hlt
      omega)
    obtain ⟨v, hv, hval⟩ := levelToFusevalue_of_lt hlt
    rw [ConversionLawful, if_pos hle]
    refine ⟨v, hv, hval, UInt8.toNat_inj.mp ?_, ?_⟩
    · rw [fusevalueToLevel_toNat, hval, size_two_pow_sub_one]
    · intro lower hlower
      obtain ⟨v', hv', hval'⟩ := levelToFusevalue_of_lt (UInt8.lt_trans hlower hlt)
      refine ⟨v', hv', UInt32.lt_iff_toNat_lt.mpr ?_⟩
      have hpow := Nat.pow_lt_pow_right Nat.one_lt_two (UInt8.lt_iff_toNat_lt.mp hlower)
      have hpos := Nat.one_le_two_pow (n := lower.toNat)
      rw [hval, hval']
      omega

/-! ## What a burn does -/

/-- The fuse has lost no bit, and the records of this boot are as they were. -/
structure Burns (s t : RollbackState) : Prop where
  grows : s.fuse.toNat ≤ t.fuse.toNat
  request : t.request = s.request
  burned : t.burned = s.burned

theorem Burns.rfl {s : RollbackState} : Burns s s := ⟨Nat.le_refl _, Eq.refl _, Eq.refl _⟩

theorem Burns.trans {s t u : RollbackState} (h : Burns s t) (h' : Burns t u) : Burns s u :=
  ⟨Nat.le_trans h.grows h'.grows, h'.request.trans h.request, h'.burned.trans h.burned⟩

/-- A stop with an error code, and what was burnt before. -/
def FailsAfter (s : RollbackState) (e : Fault) (t : RollbackState) : Prop :=
  (∃ err, e = .err err) ∧ Burns s t

theorem FailsAfter.after {s t u : RollbackState} {e : Fault} (h : Burns s t)
    (h' : FailsAfter t e u) : FailsAfter s e u := ⟨h'.1, h.trans h'.2⟩

theorem wp_fuseBurn (burn : Burn) (n : Nat) (bits : UInt32) (s : RollbackState) :
    wp (fuseBurn burn n bits) (fun _ t => Burns s t) (FailsAfter s) s := by
  rw [fuseBurn, wp_ite]
  split
  · exact Burns.rfl
  · cases burn.preProcess n with
    | some e => exact ⟨⟨e, rfl⟩, Burns.rfl⟩
    | none =>
        refine ⟨?_, rfl, rfl⟩
        rw [UInt32.toNat_or]
        exact Nat.left_le_or

/-- What fuse an index leads to. -/
inductive FuseKind where
  | word
  /-- Longer than the variable it is read into. -/
  | wide
  | absent

def fuseKind (idx : UInt8) : FuseKind :=
  match tegrablFuseQuerySize (fuseReservedOdm0 + idx.toUInt32) with
  | none => .absent
  | some size =>
      if size ≠ 4 then .wide else if fuseReservedOdm0 + idx.toUInt32 = 0x30 then .absent else .word

theorem fuseRead_run (idx : UInt8) (s : RollbackState) :
    tegrablFuseRead (fuseReservedOdm0 + idx.toUInt32) s =
      match fuseKind idx with
      | .word => .ok s.fuse s
      | .wide => .error .undefined s
      | .absent => .error (.err (tegrablError .fuse .notFound 0)) s := by
  rw [tegrablFuseRead, fuseKind]
  cases tegrablFuseQuerySize (fuseReservedOdm0 + idx.toUInt32) with
  | none => rfl
  | some size =>
      by_cases hsize : size ≠ 4
      · simp only [if_pos hsize]
        rfl
      · by_cases htype : fuseReservedOdm0 + idx.toUInt32 = 0x30
        · simp only [if_neg hsize, if_pos htype]
          rfl
        · simp only [if_neg hsize, if_neg htype]
          rfl

theorem fuseKind_of_odm {idx : UInt8} (h : idx ≤ 7) : fuseKind idx = .word := by
  have hle := UInt8.le_iff_toNat_le.mp h
  have hseven : (7 : UInt8).toNat = 7 := rfl
  have htype : (fuseReservedOdm0 + idx.toUInt32).toNat = 32 + idx.toNat := by
    rw [UInt32.toNat_add, UInt8.toNat_toUInt32, show fuseReservedOdm0.toNat = 32 from rfl]
    omega
  have hin : fuseReservedOdm0 + idx.toUInt32 ≤ 0x27 := by
    rw [UInt32.le_iff_toNat_le, htype, show (0x27 : UInt32).toNat = 39 from rfl]
    omega
  have hne : ¬ fuseReservedOdm0 + idx.toUInt32 = 0x30 := by
    intro heq
    rw [heq, show (0x30 : UInt32).toNat = 48 from rfl] at htype
    omega
  have hsize : tegrablFuseQuerySize (fuseReservedOdm0 + idx.toUInt32) = some 4 := by
    rw [tegrablFuseQuerySize, if_pos]
    rw [Bool.or_eq_true]
    exact Or.inl (decide_eq_true hin)
  rw [fuseKind, hsize]
  simp only [ne_eq, not_true_eq_false, if_false, if_neg hne]

theorem wp_fuseSetMacroAndBurn (fusing : Bool) (burn : Burn) {idx : UInt8} (hidx : idx ≤ 7)
    (value : UInt32) (s : RollbackState) :
    wp (fuseSetMacroAndBurn fusing burn (fuseReservedOdm0 + idx.toUInt32) value)
      (fun _ t => Burns s t) (FailsAfter s) s := by
  have hfail : ∀ e, FailsAfter s (.err e) s := fun e => ⟨⟨e, rfl⟩, Burns.rfl⟩
  rw [fuseSetMacroAndBurn, wp_ite]
  split
  · exact hfail _
  refine wp_seq (R := fun _ t => t = s) ?_ ?_
  · rw [wp, fuseRead_run, fuseKind_of_odm hidx]
  intro old t ht
  subst ht
  simp only [wp_ite]
  split
  · exact hfail _
  split
  · exact hfail _
  -- the four words, each over what the words before it left
  refine wp_seq (wp_fuseBurn burn 0 _ t) ?_
  intro _ t0 h0
  refine wp_seq (wp_mono (wp_fuseBurn burn 1 _ t0) (fun _ _ h => h0.trans h) (fun _ _ h => h.after h0)) ?_
  intro _ t1 h1
  refine wp_seq (wp_mono (wp_fuseBurn burn 2 _ t1) (fun _ _ h => h1.trans h) (fun _ _ h => h.after h1)) ?_
  intro _ t2 h2
  exact wp_mono (wp_fuseBurn burn 3 _ t2) (fun _ _ h => h2.trans h) (fun _ _ h => h.after h2)

theorem wp_fuseConfirmBurn (burn : Burn) {idx : UInt8} (hidx : idx ≤ 7) (value : UInt32)
    (s : RollbackState) :
    wp (tegrablFuseConfirmBurn burn (fuseReservedOdm0 + idx.toUInt32) value)
      (fun _ t => t = s ∧ s.fuse = value) (FailsAfter s) s := by
  have hfail : ∀ e, FailsAfter s (.err e) s := fun e => ⟨⟨e, rfl⟩, Burns.rfl⟩
  rw [tegrablFuseConfirmBurn, wp_ite]
  split
  · exact hfail _
  refine wp_seq (R := fun v t => t = s ∧ v = s.fuse) ?_ ?_
  · rw [wp, fuseRead_run, fuseKind_of_odm hidx]
    exact ⟨rfl, rfl⟩
  rintro v t ⟨ht, hv⟩
  subst ht
  rw [wp_ite]
  split
  · exact hfail _
  · rename_i heq
    exact ⟨rfl, by rw [← hv]; exact not_not.mp heq⟩

/-- A write that succeeds leaves the value; one that fails has only set bits. -/
theorem wp_fuseWrite (fusing : Bool) (burn : Burn) {idx : UInt8} (hidx : idx ≤ 7) (value : UInt32)
    (s : RollbackState) :
    wp (tegrablFuseWrite fusing burn (fuseReservedOdm0 + idx.toUInt32) value)
      (fun _ t => Burns { s with request := some value } t ∧ t.fuse = value)
      (FailsAfter { s with request := some value }) s := by
  rw [tegrablFuseWrite, wp_bind, wp_modify]
  refine wp_seq (wp_fuseSetMacroAndBurn fusing burn hidx value _) ?_
  intro _ t ht
  refine wp_mono (wp_fuseConfirmBurn burn hidx value t) ?_ (fun _ _ h => h.after ht)
  rintro _ u ⟨hu, hval⟩
  subst hu
  exact ⟨ht, hval⟩

/-! ## One boot -/

/-- What is noted of a boot. -/
structure BootRecord where
  level : UInt8
  before : UInt32
  accepted : Bool
  request : Option UInt32
  burned : Bool
  after : UInt32

structure BootRecord.Lawful (r : BootRecord) : Prop where
  level_of_accepted : r.accepted = true → tegrablRollbackFusevalueToLevel r.before ≤ r.level
  keeps_bits : ∀ v, r.request = some v → r.before &&& v = r.before
  after_of_burned : r.burned = true → r.after.toNat = 2 ^ r.level.toNat - 1
  grows : r.before.toNat ≤ r.after.toNat

/-- A boot with an MB1-BCT of this level. -/
structure Boot where
  level : UInt8
  burn : Burn

structure BootsState where
  fuse : UInt32
  /-- The last boot first. -/
  records : List BootRecord := []

/-- Rollback prevention is enabled.  A boot that is refused ends there, and the next
one begins. -/
def boot (fusing : Bool) (idx : UInt8) (b : Boot) : EStateM Fault BootsState PUnit := fun s =>
  let start : RollbackState := { fuse := s.fuse }
  let record (accepted : Bool) (t : RollbackState) : BootsState :=
    ⟨t.fuse, ⟨b.level, s.fuse, accepted, t.request, t.burned, t.fuse⟩ :: s.records⟩
  match tegrablPreventRollback fusing b.burn (some ⟨1, idx, b.level⟩) start with
  | .ok _ t => .ok ⟨⟩ (record true t)
  | .error (.err _) t => .ok ⟨⟩ (record false t)
  | .error .undefined _ => .error .undefined s

/-- The fuse fits into the variable that it is read into, and a level that has to be
converted is below 32. -/
def BootOk (idx : UInt8) (s : BootsState) (b : Boot) : Prop :=
  match fuseKind idx with
  | .absent => True
  | .wide => False
  | .word => b.level < 32 ∨ b.level ≤ tegrablRollbackFusevalueToLevel s.fuse

/-- A higher level has all the bits of the fuse. -/
theorem covers_of_level_lt {fuse v : UInt32} {level : UInt8}
    (hlevel : tegrablRollbackFusevalueToLevel fuse < level) (hv : v.toNat = 2 ^ level.toNat - 1) :
    fuse &&& v = fuse := by
  have hsize : Nat.size fuse.toNat ≤ level.toNat := by
    rw [← fusevalueToLevel_toNat]
    exact Nat.le_of_lt (UInt8.lt_iff_toNat_lt.mp hlevel)
  refine UInt32.toNat_inj.mp ?_
  rw [UInt32.toNat_and, hv, Nat.and_two_pow_sub_one_eq_mod]
  exact Nat.mod_eq_of_lt (Nat.size_le.mp hsize)

/-- A boot that burns nothing. -/
theorem lawful_unburnt {level : UInt8} {fuse : UInt32} {accepted : Bool}
    (h : accepted = true → tegrablRollbackFusevalueToLevel fuse ≤ level) :
    BootRecord.Lawful ⟨level, fuse, accepted, none, false, fuse⟩ where
  level_of_accepted := h
  keeps_bits := fun _ hv => absurd hv.symm (Option.some_ne_none _)
  after_of_burned := fun hb => absurd hb Bool.false_ne_true
  grows := Nat.le_refl _

theorem wp_updateRollbackFuse (fusing : Bool) (burn : Burn) (rb : Rollback) (value : UInt32)
    {s : RollbackState} (hreq : s.request = none) (hburned : s.burned = false) :
    wp (burnOrWarn (tegrablUpdateRollbackFuse fusing burn rb value))
      (fun _ t => (t.request = none ∨ t.request = some value) ∧ s.fuse.toNat ≤ t.fuse.toNat ∧
        (t.burned = true → t.fuse = value))
      (fun _ _ => False) s := by
  have hupdate : wp (tegrablUpdateRollbackFuse fusing burn rb value)
      (fun _ t => Burns { s with request := some value } t ∧ t.fuse = value)
      (fun e t => (∃ err, e = .err err) ∧ (t.request = none ∨ t.request = some value) ∧
        s.fuse.toNat ≤ t.fuse.toNat ∧ t.burned = false) s := by
    refine wp_underModule ?_ (fun _ _ h => ⟨⟨_, rfl⟩, h.2⟩)
    rw [wp_ite]
    split
    · rename_i hidx
      refine wp_mono (wp_fuseWrite fusing burn hidx value s) (fun _ _ h => h) ?_
      rintro e t ⟨herr, hb⟩
      exact ⟨herr, Or.inr hb.request, hb.grows, hb.burned.trans hburned⟩
    · exact ⟨⟨_, rfl⟩, Or.inl hreq, Nat.le_refl _, hburned⟩
  rw [wp] at hupdate ⊢
  rw [burnOrWarn]
  cases hrun : tegrablUpdateRollbackFuse fusing burn rb value s with
  | ok a t =>
      rw [hrun] at hupdate
      exact ⟨Or.inr hupdate.1.request, hupdate.1.grows, fun _ => hupdate.2⟩
  | error e t =>
      rw [hrun] at hupdate
      obtain ⟨⟨err, herr⟩, hrequest, hgrows, hb⟩ := hupdate
      subst herr
      exact ⟨hrequest, hgrows, fun h => absurd (hb.symm.trans h) Bool.false_ne_true⟩

theorem wp_preventRollback (fusing : Bool) {idx : UInt8} {b : Boot} {s : BootsState}
    (hok : BootOk idx s b) :
    wp (tegrablPreventRollback fusing b.burn (some ⟨1, idx, b.level⟩))
      (fun _ t => BootRecord.Lawful ⟨b.level, s.fuse, true, t.request, t.burned, t.fuse⟩)
      (fun e t => (∃ err, e = .err err) ∧
        BootRecord.Lawful ⟨b.level, s.fuse, false, t.request, t.burned, t.fuse⟩)
      { fuse := s.fuse } := by
  have hrefused : BootRecord.Lawful ⟨b.level, s.fuse, false, none, false, s.fuse⟩ :=
    lawful_unburnt fun h => absurd h Bool.false_ne_true
  rw [tegrablPreventRollback]
  simp only [show ¬ (1 : UInt8) = 0 by decide, if_false]
  refine wp_seq (R := fun v t => t = { fuse := s.fuse } ∧ v = s.fuse ∧
    (b.level < 32 ∨ b.level ≤ tegrablRollbackFusevalueToLevel s.fuse)) ?_ ?_
  · refine wp_underModule ?_ (fun _ _ h => ⟨⟨_, rfl⟩, h.2⟩)
    rw [wp, fuseRead_run]
    rw [BootOk] at hok
    cases hkind : fuseKind idx with
    | word =>
        rw [hkind] at hok
        exact ⟨rfl, rfl, hok⟩
    | wide =>
        rw [hkind] at hok
        exact hok.elim
    | absent => exact ⟨⟨_, rfl⟩, hrefused⟩
  rintro v t ⟨ht, hv, hlevel⟩
  subst ht hv
  simp only [wp_ite]
  split
  · exact ⟨⟨_, rfl⟩, hrefused⟩
  rename_i hnlt
  have haccepted := UInt8.not_lt.mp hnlt
  split
  · rename_i hlt
    have h32 : b.level < 32 := by
      rcases hlevel with h | h
      · exact h
      · exact absurd hlt (UInt8.not_lt.mpr h)
    obtain ⟨value, hvalue, hval⟩ := levelToFusevalue_of_lt h32
    rw [hvalue]
    simp only [wp_bind, wp_modify]
    refine wp_mono (wp_updateRollbackFuse fusing b.burn _ value rfl rfl) ?_ (fun _ _ h => h.elim)
    rintro _ u ⟨hrequest, hgrows, hburned⟩
    refine ⟨fun _ => haccepted, ?_, ?_, hgrows⟩
    · intro w hw
      rcases hrequest with hnone | hsome
      · exact absurd (hw.symm.trans hnone) (Option.some_ne_none w)
      · rw [Option.some.inj (hw.symm.trans hsome)]
        exact covers_of_level_lt hlt hval
    · intro hb
      rw [← hval, ← hburned hb]
  · exact lawful_unburnt fun _ => haccepted

theorem preventRollback_undefined (fusing : Bool) {idx : UInt8} {b : Boot} {s : BootsState}
    (hok : ¬ BootOk idx s b) :
    ∃ t, tegrablPreventRollback fusing b.burn (some ⟨1, idx, b.level⟩) { fuse := s.fuse } =
      .error .undefined t := by
  have hread := fuseRead_run idx { fuse := s.fuse }
  rw [BootOk] at hok
  rw [tegrablPreventRollback]
  simp only [show ¬ (1 : UInt8) = 0 by decide, if_false, run_bind, underModule]
  cases hkind : fuseKind idx with
  | absent =>
      rw [hkind] at hok
      exact absurd trivial hok
  | wide =>
      rw [hread, hkind]
      exact ⟨_, rfl⟩
  | word =>
      rw [hkind, not_or] at hok
      rw [hread, hkind]
      have hlt := UInt8.not_le.mp hok.2
      simp only [if_neg (UInt8.not_lt.mpr (UInt8.le_of_lt hlt)), if_pos hlt,
        levelToFusevalue_of_ge hok.1]
      exact ⟨_, rfl⟩

theorem boot_returns_iff (fusing : Bool) (idx : UInt8) (b : Boot) (s : BootsState) :
    returns (boot fusing idx b s) = true ↔ BootOk idx s b := by
  constructor
  · intro hret
    by_contra hok
    obtain ⟨t, ht⟩ := preventRollback_undefined fusing hok
    rw [boot, ht] at hret
    exact Bool.false_ne_true hret
  · intro hok
    have h := wp_preventRollback fusing hok
    rw [wp] at h
    rw [boot]
    cases hrun : tegrablPreventRollback fusing b.burn (some ⟨1, idx, b.level⟩) { fuse := s.fuse } with
    | ok a t => rfl
    | error e t =>
        rw [hrun] at h
        obtain ⟨⟨err, rfl⟩, -⟩ := h
        rfl

/-! ## Runs of boots -/

def rollbackMachine (fusing : Bool) (idx : UInt8) (fuse : UInt32) : Machine Fault BootsState Boot where
  init := { fuse := fuse }
  run := boot fusing idx
  Enabled := fun _ _ => True

/-- Every boot was lawful, and after a burn all lower levels were refused. -/
structure RollbackKept (s : BootsState) : Prop where
  lawful : ∀ r ∈ s.records, r.Lawful
  refused : s.records.Pairwise fun later earlier =>
    earlier.burned = true → later.level < earlier.level → later.accepted = false

/-- In all runs of such boots, and none of these boots is undefined. -/
def RollbackProtects (fusing : Bool) (idx : UInt8) (fuse : UInt32)
    (ok : BootsState → Boot → Prop) : Prop :=
  ∀ s, (rollbackMachine fusing idx fuse).Reachable ok s →
    RollbackKept s ∧ ∀ b, ok s b → returns (boot fusing idx b s) = true

/-- The fuse still has what every boot left. -/
structure RollbackInv (s : BootsState) : Prop extends RollbackKept s where
  kept : ∀ r ∈ s.records, r.after.toNat ≤ s.fuse.toNat

/-- A new boot after all the others. -/
theorem RollbackInv.record {s : BootsState} {r : BootRecord} (h : RollbackInv s) (hr : r.Lawful)
    (hbefore : r.before = s.fuse) : RollbackInv ⟨r.after, r :: s.records⟩ where
  lawful := by
    intro r' hr'
    rcases List.mem_cons.mp hr' with rfl | hmem
    · exact hr
    · exact h.lawful r' hmem
  refused := by
    refine List.pairwise_cons.mpr ⟨?_, h.refused⟩
    intro earlier hmem hburned hlt
    by_contra hacc
    -- the level burnt before is still in the fuse
    have hlevel := hr.level_of_accepted (by simpa using hacc)
    rw [UInt8.le_iff_toNat_le, fusevalueToLevel_toNat, hbefore] at hlevel
    have hsize := Nat.size_le_size (h.kept earlier hmem)
    rw [(h.lawful earlier hmem).after_of_burned hburned, size_two_pow_sub_one] at hsize
    have := UInt8.lt_iff_toNat_lt.mp hlt
    omega
  kept := by
    intro r' hr'
    rcases List.mem_cons.mp hr' with rfl | hmem
    · exact Nat.le_refl _
    · refine Nat.le_trans (h.kept r' hmem) ?_
      rw [← hbefore]
      exact hr.grows

theorem wp_boot {fusing : Bool} {idx : UInt8} {b : Boot} {s : BootsState} (h : RollbackInv s)
    (hok : BootOk idx s b) :
    wp (boot fusing idx b) (fun _ t => RollbackInv t) (fun _ _ => False) s := by
  have hprevent := wp_preventRollback fusing hok
  rw [wp] at hprevent ⊢
  rw [boot]
  cases hrun : tegrablPreventRollback fusing b.burn (some ⟨1, idx, b.level⟩) { fuse := s.fuse } with
  | ok a t =>
      rw [hrun] at hprevent
      exact h.record hprevent rfl
  | error e t =>
      rw [hrun] at hprevent
      obtain ⟨⟨err, rfl⟩, hrecord⟩ := hprevent
      exact h.record hrecord rfl

theorem rollback_protects (fusing : Bool) (idx : UInt8) (fuse : UInt32) :
    RollbackProtects fusing idx fuse (BootOk idx) := by
  intro s hs
  have hinit : RollbackInv (rollbackMachine fusing idx fuse).init :=
    ⟨⟨fun r hr => absurd hr List.not_mem_nil, List.Pairwise.nil⟩,
      fun r hr => absurd hr List.not_mem_nil⟩
  have hinv := Machine.invariant (I := RollbackInv) (E := fun _ _ _ _ => False) hinit
    (fun _ _ h _ hok => wp_boot h hok) hs
  exact ⟨hinv.toRollbackKept, fun b hok => (boot_returns_iff fusing idx b s).mpr hok⟩

/-- Levels are converted as they should be exactly below 32, and all boots with such
levels, and only those boots, keep the rollback protection. -/
theorem rollback_exact (fusing : Bool) (idx : UInt8) (fuse : UInt32) :
    (∀ level, ConversionLawful level ↔ level < 32) ∧
    (∀ b s, returns (boot fusing idx b s) = true ↔ BootOk idx s b) ∧
    RollbackProtects fusing idx fuse (BootOk idx) :=
  ⟨conversionLawful_iff, boot_returns_iff fusing idx, rollback_protects fusing idx fuse⟩

/-- An MB1-BCT of level 32 on a new device. -/
theorem level_32_undefined : ¬ ((∀ level, ConversionLawful level) ∧
    ∀ fusing idx k, RollbackProtects fusing idx (2 ^ k - 1) (fun _ _ => True)) := by
  rintro ⟨_, hall⟩
  have hinit := hall true 3 0 { fuse := 2 ^ 0 - 1 } Machine.Reachable.init
  have hret := hinit.2 ⟨32, ⟨false, fun _ => none, fun _ => 0xFFFFFFFF, false⟩⟩ trivial
  have hok := (boot_returns_iff true 3 _ _).mp hret
  rw [BootOk, fuseKind_of_odm (by decide)] at hok
  rcases hok with hlt | hle
  · exact absurd hlt (by decide)
  · rw [UInt8.le_iff_toNat_le, fusevalueToLevel_toNat] at hle
    exact absurd hle (by decide)

end TX2SecureUart.Boot
