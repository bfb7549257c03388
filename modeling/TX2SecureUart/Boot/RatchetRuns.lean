/-
# `Boot.RatchetRuns` — what the ratchet burns, over many boots

A request is in order when it keeps every bit of the fuse, changes one field only, and
puts a newer version into it.  The requests for MB1 always are.  Those for MTS are as long
as the copy in bits 23..16 is no part of the comparison that matters: `mts_oem_hw_ver`
is computed from bits 31..24 alone.
-/
import TX2SecureUart.Boot.Ratchet
import TX2SecureUart.Lib.Thermometer

namespace TX2SecureUart.Boot

open Prog Storage Bits

namespace Ratchet

/-! ## The fields -/

/-- Bits 31..24, and the copy in bits 23..16 -/
def mtsMain (fuse : UInt32) : UInt32 := fuse >>> 24
def mtsCopy (fuse : UInt32) : UInt32 := (fuse >>> 16) &&& 0xff

def Field.mask : Field → UInt32
  | .mb1 => mb1FieldRatchetMask
  | .mts => mtsFieldRatchetMask

def Field.length : Field → Nat
  | .mb1 => 16
  | .mts => 8

/-- The version in the fuse.  That of MTS is held by either of its copies. -/
def Field.version : Field → UInt32 → UInt32
  | .mb1, fuse => fuse &&& 0xffff
  | .mts, fuse => mtsMain fuse ||| mtsCopy fuse

/-- The field holds the version, in both copies if there are two. -/
def Field.Holds : Field → UInt32 → UInt32 → Prop
  | .mb1, fuse, version => fuse &&& 0xffff = version
  | .mts, fuse, version => mtsMain fuse = version ∧ mtsCopy fuse = version

/-- A request that is in order. -/
structure Request.Good (q : Request) : Prop where
  keeps : q.before ||| q.value = q.value
  frame : q.value &&& ~~~q.field.mask = q.before &&& ~~~q.field.mask
  code : Thermometer q.version.toNat
  fits : q.version.toNat < 2 ^ q.field.length
  newer : q.field.version q.before < q.version
  placed : q.field.Holds q.value q.version

/-! ## Masks and shifts -/

theorem mb1Mask_eq : mb1FieldRatchetMask = 0xffff := rfl

theorem mtsMask_eq : mtsFieldRatchetMask = 0xffff0000 := rfl

theorem mtsOemHwVer_eq (fuse : UInt32) : mtsOemHwVer fuse = mtsMain fuse := by
  unfold mtsOemHwVer mtsMain
  dsimp only
  rw [UInt32.or_self]
  refine UInt32.toNat_inj.mp ?_
  have hlt : fuse.toNat < 2 ^ 32 := fuse.toNat_lt
  have hshift : (fuse >>> mtsFieldRatchetFuseShift).toNat = fuse.toNat / 2 ^ 24 := by
    rw [UInt32.toNat_shiftRight, Nat.shiftRight_eq_div_pow]
    rfl
  rw [UInt32.toNat_and, hshift, show (255 : UInt32).toNat = 2 ^ 8 - 1 from rfl,
    Nat.and_two_pow_sub_one_eq_mod, Nat.mod_eq_of_lt (by omega)]
  exact hshift.symm

theorem high_bits : ∀ i < 32, (0xffff0000#32).getLsbD i = decide (16 ≤ i) := by decide

theorem low_byte : ∀ i < 32, (0xff#32).getLsbD i = decide (i < 8) := by decide

/-- Both copies of a version with the bits of both copies in the fuse have these bits. -/
theorem copies_keep {f v : BitVec 32} (hmain : (f >>> 24) ||| v = v)
    (hcopy : ((f >>> 16) &&& 0xff#32) ||| v = v) :
    (f &&& 0xffff0000#32) ||| (((v <<< 24) ||| (v <<< 16)) &&& 0xffff0000#32) =
      ((v <<< 24) ||| (v <<< 16)) &&& 0xffff0000#32 := by
  refine BitVec.eq_of_getLsbD_eq ?_
  intro i hi
  have hm := congrArg (fun x : BitVec 32 => x.getLsbD (i - 24)) hmain
  have hc := congrArg (fun x : BitVec 32 => x.getLsbD (i - 16)) hcopy
  simp only [BitVec.getLsbD_or, BitVec.getLsbD_and, BitVec.getLsbD_shiftLeft,
    BitVec.getLsbD_ushiftRight, high_bits i hi, low_byte (i - 16) (by omega)] at hm hc ⊢
  rcases Nat.lt_or_ge i 16 with hlow | hlow
  · simp [hlow]
  · rcases Nat.lt_or_ge i 24 with hmid | hmid
    · rw [Nat.add_sub_cancel' hlow] at hc
      grind
    · rw [Nat.add_sub_cancel' hmid] at hm
      grind

theorem getLsbD_of_byte {v : BitVec 32} (h : v.toNat < 2 ^ 8) {i : Nat} (hi : 8 ≤ i) :
    v.getLsbD i = false :=
  Nat.testBit_lt_two_pow (lt_of_lt_of_le h (Nat.pow_le_pow_right two_pos hi))

/-- The version is in both places. -/
theorem copies_placed (f : BitVec 32) {v : BitVec 32} (h : v.toNat < 2 ^ 8) :
    ((((v <<< 24) ||| (v <<< 16)) &&& 0xffff0000#32) ||| (f &&& ~~~0xffff0000#32)) >>> 24 = v ∧
      (((((v <<< 24) ||| (v <<< 16)) &&& 0xffff0000#32) ||| (f &&& ~~~0xffff0000#32)) >>> 16) &&&
        0xff#32 = v := by
  constructor
  · refine BitVec.eq_of_getLsbD_eq ?_
    intro i hi
    rw [BitVec.getLsbD_ushiftRight]
    rcases Nat.lt_or_ge i 8 with hbyte | hbyte
    · have hhigh : v.getLsbD (24 + i - 16) = false := getLsbD_of_byte h (by omega)
      simp only [BitVec.getLsbD_or, BitVec.getLsbD_and, BitVec.getLsbD_not, BitVec.getLsbD_shiftLeft,
        high_bits (24 + i) (by omega), hhigh]
      grind
    · rw [getLsbD_of_byte h hbyte, BitVec.getLsbD_of_ge _ _ (by omega)]
  · refine BitVec.eq_of_getLsbD_eq ?_
    intro i hi
    rw [BitVec.getLsbD_and, BitVec.getLsbD_ushiftRight, low_byte i hi]
    rcases Nat.lt_or_ge i 8 with hbyte | hbyte
    · simp only [BitVec.getLsbD_or, BitVec.getLsbD_and, BitVec.getLsbD_not, BitVec.getLsbD_shiftLeft,
        high_bits (16 + i) (by omega)]
      grind
    · rw [getLsbD_of_byte h hbyte, decide_eq_false (Nat.not_lt.mpr hbyte), Bool.and_false]

/-! ## Requests that are in order -/

theorem lt_of_not_lt_of_ne {a b : UInt32} (hlt : ¬a < b) (hne : a ≠ b) : b < a := by
  have hnat : a.toNat ≠ b.toNat := fun h => hne (UInt32.toNat_inj.mp h)
  rw [UInt32.lt_iff_toNat_lt] at hlt ⊢
  omega

/-- What the sanity check lets through. -/
theorem code_of_sane {v len : UInt32} {n : Nat} (hn : n < 32)
    (hmax : (((1 : UInt32) <<< len) - 1).toNat = 2 ^ n - 1)
    (h : sanityCheckRatchetVersion v len = none) : Thermometer v.toNat ∧ v.toNat < 2 ^ n := by
  have hpow : 2 ^ n < 2 ^ 32 := Nat.pow_lt_pow_right (by decide) hn
  have hpos : 0 < 2 ^ n := Nat.two_pow_pos n
  unfold sanityCheckRatchetVersion at h
  split at h
  · cases h
  · rename_i hle
    rw [gt_iff_lt, UInt32.lt_iff_toNat_lt, hmax] at hle
    split at h
    · cases h
    · rename_i hand
      have hsucc : (v + 1).toNat = v.toNat + 1 := by
        rw [UInt32.toNat_add, Nat.mod_eq_of_lt]
        · rfl
        · show v.toNat + 1 < 2 ^ 32
          omega
      have hbits := congrArg UInt32.toNat (not_not.mp hand)
      rw [UInt32.toNat_and, hsucc] at hbits
      exact ⟨thermometer_of_and_succ hbits, by omega⟩

variable {w : World} {f : UInt32}

theorem mb1OemSwVer_eq (w : World) : w.mb1OemSwVer = w.scratchRsv54 &&& 0xffff :=
  UInt32.shiftRight_zero

/-- A newer version of MB1 is requested in order. -/
theorem good_mb1 (hsane : sanityCheckRatchetVersion w.mb1OemSwVer mb1FieldRatchetBitLength = none)
    (hnewer : f &&& 0xffff < w.mb1OemSwVer) :
    Request.Good ⟨.mb1, f, w.mb1OemSwVer ||| (f &&& ~~~mb1FieldRatchetMask), w.mb1OemSwVer⟩ := by
  obtain ⟨hcode, hfits⟩ := code_of_sane (n := 16) (by decide) rfl hsane
  have hincl : (f &&& 0xffff) ||| w.mb1OemSwVer = w.mb1OemSwVer := by
    refine UInt32.toNat_inj.mp ?_
    rw [UInt32.toNat_or]
    exact hcode.or_of_le (Nat.le_of_lt hnewer)
  rw [mb1OemSwVer_eq] at hincl
  refine ⟨?_, ?_, hcode, hfits, hnewer, ?_⟩
  · show f ||| (w.mb1OemSwVer ||| (f &&& ~~~0xffff)) = w.mb1OemSwVer ||| (f &&& ~~~0xffff)
    rw [mb1OemSwVer_eq]
    exact UInt32.toBitVec_inj.mp (or_update _ _ _ (UInt32.toBitVec_inj.mpr hincl))
  · show (w.mb1OemSwVer ||| (f &&& ~~~0xffff)) &&& ~~~0xffff = f &&& ~~~0xffff
    rw [mb1OemSwVer_eq]
    exact UInt32.toBitVec_inj.mp (update_outside ..)
  · show (w.mb1OemSwVer ||| (f &&& ~~~0xffff)) &&& 0xffff = w.mb1OemSwVer
    rw [mb1OemSwVer_eq]
    exact UInt32.toBitVec_inj.mp (update_inside ..)

/-- A version of MTS that is newer than both copies is requested in order. -/
theorem good_mts {v : UInt32} (hsane : sanityCheckRatchetVersion v mtsFieldRatchetBitLength = none)
    (hnewer : mtsMain f ||| mtsCopy f < v) : Request.Good ⟨.mts, f, mtsValue v f, v⟩ := by
  obtain ⟨hcode, hfits⟩ := code_of_sane (n := 8) (by decide) rfl hsane
  have hle : (mtsMain f).toNat ||| (mtsCopy f).toNat ≤ v.toNat := by
    rw [← UInt32.toNat_or]
    exact Nat.le_of_lt hnewer
  have hmain : mtsMain f ||| v = v := by
    refine UInt32.toNat_inj.mp ?_
    rw [UInt32.toNat_or]
    exact hcode.or_of_le (Nat.le_trans Nat.left_le_or hle)
  have hcopy : mtsCopy f ||| v = v := by
    refine UInt32.toNat_inj.mp ?_
    rw [UInt32.toNat_or]
    exact hcode.or_of_le (Nat.le_trans Nat.right_le_or hle)
  have hkeep := copies_keep (UInt32.toBitVec_inj.mpr hmain) (UInt32.toBitVec_inj.mpr hcopy)
  obtain ⟨hplaced, hplaced'⟩ := copies_placed f.toBitVec (v := v.toBitVec) hfits
  refine ⟨?_, ?_, hcode, hfits, hnewer, ?_, ?_⟩
  · exact UInt32.toBitVec_inj.mp (or_update _ _ _ hkeep)
  · exact UInt32.toBitVec_inj.mp (update_outside ..)
  · exact UInt32.toBitVec_inj.mp hplaced
  · exact UInt32.toBitVec_inj.mp hplaced'

/-! ## The two updates -/

/-- What an update leaves: the fuse has lost no bit, and these requests were made. -/
structure Updated (s t : State) (rs : List Request) : Prop where
  grows : s.fuse ||| t.fuse = t.fuse
  requests : t.requests = s.requests ++ rs

theorem Updated.refl (s : State) : Updated s s [] :=
  ⟨UInt32.or_self, (List.append_nil _).symm⟩

theorem Updated.trans {s t u : State} {rs rs' : List Request} (h : Updated s t rs)
    (h' : Updated t u rs') : Updated s u (rs ++ rs') where
  grows :=
    calc s.fuse ||| u.fuse = s.fuse ||| (t.fuse ||| u.fuse) := by rw [h'.grows]
      _ = t.fuse ||| u.fuse := by rw [← UInt32.or_assoc, h.grows]
      _ = u.fuse := h'.grows
  requests := by rw [h'.requests, h.requests, List.append_assoc]

theorem wp_check (err : Option TegrablErr) (s : State) :
    wp (check err) (fun _ t => t = s ∧ err = none) (fun _ t => t = s ∧ err ≠ none) s := by
  cases err with
  | none => exact ⟨rfl, rfl⟩
  | some e => exact ⟨rfl, Option.some_ne_none e⟩

theorem wp_tegrablFuseRead (err : Option TegrablErr) (s : State) :
    wp (tegrablFuseRead err) (fun val t => t = s ∧ val = s.fuse ∧ err = none)
      (fun _ t => t = s ∧ err ≠ none) s := by
  unfold tegrablFuseRead
  refine wp_seq (wp_check err s) ?_
  rintro _ t ⟨rfl, herr⟩
  exact ⟨rfl, rfl, herr⟩

/-- Whether a burn fails or not, its request is on record, and the fuse has grown by bits of
the value. -/
theorem wp_tegrablFuseWrite (burn : Burn) (field : Field) (version value : UInt32) (s : State) :
    wp (tegrablFuseWrite burn field version value)
      (fun _ t => Updated s t [⟨field, s.fuse, value, version⟩] ∧ burn.err = none ∧
        t.fuse = s.fuse ||| (value &&& burn.taken))
      (fun _ t => Updated s t [⟨field, s.fuse, value, version⟩] ∧ burn.err ≠ none ∧
        t.fuse = s.fuse ||| (value &&& burn.taken)) s := by
  have hgrows : s.fuse ||| (s.fuse ||| (value &&& burn.taken)) =
      s.fuse ||| (value &&& burn.taken) := by
    rw [← UInt32.or_assoc, UInt32.or_self]
  unfold tegrablFuseWrite
  rw [wp_bind, wp_modify]
  refine wp_mono (wp_check burn.err _) ?_ ?_
  · rintro _ t ⟨rfl, herr⟩
    exact ⟨⟨hgrows, rfl⟩, herr, rfl⟩
  · rintro _ t ⟨rfl, herr⟩
    exact ⟨⟨hgrows, rfl⟩, herr, rfl⟩

/-- A newer version of MB1 ends without an error: its burn does not fail, or is not made as
the images of SC7 differ. -/
def NewerPasses (w : World) : Prop :=
  (w.sc7OemSwVer ≠ 0 ∧ w.sc7Images = .ok false) ∨
    (w.sc7OemSwVer = 0 ∨ w.sc7Images = .ok true) ∧ w.mb1Burn.err = none

/-- `update_mb1_ratchet_fuse` ends without an error. -/
structure Mb1Passes (w : World) (fuse : UInt32) : Prop where
  sane : sanityCheckRatchetVersion w.mb1OemSwVer mb1FieldRatchetBitLength = none
  same : w.sc7OemSwVer = 0 ∨ w.mb1OemSwVer = w.sc7OemSwVer
  read : w.mb1Read = none
  passes : w.mb1OemSwVer = Field.mb1.version fuse ∨
    Field.mb1.version fuse < w.mb1OemSwVer ∧ NewerPasses w

/-- What the update of MB1 does besides. -/
structure Mb1Done (s t : State) : Prop where
  updated : ∃ rs, Updated s t rs ∧ ∀ q ∈ rs, q.Good
  main : mtsMain t.fuse = mtsMain s.fuse
  copy : mtsCopy t.fuse = mtsCopy s.fuse

theorem Mb1Done.refl (s : State) : Mb1Done s s :=
  ⟨⟨[], Updated.refl s, fun _ h => absurd h List.not_mem_nil⟩, rfl, rfl⟩

/-- Bits of the value of MB1 change nothing above bit 15. -/
theorem mts_of_mb1Value (f v taken : UInt32) :
    (f ||| (((v &&& 0xffff) ||| (f &&& ~~~0xffff)) &&& taken)) >>> 16 = f >>> 16 := by
  refine UInt32.toBitVec_inj.mp ?_
  show (f.toBitVec ||| (((v.toBitVec &&& 0xffff#32) ||| (f.toBitVec &&& ~~~0xffff#32)) &&&
    taken.toBitVec)) >>> 16 = f.toBitVec >>> 16
  have hlow : ∀ i < 32, (0xffff#32).getLsbD i = decide (i < 16) := by decide
  refine BitVec.eq_of_getLsbD_eq ?_
  intro i hi
  rw [BitVec.getLsbD_ushiftRight, BitVec.getLsbD_ushiftRight]
  rcases Nat.lt_or_ge (16 + i) 32 with hin | hin
  · simp only [BitVec.getLsbD_or, BitVec.getLsbD_and, BitVec.getLsbD_not, hlow (16 + i) hin]
    grind
  · rw [BitVec.getLsbD_of_ge _ _ hin, BitVec.getLsbD_of_ge _ _ hin]

theorem mtsCopy_of_shift {f g : UInt32} (h : f >>> 16 = g >>> 16) : mtsCopy f = mtsCopy g :=
  congrArg (· &&& 0xff) h

theorem mtsMain_of_shift {f g : UInt32} (h : f >>> 16 = g >>> 16) : mtsMain f = mtsMain g := by
  have htwice : ∀ x : UInt32, x >>> 24 = x >>> 16 >>> 8 := by
    intro x
    refine UInt32.toNat_inj.mp ?_
    simp only [UInt32.toNat_shiftRight, Nat.shiftRight_eq_div_pow]
    show x.toNat / 2 ^ 24 = x.toNat / 2 ^ 16 / 2 ^ 8
    omega
  unfold mtsMain
  rw [htwice f, htwice g, h]

theorem Mb1Done.of_updated {w : World} {s t : State} {value : UInt32}
    (hvalue : value = w.mb1OemSwVer ||| (s.fuse &&& ~~~mb1FieldRatchetMask))
    (hsane : sanityCheckRatchetVersion w.mb1OemSwVer mb1FieldRatchetBitLength = none)
    (hnewer : Field.mb1.version s.fuse < w.mb1OemSwVer) {taken : UInt32}
    (hfuse : t.fuse = s.fuse ||| (value &&& taken))
    (h : Updated s t [⟨.mb1, s.fuse, value, w.mb1OemSwVer⟩]) : Mb1Done s t := by
  have hshift : t.fuse >>> 16 = s.fuse >>> 16 := by
    rw [hfuse, hvalue, mb1OemSwVer_eq]
    exact mts_of_mb1Value ..
  refine ⟨⟨_, h, ?_⟩, mtsMain_of_shift hshift, mtsCopy_of_shift hshift⟩
  intro q hq
  obtain rfl := List.mem_singleton.mp hq
  exact hvalue ▸ good_mb1 hsane hnewer

theorem wp_burnMb1 {s : State}
    (hsane : sanityCheckRatchetVersion w.mb1OemSwVer mb1FieldRatchetBitLength = none)
    (hnewer : Field.mb1.version s.fuse < w.mb1OemSwVer) :
    wp (burnMb1 w s.fuse) (fun _ t => Mb1Done s t ∧ w.mb1Burn.err = none)
      (fun _ t => Mb1Done s t ∧ w.mb1Burn.err ≠ none) s := by
  refine wp_mono (wp_tegrablFuseWrite ..) ?_ ?_
  · rintro _ t ⟨hupd, herr, hfuse⟩
    exact ⟨.of_updated rfl hsane hnewer hfuse hupd, herr⟩
  · rintro _ t ⟨hupd, herr, hfuse⟩
    exact ⟨.of_updated rfl hsane hnewer hfuse hupd, herr⟩

theorem wp_updateNewerMb1 {s : State}
    (hsane : sanityCheckRatchetVersion w.mb1OemSwVer mb1FieldRatchetBitLength = none)
    (hnewer : Field.mb1.version s.fuse < w.mb1OemSwVer) :
    wp (updateNewerMb1 w s.fuse) (fun _ t => Mb1Done s t ∧ NewerPasses w)
      (fun _ t => Mb1Done s t ∧ ¬NewerPasses w) s := by
  have hburn := wp_burnMb1 hsane hnewer
  unfold updateNewerMb1
  by_cases hsc7 : w.sc7OemSwVer = 0
  · rw [if_neg (not_not.mpr hsc7)]
    refine wp_mono hburn ?_ ?_
    · rintro _ t ⟨hdone, herr⟩
      exact ⟨hdone, Or.inr ⟨Or.inl hsc7, herr⟩⟩
    · rintro _ t ⟨hdone, herr⟩
      refine ⟨hdone, ?_⟩
      rintro (⟨hne, -⟩ | ⟨-, hnone⟩)
      · exact hne hsc7
      · exact herr hnone
  · rw [if_pos hsc7]
    cases himages : w.sc7Images with
    | error e =>
        refine ⟨Mb1Done.refl s, ?_⟩
        rintro (⟨-, h⟩ | ⟨h | h, -⟩)
        · cases himages.symm.trans h
        · exact hsc7 h
        · cases himages.symm.trans h
    | ok same =>
        cases same with
        | false => exact ⟨Mb1Done.refl s, Or.inl ⟨hsc7, himages⟩⟩
        | true =>
            refine wp_mono hburn ?_ ?_
            · rintro _ t ⟨hdone, herr⟩
              exact ⟨hdone, Or.inr ⟨Or.inr himages, herr⟩⟩
            · rintro _ t ⟨hdone, herr⟩
              refine ⟨hdone, ?_⟩
              rintro (⟨-, h⟩ | ⟨-, hnone⟩)
              · cases himages.symm.trans h
              · exact herr hnone

theorem mb1OemHwVer_eq (fuse : UInt32) :
    (fuse <<< mb1FieldRatchetFuseShift) &&& mb1FieldRatchetMask = Field.mb1.version fuse :=
  congrArg (· &&& 0xffff) UInt32.shiftLeft_zero

theorem wp_compareMb1 {s : State}
    (hsane : sanityCheckRatchetVersion w.mb1OemSwVer mb1FieldRatchetBitLength = none) :
    wp (compareMb1 w s.fuse)
      (fun _ t => Mb1Done s t ∧ (w.mb1OemSwVer = Field.mb1.version s.fuse ∨
        Field.mb1.version s.fuse < w.mb1OemSwVer ∧ NewerPasses w))
      (fun _ t => Mb1Done s t ∧ ¬(w.mb1OemSwVer = Field.mb1.version s.fuse ∨
        Field.mb1.version s.fuse < w.mb1OemSwVer ∧ NewerPasses w)) s := by
  unfold compareMb1
  dsimp only
  rw [mb1OemHwVer_eq]
  by_cases hlt : w.mb1OemSwVer < Field.mb1.version s.fuse
  · rw [if_pos hlt]
    refine ⟨Mb1Done.refl s, ?_⟩
    rintro (h | ⟨h, -⟩)
    · exact UInt32.lt_irrefl _ (h ▸ hlt)
    · exact UInt32.lt_irrefl _ (UInt32.lt_trans hlt h)
  · rw [if_neg hlt]
    by_cases heq : w.mb1OemSwVer = Field.mb1.version s.fuse
    · rw [if_pos heq]
      exact ⟨Mb1Done.refl s, Or.inl heq⟩
    · rw [if_neg heq]
      have hnewer := lt_of_not_lt_of_ne hlt heq
      refine wp_mono (wp_updateNewerMb1 hsane hnewer) ?_ ?_
      · rintro _ t ⟨hdone, hp⟩
        exact ⟨hdone, Or.inr ⟨hnewer, hp⟩⟩
      · rintro _ t ⟨hdone, hp⟩
        refine ⟨hdone, ?_⟩
        rintro (h | ⟨-, h⟩)
        · exact heq h
        · exact hp h

/-- The update of MB1 makes requests that are in order, and leaves the field of MTS. -/
theorem wp_updateMb1RatchetFuse (w : World) (s : State) :
    wp (updateMb1RatchetFuse w) (fun _ t => Mb1Done s t ∧ Mb1Passes w s.fuse)
      (fun _ t => Mb1Done s t ∧ ¬Mb1Passes w s.fuse) s := by
  unfold updateMb1RatchetFuse
  refine wp_seq (wp_mono (wp_check ..) (fun _ _ h => h) ?_) ?_
  · rintro _ t ⟨rfl, herr⟩
    exact ⟨Mb1Done.refl t, fun h => herr h.sane⟩
  · rintro _ t ⟨rfl, hsane⟩
    by_cases hsc7 : w.sc7OemSwVer ≠ 0 ∧ w.mb1OemSwVer ≠ w.sc7OemSwVer
    · rw [if_pos hsc7]
      exact ⟨Mb1Done.refl t, fun h => h.same.elim hsc7.1 hsc7.2⟩
    · rw [if_neg hsc7]
      have hsame : w.sc7OemSwVer = 0 ∨ w.mb1OemSwVer = w.sc7OemSwVer := by
        by_cases h0 : w.sc7OemSwVer = 0
        · exact Or.inl h0
        · exact Or.inr (not_not.mp (fun h => hsc7 ⟨h0, h⟩))
      refine wp_seq (wp_mono (wp_tegrablFuseRead ..) (fun _ _ h => h) ?_) ?_
      · rintro _ u ⟨rfl, herr⟩
        exact ⟨Mb1Done.refl u, fun h => herr h.read⟩
      · rintro val u ⟨rfl, rfl, hread⟩
        refine wp_mono (wp_compareMb1 hsane) ?_ ?_
        · rintro _ v ⟨hdone, hp⟩
          exact ⟨hdone, hsane, hsame, hread, hp⟩
        · rintro _ v ⟨hdone, hp⟩
          exact ⟨hdone, fun h => hp h.passes⟩

/-- The version of MTS in the registers can be trusted, and the fuse can be read. -/
structure MtsTrusted (w : World) : Prop where
  scr : ~~~w.scr &&& ((1 : UInt32) <<< dpmuBitWr) = 0
  sane : sanityCheckRatchetVersion w.scratchRsv52 mtsFieldRatchetBitLength = none
  read : w.mtsRead = none

/-- The request of the update of MTS. -/
def mtsRequest (w : World) (fuse : UInt32) : Request :=
  ⟨.mts, fuse, mtsValue w.scratchRsv52 fuse, w.scratchRsv52⟩

/-- The update of MTS has burnt, or tried to. -/
structure MtsBurnt (w : World) (s t : State) : Prop where
  trusted : MtsTrusted w
  newer : mtsMain s.fuse < w.scratchRsv52
  updated : Updated s t [mtsRequest w s.fuse]

theorem wp_updateMtsRatchetFuse (w : World) (s : State) :
    wp (updateMtsRatchetFuse w)
      (fun _ t => t = s ∧ MtsTrusted w ∧ w.scratchRsv52 = mtsMain s.fuse ∨ MtsBurnt w s t)
      (fun _ t => t = s ∧ (MtsTrusted w → w.scratchRsv52 < mtsMain s.fuse) ∨ MtsBurnt w s t) s := by
  unfold updateMtsRatchetFuse
  by_cases hscr : ~~~w.scr &&& ((1 : UInt32) <<< dpmuBitWr) ≠ 0
  · rw [if_pos hscr]
    exact Or.inl ⟨rfl, fun h => absurd h.scr hscr⟩
  · rw [if_neg hscr]
    refine wp_seq (wp_mono (wp_check ..) (fun _ _ h => h) ?_) ?_
    · rintro _ t ⟨rfl, herr⟩
      exact Or.inl ⟨rfl, fun h => absurd h.sane herr⟩
    · rintro _ t ⟨rfl, hsane⟩
      refine wp_seq (wp_mono (wp_tegrablFuseRead ..) (fun _ _ h => h) ?_) ?_
      · rintro _ u ⟨rfl, herr⟩
        exact Or.inl ⟨rfl, fun h => absurd h.read herr⟩
      · rintro val u ⟨rfl, rfl, hread⟩
        have htrust : MtsTrusted w := ⟨not_not.mp hscr, hsane, hread⟩
        unfold compareMts
        rw [mtsOemHwVer_eq]
        by_cases hlt : w.scratchRsv52 < mtsMain u.fuse
        · rw [if_pos hlt]
          exact Or.inl ⟨rfl, fun _ => hlt⟩
        · rw [if_neg hlt]
          by_cases heq : w.scratchRsv52 = mtsMain u.fuse
          · rw [if_pos heq]
            exact Or.inl ⟨rfl, htrust, heq⟩
          · rw [if_neg heq]
            have hnewer := lt_of_not_lt_of_ne hlt heq
            refine wp_mono (wp_tegrablFuseWrite ..) ?_ ?_
            · rintro _ v ⟨hupd, -⟩
              exact Or.inr ⟨htrust, hnewer, hupd⟩
            · rintro _ v ⟨hupd, -⟩
              exact Or.inr ⟨htrust, hnewer, hupd⟩

/-! ## One boot -/

/-- The software is older than the fuse. -/
def Stale (w : World) (fuse : UInt32) : Prop :=
  w.mb1OemSwVer < Field.mb1.version fuse ∨ w.scratchRsv52 < Field.mts.version fuse

/-- What a boot should do: every burn that it requests is in order, and stale software is
reported. -/
structure Sound (fuse : UInt32) (w : World) : Prop where
  good : ∀ q ∈ (stateOf (updateRatchetFuse w ⟨fuse, []⟩)).requests, q.Good
  reported : Stale w fuse → returns (updateRatchetFuse w ⟨fuse, []⟩) = false

/-- The version of MTS in the software is older than bits 31..24, or newer than both copies,
or the copy in bits 23..16 adds nothing to bits 31..24. -/
def MtsAgrees (w : World) (fuse : UInt32) : Prop :=
  w.scratchRsv52 < mtsMain fuse ∨ Field.mts.version fuse < w.scratchRsv52 ∨
    Field.mts.version fuse = mtsMain fuse

/-- Stale software meets the opt-in fuse, and where the versions of MTS are compared, bits
31..24 decide. -/
structure InOrder (fuse : UInt32) (w : World) : Prop where
  optedIn : Stale w fuse → w.optedIn = true
  mts : w.optedIn = true → Mb1Passes w fuse → MtsTrusted w → MtsAgrees w fuse

theorem main_le_version (fuse : UInt32) : mtsMain fuse ≤ Field.mts.version fuse := by
  rw [UInt32.le_iff_toNat_le]
  show (mtsMain fuse).toNat ≤ (mtsMain fuse ||| mtsCopy fuse).toNat
  rw [UInt32.toNat_or]
  exact Nat.left_le_or

theorem mb1_not_stale {fuse : UInt32} (h : Mb1Passes w fuse) :
    ¬w.mb1OemSwVer < Field.mb1.version fuse := by
  intro hlt
  cases h.passes with
  | inl heq => exact UInt32.lt_irrefl _ (heq ▸ hlt)
  | inr hnewer => exact UInt32.lt_irrefl _ (UInt32.lt_trans hlt hnewer.1)

theorem Mb1Done.version {s t : State} (h : Mb1Done s t) :
    Field.mts.version t.fuse = Field.mts.version s.fuse := by
  show mtsMain t.fuse ||| mtsCopy t.fuse = mtsMain s.fuse ||| mtsCopy s.fuse
  rw [h.main, h.copy]

/-- A burn for MTS is in order when its version is newer than both copies. -/
theorem good_mtsRequest_iff {fuse : UInt32} (h : MtsTrusted w) :
    (mtsRequest w fuse).Good ↔ Field.mts.version fuse < w.scratchRsv52 :=
  ⟨fun hgood => hgood.newer, fun hnewer => good_mts h.sane hnewer⟩

/-- Behind the update of MB1, a burn for MTS is in order when the versions agree. -/
theorem good_iff_agrees {s t u : State} (hdone : Mb1Done s u) (hburnt : MtsBurnt w u t)
    (hs : s.requests = []) : (∀ q ∈ t.requests, q.Good) ↔ MtsAgrees w s.fuse := by
  obtain ⟨rs, hupd, hgood⟩ := hdone.updated
  have hnewer : mtsMain s.fuse < w.scratchRsv52 := hdone.main ▸ hburnt.newer
  have hreq : t.requests = rs ++ [mtsRequest w u.fuse] := by
    rw [hburnt.updated.requests, hupd.requests, hs, List.nil_append]
  have hone : (∀ q ∈ t.requests, q.Good) ↔ (mtsRequest w u.fuse).Good := by
    rw [hreq, List.forall_mem_append, List.forall_mem_singleton]
    exact ⟨fun h => h.2, fun h => ⟨hgood, h⟩⟩
  rw [hone, good_mtsRequest_iff hburnt.trusted, hdone.version]
  constructor
  · intro h
    exact Or.inr (Or.inl h)
  · rintro (h | h | h)
    · exact absurd (UInt32.lt_trans h hnewer) (UInt32.lt_irrefl _)
    · exact h
    · exact h ▸ hnewer

theorem wp_updateRatchetFuse (hopt : w.optedIn = true) (s : State) :
    wp (updateRatchetFuse w)
      (fun _ t => ∃ u, Mb1Done s u ∧ Mb1Passes w s.fuse ∧
        (t = u ∧ MtsTrusted w ∧ w.scratchRsv52 = mtsMain u.fuse ∨ MtsBurnt w u t))
      (fun _ t => Mb1Done s t ∧ ¬Mb1Passes w s.fuse ∨ ∃ u, Mb1Done s u ∧ Mb1Passes w s.fuse ∧
        (t = u ∧ (MtsTrusted w → w.scratchRsv52 < mtsMain u.fuse) ∨ MtsBurnt w u t)) s := by
  unfold updateRatchetFuse
  rw [if_pos hopt]
  refine wp_seq (wp_mono (wp_updateMb1RatchetFuse w s) (fun _ _ h => h) (fun _ _ h => Or.inl h)) ?_
  rintro _ u ⟨hdone, hp⟩
  refine wp_mono (wp_updateMtsRatchetFuse w u) ?_ ?_
  · intro _ t h
    exact ⟨u, hdone, hp, h⟩
  · intro _ t h
    exact Or.inr ⟨u, hdone, hp, h⟩

theorem sound_of_ok {fuse : UInt32} {t : State} (h : updateRatchetFuse w ⟨fuse, []⟩ = .ok () t) :
    Sound fuse w ↔ (∀ q ∈ t.requests, q.Good) ∧ ¬Stale w fuse := by
  constructor
  · rintro ⟨hgood, hreported⟩
    rw [h] at hgood hreported
    exact ⟨hgood, fun hstale => Bool.noConfusion (hreported hstale)⟩
  · rintro ⟨hgood, hstale⟩
    refine ⟨?_, fun h' => absurd h' hstale⟩
    rw [h]
    exact hgood

theorem sound_of_error {fuse : UInt32} {e : TegrablErr} {t : State}
    (h : updateRatchetFuse w ⟨fuse, []⟩ = .error e t) : Sound fuse w ↔ ∀ q ∈ t.requests, q.Good := by
  constructor
  · intro hsound
    have hgood := hsound.good
    rw [h] at hgood
    exact hgood
  · intro hgood
    refine ⟨?_, fun _ => ?_⟩
    · rw [h]
      exact hgood
    · rw [h]
      rfl

theorem Mb1Done.good {s t : State} (h : Mb1Done s t) (hs : s.requests = []) :
    ∀ q ∈ t.requests, q.Good := by
  obtain ⟨rs, hupd, hgood⟩ := h.updated
  rw [hupd.requests, hs]
  exact hgood

/-- With the version of MTS that bits 31..24 hold, the software is stale just when the copy
adds to them. -/
theorem stale_iff_of_eq {fuse : UInt32} (hp : Mb1Passes w fuse) (heq : w.scratchRsv52 = mtsMain fuse) :
    ¬Stale w fuse ↔ MtsAgrees w fuse := by
  have hle := main_le_version fuse
  rw [UInt32.le_iff_toNat_le] at hle
  unfold MtsAgrees
  rw [Stale, or_iff_right (mb1_not_stale hp), heq, UInt32.lt_iff_toNat_lt, UInt32.lt_iff_toNat_lt,
    UInt32.lt_iff_toNat_lt, ← UInt32.toNat_inj]
  omega

/-- A boot does what it should exactly when the versions are in order. -/
theorem boot_sound_iff (fuse : UInt32) (w : World) : Sound fuse w ↔ InOrder fuse w := by
  by_cases hopt : w.optedIn = true
  · -- what is left to say is the part about the comparison
    have horder : InOrder fuse w ↔ (Mb1Passes w fuse → MtsTrusted w → MtsAgrees w fuse) :=
      ⟨fun h => h.mts hopt, fun h => ⟨fun _ => hopt, fun _ => h⟩⟩
    have hwp := wp_updateRatchetFuse hopt ⟨fuse, []⟩
    rw [horder]
    cases hrun : updateRatchetFuse w ⟨fuse, []⟩ with
    | ok a t =>
        rw [sound_of_ok hrun]
        obtain ⟨u, hdone, hp, ⟨rfl, htrust, heq⟩ | hburnt⟩ := wp_ok hwp hrun
        · have hagree := stale_iff_of_eq hp (heq.trans hdone.main)
          constructor
          · rintro ⟨-, hstale⟩ _ _
            exact hagree.mp hstale
          · intro h
            exact ⟨hdone.good rfl, hagree.mpr (h hp htrust)⟩
        · have hgood := good_iff_agrees hdone hburnt rfl
          have hnewer : mtsMain fuse < w.scratchRsv52 := hdone.main ▸ hburnt.newer
          constructor
          · rintro ⟨h, -⟩ _ _
            exact hgood.mp h
          · intro h
            have hagree : MtsAgrees w fuse := h hp hburnt.trusted
            refine ⟨hgood.mpr hagree, ?_⟩
            rintro (hstale | hstale)
            · exact mb1_not_stale hp hstale
            · obtain h' | h' | h' := hagree
              · exact UInt32.lt_irrefl _ (UInt32.lt_trans h' hnewer)
              · exact UInt32.lt_irrefl _ (UInt32.lt_trans h' hstale)
              · rw [h'] at hstale
                exact UInt32.lt_irrefl _ (UInt32.lt_trans hstale hnewer)
    | error e t =>
        rw [sound_of_error hrun]
        obtain ⟨hdone, hnp⟩ | ⟨u, hdone, hp, ⟨rfl, holder⟩ | hburnt⟩ := wp_error hwp hrun
        · exact ⟨fun _ hp => absurd hp hnp, fun _ => hdone.good rfl⟩
        · refine ⟨fun _ _ htrust => Or.inl ?_, fun _ => hdone.good rfl⟩
          exact hdone.main ▸ holder htrust
        · rw [good_iff_agrees hdone hburnt rfl]
          exact ⟨fun h _ _ => h, fun h => h hp hburnt.trusted⟩
  · have hrun : updateRatchetFuse w ⟨fuse, []⟩ = .ok () ⟨fuse, []⟩ := by
      unfold updateRatchetFuse
      rw [if_neg hopt]
      rfl
    rw [sound_of_ok hrun]
    constructor
    · rintro ⟨-, hstale⟩
      exact ⟨fun h => absurd h hstale, fun h => absurd h hopt⟩
    · intro h
      exact ⟨fun q hq => absurd hq List.not_mem_nil, fun hstale => hopt (h.optedIn hstale)⟩

/-! ## Many boots -/

/-- The fuse after a boot. -/
def fuseAfter (fuse : UInt32) (w : World) : UInt32 :=
  (stateOf (updateRatchetFuse w ⟨fuse, []⟩)).fuse

/-- A run: each boot, with the fuse that it finds. -/
def boots : UInt32 → List World → List (UInt32 × World)
  | _, [] => []
  | fuse, w :: ws => (fuse, w) :: boots (fuseAfter fuse w) ws

/-- The values that the fuse has in a run. -/
def fuses : UInt32 → List World → List UInt32
  | fuse, [] => [fuse]
  | fuse, w :: ws => fuse :: fuses (fuseAfter fuse w) ws

/-- No bit of the fuse is lost in a boot. -/
theorem or_fuseAfter (fuse : UInt32) (w : World) : fuse ||| fuseAfter fuse w = fuseAfter fuse w := by
  have hgrows : ∀ {u t : State}, Mb1Done ⟨fuse, []⟩ u → MtsBurnt w u t → fuse ||| t.fuse = t.fuse := by
    intro u t hdone hburnt
    obtain ⟨rs, hupd, -⟩ := hdone.updated
    exact (hupd.trans hburnt.updated).grows
  unfold fuseAfter
  by_cases hopt : w.optedIn = true
  · have hwp := wp_updateRatchetFuse hopt ⟨fuse, []⟩
    cases hrun : updateRatchetFuse w ⟨fuse, []⟩ with
    | ok a t =>
        obtain ⟨u, hdone, -, ⟨rfl, -⟩ | hburnt⟩ := wp_ok hwp hrun
        · obtain ⟨rs, hupd, -⟩ := hdone.updated
          exact hupd.grows
        · exact hgrows hdone hburnt
    | error e t =>
        obtain ⟨hdone, -⟩ | ⟨u, hdone, -, ⟨rfl, -⟩ | hburnt⟩ := wp_error hwp hrun
        · obtain ⟨rs, hupd, -⟩ := hdone.updated
          exact hupd.grows
        · obtain ⟨rs, hupd, -⟩ := hdone.updated
          exact hupd.grows
        · exact hgrows hdone hburnt
  · unfold updateRatchetFuse
    rw [if_neg hopt]
    exact UInt32.or_self

/-- More bits are no older version. -/
theorem version_le_of_or {f g : UInt32} (h : f ||| g = g) (field : Field) :
    field.version f ≤ field.version g := by
  have hkeep : field.version f ||| field.version g = field.version g := by
    rw [← h]
    refine UInt32.toBitVec_inj.mp ?_
    cases field with
    | mb1 =>
        show (f.toBitVec &&& 0xffff#32) ||| ((f.toBitVec ||| g.toBitVec) &&& 0xffff#32) =
          (f.toBitVec ||| g.toBitVec) &&& 0xffff#32
        ext i
        simp only [BitVec.getElem_or, BitVec.getElem_and]
        grind
    | mts =>
        show ((f.toBitVec >>> 24) ||| ((f.toBitVec >>> 16) &&& 0xff#32)) |||
            (((f.toBitVec ||| g.toBitVec) >>> 24) ||| (((f.toBitVec ||| g.toBitVec) >>> 16) &&& 0xff#32)) =
          ((f.toBitVec ||| g.toBitVec) >>> 24) ||| (((f.toBitVec ||| g.toBitVec) >>> 16) &&& 0xff#32)
        refine BitVec.eq_of_getLsbD_eq ?_
        intro i _
        simp only [BitVec.getLsbD_or, BitVec.getLsbD_and, BitVec.getLsbD_ushiftRight]
        grind
  rw [UInt32.le_iff_toNat_le, ← hkeep, UInt32.toNat_or]
  exact Nat.left_le_or

theorem or_of_mem_fuses {fuse g : UInt32} {ws : List World} (h : g ∈ fuses fuse ws) :
    fuse ||| g = g := by
  induction ws generalizing fuse with
  | nil =>
      obtain rfl := List.mem_singleton.mp h
      exact UInt32.or_self
  | cons w ws ih =>
      cases List.mem_cons.mp h with
      | inl h => exact h ▸ UInt32.or_self
      | inr h =>
          have hrest := ih h
          calc fuse ||| g = fuse ||| (fuseAfter fuse w ||| g) := by rw [hrest]
            _ = fuseAfter fuse w ||| g := by rw [← UInt32.or_assoc, or_fuseAfter]
            _ = g := hrest

theorem fuses_pairwise (fuse : UInt32) (ws : List World) :
    (fuses fuse ws).Pairwise fun f g => ∀ field : Field, field.version f ≤ field.version g := by
  induction ws generalizing fuse with
  | nil => exact List.pairwise_singleton _ _
  | cons w ws ih =>
      refine List.pairwise_cons.mpr ⟨?_, ih _⟩
      intro g hg field
      have hmem : g ∈ fuses fuse (w :: ws) := List.mem_cons_of_mem _ hg
      have hall : fuse ||| g = g := or_of_mem_fuses hmem
      exact version_le_of_or hall field

/-- In a run of boots no version ever decreases, and every boot does what it should exactly
when in every boot the versions are in order. -/
theorem updateRatchetFuse_runs_iff (fuse : UInt32) (ws : List World) :
    (∀ p ∈ boots fuse ws, Sound p.1 p.2) ∧
      ((fuses fuse ws).Pairwise fun f g => ∀ field : Field, field.version f ≤ field.version g) ↔
    ∀ p ∈ boots fuse ws, InOrder p.1 p.2 := by
  constructor
  · rintro ⟨hsound, -⟩ p hp
    exact (boot_sound_iff p.1 p.2).mp (hsound p hp)
  · intro horder
    exact ⟨fun p hp => (boot_sound_iff p.1 p.2).mpr (horder p hp), fuses_pairwise fuse ws⟩

/-! ## A partial burn -/

/-- A boot with MTS at the given version, whose burns set these bits and fail. -/
def mtsBoot (version taken : UInt32) : World where
  odmInfo := .ok optInFuseMask
  scratchRsv54 := 0
  scratchRsv52 := version
  scr := 0x4000
  mb1Read := none
  mtsRead := none
  sc7Images := .ok true
  mb1Burn := ⟨0, none⟩
  mtsBurn := ⟨taken, some (tegrablError .fuse .invalid 2)⟩

/-- The first burn stops after its lower 22 bits, so only the copy is burnt.  The next boot,
with an older version, asks for a value that lacks bits of the fuse. -/
theorem partialBurn_loses_bits :
    ¬((∀ p ∈ boots 0 [mtsBoot 0x3f 0x3fffff, mtsBoot 1 0], Sound p.1 p.2) ∧
      ((fuses 0 [mtsBoot 0x3f 0x3fffff, mtsBoot 1 0]).Pairwise
        fun f g => ∀ field : Field, field.version f ≤ field.version g)) := by
  rintro ⟨hsound, -⟩
  have hsecond := hsound (0x3f0000, mtsBoot 1 0) (by
    refine List.mem_cons_of_mem _ (List.mem_cons.mpr (Or.inl ?_))
    refine Prod.ext ?_ rfl
    show (0x3f0000 : UInt32) = fuseAfter 0 (mtsBoot 0x3f 0x3fffff)
    decide +kernel)
  have hkeeps := (hsecond.good ⟨.mts, 0x3f0000, 0x01010000, 1⟩ (by decide +kernel)).keeps
  exact absurd hkeeps (by decide)

end Ratchet

end TX2SecureUart.Boot
