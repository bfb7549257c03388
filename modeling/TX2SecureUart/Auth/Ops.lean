/-
# `Auth.Ops` — what the operations on a handle do

One rule for each access to memory, each call of a primitive and each update of a
header slot; then the parts of `tegrabl_auth_process_header`.
-/
import TX2SecureUart.Auth.Binary

namespace TX2SecureUart.Auth

open Prog Storage StrRead ByteStore

variable {P : Primitives} {blk : List UInt8} {s t : State} {i n : Nat} {p : Ptr}
  {E : Stop → State → Prop}

/-- The primitives do not fail. -/
def Calm (P : Primitives) : Prop := ∀ k, P.fails k = none

/-- None of the calls from `a` to `b` failed. -/
def Quiet (P : Primitives) (a b : Nat) : Prop := ∀ k, a ≤ k → k < b → P.fails k = none

theorem Calm.quiet (h : Calm P) (a b : Nat) : Quiet P a b := fun k _ _ => h k

theorem quiet_refl (P : Primitives) (a : Nat) : Quiet P a a :=
  fun _ h₁ h₂ => absurd h₂ (Nat.not_lt.mpr h₁)

theorem quiet_succ (h : P.fails n = none) : Quiet P n (n + 1) := by
  intro k h₁ h₂
  rwa [Nat.le_antisymm (Nat.le_of_lt_succ h₂) h₁]

theorem Quiet.trans {a b c : Nat} (h₁ : Quiet P a b) (h₂ : Quiet P b c) : Quiet P a c := by
  intro k ha hc
  rcases Nat.lt_or_ge k b with hb | hb
  · exact h₁ k ha hb
  · exact h₂ k hb hc

/-! ## Primitives and memory -/

@[simp] theorem wp_throwErr {α : Type} {Q : α → State → Prop} {reason : ErrReason} {aux : Nat} :
    wp (throwErr reason aux : AuthM α) Q E s ↔ E (.err (tegrablError .auth reason aux)) s := by
  rw [throwErr, wp_throw]

theorem wp_primitive {Q : Unit → State → Prop}
    (h : P.fails s.calls = none → Q () { s with calls := s.calls + 1 })
    (herr : ∀ e, P.fails s.calls = some e → E (.err (e.setHighestModule .auth))
      { s with calls := s.calls + 1 }) : wp (primitive P) Q E s := by
  simp only [primitive, wp_bind, wp_get, wp_set]
  cases hfail : P.fails s.calls with
  | none => exact h hfail
  | some e => exact herr e hfail

@[simp] theorem wp_attempt {Q : Bool → State → Prop} :
    wp (attempt P) Q E s ↔ Q (P.fails s.calls).isNone { s with calls := s.calls + 1 } := by
  simp only [attempt, wp_bind, wp_get, wp_set, wp_pure]

theorem wp_read {Q : List UInt8 → State → Prop}
    (h : InMemory blk s.auth.destSize n p → Q (bytesAt blk s.dest n p) s)
    (hout : ¬ InMemory blk s.auth.destSize n p → E .outOfBounds s) :
    wp (read blk p n) Q E s := by
  simp only [read, wp_bind, wp_get, wp_ite, wp_pure, wp_throw]
  split
  case isTrue hin => exact h hin
  case isFalse hnot => exact hout hnot

theorem wp_readCopied {Q : List UInt8 → State → Prop} (hcopy : fromBlock s.copies n p = true)
    (hin : InMemory blk s.auth.destSize n p) (h : Q (bytesAt blk s.dest n p) s) :
    wp (readCopied blk p n) Q E s := by
  simp only [readCopied, wp_bind, wp_get, if_pos hcopy]
  exact wp_read (fun _ => h) (fun hnot => absurd hin hnot)

/-- The state after a copy. -/
def State.copyTo (s : State) (blk : List UInt8) (dst : Nat) (p : Ptr) (n : Nat) : State :=
  { s with
    dest := patch s.dest dst (bytesAt blk s.dest n p)
    copies := copied s.copies dst n p }

theorem wp_copyTo {dst : Nat} {Q : Unit → State → Prop} (hin : InMemory blk s.auth.destSize n p)
    (h : dst + n ≤ s.auth.destSize → Q () (s.copyTo blk dst p n))
    (hout : s.auth.destSize < dst + n → E .outOfBounds s) : wp (copyTo blk dst p n) Q E s := by
  rw [copyTo, wp_bind]
  refine wp_read ?_ (fun hnot => absurd hin hnot)
  intro _
  simp only [wp_bind, wp_get, wp_ite, wp_set, wp_throw]
  split
  case isTrue hfits => exact h hfits
  case isFalse hnot => exact hout (Nat.lt_of_not_le hnot)

/-- The state after an update of a header slot. -/
def State.setHeader (s : State) (i : Nat) (f : HeaderInfo → HeaderInfo) : State :=
  { s with auth := { s.auth with
    headers := Function.update s.auth.headers i (f (s.auth.headers i)) } }

@[simp] theorem wp_setHeader {f : HeaderInfo → HeaderInfo} {Q : Unit → State → Prop} :
    wp (setHeader i f) Q E s ↔
      if i < maxHeaders then Q () (s.setHeader i f) else E .outOfBounds s := by
  simp only [setHeader, wp_bind, wp_get, wp_ite, wp_set, wp_throw]
  exact Iff.rfl

@[simp] theorem setHeader_header (s : State) (i : Nat) (f : HeaderInfo → HeaderInfo) :
    (s.setHeader i f).auth.headers i = f (s.auth.headers i) :=
  Function.update_self ..

theorem setHeader_setHeader (s : State) (i : Nat) (f g : HeaderInfo → HeaderInfo) :
    (s.setHeader i f).setHeader i g = s.setHeader i (fun h => g (f h)) := by
  simp only [State.setHeader, Function.update_self, Function.update_idem]

/-- An update that gives the slot the same content. -/
theorem setHeader_congr {f g : HeaderInfo → HeaderInfo} (k : Nat)
    (h : f (s.auth.headers i) = g (s.auth.headers i)) :
    { s with calls := k }.setHeader i f = { s.setHeader i g with calls := k } := by
  simp only [State.setHeader, h]

/-- The handle at the label `done`. -/
def Handle.finish (a : Handle) (remaining size cur num : Nat) : Handle :=
  { a with
    remainingSize := remaining
    processedSize := add32 a.processedSize size
    safeDestLocation := add32 a.processedSize size
    curHeader := cur
    numHeaders := num }

/-- The end of a block. -/
theorem wp_finish {remaining size cur num : Nat} {Q : Unit → State → Prop} :
    wp (do setRemaining remaining; finishBlock size cur num) Q E s ↔
      Q () { s with auth := s.auth.finish remaining size cur num } := by
  rw [wp_bind, setRemaining, wp_modify, finishBlock, wp_modify]
  exact Iff.rfl

/-! ## The header of a fresh handle -/

/-- The security mode that a header is read under. -/
def modeOf (P : Primitives) (secureMode : Nat) : Nat :=
  if secureMode ≠ 0 then secureMode else P.fuse

/-- A header passes the checks of a fresh handle, and is processed in a mode. -/
structure Accepted (P : Primitives) (destSize secureMode : Nat) (hdr : List UInt8) (mode : Mode)
    (static : Nat) : Prop where
  sign : signTypeOf hdr (modeOf P secureMode) = some (mode, static)
  fits : binarylength hdr ≤ destSize
  oem : mode = .sbk ∨ mode = .oemRsa

/-- The slot of an accepted header. -/
def headerInfoOf (hdr : List UInt8) (mode : Mode) : HeaderInfo :=
  { mode := mode
    validationSize := add32 (binarylength hdr) signedSectionLen
    processedSize := 0
    binarySize := binarylength hdr
    aes := if mode = .sbk then ⟨.keyslot aesKeyslotSbk, cryptohash hdr, false, []⟩ else .zero
    rsa := if mode = .oemRsa then ⟨.brbct, rsapsssig hdr, false, []⟩ else .zero }

/-- A fresh handle after its header was accepted. -/
def headedHandle (binType destSize : Nat) (hdr : List UInt8) (mode : Mode) : Handle :=
  { initialHandle binType destSize with
    allowedModes := updateAllowedModes (initialHandle binType destSize)
    allowOemModes := false
    binarySize := binarylength hdr
    headers := Function.update (fun _ => .zero) 0 (headerInfoOf hdr mode) }

variable {hdr : List UInt8} {binType destSize : Nat} {mode : Mode}

theorem wp_readSecureMode {Q : Nat → State → Prop}
    (h : ∀ k, Quiet P s.calls k → Q (modeOf P s.secureMode)
      { s with secureMode := modeOf P s.secureMode, calls := k })
    (herr : ¬ Calm P → ∀ e t, E (.err e) t) : wp (readSecureMode P) Q E s := by
  rw [readSecureMode, wp_bind, wp_get, wp_ite]
  split
  case isTrue hset =>
      have hmode : modeOf P s.secureMode = s.secureMode := if_pos hset
      have hq := h s.calls (quiet_refl P s.calls)
      rwa [hmode] at hq
  case isFalse hset =>
      rw [wp_bind]
      refine wp_primitive ?_ (fun e he => herr (fun hc => by simp [hc s.calls] at he) _ _)
      intro hok
      have hmode : modeOf P s.secureMode = P.fuse := if_neg hset
      have hq := h (s.calls + 1) (quiet_succ hok)
      rw [hmode] at hq
      exact hq

/-- A header that is not signed by NVIDIA is processed in an OEM mode. -/
theorem signTypeOf_oem {secureMode static : Nat} (hoem : signtype hdr ≠ 3)
    (h : signTypeOf hdr secureMode = some (mode, static)) :
    mode = .sbk ∨ mode = .oemRsa ∨ mode = .oemEcc := by
  rw [signTypeOf, if_neg hoem] at h
  split at h
  · cases h
    exact .inl rfl
  · split at h
    · cases h
      exact .inr (.inl rfl)
    · split at h
      · cases h
        exact .inr (.inl rfl)
      · split at h
        · cases h
          exact .inr (.inr rfl)
        · cases h

theorem mem_updateAllowedModes (binType destSize : Nat) :
    mode ∈ updateAllowedModes (initialHandle binType destSize) ↔
      (mode = .nvidiaRsa ∧ (binType = binaryMtsPreboot ∨ binType = binaryDmce)) ∨
        mode = .sbk ∨ mode = .oemRsa ∨ mode = .oemEcc := by
  show mode ∈ (if binType = binaryMtsPreboot ∨ binType = binaryDmce then [.nvidiaRsa]
    else []) ++ ([.sbk, .oemRsa, .oemEcc] : List Mode) ↔ _
  split <;> simp [*]

/-- The header of a handle to which nothing was given yet. -/
theorem wp_authProcessHeader (hs : s.auth = initialHandle binType destSize)
    (hplain : signtype hdr ≠ 3 ∨ ¬ (binType = binaryMtsPreboot ∨ binType = binaryDmce)) :
    wp (authProcessHeader P 0 hdr)
      (fun _ t => ∃ mode static, Accepted P destSize s.secureMode hdr mode static ∧
        Quiet P s.calls t.calls ∧ t = { s with
          auth := headedHandle binType destSize hdr mode
          secureMode := static
          calls := t.calls })
      (fun stop _ => (∃ e, stop = .err e) ∧
        (Calm P → ∀ mode static, ¬ Accepted P destSize s.secureMode hdr mode static)) s := by
  rw [authProcessHeader, wp_bind]
  refine wp_readSecureMode ?_ (fun hc e _ => ⟨⟨e, rfl⟩, fun h => absurd h hc⟩)
  intro k hquiet
  cases hsign : signTypeOf hdr (modeOf P s.secureMode) with
  | none =>
      refine ⟨⟨_, rfl⟩, fun _ mode static hacc => ?_⟩
      rw [hacc.sign] at hsign
      cases hsign
  | some ms =>
      obtain ⟨mode, static⟩ := ms
      have hunique : ∀ mode' static', Accepted P destSize s.secureMode hdr mode' static' →
          mode' = mode ∧ binarylength hdr ≤ destSize ∧ (mode = .sbk ∨ mode = .oemRsa) := by
        intro mode' static' hacc
        have hsame := hacc.sign
        rw [hsign] at hsame
        cases hsame
        exact ⟨rfl, hacc.fits, hacc.oem⟩
      simp only [wp_bind, wp_modify, checkSizes, wp_get, wp_ite, wp_throwErr, wp_pure, hs]
      split
      case isTrue hlarge =>
        refine ⟨⟨_, rfl⟩, fun _ mode' static' hacc => ?_⟩
        exact absurd (hunique _ _ hacc).2.1 (Nat.not_le.mpr hlarge)
      case isFalse hfits =>
      have hfresh : ¬ ((initialHandle binType destSize).binarySize ≠ 0 ∧
          (initialHandle binType destSize).binarySize < add32 (binarylength hdr) headerSize) :=
        fun h => h.1 rfl
      rw [if_neg hfresh]
      simp only [checkMode, wp_bind, wp_modify, wp_get, wp_ite, wp_pure, wp_throwErr]
      split
      case isFalse hnot =>
        refine ⟨⟨_, rfl⟩, fun _ mode' static' hacc => ?_⟩
        exact hnot ((mem_updateAllowedModes _ _).mpr (.inr ((hunique _ _ hacc).2.2.imp_right .inl)))
      case isTrue hallowed =>
      have hrefuse : (mode ≠ .sbk ∧ mode ≠ .oemRsa) → ∀ mode' static',
          ¬ Accepted P destSize s.secureMode hdr mode' static' := by
        intro hnot mode' static' hacc
        rcases (hunique _ _ hacc).2.2 with h | h
        · exact hnot.1 h
        · exact hnot.2 h
      have haccept : mode = .sbk ∨ mode = .oemRsa →
          Accepted P destSize s.secureMode hdr mode static :=
        fun hoem => ⟨hsign, Nat.not_lt.mp hfits, hoem⟩
      have h0 : 0 < maxHeaders := by decide
      simp only [acceptHeader, wp_bind, wp_modify, wp_setHeader, if_pos h0, wp_get]
      cases mode with
      | none => simp [mem_updateAllowedModes] at hallowed
      | oemEcc =>
          rw [initContexts, wp_throwErr]
          · exact ⟨⟨_, rfl⟩, fun _ => hrefuse (by decide)⟩
          all_goals exact fun h => by cases h
      | nvidiaRsa =>
          have hbin : binType = binaryMtsPreboot ∨ binType = binaryDmce := by
            simpa [mem_updateAllowedModes] using hallowed
          have hsigned : signtype hdr ≠ 3 := hplain.resolve_right (fun h => h hbin)
          rcases signTypeOf_oem hsigned hsign with h | h | h <;> cases h
      | sbk =>
          rw [initContexts, initAes, wp_bind, wp_setHeader, if_pos h0, setHeader_setHeader]
          refine wp_primitive ?_ (fun e he => ⟨⟨_, rfl⟩, fun hc => by simp [hc _] at he⟩)
          intro hok
          exact ⟨.sbk, static, haccept (.inl rfl), hquiet.trans (quiet_succ hok), rfl⟩
      | oemRsa =>
          rw [initContexts, initRsa, wp_bind, wp_setHeader, if_pos h0, setHeader_setHeader]
          refine wp_primitive ?_ (fun e he => ⟨⟨_, rfl⟩, fun hc => by simp [hc _] at he⟩)
          intro hok
          exact ⟨.oemRsa, static, haccept (.inr rfl), hquiet.trans (quiet_succ hok), rfl⟩

end TX2SecureUart.Auth
