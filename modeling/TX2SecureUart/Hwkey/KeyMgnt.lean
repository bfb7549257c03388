/-
# `Hwkey.KeyMgnt` — the keys derived at boot

`key_mgnt.c`: two root keys are derived in the security engine, further keys
are derived from them with a CMAC, and the encrypted key blob is verified with
two of these.  `steps` is what has been done, in order.
-/
import TX2SecureUart.Hwkey.Ekb

namespace TX2SecureUart.Hwkey

/-- What is done on the way. -/
inductive KeyStep where
  | seAcquire
  | seDeriveRootKey (keyslot : UInt32)
  | seClearAesKeyslots
  | seRelease
  /-- a key is derived from this one -/
  | derive (key : Block)
  | ekbVerification
  | seWriteKeyslot (keyslot : UInt32)
deriving DecidableEq

/-- `SE_AES_KEYSLOT_KEK2_128B` -/
def seAesKeyslotKek2 : UInt32 := 11

/-- `SE_AES_KEYSLOT_SBK` -/
def seAesKeyslotSbk : UInt32 := 14

/-- `SE_AES_KEYSLOT_SSK` -/
def seAesKeyslotSsk : UInt32 := 15

/-- What a derivation with `nist_sp_800_108_with_cmac` meets. -/
structure KdfEnv where
  malloc : Bool
  cmacNew : Bool

/-- The results of the calls: those of the security engine, with what the
derivations leave in the buffers, the allocations of the further derivations,
and the blob. -/
structure KeyMgntEnv where
  seAcquire : Int
  deriveKek2 : Int
  kek2Rk : Block
  deriveSsk : Int
  sskRk : Block
  seClear : Int
  kdfEkbEk : KdfEnv
  kdfEkbAk : KdfEnv
  kdfSskDk : KdfEnv
  ekb : EkbEnv
  seWriteKeyslot : Int

/-- The keys of `key_mgnt.c`. -/
structure KeyMgnt where
  kek2RkForEkb : Block
  sskRk : Block
  ekbEk : Block
  ekbAk : Block
  sskDk : Block
  symKeys : Nat → KeyPtr
  steps : List KeyStep

def zeroKey : Block := Vector.replicate 16 0

/-- The keys before `key_mgnt_processing`. -/
def KeyMgnt.init : KeyMgnt := ⟨zeroKey, zeroKey, zeroKey, zeroKey, zeroKey, fun _ => .null, []⟩

def KeyMgnt.note (s : KeyMgnt) (step : KeyStep) : KeyMgnt := { s with steps := s.steps ++ [step] }

def strBytes (s : String) : List UInt8 := s.toList.map (fun c => UInt8.ofNat c.toNat)

/-- `nist_sp_800_108_with_cmac`: the error, and `out_dk`. -/
def nistSp800108WithCmac (cmac : Block → List UInt8 → Block) (env : KdfEnv) (key : Block)
    (context label : String) (outDk : Block) : Int × Block :=
  if !env.malloc then (errNoMemory, outDk)
  else if !env.cmacNew then (errNoMemory, outDk)
  else (noError, cmac key ([1] ++ strBytes label ++ [0] ++ strBytes context))

/-- The two calls of `se_derive_root_key`; the second is not made after an error. -/
def deriveRootKeys (env : KeyMgntEnv) (s : KeyMgnt) : Int × KeyMgnt :=
  let s := { s.note (.seDeriveRootKey seAesKeyslotKek2) with kek2RkForEkb := env.kek2Rk }
  if env.deriveKek2 ≠ noError then (env.deriveKek2, s)
  else (env.deriveSsk, { s.note (.seDeriveRootKey seAesKeyslotSsk) with sskRk := env.sskRk })

/-- `key_mgnt_derive_root_keys` -/
def keyMgntDeriveRootKeys (env : KeyMgntEnv) (s : KeyMgnt) : Int × KeyMgnt :=
  let s := s.note .seAcquire
  if env.seAcquire ≠ noError then (env.seAcquire, s)
  else
    let (_, s) := deriveRootKeys env s
    -- `root_key_fail`: the variable with the error gets this result
    (env.seClear, (s.note .seClearAesKeyslots).note .seRelease)

/-- `set_ekb_key_to_keyslot` -/
def setEkbKeyToKeyslot (env : KeyMgntEnv) (keyslot : UInt32) (keyIndex : UInt8) (s : KeyMgnt) :
    Int × KeyMgnt :=
  if ekbGetKey s.symKeys keyIndex = .null then (errNotValid, s)
  else (env.seWriteKeyslot, s.note (.seWriteKeyslot keyslot))

/-- `if (rc != NO_ERROR) goto err_key_mgnt;` and the next step. -/
def andThen (r : Int × KeyMgnt) (next : KeyMgnt → Int × KeyMgnt) : Int × KeyMgnt :=
  if r.1 ≠ noError then r else next r.2

/-- "Derive EKB_EK" -/
def deriveEkbEk (cmac : Block → List UInt8 → Block) (env : KeyMgntEnv) (s : KeyMgnt) :
    Int × KeyMgnt :=
  let (rc, key) := nistSp800108WithCmac cmac env.kdfEkbEk s.kek2RkForEkb "ekb" "encryption" s.ekbEk
  (rc, { s.note (.derive s.kek2RkForEkb) with ekbEk := key })

/-- "Derive EKB_AK" -/
def deriveEkbAk (cmac : Block → List UInt8 → Block) (env : KeyMgntEnv) (s : KeyMgnt) :
    Int × KeyMgnt :=
  let (rc, key) :=
    nistSp800108WithCmac cmac env.kdfEkbAk s.kek2RkForEkb "ekb" "authentication" s.ekbAk
  (rc, { s.note (.derive s.kek2RkForEkb) with ekbAk := key })

/-- "Derive SSK_DK" -/
def deriveSskDk (cmac : Block → List UInt8 → Block) (env : KeyMgntEnv) (s : KeyMgnt) :
    Int × KeyMgnt :=
  let (rc, key) := nistSp800108WithCmac cmac env.kdfSskDk s.sskRk "ssk" "derivedkey" s.sskDk
  (rc, { s.note (.derive s.sskRk) with sskDk := key })

/-- "Verify EKB" -/
def verifyKeyBlob (cmac : Block → List UInt8 → Block) (aes : Aes) (env : KeyMgntEnv)
    (s : KeyMgnt) : Int × KeyMgnt :=
  let (rc, t) := ekbVerification cmac aes env.ekb s.ekbAk s.ekbEk
  (rc, { s.note .ekbVerification with symKeys := t.symKeys })

/-- `key_mgnt_processing` once the root keys are there. -/
def keyMgntDerive (cmac : Block → List UInt8 → Block) (aes : Aes) (env : KeyMgntEnv)
    (s : KeyMgnt) : Int × KeyMgnt :=
  andThen (andThen (andThen (andThen (deriveEkbEk cmac env s) (deriveEkbAk cmac env))
    (deriveSskDk cmac env)) (verifyKeyBlob cmac aes env))
    (setEkbKeyToKeyslot env seAesKeyslotSbk ekbUserKeyKernelEncryption)

/-- `key_mgnt_processing` -/
def keyMgntProcessing (cmac : Block → List UInt8 → Block) (aes : Aes) (env : KeyMgntEnv) :
    Int × KeyMgnt :=
  andThen (keyMgntDeriveRootKeys env .init) (keyMgntDerive cmac aes env)

/-! ## What is done with the root keys -/

section

variable {cmac : Block → List UInt8 → Block} {aes : Aes} {env : KeyMgntEnv} {s : KeyMgnt}

/-- A step after the root keys, which derives keys from these two only. -/
def KeyStep.Later (kek2 ssk : Block) : KeyStep → Prop
  | .derive key => key = kek2 ∨ key = ssk
  | .ekbVerification => True
  | .seWriteKeyslot _ => True
  | _ => False

/-- `t` comes from `s` by steps after the root keys. -/
structure Goes (s t : KeyMgnt) : Prop where
  kek2 : t.kek2RkForEkb = s.kek2RkForEkb
  ssk : t.sskRk = s.sskRk
  steps : ∃ l, t.steps = s.steps ++ l ∧ ∀ x ∈ l, x.Later s.kek2RkForEkb s.sskRk

theorem Goes.refl : Goes s s := ⟨rfl, rfl, [], by simp, by simp⟩

theorem Goes.trans {t u : KeyMgnt} (h : Goes s t) (h' : Goes t u) : Goes s u := by
  obtain ⟨l, hl, hlater⟩ := h.steps
  obtain ⟨l', hl', hlater'⟩ := h'.steps
  refine ⟨h'.kek2.trans h.kek2, h'.ssk.trans h.ssk, l ++ l', ?_, ?_⟩
  · rw [hl', hl, List.append_assoc]
  · intro x hx
    rcases List.mem_append.mp hx with hx | hx
    · exact hlater x hx
    · have hx' := hlater' x hx
      rw [h.kek2, h.ssk] at hx'
      exact hx'

theorem Goes.note {x : KeyStep} (hx : x.Later s.kek2RkForEkb s.sskRk) : Goes s (s.note x) :=
  ⟨rfl, rfl, [x], rfl, by simpa using hx⟩

/-- Other fields do not matter. -/
theorem Goes.congr {t u : KeyMgnt} (h : Goes s t) (hkek2 : u.kek2RkForEkb = t.kek2RkForEkb)
    (hssk : u.sskRk = t.sskRk) (hsteps : u.steps = t.steps) : Goes s u := by
  refine ⟨hkek2.trans h.kek2, hssk.trans h.ssk, ?_⟩
  rw [hsteps]
  exact h.steps

theorem Goes.andThen {r : Int × KeyMgnt} {next : KeyMgnt → Int × KeyMgnt} (h : Goes s r.2)
    (hnext : Goes r.2 (next r.2).2) : Goes s (andThen r next).2 := by
  rw [Hwkey.andThen]
  split
  · exact h
  · exact h.trans hnext

theorem setEkbKeyToKeyslot_goes (keyslot : UInt32) (keyIndex : UInt8) :
    Goes s (setEkbKeyToKeyslot env keyslot keyIndex s).2 := by
  rw [setEkbKeyToKeyslot]
  split
  · exact .refl
  · exact .note trivial

theorem deriveEkbEk_goes : Goes s (deriveEkbEk cmac env s).2 :=
  (Goes.note (.inl rfl) : Goes s (s.note (.derive s.kek2RkForEkb))).congr rfl rfl rfl

theorem deriveEkbAk_goes : Goes s (deriveEkbAk cmac env s).2 :=
  (Goes.note (.inl rfl) : Goes s (s.note (.derive s.kek2RkForEkb))).congr rfl rfl rfl

theorem deriveSskDk_goes : Goes s (deriveSskDk cmac env s).2 :=
  (Goes.note (.inr rfl) : Goes s (s.note (.derive s.sskRk))).congr rfl rfl rfl

theorem verifyKeyBlob_goes : Goes s (verifyKeyBlob cmac aes env s).2 :=
  (Goes.note trivial : Goes s (s.note .ekbVerification)).congr rfl rfl rfl

/-- All of it is steps after the root keys, the first of them a derivation. -/
theorem keyMgntDerive_goes (cmac : Block → List UInt8 → Block) (aes : Aes) (env : KeyMgntEnv)
    (s : KeyMgnt) :
    Goes (deriveEkbEk cmac env s).2 (keyMgntDerive cmac aes env s).2 :=
  (((Goes.refl.andThen deriveEkbAk_goes).andThen deriveSskDk_goes).andThen
    verifyKeyBlob_goes).andThen (setEkbKeyToKeyslot_goes _ _)

end

/-! ## Errors of the security engine -/

/-- The error of the two derivations, with which `root_key_fail` is reached. -/
def deriveError (env : KeyMgntEnv) : Int :=
  if env.deriveKek2 ≠ noError then env.deriveKek2 else env.deriveSsk

/-- The first step of `key_mgnt_derive_root_keys` that fails. -/
def firstError (env : KeyMgntEnv) : Option Int :=
  [env.seAcquire, env.deriveKek2, env.deriveSsk, env.seClear].find? (· ≠ noError)

/-- The step is one after the root keys. -/
def KeyStep.goesOn : KeyStep → Bool
  | .derive _ => true
  | .ekbVerification => true
  | .seWriteKeyslot _ => true
  | _ => false

/-- What `key_mgnt_processing` promises about the root keys. -/
structure RootKeysChecked (env : KeyMgntEnv) (r : Int × KeyMgnt) : Prop where
  /-- nothing is done with root keys that are not both derived -/
  derived : (∃ x ∈ r.2.steps, x.goesOn = true) →
    env.seAcquire = noError ∧ env.deriveKek2 = noError ∧ env.deriveSsk = noError
  /-- keys are derived from these root keys only -/
  fromRootKeys : ∀ key, .derive key ∈ r.2.steps → key = env.kek2Rk ∨ key = env.sskRk
  error : ∀ e, firstError env = some e → r.1 = e
  cleaned : env.seAcquire = noError →
    r.2.steps.count .seClearAesKeyslots = 1 ∧ r.2.steps.count .seRelease = 1

/-- No derivation fails, or the security engine is not acquired, or clearing
its key slots fails with the error of the derivation. -/
def ErrorKept (env : KeyMgntEnv) : Prop :=
  env.seAcquire ≠ noError ∨ deriveError env = noError ∨ env.seClear = deriveError env

section

variable {cmac : Block → List UInt8 → Block} {aes : Aes} {env : KeyMgntEnv}

/-- The state in which the mutex is released. -/
def rootKeys (env : KeyMgntEnv) : KeyMgnt :=
  ((deriveRootKeys env (KeyMgnt.init.note .seAcquire)).2.note .seClearAesKeyslots).note .seRelease

theorem rootKeys_count (env : KeyMgntEnv) (step : KeyStep) (hstep : step = .seClearAesKeyslots ∨ step = .seRelease) :
    (rootKeys env).steps.count step = 1 := by
  rw [rootKeys, deriveRootKeys]
  rcases hstep with rfl | rfl
  · split
    · rfl
    · rfl
  · split
    · rfl
    · rfl

/-- No step up to there uses a root key. -/
theorem rootKeys_not_goesOn (env : KeyMgntEnv) (x : KeyStep) (hx : x ∈ (rootKeys env).steps) :
    x.goesOn = false := by
  rw [rootKeys, deriveRootKeys] at hx
  split at hx
  · have hcases : x = .seAcquire ∨ x = .seDeriveRootKey seAesKeyslotKek2 ∨
        x = .seClearAesKeyslots ∨ x = .seRelease := by
      simpa [KeyMgnt.note, KeyMgnt.init] using hx
    rcases hcases with rfl | rfl | rfl | rfl
    all_goals rfl
  · have hcases : x = .seAcquire ∨ x = .seDeriveRootKey seAesKeyslotKek2 ∨
        x = .seDeriveRootKey seAesKeyslotSsk ∨ x = .seClearAesKeyslots ∨ x = .seRelease := by
      simpa [KeyMgnt.note, KeyMgnt.init] using hx
    rcases hcases with rfl | rfl | rfl | rfl | rfl
    all_goals rfl

theorem keyMgntDeriveRootKeys_acquired (h : env.seAcquire = noError) :
    keyMgntDeriveRootKeys env .init = (env.seClear, rootKeys env) := by
  rw [keyMgntDeriveRootKeys]
  exact if_neg (not_not.mpr h)

theorem rootKeys_kek2 (env : KeyMgntEnv) : (rootKeys env).kek2RkForEkb = env.kek2Rk := by
  rw [rootKeys, deriveRootKeys]
  split
  · rfl
  · rfl

theorem rootKeys_ssk (h : deriveError env = noError) : (rootKeys env).sskRk = env.sskRk := by
  rw [deriveError] at h
  split at h
  · rename_i hne
    exact absurd h hne
  · rename_i hok
    rw [rootKeys, deriveRootKeys, if_neg hok]
    rfl

theorem deriveError_iff :
    deriveError env = noError ↔ env.deriveKek2 = noError ∧ env.deriveSsk = noError := by
  rw [deriveError]
  split
  · rename_i hne
    exact ⟨fun h => absurd h hne, fun h => h.1⟩
  · rename_i hok
    exact ⟨fun h => ⟨not_not.mp hok, h⟩, fun h => h.2⟩

/-- Once the security engine is acquired, the error of the derivations comes first. -/
theorem firstError_acquired (h : env.seAcquire = noError) :
    firstError env =
      if deriveError env ≠ noError then some (deriveError env)
      else if env.seClear ≠ noError then some env.seClear else none := by
  rw [firstError, deriveError]
  by_cases hkek2 : env.deriveKek2 = noError
  · by_cases hssk : env.deriveSsk = noError
    · by_cases hclear : env.seClear = noError
      · simp [h, hkek2, hssk, hclear]
      · simp [h, hkek2, hssk, hclear]
    · simp [h, hkek2, hssk]
  · simp [h, hkek2]

/-- The steps after the root keys, when they are taken. -/
theorem keyMgntDerive_steps (cmac : Block → List UInt8 → Block) (aes : Aes) (env : KeyMgntEnv) :
    ∃ l, (keyMgntDerive cmac aes env (rootKeys env)).2.steps =
        (rootKeys env).steps ++ .derive env.kek2Rk :: l ∧
      ∀ x ∈ l, x.Later env.kek2Rk (rootKeys env).sskRk := by
  obtain ⟨l, hl, hlater⟩ := (keyMgntDerive_goes cmac aes env (rootKeys env)).steps
  refine ⟨l, ?_, ?_⟩
  · rw [hl, ← rootKeys_kek2 env]
    exact List.append_assoc ..
  · intro x hx
    have h := hlater x hx
    have hkek2 : (deriveEkbEk cmac env (rootKeys env)).2.kek2RkForEkb = env.kek2Rk :=
      rootKeys_kek2 env
    rw [hkek2] at h
    exact h

end

/-- The root keys are used and the errors returned as promised exactly where
the error variable is not overwritten. -/
theorem keyMgntProcessing_checked_iff (cmac : Block → List UInt8 → Block) (aes : Aes)
    (env : KeyMgntEnv) :
    RootKeysChecked env (keyMgntProcessing cmac aes env) ↔ ErrorKept env := by
  by_cases hacquire : env.seAcquire = noError
  · have hone := rootKeys_count env .seClearAesKeyslots (.inl rfl)
    have hrel := rootKeys_count env .seRelease (.inr rfl)
    rw [keyMgntProcessing, keyMgntDeriveRootKeys_acquired hacquire, andThen]
    dsimp only
    split
    · -- the error of the clearing is returned, and nothing follows
      rename_i hclear
      have hnone : ∀ x ∈ (rootKeys env).steps, x.goesOn = false := rootKeys_not_goesOn env
      constructor
      · intro h
        by_cases hderive : deriveError env = noError
        · exact .inr (.inl hderive)
        · refine .inr (.inr (h.error _ ?_))
          rw [firstError_acquired hacquire, if_pos hderive]
      · intro h
        refine ⟨?_, ?_, ?_, fun _ => ⟨hone, hrel⟩⟩
        · rintro ⟨x, hx, hon⟩
          rw [hnone x hx] at hon
          cases hon
        · intro key hkey
          cases hnone _ hkey
        · intro e he
          rw [firstError_acquired hacquire] at he
          rcases h with hno | hderive | heq
          · exact absurd hacquire hno
          · rw [if_neg (not_not.mpr hderive), if_pos hclear] at he
            exact Option.some.inj he
          · have hderive : deriveError env ≠ noError := heq ▸ hclear
            rw [if_pos hderive, ← heq] at he
            exact Option.some.inj he
    · rename_i hclear
      obtain ⟨l, hl, hlater⟩ := keyMgntDerive_steps cmac aes env
      constructor
      · intro h
        have hderived := (h.derived ⟨.derive env.kek2Rk, by simp [hl], rfl⟩).2
        exact .inr (.inl (deriveError_iff.mpr hderived))
      · intro h
        have hderive : deriveError env = noError := by
          rcases h with hno | hderive | heq
          · exact absurd hacquire hno
          · exact hderive
          · exact heq.symm.trans (not_not.mp hclear)
        have hcount : ∀ step : KeyStep, step.goesOn = false →
            (keyMgntDerive cmac aes env (rootKeys env)).2.steps.count step =
              (rootKeys env).steps.count step := by
          intro step hstep
          have hnot : step ∉ (.derive env.kek2Rk :: l : List KeyStep) := by
            intro hmem
            rcases List.mem_cons.mp hmem with rfl | hmem
            · cases hstep
            · have hlate := hlater step hmem
              cases step with
              | derive | ekbVerification | seWriteKeyslot => cases hstep
              | seAcquire | seDeriveRootKey | seClearAesKeyslots | seRelease => exact hlate
          rw [hl, List.count_append, List.count_eq_zero_of_not_mem hnot, Nat.add_zero]
        refine ⟨fun _ => ⟨hacquire, deriveError_iff.mp hderive⟩, ?_, ?_, ?_⟩
        · intro key hkey
          rw [hl] at hkey
          rcases List.mem_append.mp hkey with hkey | hkey
          · cases rootKeys_not_goesOn env _ hkey
          · rcases List.mem_cons.mp hkey with heq | hkey
            · exact .inl (KeyStep.derive.inj heq)
            · have hlate := hlater _ hkey
              rw [rootKeys_ssk hderive] at hlate
              exact hlate
        · intro e he
          rw [firstError_acquired hacquire, if_neg (not_not.mpr hderive), if_neg hclear] at he
          cases he
        · intro _
          rw [hcount _ rfl, hcount _ rfl]
          exact ⟨hone, hrel⟩
  · have hrun : keyMgntProcessing cmac aes env = (env.seAcquire, KeyMgnt.init.note .seAcquire) := by
      rw [keyMgntProcessing, keyMgntDeriveRootKeys, if_pos hacquire, andThen, if_pos hacquire]
    rw [hrun]
    refine ⟨fun _ => .inl hacquire, fun _ => ⟨?_, ?_, ?_, fun h => absurd h hacquire⟩⟩
    · rintro ⟨x, hx, hon⟩
      rw [List.mem_singleton.mp hx] at hon
      cases hon
    · intro key hkey
      cases List.mem_singleton.mp hkey
    · intro e he
      rw [firstError, List.find?_cons_of_pos (by simpa using hacquire)] at he
      exact Option.some.inj he

/-- The derivation with the KEK2 slot fails, and everything else succeeds. -/
def kek2Fails : KeyMgntEnv where
  seAcquire := noError
  deriveKek2 := errBusy
  kek2Rk := zeroKey
  deriveSsk := noError
  sskRk := zeroKey
  seClear := noError
  kdfEkbEk := ⟨true, true⟩
  kdfEkbAk := ⟨true, true⟩
  kdfSskDk := ⟨true, true⟩
  ekb := shortEkb
  seWriteKeyslot := noError

/-- The error of the derivation is lost, and keys are derived from zeros. -/
theorem kek2Fails_derives :
    ¬∀ (cmac : Block → List UInt8 → Block) (aes : Aes) (env : KeyMgntEnv),
      RootKeysChecked env (keyMgntProcessing cmac aes env) := by
  intro h
  have hchecked := h (fun k _ => k) (fun _ => Equiv.refl _) kek2Fails
  obtain ⟨l, hl, -⟩ := keyMgntDerive_steps (fun k _ => k) (fun _ => Equiv.refl _) kek2Fails
  have hrun : keyMgntProcessing (fun k _ => k) (fun _ => Equiv.refl _) kek2Fails =
      keyMgntDerive (fun k _ => k) (fun _ => Equiv.refl _) kek2Fails (rootKeys kek2Fails) := rfl
  rw [hrun] at hchecked
  have hderived := hchecked.derived ⟨.derive kek2Fails.kek2Rk, by simp [hl], rfl⟩
  exact absurd hderived.2.1 (by decide)

end TX2SecureUart.Hwkey
