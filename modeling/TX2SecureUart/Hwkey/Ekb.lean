/-
# `Hwkey.Ekb` — the encrypted key blob

`ekb_helper.c`: the blob is copied out of non-secure memory, authenticated with
a CMAC, and its ciphertext blocks are decrypted into freshly allocated keys.
The blob is cast to a fixed layout, and its size is only compared with 0.

`reads` is no part of the program: the ranges of the copy that are read.
-/
import TX2SecureUart.Hwkey.Aes
import TX2SecureUart.Err

namespace TX2SecureUart.Hwkey

open Ipc

/-! ## The blob -/

/-- `EKB_USER_KEY_KERNEL_ENCRYPTION` -/
def ekbUserKeyKernelEncryption : UInt8 := 0

/-- `EKB_USER_KEY_DISK_ENCRYPTION` -/
def ekbUserKeyDiskEncryption : UInt8 := 1

/-- `EKB_USER_KEYS_NUM` -/
def ekbUserKeysNum : Nat := 2

/-- `MIN_HEAP_SIZE` -/
def minHeapSize : Nat := 16384

/-- `offsetof(struct ekb_content, random_iv)` -/
def offsetofRandomIv : Nat := 16

/-- `offsetof(struct ekb_content, ekb_ciphertext)` -/
def offsetofEkbCiphertext : Nat := 32

/-- What the calls of `ekb_verification` meet: the mapping of the region with
the blob, the allocations, and what stands on the heap behind the copy. -/
structure EkbEnv where
  ioctl : Int
  ekb : List UInt8
  malloc : Bool
  munmap : Int
  heap : Nat → UInt8
  cmacNew : Bool
  setDecryptKey : Option ErrCode
  mallocKey : Nat → Bool

/-- `get_ekb`: the error, and `*ekb_base` with the bytes copied there. -/
def getEkb (env : EkbEnv) : Int × Option (List UInt8) :=
  if env.ioctl ≠ noError then (errGeneric, none)
  else
    let (rc, base) :=
      if minHeapSize < env.ekb.length then (errTooBig, none)
      else if !env.malloc then (errNoMemory, none)
      else (noError, some env.ekb)
    if env.munmap ≠ 0 then (errGeneric, base) else (rc, base)

/-! ## The keys -/

/-- An entry of `sym_keys`. -/
inductive KeyPtr where
  | null
  | key (k : Block)
  /-- the memory has been given back -/
  | freed
deriving DecidableEq

/-- `sym_keys`, and the copy of the blob with the reads of it. -/
structure EkbState where
  symKeys : Nat → KeyPtr
  mem : Nat → UInt8
  reads : List (Nat × Nat)

/-- `ekb_get_key` -/
def ekbGetKey (symKeys : Nat → KeyPtr) (idx : UInt8) : KeyPtr :=
  if ekbUserKeysNum ≤ idx.toNat then .null else symKeys idx.toNat

/-- A range of the copy is read. -/
def EkbState.note (s : EkbState) (pos len : Nat) : EkbState :=
  { s with reads := s.reads ++ [(pos, len)] }

/-- `while (--i >= 0)`: the keys before the `i`-th are freed. -/
def freeKeys (i : Nat) (symKeys : Nat → KeyPtr) : Nat → KeyPtr := fun j =>
  if j < i ∧ symKeys j ≠ .null then .freed else symKeys j

/-- The `i`-th key is decrypted, and `random_iv` with it updated. -/
def decryptKey (aes : Aes) (ekbEk : Block) (i : Nat) (s : EkbState) : EkbState :=
  let s := (s.note (offsetofEkbCiphertext + aesBlockSize * i) aesBlockSize).note
    offsetofRandomIv aesBlockSize
  let r := aesCbcBlock aes ekbEk false (blockAt s.mem offsetofRandomIv)
    (blockAt s.mem (offsetofEkbCiphertext + aesBlockSize * i))
  { s with
    symKeys := Function.update s.symKeys i (.key r.1)
    mem := write s.mem offsetofRandomIv r.2.toList }

/-- The loop of `ekb_verification` with `n` keys to go from the `i`-th on. -/
def keyLoop (env : EkbEnv) (aes : Aes) (ekbEk : Block) : Nat → Nat → EkbState → Int × EkbState
  | 0, _, s => (noError, s)
  | n + 1, i, s =>
      if !env.mallocKey i then (errNoMemory, { s with symKeys := freeKeys i s.symKeys })
      else keyLoop env aes ekbEk n (i + 1) (decryptKey aes ekbEk i s)

/-- The copy of the blob, with the heap behind it. -/
def EkbEnv.mem (env : EkbEnv) : Nat → UInt8 := fun k => (env.ekb[k]?).getD (env.heap k)

/-- `sizeof(random_iv) + sizeof(ekb_ciphertext) * EKB_USER_KEYS_NUM` -/
def cmacInputSize : Nat := aesBlockSize + aesBlockSize * ekbUserKeysNum

/-- `ekb_cmac_verify` -/
def ekbCmacVerify (cmac : Block → List UInt8 → Block) (env : EkbEnv) (ekbAk : Block) : Block :=
  cmac ekbAk (bytesAt env.mem offsetofRandomIv cmacInputSize)

/-- Before `ekb_verification` is called: no keys, and nothing read. -/
def EkbEnv.start (env : EkbEnv) : EkbState := ⟨fun _ => .null, env.mem, []⟩

/-- `ekb_verification` once the blob has been copied. -/
def verifyEkb (cmac : Block → List UInt8 → Block) (aes : Aes) (env : EkbEnv)
    (ekbAk ekbEk : Block) : Int × EkbState :=
  let s := (env.start.note offsetofRandomIv cmacInputSize).note 0 aesBlockSize
  if bytesAt env.mem 0 aesBlockSize ≠ (ekbCmacVerify cmac env ekbAk).toList then (errNotValid, s)
  else
    match env.setDecryptKey with
    | some e => (e.val, s)
    | none => keyLoop env aes ekbEk ekbUserKeysNum 0 s

/-- `ekb_verification` -/
def ekbVerification (cmac : Block → List UInt8 → Block) (aes : Aes) (env : EkbEnv)
    (ekbAk ekbEk : Block) : Int × EkbState :=
  match getEkb env with
  | (rc, none) => (rc, env.start)
  | (rc, some ekb) =>
      if rc ≠ noError ∨ ekb.length = 0 then (rc, env.start)
      else if !env.cmacNew then (errNoMemory, env.start)
      else verifyEkb cmac aes env ekbAk ekbEk

/-! ## What the loop does -/

section

variable {env : EkbEnv} {aes : Aes} {ekbAk ekbEk : Block} {cmac : Block → List UInt8 → Block}
  {s : EkbState}

/-- Decrypting a key leaves the ciphertext as it is. -/
theorem blocksAt_decryptKey (i j n : Nat) :
    blocksAt (decryptKey aes ekbEk i s).mem (offsetofEkbCiphertext + aesBlockSize * j) n =
      blocksAt s.mem (offsetofEkbCiphertext + aesBlockSize * j) n := by
  apply blocksAt_congr
  intro k hlow _
  apply write_outside
  rw [Vector.length_toList]
  simp only [offsetofEkbCiphertext, offsetofRandomIv, aesBlockSize] at hlow ⊢
  omega

/-- The keys before the loop are kept, where it does not fail. -/
theorem keyLoop_before (n : Nat) {i j : Nat} (hj : j < i)
    (hok : (keyLoop env aes ekbEk n i s).1 = noError) :
    (keyLoop env aes ekbEk n i s).2.symKeys j = s.symKeys j := by
  induction n generalizing i s with
  | zero => rfl
  | succ n ih =>
      rw [keyLoop] at hok ⊢
      split at hok
      · cases hok
      · rename_i hmalloc
        rw [if_neg hmalloc, ih (by omega) hok]
        exact Function.update_of_ne (by omega) _ _

/-- The keys of the loop are the CBC decryption of the ciphertext. -/
theorem keyLoop_keys (n : Nat) {i : Nat} (hok : (keyLoop env aes ekbEk n i s).1 = noError) :
    ∀ (j : Nat) (k : Block),
      (aesCbcEncrypt aes ekbEk false (blockAt s.mem offsetofRandomIv)
        (blocksAt s.mem (offsetofEkbCiphertext + aesBlockSize * i) n)).1[j]? = some k →
      (keyLoop env aes ekbEk n i s).2.symKeys (i + j) = .key k := by
  induction n generalizing i s with
  | zero =>
      intro j k hk
      simp [blocksAt, aesCbcEncrypt, Cbc.decrypt] at hk
  | succ n ih =>
      intro j k hk
      rw [blocksAt, aesCbcEncrypt_cons] at hk
      rw [keyLoop] at hok ⊢
      split at hok
      · cases hok
      rename_i hmalloc
      rw [if_neg hmalloc]
      cases j with
      | zero =>
          rw [List.getElem?_cons_zero, Option.some.injEq] at hk
          have hbefore := keyLoop_before n (Nat.lt_add_one i) hok
          refine hbefore.trans ?_
          rw [← hk]
          exact Function.update_self ..
      | succ j =>
          rw [List.getElem?_cons_succ] at hk
          rw [← Nat.add_assoc, Nat.add_right_comm]
          refine ih hok j k ?_
          rw [blocksAt_decryptKey, ← hk, decryptKey, blockAt_write]
          rfl

/-- An error gives back the keys that were there. -/
theorem keyLoop_error (n : Nat) {i : Nat} (hi : 0 < i) (h0 : s.symKeys 0 ≠ .null)
    (herr : (keyLoop env aes ekbEk n i s).1 ≠ noError) :
    (keyLoop env aes ekbEk n i s).2.symKeys 0 = .freed := by
  induction n generalizing i s with
  | zero => exact absurd rfl herr
  | succ n ih =>
      rw [keyLoop] at herr ⊢
      split
      · exact if_pos ⟨hi, h0⟩
      · rename_i hmalloc
        rw [if_neg hmalloc] at herr
        refine ih (Nat.succ_pos i) ?_ herr
        have hkeep : (decryptKey aes ekbEk i s).symKeys 0 = s.symKeys 0 :=
          Function.update_of_ne (by omega) _ _
        rw [hkeep]
        exact h0

theorem keyLoop_ok_iff (n i : Nat) :
    (keyLoop env aes ekbEk n i s).1 = noError ↔ ∀ j, j < n → env.mallocKey (i + j) = true := by
  induction n generalizing i s with
  | zero => simp [keyLoop]
  | succ n ih =>
      rw [keyLoop]
      split
      · rename_i hmalloc
        refine ⟨fun h => (by cases h), fun h => ?_⟩
        have h0 := h 0 (Nat.succ_pos n)
        rw [Nat.add_zero] at h0
        rw [h0] at hmalloc
        cases hmalloc
      · rename_i hmalloc
        rw [ih]
        constructor
        · intro h j hj
          cases j with
          | zero => simpa using hmalloc
          | succ j =>
              rw [← Nat.add_assoc, Nat.add_right_comm]
              exact h j (Nat.lt_of_succ_lt_succ hj)
        · intro h j hj
          rw [Nat.add_assoc, Nat.add_comm 1]
          exact h (j + 1) (Nat.succ_lt_succ hj)

/-- What the loop reads ends with the last ciphertext block. -/
theorem keyLoop_reads (n i : Nat) :
    ∀ p ∈ (keyLoop env aes ekbEk n i s).2.reads,
      p ∈ s.reads ∨ p.1 + p.2 ≤ offsetofEkbCiphertext + aesBlockSize * (i + n) := by
  induction n generalizing i s with
  | zero => exact fun p hp => .inl hp
  | succ n ih =>
      intro p hp
      rw [keyLoop] at hp
      split at hp
      · exact .inl hp
      · rcases ih (i + 1) p hp with hmem | hle
        · have hcases : p ∈ s.reads ∨ p = (offsetofEkbCiphertext + aesBlockSize * i, aesBlockSize) ∨
              p = (offsetofRandomIv, aesBlockSize) := by
            simpa [decryptKey, EkbState.note, or_assoc] using hmem
          rcases hcases with hmem | rfl | rfl
          · exact .inl hmem
          · right
            simp only [offsetofEkbCiphertext, aesBlockSize]
            omega
          · right
            simp only [offsetofEkbCiphertext, offsetofRandomIv, aesBlockSize]
            omega
        · right
          rw [Nat.add_assoc, Nat.add_comm 1] at hle
          exact hle

/-! ## The blob is checked -/

/-- What a call of `ekb_verification` promises. -/
structure EkbChecked (cmac : Block → List UInt8 → Block) (aes : Aes) (env : EkbEnv)
    (ekbAk ekbEk : Block) (r : Int × EkbState) : Prop where
  authentic : r.1 = noError → offsetofEkbCiphertext + aesBlockSize * ekbUserKeysNum ≤ env.ekb.length ∧
    bytesAt env.mem 0 aesBlockSize = (ekbCmacVerify cmac env ekbAk).toList
  inside : ∀ p ∈ r.2.reads, p.1 + p.2 ≤ env.ekb.length
  keys : r.1 = noError → ∀ (idx : UInt8) (k : Block),
    (aesCbcEncrypt aes ekbEk false (blockAt env.mem offsetofRandomIv)
      (blocksAt env.mem offsetofEkbCiphertext ekbUserKeysNum)).1[idx.toNat]? = some k →
    ekbGetKey r.2.symKeys idx = .key k
  cleared : r.1 ≠ noError → ∀ idx, ekbGetKey r.2.symKeys idx = .null

/-- The blob is copied. -/
def EkbEnv.Copied (env : EkbEnv) : Prop :=
  env.ioctl = noError ∧ env.ekb.length ≤ minHeapSize ∧ env.malloc = true ∧ env.munmap = 0

/-- The first key is decrypted, and there is no memory for a later one. -/
def LaterKeyFails (cmac : Block → List UInt8 → Block) (env : EkbEnv) (ekbAk : Block) : Prop :=
  env.cmacNew = true ∧ bytesAt env.mem 0 aesBlockSize = (ekbCmacVerify cmac env ekbAk).toList ∧
    env.setDecryptKey = none ∧ env.mallocKey 0 = true ∧
    ∃ i, i < ekbUserKeysNum ∧ env.mallocKey i = false

/-- The copy fails, or the blob has room for the keys and memory for none but
the first fails, or nothing is read because there is no CMAC context. -/
def EkbSound (cmac : Block → List UInt8 → Block) (env : EkbEnv) (ekbAk : Block) : Prop :=
  ¬env.Copied ∨
    (offsetofEkbCiphertext + aesBlockSize * ekbUserKeysNum ≤ env.ekb.length ∧
      ¬LaterKeyFails cmac env ekbAk) ∨
    (env.ekb.length ≠ 0 ∧ env.cmacNew = false)

theorem getEkb_copied (h : env.Copied) : getEkb env = (noError, some env.ekb) := by
  obtain ⟨hioctl, hsize, hmalloc, hmunmap⟩ := h
  simp [getEkb, hioctl, Nat.not_lt.mpr hsize, hmalloc, hmunmap]

theorem getEkb_not_copied (h : ¬env.Copied) : (getEkb env).1 ≠ noError := by
  intro hok
  apply h
  rw [getEkb] at hok
  split at hok
  · cases hok
  rename_i hioctl
  by_cases hsize : minHeapSize < env.ekb.length
  · simp only [if_pos hsize] at hok
    split at hok
    · cases hok
    · cases hok
  cases hmalloc : env.malloc with
  | false =>
      simp only [if_neg hsize, hmalloc] at hok
      split at hok
      · cases hok
      · cases hok
  | true =>
      simp only [if_neg hsize, hmalloc] at hok
      split at hok
      · cases hok
      · rename_i hmunmap
        exact ⟨not_not.mp hioctl, Nat.not_lt.mp hsize, hmalloc, not_not.mp hmunmap⟩

theorem ekbVerification_not_copied (h : ¬env.Copied) :
    ekbVerification cmac aes env ekbAk ekbEk = ((getEkb env).1, env.start) := by
  have hne := getEkb_not_copied h
  rw [ekbVerification]
  cases hget : getEkb env with
  | mk rc base =>
      rw [hget] at hne
      cases base with
      | none => rfl
      | some ekb => exact if_pos (Or.inl hne)

theorem ekbVerification_copied (h : env.Copied) :
    ekbVerification cmac aes env ekbAk ekbEk =
      if env.ekb.length = 0 then (noError, env.start)
      else if !env.cmacNew then (errNoMemory, env.start)
      else verifyEkb cmac aes env ekbAk ekbEk := by
  rw [ekbVerification, getEkb_copied h]
  simp

/-- The reads of the CMAC are among those of the call. -/
theorem verifyEkb_reads_all :
    (offsetofRandomIv, cmacInputSize) ∈ (verifyEkb cmac aes env ekbAk ekbEk).2.reads := by
  have hgrow : ∀ (n i : Nat) (s : EkbState) (p : Nat × Nat), p ∈ s.reads →
      p ∈ (keyLoop env aes ekbEk n i s).2.reads := by
    intro n
    induction n with
    | zero => exact fun _ _ _ hp => hp
    | succ n ih =>
        intro i s p hp
        rw [keyLoop]
        split
        · exact hp
        · exact ih _ _ _ (List.mem_append_left _ (List.mem_append_left _ hp))
  have hstart : (offsetofRandomIv, cmacInputSize) ∈
      ((env.start.note offsetofRandomIv cmacInputSize).note 0 aesBlockSize).reads := by
    simp [EkbState.note, EkbEnv.start]
  rw [verifyEkb]
  split
  · exact hstart
  split
  · exact hstart
  · exact hgrow _ _ _ _ hstart

theorem verifyEkb_reads : ∀ p ∈ (verifyEkb cmac aes env ekbAk ekbEk).2.reads,
    p.1 + p.2 ≤ offsetofEkbCiphertext + aesBlockSize * ekbUserKeysNum := by
  have hstart : ∀ p ∈ ((env.start.note offsetofRandomIv cmacInputSize).note 0 aesBlockSize).reads,
      p.1 + p.2 ≤ offsetofEkbCiphertext + aesBlockSize * ekbUserKeysNum := by
    simp [EkbState.note, EkbEnv.start, offsetofRandomIv, cmacInputSize, aesBlockSize,
      ekbUserKeysNum, offsetofEkbCiphertext]
  intro p hp
  rw [verifyEkb] at hp
  split at hp
  · exact hstart p hp
  split at hp
  · exact hstart p hp
  · rcases keyLoop_reads _ _ p hp with hmem | hle
    · exact hstart p hmem
    · rw [Nat.zero_add] at hle
      exact hle

/-- `verifyEkb` succeeds when every step does. -/
theorem verifyEkb_ok_iff :
    (verifyEkb cmac aes env ekbAk ekbEk).1 = noError ↔
      bytesAt env.mem 0 aesBlockSize = (ekbCmacVerify cmac env ekbAk).toList ∧
        env.setDecryptKey = none ∧ ∀ i, i < ekbUserKeysNum → env.mallocKey i = true := by
  rw [verifyEkb]
  split
  · rename_i htag
    exact ⟨fun h => (by cases h), fun h => absurd h.1 htag⟩
  rename_i htag
  split
  · rename_i e hset
    refine ⟨fun h => ?_, fun h => ?_⟩
    · have hneg := e.property
      have hzero : e.val = 0 := h
      omega
    · rw [hset] at h
      cases h.2.1
  · rename_i hset
    rw [keyLoop_ok_iff]
    simp [not_not.mp htag, hset]

theorem verifyEkb_keys (hok : (verifyEkb cmac aes env ekbAk ekbEk).1 = noError) (i : Nat)
    (k : Block)
    (hk : (aesCbcEncrypt aes ekbEk false (blockAt env.mem offsetofRandomIv)
      (blocksAt env.mem offsetofEkbCiphertext ekbUserKeysNum)).1[i]? = some k) :
    (verifyEkb cmac aes env ekbAk ekbEk).2.symKeys i = .key k := by
  rw [verifyEkb] at hok ⊢
  split at hok
  · cases hok
  rename_i htag
  rw [if_neg htag]
  split at hok
  · rename_i e hset
    have hneg := e.property
    have hzero : e.val = 0 := hok
    omega
  · have hkeys := keyLoop_keys _ hok i k hk
    rw [Nat.zero_add] at hkeys
    exact hkeys

/-- A failure leaves a key behind exactly when a key after the first fails. -/
theorem verifyEkb_cleared_iff (hcmac : env.cmacNew = true)
    (herr : (verifyEkb cmac aes env ekbAk ekbEk).1 ≠ noError) :
    (∀ idx, ekbGetKey (verifyEkb cmac aes env ekbAk ekbEk).2.symKeys idx = .null) ↔
      ¬LaterKeyFails cmac env ekbAk := by
  have hnull : ∀ symKeys : Nat → KeyPtr, (∀ i, symKeys i = .null) →
      ∀ idx, ekbGetKey symKeys idx = .null := by
    intro symKeys h idx
    rw [ekbGetKey, h]
    split
    · rfl
    · rfl
  rw [verifyEkb] at herr ⊢
  split
  · rename_i htag
    exact ⟨fun _ h => htag h.2.1, fun _ => hnull _ (fun _ => rfl)⟩
  rename_i htag
  rw [if_neg htag] at herr
  cases hset : env.setDecryptKey with
  | some e =>
      refine ⟨fun _ h => ?_, fun _ => hnull _ (fun _ => rfl)⟩
      rw [h.2.2.1] at hset
      cases hset
  | none =>
      simp only [hset] at herr ⊢
      have hfails : ∃ i, i < ekbUserKeysNum ∧ env.mallocKey i = false := by
        rw [Ne, keyLoop_ok_iff] at herr
        simpa using herr
      cases hfirst : env.mallocKey 0 with
      | false =>
          refine ⟨fun _ h => ?_, fun _ => hnull _ ?_⟩
          · have hm := h.2.2.2.1
            rw [hfirst] at hm
            cases hm
          · intro i
            have hfree : (keyLoop env aes ekbEk ekbUserKeysNum 0
                ((env.start.note offsetofRandomIv cmacInputSize).note 0 aesBlockSize)).2.symKeys =
                freeKeys 0 (fun _ => .null) := by
              rw [ekbUserKeysNum, keyLoop, hfirst]
              rfl
            rw [hfree]
            exact if_neg (fun h => Nat.not_lt_zero _ h.1)
      | true =>
          refine ⟨fun h => ?_, fun h => ?_⟩
          · have hfreed : (keyLoop env aes ekbEk ekbUserKeysNum 0
                ((env.start.note offsetofRandomIv cmacInputSize).note 0 aesBlockSize)).2.symKeys 0 =
                .freed := by
              rw [ekbUserKeysNum, keyLoop, hfirst] at herr ⊢
              refine keyLoop_error 1 (Nat.succ_pos 0) ?_ herr
              simp [decryptKey]
            have h0 := h 0
            rw [ekbGetKey, if_neg (by decide)] at h0
            exact absurd (hfreed.symm.trans h0) (by decide)
          · exact absurd ⟨hcmac, not_not.mp htag, hset, hfirst, hfails⟩ h

end

/-- `ekb_verification` does what it promises exactly for these blobs and
failures. -/
theorem ekbVerification_checked_iff (cmac : Block → List UInt8 → Block) (aes : Aes) (env : EkbEnv)
    (ekbAk ekbEk : Block) :
    EkbChecked cmac aes env ekbAk ekbEk (ekbVerification cmac aes env ekbAk ekbEk) ↔
      EkbSound cmac env ekbAk := by
  have hnull : ∀ idx, ekbGetKey env.start.symKeys idx = .null := by
    intro idx
    rw [ekbGetKey]
    split
    · rfl
    · rfl
  -- an error before anything is read keeps every promise
  have hearly : ∀ {rc : Int}, rc ≠ noError →
      EkbChecked cmac aes env ekbAk ekbEk (rc, env.start) := by
    intro rc hrc
    exact ⟨fun h => absurd h hrc, fun p hp => absurd hp (List.not_mem_nil), fun h => absurd h hrc,
      fun _ => hnull⟩
  by_cases hcopied : env.Copied
  · rw [ekbVerification_copied hcopied]
    split
    · rename_i hempty
      refine ⟨fun h => ?_, fun h => ?_⟩
      · have hsize := (h.authentic rfl).1
        rw [hempty] at hsize
        exact absurd hsize (by decide)
      · rcases h with hno | ⟨hsize, -⟩ | ⟨hpos, -⟩
        · exact absurd hcopied hno
        · rw [hempty] at hsize
          exact absurd hsize (by decide)
        · exact absurd hempty hpos
    rename_i hne
    split
    · rename_i hcmac
      have hfalse : env.cmacNew = false := by simpa using hcmac
      exact ⟨fun _ => .inr (.inr ⟨hne, hfalse⟩), fun _ => hearly (by decide)⟩
    rename_i hcmac
    have htrue : env.cmacNew = true := by simpa using hcmac
    constructor
    · intro h
      have hsize := h.inside _ verifyEkb_reads_all
      refine .inr (.inl ⟨hsize, ?_⟩)
      by_cases hok : (verifyEkb cmac aes env ekbAk ekbEk).1 = noError
      · rintro ⟨-, -, -, -, i, hi, hfail⟩
        have hall := (verifyEkb_ok_iff.mp hok).2.2 i hi
        rw [hfail] at hall
        cases hall
      · exact (verifyEkb_cleared_iff htrue hok).mp (h.cleared hok)
    · intro h
      rcases h with hno | ⟨hsize, hlater⟩ | ⟨-, hfalse⟩
      · exact absurd hcopied hno
      · refine ⟨fun hok => ⟨hsize, (verifyEkb_ok_iff.mp hok).1⟩, ?_, ?_, ?_⟩
        · intro p hp
          exact (verifyEkb_reads p hp).trans hsize
        · intro hok idx k hk
          have hidx : idx.toNat < ekbUserKeysNum := by
            have hlt := (List.getElem?_eq_some_iff.mp hk).1
            rwa [length_aesCbcEncrypt, length_blocksAt] at hlt
          rw [ekbGetKey, if_neg (Nat.not_le.mpr hidx)]
          exact verifyEkb_keys hok _ k hk
        · intro herr
          exact (verifyEkb_cleared_iff htrue herr).mpr hlater
      · rw [hfalse] at htrue
        cases htrue
  · rw [ekbVerification_not_copied hcopied]
    exact ⟨fun _ => .inl hcopied, fun _ => hearly (getEkb_not_copied hcopied)⟩

/-- A blob of 16 bytes, and everything else succeeds. -/
def shortEkb : EkbEnv where
  ioctl := noError
  ekb := List.replicate 16 0
  malloc := true
  munmap := 0
  heap := fun _ => 0
  cmacNew := true
  setDecryptKey := none
  mallocKey := fun _ => true

/-- The CMAC is computed over 48 bytes behind a blob of 16. -/
theorem shortEkb_read_beyond :
    ¬∀ (cmac : Block → List UInt8 → Block) (aes : Aes) (env : EkbEnv) (ekbAk ekbEk : Block),
      EkbChecked cmac aes env ekbAk ekbEk (ekbVerification cmac aes env ekbAk ekbEk) := by
  intro h
  have hchecked := h (fun k _ => k) (fun _ => Equiv.refl _) shortEkb (Vector.replicate 16 0)
    (Vector.replicate 16 0)
  have hcopied : shortEkb.Copied := ⟨rfl, by decide, rfl, rfl⟩
  rw [ekbVerification_copied hcopied, if_neg (by decide), if_neg (by decide)] at hchecked
  exact absurd (hchecked.inside _ verifyEkb_reads_all) (by decide)

end TX2SecureUart.Hwkey
