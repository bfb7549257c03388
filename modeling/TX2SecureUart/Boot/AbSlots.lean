/-
# `Boot.AbSlots` — the slot to boot from

The slot metadata is a count of slots and a table of two, which CRCs and the extension
follow.  The selection of the active slot walks as many slots as the count says; all other
functions stop at the table's end.  The bytes behind the table can read as slots, then.
-/
import TX2SecureUart.Lib.ByteStore
import TX2SecureUart.Lib.FirstBest
import TX2SecureUart.Lib.LeBytes
import TX2SecureUart.Storage.Crc32
import TX2SecureUart.Storage.Err

namespace TX2SecureUart.Boot

open ByteStore FirstBest Storage

namespace AbSlots

/-! ## The metadata -/

/-- `BOOT_CHAIN_MAGIC` -/
def bootChainMagic : UInt32 := 0x43424E00

def maxSlots : Nat := 2

/-- `SLOT_RETRY_COUNT_DEFAULT` -/
def slotRetryCountDefault : UInt8 := 7

/-- `SLOT_PRIORITY_DEFAULT` -/
def slotPriorityDefault : UInt8 := 15

/-- `BOOT_CHAIN_VERSION_ONE` -/
def bootChainVersionOne : UInt16 := 1

/-- `BOOT_CHAIN_VERSION_ROOTFS_AB` -/
def bootChainVersionRootfsAb : UInt16 := 4

/-- The bytes from the address of the metadata on: those of `struct slot_meta_data_v2`, and what
the memory behind them holds. -/
abbrev Smd := Nat → UInt8

/-- `sizeof(struct slot_meta_data)` -/
def smdLen : Nat := 22

/-- `sizeof(struct slot_meta_data_ext)` -/
def smdExtLen : Nat := 169

/-- `sizeof(struct slot_meta_data_v2)` -/
def smdV2Len : Nat := smdLen + smdExtLen

def u16At (m : Smd) (a : Nat) : UInt16 := UInt16.ofNat (leNat (slice m a 2))

def u32At (m : Smd) (a : Nat) : UInt32 := UInt32.ofNat (leNat (slice m a 4))

/-- `smd->magic` -/
def magic (m : Smd) : UInt32 := u32At m 0

/-- `smd->version` -/
def version (m : Smd) : UInt16 := u16At m 4

/-- `smd->num_slots` -/
def numSlots (m : Smd) : UInt16 := u16At m 6

/-- `smd->crc32` -/
def crc32 (m : Smd) : UInt32 := u32At m 18

/-- `smd_v2->smd_ext.crc32` -/
def extCrc32 (m : Smd) : UInt32 := u32At m 22

/-- `smd_v2->smd_ext.max_bl_retry_count` -/
def maxBlRetryCount (m : Smd) : UInt8 := m 46

/-- Where `smd->slot_info[slot]` is. -/
def slotInfoAt (slot : Nat) : Nat := 8 + 5 * slot

/-- `smd->slot_info[slot].priority` -/
def priority (m : Smd) (slot : Nat) : UInt8 := m (slotInfoAt slot)

/-- `smd->slot_info[slot].retry_count` -/
def retryCount (m : Smd) (slot : Nat) : UInt8 := m (slotInfoAt slot + 3)

/-- `BOOT_CHAIN_VERSION_GET` of `tegrabl_a_b_get_version` -/
def versionGet (m : Smd) : UInt16 := version m &&& 0xFF

/-! ## Loading -/

/-- What the partition of a copy answers, and what it holds. -/
structure SmdPartition where
  openErr : Option TegrablErr
  seekErr : Option TegrablErr
  readErr : Option TegrablErr
  data : Smd

/-- `smd_loadaddress` and `current_smd` -/
structure AbState where
  smd : Smd
  currentSmd : Nat

abbrev AbM := EStateM TegrablErr AbState

/-- `SMD_COPY_PRIMARY` -/
def smdCopyPrimary : Nat := 0

/-- `SMD_INVALID` -/
def smdInvalid : Nat := 2

def smdPart (binCopy : Nat) : String := if binCopy = smdCopyPrimary then "SMD" else "SMD_b"

/-- A call that fails, or does not. -/
def check (err : Option TegrablErr) : AbM Unit :=
  match err with
  | some e => throw e
  | none => pure ()

/-- `tegrabl_partition_read` into `smd_loadaddress` -/
def partitionRead (part : SmdPartition) : AbM Unit := do
  modify fun s => { s with smd := patch s.smd 0 (slice part.data 0 smdV2Len) }
  check part.readErr

/-- The check of the metadata in `load_smd_bin_copy`. -/
def smdErr (m : Smd) : Option TegrablErr :=
  if versionGet m == bootChainVersionOne then
    if magic m != bootChainMagic then some (tegrablError .abBootctrl .verifyFailed 0) else none
  else if tegrablUtilsCrc32 0 (slice m 0 (smdLen - 4)) != crc32 m then
    some (tegrablError .abBootctrl .verifyFailed 0)
  else none

/-- The check of the extension. -/
def smdExtErr (m : Smd) : Option TegrablErr :=
  if bootChainVersionRootfsAb ≤ versionGet m &&
      tegrablUtilsCrc32 0 (slice m (smdLen + 4) (smdExtLen - 4)) != extCrc32 m then
    some (tegrablError .abBootctrl .verifyFailed 0)
  else none

/-- `load_smd_bin_copy` -/
def loadSmdBinCopy (parts : String → SmdPartition) (binCopy : Nat) : AbM Unit := do
  modify fun s => { s with currentSmd := smdInvalid }
  setHighestModule .abBootctrl (check (parts (smdPart binCopy)).openErr)
  setHighestModule .abBootctrl (check (parts (smdPart binCopy)).seekErr)
  setHighestModule .abBootctrl (partitionRead (parts (smdPart binCopy)))
  let s ← get
  check (smdErr s.smd)
  check (smdExtErr s.smd)
  modify fun s => { s with currentSmd := binCopy }

/-! ## Selecting -/

/-- `max_priority` and `slot` after the first `n` slots.  `slot` is not set before
`max_priority` is. -/
def selectLoop (m : Smd) : Nat → UInt8 × Nat
  | 0 => (0, 0)
  | n + 1 =>
      if retryCount m n != 0 && priority m n != 0 && (selectLoop m n).1 < priority m n then
        (priority m n, n)
      else selectLoop m n

/-- `boot_chain_get_bootslot_from_smd` -/
def bootChainGetBootslotFromSmd (m : Smd) : Except TegrablErr Nat :=
  if magic m != bootChainMagic then .error (tegrablError .abBootctrl .invalid 0)
  else if (selectLoop m (numSlots m).toNat).1 == 0 then .error (tegrablError .abBootctrl .invalid 1)
  else .ok (selectLoop m (numSlots m).toNat).2

/-- `boot_chain_get_bootslot_from_reg`, with `tegrabl_a_b_is_valid`, without the default that is
stored beside the error. -/
def bootChainGetBootslotFromReg (reg : UInt32) : Except TegrablErr Nat :=
  if reg &&& 0xFFFF == 0xCAFE && (1 : UInt32) < (reg >>> 19) &&& 0x07 then .ok ((reg >>> 16) &&& 0x07).toNat
  else .error (tegrablError .abBootctrl .notFound 0)

/-- `tegrabl_a_b_get_active_slot`; `reg` is the scratch register, which stands in for a missing
buffer. -/
def getActiveSlot (reg : UInt32) (smd : Option Smd) : Except TegrablErr Nat :=
  match smd with
  | none => bootChainGetBootslotFromReg reg
  | some m => bootChainGetBootslotFromSmd m

/-! ## The other functions -/

/-- What every function of a slot begins with. -/
def checkSlot (slot : Nat) : Except TegrablErr Unit :=
  if maxSlots ≤ slot then .error (tegrablError .abBootctrl .invalid 0) else .ok ()

/-- `tegrabl_a_b_get_priority` -/
def getPriority (m : Smd) (slot : Nat) : Except TegrablErr UInt8 := do
  checkSlot slot
  return priority m slot

/-- `tegrabl_a_b_get_retry_count` -/
def getRetryCount (m : Smd) (slot : Nat) : Except TegrablErr UInt8 := do
  checkSlot slot
  return retryCount m slot

/-- `tegrabl_a_b_is_unbootable` -/
def isUnbootable (m : Smd) (slot : Nat) : Except TegrablErr Bool := do
  checkSlot slot
  let priority ← (getPriority m slot).mapError (·.setHighestModule .abBootctrl)
  let retryCount ← (getRetryCount m slot).mapError (·.setHighestModule .abBootctrl)
  return priority == 0 || retryCount == 0

/-- `tegrabl_a_b_set_priority` -/
def setPriority (m : Smd) (slot : Nat) (priority : UInt8) : Except TegrablErr Smd := do
  checkSlot slot
  return patch m (slotInfoAt slot) [priority]

/-- `tegrabl_a_b_set_retry_count` -/
def setRetryCount (m : Smd) (slot : Nat) (retryCount : UInt8) : Except TegrablErr Smd := do
  checkSlot slot
  return patch m (slotInfoAt slot + 3) [retryCount]

/-- `tegrabl_a_b_set_successful` -/
def setSuccessful (m : Smd) (slot : Nat) (successful : UInt8) : Except TegrablErr Smd := do
  checkSlot slot
  return patch m (slotInfoAt slot + 4) [successful]

/-- `max_bl_retry_count` before it is checked -/
def storedMaxRetryCount (m : Smd) : UInt8 :=
  if versionGet m < bootChainVersionRootfsAb then slotRetryCountDefault else maxBlRetryCount m

/-- `tegrabl_get_max_retry_count` -/
def getMaxRetryCount (m : Smd) : UInt8 :=
  if storedMaxRetryCount m == 0 || slotRetryCountDefault < storedMaxRetryCount m then
    slotRetryCountDefault
  else storedMaxRetryCount m

/-- One round of the loop of `tegrabl_a_b_set_active_slot`. -/
def decreasePriority (m : Smd) (slot : Nat) : Smd :=
  if 1 < priority m slot then patch m (slotInfoAt slot) [priority m slot - 1] else m

/-- `tegrabl_a_b_set_active_slot` -/
def setActiveSlot (m : Smd) (slot : Nat) : Except TegrablErr Smd := do
  checkSlot slot
  let m := (List.range maxSlots).foldl decreasePriority m
  let m ← (setPriority m slot slotPriorityDefault).mapError (·.setHighestModule .abBootctrl)
  let m ← (setRetryCount m slot (getMaxRetryCount m)).mapError (·.setHighestModule .abBootctrl)
  (setSuccessful m slot 0).mapError (·.setHighestModule .abBootctrl)

/-! ## What is selected -/

/-- The priority of a slot that has a try left, and `0` for one that has not. -/
def rank (m : Smd) (slot : Nat) : Nat :=
  if retryCount m slot = 0 then 0 else (priority m slot).toNat

variable {m m' : Smd} {slot n : Nat}

theorem selectLoop_eq (m : Smd) (n : Nat) :
    (selectLoop m n).1.toNat = (best (rank m) n).1 ∧ (selectLoop m n).2 = (best (rank m) n).2 := by
  induction n with
  | zero => exact ⟨rfl, rfl⟩
  | succ n ih =>
    have hcond : (retryCount m n != 0 && priority m n != 0 &&
        decide ((selectLoop m n).1 < priority m n)) = true ↔ (best (rank m) n).1 < rank m n := by
      rw [← ih.1, rank, Bool.and_eq_true, Bool.and_eq_true, bne_iff_ne, bne_iff_ne, decide_eq_true_eq,
        UInt8.lt_iff_toNat_lt]
      split
      · rename_i hretry
        exact ⟨fun h => absurd hretry h.1.1, fun h => absurd h (Nat.not_lt_zero _)⟩
      · rename_i hretry
        refine ⟨fun h => h.2, fun h => ⟨⟨hretry, ?_⟩, h⟩⟩
        intro hpriority
        rw [hpriority] at h
        exact absurd h (Nat.not_lt_zero _)
    rw [selectLoop, best]
    by_cases hlt : (best (rank m) n).1 < rank m n
    · rw [if_pos hlt, if_pos (hcond.mpr hlt)]
      refine ⟨?_, rfl⟩
      rw [rank] at hlt ⊢
      split
      · rename_i hretry
        rw [if_pos hretry] at hlt
        exact absurd hlt (Nat.not_lt_zero _)
      · rfl
    · rw [if_neg hlt, if_neg (fun h => hlt (hcond.mp h))]
      exact ih

/-- The selection finds the first slot of the highest priority, among as many as the count says. -/
theorem getActiveSlot_iff (reg : UInt32) : getActiveSlot reg (some m) = .ok slot ↔
    magic m = bootChainMagic ∧ IsFirstBest (rank m) (numSlots m).toNat slot := by
  obtain ⟨hmax, hslot⟩ := selectLoop_eq m (numSlots m).toNat
  have hzero : (selectLoop m (numSlots m).toNat).1 = 0 ↔ (best (rank m) (numSlots m).toNat).1 = 0 := by
    rw [← hmax]
    exact UInt8.toNat_inj.symm
  rw [isFirstBest_iff]
  show bootChainGetBootslotFromSmd m = .ok slot ↔ _
  rw [bootChainGetBootslotFromSmd]
  split
  · rename_i hmagic
    rw [bne_iff_ne] at hmagic
    constructor
    · intro h
      cases h
    · intro h
      exact absurd h.1 hmagic
  rename_i hmagic
  rw [bne_iff_ne, not_not] at hmagic
  split
  · rename_i hnone
    rw [beq_iff_eq, hzero] at hnone
    constructor
    · intro h
      cases h
    · intro h
      exact absurd hnone h.2.1
  · rename_i hsome
    rw [beq_iff_eq, hzero] at hsome
    rw [hslot]
    constructor
    · intro h
      cases h
      exact ⟨hmagic, hsome, rfl⟩
    · rintro ⟨-, -, rfl⟩
      rfl

theorem isUnbootable_false_iff : isUnbootable m slot = .ok false ↔ slot < maxSlots ∧ 0 < rank m slot := by
  by_cases hslot : maxSlots ≤ slot
  · rw [isUnbootable, checkSlot, if_pos hslot]
    constructor
    · intro h
      cases h
    · intro h
      exact absurd h.1 (Nat.not_lt.mpr hslot)
  · have hvalue : isUnbootable m slot = .ok (priority m slot == 0 || retryCount m slot == 0) := by
      simp only [isUnbootable, getPriority, getRetryCount, checkSlot, if_neg hslot]
      rfl
    have hrank : 0 < rank m slot ↔ retryCount m slot ≠ 0 ∧ priority m slot ≠ 0 := by
      rw [rank]
      split
      · simp [*]
      · simp only [*, Ne, not_false_eq_true, true_and]
        rw [Nat.pos_iff_ne_zero, ← UInt8.toNat_inj]
        rfl
    rw [hvalue, hrank]
    simp only [Except.ok.injEq, Bool.or_eq_false_iff, beq_eq_false_iff_ne]
    exact ⟨fun h => ⟨Nat.not_le.mp hslot, h.2, h.1⟩, fun h => ⟨h.2.2, h.2.1⟩⟩

/-! ## What activation leaves -/

theorem patch_byte (m : Smd) (a : Nat) (b : UInt8) (x : Nat) :
    patch m a [b] x = if x = a then b else m x := by
  split
  · rename_i hx
    subst hx
    have hlen : 0 < [b].length := Nat.zero_lt_one
    exact patch_add hlen
  · rename_i hx
    rcases Nat.lt_or_gt_of_ne hx with h | h
    · exact patch_of_lt h
    · exact patch_of_ge h

theorem decreasePriority_of_ne {a : Nat} (h : a ≠ slotInfoAt slot) : decreasePriority m slot a = m a := by
  rw [decreasePriority]
  split
  · rw [patch_byte, if_neg h]
  · rfl

theorem decreasePriority_le (h : (priority m slot).toNat ≤ 15) :
    (priority (decreasePriority m slot) slot).toNat ≤ 14 := by
  rw [decreasePriority]
  split
  · rename_i hlt
    rw [UInt8.lt_iff_toNat_lt] at hlt
    have hone : (1 : UInt8).toNat = 1 := rfl
    rw [priority, patch_byte, if_pos rfl, UInt8.toNat_sub_of_le _ _ (UInt8.le_iff_toNat_le.mpr (by omega))]
    omega
  · rename_i hge
    rw [UInt8.lt_iff_toNat_lt] at hge
    have hone : (1 : UInt8).toNat = 1 := rfl
    omega

/-- The metadata with all priorities decreased. -/
def decreased (m : Smd) : Smd := decreasePriority (decreasePriority m 0) 1

theorem decreased_le (hslot : slot < maxSlots) (h : (priority m slot).toNat ≤ 15) :
    (priority (decreased m) slot).toNat ≤ 14 := by
  have hcases : slot = 0 ∨ slot = 1 := by
    have : slot < 2 := hslot
    omega
  rcases hcases with rfl | rfl
  · rw [decreased, priority, decreasePriority_of_ne (by decide)]
    exact decreasePriority_le h
  · refine decreasePriority_le ?_
    rw [priority, decreasePriority_of_ne (by decide)]
    exact h

theorem getMaxRetryCount_ne (m : Smd) : getMaxRetryCount m ≠ 0 := by
  rw [getMaxRetryCount]
  split
  · decide
  · rename_i h
    intro h0
    rw [h0] at h
    exact h rfl

/-- What `tegrabl_a_b_set_active_slot` writes. -/
theorem setActiveSlot_ok_iff : setActiveSlot m slot = .ok m' ↔ slot < maxSlots ∧
    m' = patch (patch (patch (decreased m) (slotInfoAt slot) [slotPriorityDefault]) (slotInfoAt slot + 3)
      [getMaxRetryCount (patch (decreased m) (slotInfoAt slot) [slotPriorityDefault])])
      (slotInfoAt slot + 4) [0] := by
  by_cases hslot : maxSlots ≤ slot
  · simp only [setActiveSlot, checkSlot, if_pos hslot]
    constructor
    · intro h
      cases h
    · intro h
      exact absurd h.1 (Nat.not_lt.mpr hslot)
  · have hvalue : setActiveSlot m slot = .ok (patch (patch (patch (decreased m) (slotInfoAt slot)
        [slotPriorityDefault]) (slotInfoAt slot + 3)
        [getMaxRetryCount (patch (decreased m) (slotInfoAt slot) [slotPriorityDefault])])
        (slotInfoAt slot + 4) [0]) := by
      simp only [setActiveSlot, setPriority, setRetryCount, setSuccessful, checkSlot, if_neg hslot]
      rfl
    rw [hvalue, Except.ok.injEq]
    exact ⟨fun h => ⟨Nat.not_le.mp hslot, h.symm⟩, fun h => h.2.symm⟩

/-- Activation stays inside the table. -/
theorem setActiveSlot_outside (h : setActiveSlot m slot = .ok m') {a : Nat} (ha : a < 8 ∨ 18 ≤ a) :
    m' a = m a := by
  obtain ⟨hslot, rfl⟩ := setActiveSlot_ok_iff.mp h
  have hlt : slot < 2 := hslot
  rw [patch_byte, if_neg (by rw [slotInfoAt]; omega), patch_byte, if_neg (by rw [slotInfoAt]; omega),
    patch_byte, if_neg (by rw [slotInfoAt]; omega), decreased,
    decreasePriority_of_ne (by rw [slotInfoAt]; omega), decreasePriority_of_ne (by rw [slotInfoAt]; omega)]

/-- The slot has the highest rank of the table then. -/
theorem setActiveSlot_rank (h : setActiveSlot m slot = .ok m') : rank m' slot = 15 := by
  obtain ⟨hslot, rfl⟩ := setActiveSlot_ok_iff.mp h
  rw [rank, if_neg ?_]
  · rw [priority, patch_byte, if_neg (Nat.ne_of_lt (by omega)), patch_byte,
      if_neg (Nat.ne_of_lt (by omega)), patch_byte, if_pos rfl]
    rfl
  · rw [retryCount, patch_byte, if_neg (Nat.ne_of_lt (by omega)), patch_byte, if_pos rfl]
    exact getMaxRetryCount_ne _

theorem setActiveSlot_other (h : setActiveSlot m slot = .ok m') {i : Nat} (hi : i < maxSlots)
    (hne : i ≠ slot) (hle : (priority m i).toNat ≤ 15) : rank m' i ≤ 14 := by
  obtain ⟨hslot, rfl⟩ := setActiveSlot_ok_iff.mp h
  rw [rank]
  split
  · exact Nat.zero_le _
  · rw [priority, patch_byte, if_neg (by rw [slotInfoAt, slotInfoAt]; omega), patch_byte,
      if_neg (by rw [slotInfoAt, slotInfoAt]; omega), patch_byte,
      if_neg (by rw [slotInfoAt, slotInfoAt]; omega)]
    exact decreased_le hi hle

theorem setActiveSlot_header (h : setActiveSlot m slot = .ok m') :
    magic m' = magic m ∧ numSlots m' = numSlots m := by
  have hslice : ∀ {a len : Nat}, a + len ≤ 8 → slice m' a len = slice m a len := by
    intro a len hle
    refine slice_congr ?_
    intro i hi
    exact setActiveSlot_outside h (.inl (by omega))
  refine ⟨?_, ?_⟩
  · rw [magic, magic, u32At, u32At, hslice (by decide)]
  · rw [numSlots, numSlots, u16At, u16At, hslice (by decide)]

theorem setActiveSlot_behind (h : setActiveSlot m slot = .ok m') {i : Nat} (hi : maxSlots ≤ i) :
    rank m' i = rank m i := by
  have hge : 2 ≤ i := hi
  rw [rank, rank, retryCount, retryCount, priority, priority,
    setActiveSlot_outside h (.inr (by rw [slotInfoAt]; omega)),
    setActiveSlot_outside h (.inr (by rw [slotInfoAt]; omega))]

/-! ## The result -/

/-- The slots that the table has. -/
def tableSlots (m : Smd) : Nat := min (numSlots m).toNat maxSlots

/-- The active slot is a bootable one, of the highest priority in the table, and there is one where
a slot of the table is bootable. -/
structure SelectsBest (reg : UInt32) (m : Smd) : Prop where
  best : ∀ s, getActiveSlot reg (some m) = .ok s → s < maxSlots ∧ isUnbootable m s = .ok false ∧
    ∀ i < tableSlots m, isUnbootable m i = .ok false → priority m i ≤ priority m s
  found : (∃ s, getActiveSlot reg (some m) = .ok s) ↔ ∃ i < tableSlots m, isUnbootable m i = .ok false

/-- No priority is above the documented range. -/
def InRange (m : Smd) : Prop := ∀ i < maxSlots, (priority m i).toNat ≤ 15

/-- A slot that is made the active one is the active one. -/
def Activates (reg : UInt32) (m : Smd) : Prop :=
  2 ≤ (numSlots m).toNat → InRange m →
    ∀ s m', setActiveSlot m s = .ok m' → getActiveSlot reg (some m') = .ok s

/-- What the count reaches behind the table has no higher rank than the slots of the table. -/
def TableBest (m : Smd) : Prop :=
  ∀ i, maxSlots ≤ i → i < (numSlots m).toNat → rank m i ≤ max (rank m 0) (rank m 1)

theorem rank_le_priority (m : Smd) (i : Nat) : rank m i ≤ (priority m i).toNat := by
  rw [rank]
  split
  · exact Nat.zero_le _
  · exact Nat.le_refl _

theorem rank_eq_priority {i : Nat} (h : 0 < rank m i) : rank m i = (priority m i).toNat := by
  rw [rank] at h ⊢
  split
  · rename_i h0
    rw [if_pos h0] at h
    exact absurd h (Nat.lt_irrefl 0)
  · rfl

theorem tableSlots_iff {i : Nat} : (i < tableSlots m ∧ isUnbootable m i = .ok false) ↔
    i < maxSlots ∧ i < (numSlots m).toNat ∧ 0 < rank m i := by
  rw [isUnbootable_false_iff, tableSlots, Nat.lt_min]
  tauto

theorem TableBest.lt (h : TableBest m) {s : Nat} (hs : IsFirstBest (rank m) (numSlots m).toNat s) :
    s < maxSlots := by
  by_contra hge
  have hle : 2 ≤ s := Nat.not_lt.mp hge
  have h0 := hs.first 0 (by omega)
  have h1 := hs.first 1 (by omega)
  have := h s hle hs.lt
  omega

theorem TableBest.selectsBest (reg : UInt32) (hmagic : magic m = bootChainMagic) (h : TableBest m) :
    SelectsBest reg m where
  best := by
    intro s hs
    obtain ⟨-, hbest⟩ := (getActiveSlot_iff reg).mp hs
    have hlt := h.lt hbest
    refine ⟨hlt, isUnbootable_false_iff.mpr ⟨hlt, hbest.pos⟩, ?_⟩
    intro i hi hboot
    obtain ⟨-, hin, hpos⟩ := tableSlots_iff.mp ⟨hi, hboot⟩
    rw [UInt8.le_iff_toNat_le, ← rank_eq_priority hpos, ← rank_eq_priority hbest.pos]
    exact hbest.le i hin
  found := by
    constructor
    · rintro ⟨s, hs⟩
      obtain ⟨-, hbest⟩ := (getActiveSlot_iff reg).mp hs
      exact ⟨s, tableSlots_iff.mpr ⟨h.lt hbest, hbest.lt, hbest.pos⟩⟩
    · rintro ⟨i, hi⟩
      obtain ⟨-, hin, hpos⟩ := tableSlots_iff.mp hi
      obtain ⟨s, hs⟩ := exists_isFirstBest_iff.mpr ⟨i, hin, hpos⟩
      exact ⟨s, (getActiveSlot_iff reg).mpr ⟨hmagic, hs⟩⟩

theorem TableBest.activates (reg : UInt32) (hmagic : magic m = bootChainMagic) (h : TableBest m) :
    Activates reg m := by
  intro hcount hrange s m' hset
  obtain ⟨hmagic', hcount'⟩ := setActiveSlot_header hset
  have hlt := (setActiveSlot_ok_iff.mp hset).1
  have hrank := setActiveSlot_rank hset
  have hother : ∀ i < maxSlots, i ≠ s → rank m' i ≤ 14 := by
    intro i hi hne
    exact setActiveSlot_other hset hi hne (hrange i hi)
  refine (getActiveSlot_iff reg).mpr ⟨hmagic'.trans hmagic, ?_⟩
  rw [hcount']
  refine ⟨Nat.lt_of_lt_of_le hlt hcount, by omega, ?_, ?_⟩
  · intro i hi
    rw [hrank]
    by_cases htable : i < maxSlots
    · by_cases hne : i = s
      · subst hne
        exact Nat.le_of_eq hrank
      · exact Nat.le_trans (hother i htable hne) (by decide)
    · rw [setActiveSlot_behind hset (Nat.not_lt.mp htable)]
      have h0 := Nat.le_trans (rank_le_priority m 0) (hrange 0 (by decide))
      have h1 := Nat.le_trans (rank_le_priority m 1) (hrange 1 (by decide))
      have := h i (Nat.not_lt.mp htable) hi
      omega
  · intro i hi
    have := hother i (Nat.lt_trans hi hlt) (Nat.ne_of_lt hi)
    omega

variable (reg : UInt32) (m : Smd) in
/-- The selection is right, and activation takes effect, exactly where the magic is right and nothing
that the count reaches behind the table ranks higher than the table does; where the magic is wrong,
nothing of the table may be bootable and activation may not be promised anything. -/
theorem activeSlot_iff : SelectsBest reg m ∧ Activates reg m ↔
    (magic m = bootChainMagic ∧ TableBest m) ∨
    (magic m ≠ bootChainMagic ∧ (∀ i < tableSlots m, rank m i = 0) ∧
      ¬(2 ≤ (numSlots m).toNat ∧ InRange m)) := by
  constructor
  · rintro ⟨hselects, hactivates⟩
    by_cases hmagic : magic m = bootChainMagic
    · refine .inl ⟨hmagic, ?_⟩
      intro i hi hcount
      rcases Nat.eq_zero_or_pos (rank m i) with h0 | hpos
      · rw [h0]
        exact Nat.zero_le _
      · obtain ⟨s, hs⟩ := exists_isFirstBest_iff.mpr ⟨i, hcount, hpos⟩
        have hle := hs.le i hcount
        have hlt : s < 2 := (hselects.best s ((getActiveSlot_iff reg).mpr ⟨hmagic, hs⟩)).1
        have hcases : s = 0 ∨ s = 1 := by omega
        rcases hcases with rfl | rfl
        · exact le_max_of_le_left hle
        · exact le_max_of_le_right hle
    · refine .inr ⟨hmagic, ?_, ?_⟩
      · intro i hi
        by_contra hne
        obtain ⟨hin, htable⟩ := Nat.lt_min.mp hi
        obtain ⟨s, hs⟩ := hselects.found.mpr
          ⟨i, tableSlots_iff.mpr ⟨htable, hin, Nat.pos_of_ne_zero hne⟩⟩
        exact hmagic ((getActiveSlot_iff reg).mp hs).1
      · rintro ⟨hcount, hrange⟩
        obtain ⟨m', hset⟩ : ∃ m', setActiveSlot m 0 = .ok m' :=
          ⟨_, setActiveSlot_ok_iff.mpr ⟨by decide, rfl⟩⟩
        have hget := ((getActiveSlot_iff reg).mp (hactivates hcount hrange 0 m' hset)).1
        exact hmagic ((setActiveSlot_header hset).1.symm.trans hget)
  · rintro (⟨hmagic, hbest⟩ | ⟨hmagic, hnone, hpromise⟩)
    · exact ⟨hbest.selectsBest reg hmagic, hbest.activates reg hmagic⟩
    · have hnever : ∀ s, getActiveSlot reg (some m) ≠ .ok s := by
        intro s hs
        exact hmagic ((getActiveSlot_iff reg).mp hs).1
      refine ⟨⟨fun s hs => absurd hs (hnever s), ?_⟩, ?_⟩
      · constructor
        · rintro ⟨s, hs⟩
          exact absurd hs (hnever s)
        · rintro ⟨i, hi⟩
          have := hnone i hi.1
          have := (tableSlots_iff.mp hi).2.2
          omega
      · intro hcount hrange
        exact absurd ⟨hcount, hrange⟩ hpromise

/-! ## A count beyond the table -/

/-- What loads where every call succeeds. -/
theorem loadSmdBinCopy_ok {parts : String → SmdPartition} {binCopy : Nat} {st : AbState} {data : Smd}
    (hpart : parts (smdPart binCopy) = ⟨none, none, none, data⟩)
    (hsmd : smdErr (patch st.smd 0 (slice data 0 smdV2Len)) = none)
    (hext : smdExtErr (patch st.smd 0 (slice data 0 smdV2Len)) = none) :
    loadSmdBinCopy parts binCopy st = .ok () ⟨patch st.smd 0 (slice data 0 smdV2Len), binCopy⟩ := by
  simp only [loadSmdBinCopy, hpart]
  show EStateM.bind (check (smdErr (patch st.smd 0 (slice data 0 smdV2Len)))) _ _ = _
  rw [hsmd]
  show EStateM.bind (check (smdExtErr (patch st.smd 0 (slice data 0 smdV2Len)))) _ _ = _
  rw [hext]
  rfl

/-- Metadata of the first version for three slots: two good ones, and a CRC that reads as a third. -/
def threeSlots : Smd := fun a =>
  [0x00, 0x4E, 0x42, 0x43, 1, 0, 3, 0, 15, 0x5F, 0x61, 7, 1, 14, 0x5F, 0x62, 7, 1, 0xFF, 0, 0, 1].getD a 0

/-- It is accepted, and the place behind the table is the active slot. -/
theorem threeSlots_selectsBehind :
    ∃ st, loadSmdBinCopy (fun _ => ⟨none, none, none, threeSlots⟩) smdCopyPrimary ⟨fun _ => 0, smdInvalid⟩
        = .ok () st ∧
      getActiveSlot 0 (some st.smd) = .ok 2 ∧ ¬SelectsBest 0 st.smd := by
  have hmagic : magic (patch (fun _ => 0) 0 (slice threeSlots 0 smdV2Len)) = bootChainMagic := by
    decide +kernel
  have hbest : IsFirstBest (rank (patch (fun _ => 0) 0 (slice threeSlots 0 smdV2Len)))
      (numSlots (patch (fun _ => 0) 0 (slice threeSlots 0 smdV2Len))).toNat 2 := by
    rw [isFirstBest_iff]
    decide +kernel
  have hactive := (getActiveSlot_iff 0).mpr ⟨hmagic, hbest⟩
  exact ⟨_, loadSmdBinCopy_ok rfl (by decide +kernel) (by decide +kernel), hactive,
    fun h => absurd (h.best 2 hactive).1 (by decide)⟩

end AbSlots

end TX2SecureUart.Boot
