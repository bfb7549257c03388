/-
# `Platform.NsDram` — the list of non-secure DRAM ranges

`platform_register_ns_dram_ranges` maps the memory that the non-secure world
names and copies a table of ranges out of it, once;
`platform_validate_ns_phys_range` then answers from the copies.  The other side
may change the memory at any time, so every read finds a value of its own.

Each read is recorded with the request that it serves.  A read is inside when
its bytes belong to the memory that the request names and the mapping, whose
size is rounded up in 64 bits, reaches as far.
-/
import TX2SecureUart.Lib.Mask
import TX2SecureUart.Err

namespace TX2SecureUart.NsDram

open Mask

/-- `tos_ns_mem_map_entry_t` -/
structure Entry where
  base : UInt64
  size : UInt64
deriving DecidableEq

/-- A call of `platform_register_ns_dram_ranges` with what it meets. -/
structure Request where
  nsBase : UInt64
  nsSize : UInt64
  /-- the result of `vmm_alloc_physical` for a size other than 0 -/
  vmmAllocPhysical : Int
  magic : UInt32
  ver : UInt32
  /-- what the test of each pass reads -/
  num : Nat → UInt32
  entry : Nat → Entry
  /-- whether the allocation of each pass succeeds -/
  calloc : Nat → Bool

def tosNsMemMapMagicValue : UInt32 := 0xfeedbeef

def tosNsMemMapCurVersion : UInt32 := 1

def Request.offset (c : Request) : UInt64 := c.nsBase &&& 0xfff

def Request.alignedSize (c : Request) : UInt64 := roundUp (c.nsSize + c.offset) 4096

/-- The first `n` bytes are in the memory that the request names, and mapped. -/
def Request.Fits (c : Request) (n : Nat) : Prop :=
  n ≤ c.nsSize.toNat ∧ c.offset.toNat + n ≤ c.alignedSize.toNat

instance (c : Request) (n : Nat) : Decidable (c.Fits n) := instDecidableAnd

/-- A read of `len` bytes, `off` into the memory that `request` names. -/
structure Read where
  request : Request
  off : Nat
  len : Nat

def Read.Inside (r : Read) : Prop := r.request.Fits (r.off + r.len)

/-- `platform_ctx`, with the reads made so far -/
structure Ctx where
  nsDramRangeAvailable : Bool
  nsDramMapList : List Entry
  reads : List Read

def Ctx.init : Ctx := { nsDramRangeAvailable := false, nsDramMapList := [], reads := [] }

def Ctx.read (s : Ctx) (c : Request) (off len : Nat) : Ctx :=
  { s with reads := s.reads ++ [{ request := c, off := off, len := len }] }

/-- The loop from `map_index` on, with the two ways out of it.  `map_index`
stays below a 32-bit number. -/
def registerFrom (c : Request) (mapIndex : Nat) (s : Ctx) : Int × Ctx :=
  let s := s.read c 8 4
  if mapIndex < (c.num mapIndex).toNat then
    if c.calloc mapIndex then
      let s := s.read c (14 + 16 * mapIndex) 16
      registerFrom c (mapIndex + 1)
        { s with nsDramMapList := s.nsDramMapList ++ [c.entry mapIndex] }
    else
      (errNoMemory, { s with nsDramMapList := [] })
  else
    (noError, { s with nsDramRangeAvailable := true })
termination_by 2 ^ 32 - mapIndex
decreasing_by
  have := (c.num mapIndex).toNat_lt
  omega

/-- `vmm_alloc_physical` maps nothing, and succeeds, when the size is 0. -/
def Request.mapResult (c : Request) : Int :=
  if c.alignedSize == 0 then noError else c.vmmAllocPhysical

/-- `platform_register_ns_dram_ranges`.  The messages about a wrong value read
it again. -/
def platformRegisterNsDramRanges (c : Request) (s : Ctx) : Int × Ctx :=
  if s.nsDramRangeAvailable then (errAlreadyExists, s)
  else
    if c.mapResult != noError then (c.mapResult, s)
    else
      let s := s.read c 0 4
      if c.magic != tosNsMemMapMagicValue then (errInvalidArgs, s.read c 0 4)
      else
        let s := s.read c 4 4
        if c.ver != tosNsMemMapCurVersion then (errInvalidArgs, s.read c 4 4)
        else registerFrom c 0 s

def platformValidateRange (boundBase boundSize testBase testSize : UInt64) : Bool :=
  boundBase ≤ testBase && boundSize ≥ testSize && boundSize - testSize ≥ testBase - boundBase

/-- `platform_validate_ns_phys_range`; `hyp` is `trusty_hyp_is_ctx_available` -/
def platformValidateNsPhysRange (hyp : Bool) (nsAddr nsSize : UInt64) (s : Ctx) : Int :=
  if hyp then noError
  else if !s.nsDramRangeAvailable then errNotConfigured
  else if s.nsDramMapList.any (fun e => platformValidateRange e.base e.size nsAddr nsSize) then
    noError
  else errNotValid

/-! ## The test of a range -/

/-- The interval from `addr` on, of `size` bytes, begins and ends in the range. -/
def Entry.Contains (e : Entry) (addr size : UInt64) : Prop :=
  e.base.toNat ≤ addr.toNat ∧ addr.toNat + size.toNat ≤ e.base.toNat + e.size.toNat

/-- For an interval that is not empty this is inclusion. -/
theorem contains_iff_subset {e : Entry} {addr size : UInt64} (h : 0 < size.toNat) :
    e.Contains addr size ↔ Set.Ico addr.toNat (addr.toNat + size.toNat) ⊆
      Set.Ico e.base.toNat (e.base.toNat + e.size.toNat) := by
  rw [Set.Ico_subset_Ico_iff (by omega), Entry.Contains]

/-- The subtractions are exact where they are reached. -/
theorem platformValidateRange_iff {e : Entry} {addr size : UInt64} :
    platformValidateRange e.base e.size addr size = true ↔ e.Contains addr size := by
  rw [platformValidateRange, Entry.Contains]
  simp only [Bool.and_eq_true, decide_eq_true_eq, UInt64.le_iff_toNat_le, ge_iff_le]
  constructor
  · rintro ⟨⟨hbase, hsize⟩, hsub⟩
    rw [UInt64.toNat_sub_of_le _ _ (UInt64.le_iff_toNat_le.mpr hbase),
      UInt64.toNat_sub_of_le _ _ (UInt64.le_iff_toNat_le.mpr hsize)] at hsub
    omega
  · rintro ⟨hbase, hend⟩
    have hsize : size.toNat ≤ e.size.toNat := by omega
    refine ⟨⟨hbase, hsize⟩, ?_⟩
    rw [UInt64.toNat_sub_of_le _ _ (UInt64.le_iff_toNat_le.mpr hbase),
      UInt64.toNat_sub_of_le _ _ (UInt64.le_iff_toNat_le.mpr hsize)]
    omega

theorem validate_iff {nsAddr nsSize : UInt64} {s : Ctx} (h : s.nsDramRangeAvailable = true) :
    platformValidateNsPhysRange false nsAddr nsSize s = noError ↔
      ∃ e ∈ s.nsDramMapList, e.Contains nsAddr nsSize := by
  have hany : (s.nsDramMapList.any fun e =>
      platformValidateRange e.base e.size nsAddr nsSize) = true ↔
      ∃ e ∈ s.nsDramMapList, e.Contains nsAddr nsSize := by
    simp only [List.any_eq_true, platformValidateRange_iff]
  rw [platformValidateNsPhysRange, h, ← hany]
  split
  · rename_i hf
    cases hf
  · split
    · rename_i hf
      cases hf
    · split <;> rename_i hfound
      · simp [hfound]
      · simp [hfound]

/-! ## The loop -/

/-- Pass `i` registers an entry. -/
def Request.Goes (c : Request) (i : Nat) : Prop := i < (c.num i).toNat ∧ c.calloc i = true

/-- The loop registers the entries from `i` on up to `n` and ends there. -/
structure Request.Listing (c : Request) (i n : Nat) : Prop where
  le : i ≤ n
  goes : ∀ j, i ≤ j → j < n → c.Goes j
  ends : (c.num n).toNat ≤ n

theorem registerFrom_list (c : Request) (i : Nat) (s : Ctx) :
    ((registerFrom c i s).1 = noError ∧ (registerFrom c i s).2.nsDramRangeAvailable = true ∧
      ∃ n, c.Listing i n ∧ (registerFrom c i s).2.nsDramMapList =
        s.nsDramMapList ++ (List.range' i (n - i)).map c.entry) ∨
    ((registerFrom c i s).1 = errNoMemory ∧
      (registerFrom c i s).2.nsDramRangeAvailable = s.nsDramRangeAvailable ∧
      (registerFrom c i s).2.nsDramMapList = []) := by
  induction i, s using registerFrom.induct (c := c) with
  | case1 i s s₁ hnum hcalloc s₂ ih =>
      rw [registerFrom]
      simp only [hnum, hcalloc, if_true]
      rcases ih with ⟨hret, havail, n, hn, hlist⟩ | hfail
      · have hle := hn.le
        refine .inl ⟨hret, havail, n, ⟨by omega, ?_, hn.ends⟩, ?_⟩
        · intro j hij hjn
          rcases Nat.eq_or_lt_of_le hij with rfl | hlt
          · exact ⟨hnum, hcalloc⟩
          · exact hn.goes j hlt hjn
        · have hsub : n - i = (n - (i + 1)) + 1 := by omega
          refine hlist.trans ?_
          show s.nsDramMapList ++ [c.entry i] ++ _ = _
          rw [hsub, List.range'_succ, List.append_assoc]
          rfl
      · exact .inr hfail
  | case2 i s hnum hcalloc =>
      rw [registerFrom]
      simp [hnum, hcalloc, Ctx.read]
  | case3 i s hnum =>
      rw [registerFrom]
      refine .inl ?_
      simp only [hnum, if_false, true_and]
      exact ⟨i, ⟨Nat.le_refl i, fun j hij hji => absurd hji (by omega), by omega⟩,
        by simp [Ctx.read]⟩

/-- Whether all reads are inside. -/
def Ctx.Safe (s : Ctx) : Prop := ∀ r ∈ s.reads, r.Inside

theorem safe_read (s : Ctx) (c : Request) (off len : Nat) :
    (s.read c off len).Safe ↔ s.Safe ∧ c.Fits (off + len) := by
  simp [Ctx.Safe, Ctx.read, or_imp, forall_and, Read.Inside]

theorem Request.Fits.mono {c : Request} {m n : Nat} (h : c.Fits n) (hmn : m ≤ n) : c.Fits m := by
  obtain ⟨hsize, hmap⟩ := h
  exact ⟨by omega, by omega⟩

/-- The loop's reads are inside exactly when the header is and so is every entry
that is registered. -/
theorem registerFrom_safe (c : Request) (i : Nat) (s : Ctx) :
    (registerFrom c i s).2.Safe ↔ s.Safe ∧ c.Fits 12 ∧
      ∀ n, i ≤ n → (∀ j, i ≤ j → j ≤ n → c.Goes j) → c.Fits (14 + 16 * (n + 1)) := by
  induction i, s using registerFrom.induct (c := c) with
  | case1 i s s₁ hnum hcalloc s₂ ih =>
      rw [registerFrom]
      simp only [hnum, hcalloc, if_true]
      have hsafe : ∀ l, Ctx.Safe { s.read c 8 4 |>.read c (14 + 16 * i) 16 with
          nsDramMapList := l } ↔ s.Safe ∧ c.Fits 12 ∧ c.Fits (14 + 16 * (i + 1)) := by
        intro l
        have hhead := safe_read s c 8 4
        have hentry := safe_read (s.read c 8 4) c (14 + 16 * i) 16
        rw [hhead, and_assoc] at hentry
        exact hentry
      refine ih.trans ?_
      rw [hsafe]
      constructor
      · rintro ⟨⟨hs, hhead, hfirst⟩, -, hrest⟩
        refine ⟨hs, hhead, fun n hin hgoes => ?_⟩
        rcases Nat.eq_or_lt_of_le hin with rfl | hlt
        · exact hfirst
        · exact hrest n hlt (fun j hij hjn => hgoes j (by omega) hjn)
      · rintro ⟨hs, hhead, hall⟩
        have hgo : c.Goes i := ⟨hnum, hcalloc⟩
        refine ⟨⟨hs, hhead, hall i (Nat.le_refl i) ?_⟩, hhead, fun n hin hgoes => ?_⟩
        · intro j hij hji
          obtain rfl := Nat.le_antisymm hij hji
          exact hgo
        · refine hall n (by omega) (fun j hij hjn => ?_)
          rcases Nat.eq_or_lt_of_le hij with rfl | hlt
          · exact hgo
          · exact hgoes j hlt hjn
  | case2 i s hnum hcalloc =>
      rw [registerFrom]
      simp only [hnum, hcalloc, if_true]
      have h := safe_read s c 8 4
      refine h.trans (and_congr_right fun _ => ⟨fun hfit => ⟨hfit, ?_⟩, fun hfit => hfit.1⟩)
      intro n hin hgoes
      exact absurd (hgoes i (Nat.le_refl i) hin).2 hcalloc
  | case3 i s hnum =>
      rw [registerFrom]
      simp only [hnum, if_false]
      have h := safe_read s c 8 4
      refine h.trans (and_congr_right fun _ => ⟨fun hfit => ⟨hfit, ?_⟩, fun hfit => hfit.1⟩)
      intro n hin hgoes
      exact absurd (hgoes i (Nat.le_refl i) hin).1 hnum

/-! ## One call -/

/-- The memory that the request names reaches as far as what is read there. -/
def Request.Covered (c : Request) : Prop :=
  c.mapResult = noError →
    c.Fits 4 ∧ (c.magic = tosNsMemMapMagicValue →
      c.Fits 8 ∧ (c.ver = tosNsMemMapCurVersion →
        c.Fits 12 ∧ ∀ n, (∀ j ≤ n, c.Goes j) → c.Fits (14 + 16 * (n + 1))))

/-- Registering is all or nothing, and done once. -/
structure AllOrNone (c : Request) (s : Ctx) (r : Int × Ctx) : Prop where
  frozen : s.nsDramRangeAvailable = true →
    r.1 = errAlreadyExists ∧ r.2.nsDramRangeAvailable = true ∧ r.2.nsDramMapList = s.nsDramMapList
  done : s.nsDramRangeAvailable = false →
    (r.1 = noError ∧ r.2.nsDramRangeAvailable = true ∧
      ∃ n, c.Listing 0 n ∧ r.2.nsDramMapList = (List.range n).map c.entry) ∨
    (r.1 ≠ noError ∧ r.2.nsDramRangeAvailable = false ∧ r.2.nsDramMapList = [])

theorem register_allOrNone (c : Request) {s : Ctx}
    (h : s.nsDramRangeAvailable = false → s.nsDramMapList = []) :
    AllOrNone c s (platformRegisterNsDramRanges c s) := by
  rw [platformRegisterNsDramRanges]
  cases havail : s.nsDramRangeAvailable with
  | true => exact ⟨fun _ => ⟨rfl, havail, rfl⟩, fun hf => absurd (havail ▸ hf) (by decide)⟩
  | false =>
      have hnil := h havail
      refine ⟨fun hf => absurd (havail ▸ hf) (by decide), fun _ => ?_⟩
      simp only [Bool.false_eq_true, if_false]
      split
      · rename_i hret
        exact .inr ⟨by simpa using hret, havail, hnil⟩
      split
      · exact .inr ⟨show errInvalidArgs ≠ noError by decide, havail, hnil⟩
      split
      · exact .inr ⟨show errInvalidArgs ≠ noError by decide, havail, hnil⟩
      rcases registerFrom_list c 0 ((s.read c 0 4).read c 4 4) with
        ⟨hret, hdone, n, hn, hlist⟩ | ⟨hret, hdone, hlist⟩
      · refine .inl ⟨hret, hdone, n, hn, hlist.trans ?_⟩
        rw [List.range_eq_range']
        show s.nsDramMapList ++ _ = _
        rw [hnil, List.nil_append, Nat.sub_zero]
      · exact .inr ⟨by rw [hret]; decide, hdone.trans havail, hlist⟩

theorem register_safe (c : Request) {s : Ctx} (h : s.nsDramRangeAvailable = false) :
    (platformRegisterNsDramRanges c s).2.Safe ↔ s.Safe ∧ c.Covered := by
  rw [platformRegisterNsDramRanges, h, Request.Covered]
  simp only [Bool.false_eq_true, if_false]
  split
  · rename_i hret
    have hnot : c.mapResult ≠ noError := by simpa using hret
    exact ⟨fun hs => ⟨hs, fun hmap => absurd hmap hnot⟩, fun hs => hs.1⟩
  rename_i hret
  have hmapped : c.mapResult = noError := by simpa using hret
  have hread := safe_read s c 0 4
  simp only [hmapped, forall_const]
  split
  · rename_i hmagic
    have hmagic : c.magic ≠ tosNsMemMapMagicValue := by simpa using hmagic
    rw [safe_read, hread]
    simp [hmagic]
  rename_i hmagic
  have hmagic : c.magic = tosNsMemMapMagicValue := by simpa using hmagic
  have hread' := safe_read (s.read c 0 4) c 4 4
  split
  · rename_i hver
    have hver : c.ver ≠ tosNsMemMapCurVersion := by simpa using hver
    rw [safe_read, hread', hread]
    simp [hmagic, hver, and_assoc]
  rename_i hver
  have hver : c.ver = tosNsMemMapCurVersion := by simpa using hver
  rw [registerFrom_safe, hread', hread]
  simp [hmagic, hver, and_assoc]

/-! ## Runs -/

inductive Call where
  | register (request : Request)
  | validate (hyp : Bool) (nsAddr nsSize : UInt64)

def Call.run : Call → Ctx → Int × Ctx
  | .register c, s => platformRegisterNsDramRanges c s
  | .validate hyp nsAddr nsSize, s => (platformValidateNsPhysRange hyp nsAddr nsSize s, s)

/-- The state after a run of calls. -/
def after (s : Ctx) : List Call → Ctx
  | [] => s
  | call :: calls => after (call.run s).2 calls

/-- What is promised of one call. -/
def Call.Meets (s : Ctx) : Call → Prop
  | .register c => AllOrNone c s ((Call.register c).run s)
  | .validate hyp nsAddr nsSize =>
      hyp = false → s.nsDramRangeAvailable = true →
        (((Call.validate hyp nsAddr nsSize).run s).1 = noError ↔
          ∃ e ∈ s.nsDramMapList, e.Contains nsAddr nsSize)

/-- Every read of the run is inside, every call keeps its promise, and the list
stays what it was after the first success. -/
structure Sound (s : Ctx) (calls : List Call) : Prop where
  safe : (after s calls).Safe
  meets : ∀ pre call post, calls = pre ++ call :: post → call.Meets (after s pre)
  frozen : ∀ pre post, calls = pre ++ post → (after s pre).nsDramRangeAvailable = true →
    (after s calls).nsDramMapList = (after s pre).nsDramMapList

/-- Each request that is looked at is covered. -/
def AllCovered (s : Ctx) (calls : List Call) : Prop :=
  ∀ pre c post, calls = pre ++ Call.register c :: post →
    (after s pre).nsDramRangeAvailable = false → c.Covered

theorem after_append (s : Ctx) (pre post : List Call) :
    after s (pre ++ post) = after (after s pre) post := by
  induction pre generalizing s with
  | nil => rfl
  | cons call pre ih => exact ih _

/-- Before the first success the list is empty. -/
def Ctx.Empty (s : Ctx) : Prop := s.nsDramRangeAvailable = false → s.nsDramMapList = []

theorem run_empty {s : Ctx} (call : Call) (h : s.Empty) : (call.run s).2.Empty := by
  cases call with
  | validate hyp nsAddr nsSize => exact h
  | register c =>
      intro hnot
      have hall := register_allOrNone c h
      cases havail : s.nsDramRangeAvailable with
      | true => exact absurd ((hall.frozen havail).2.1.symm.trans hnot) (by decide)
      | false =>
          rcases hall.done havail with ⟨-, hdone, -⟩ | ⟨-, -, hnil⟩
          · exact absurd (hdone.symm.trans hnot) (by decide)
          · exact hnil

theorem after_empty {s : Ctx} (calls : List Call) (h : s.Empty) : (after s calls).Empty := by
  induction calls generalizing s with
  | nil => exact h
  | cons call calls ih => exact ih (run_empty call h)

theorem run_meets {s : Ctx} (call : Call) (h : s.Empty) : call.Meets s := by
  cases call with
  | register c => exact register_allOrNone c h
  | validate hyp nsAddr nsSize =>
      intro hhyp havail
      subst hhyp
      exact validate_iff havail

theorem run_frozen {s : Ctx} (call : Call) (h : s.nsDramRangeAvailable = true) :
    (call.run s).2.nsDramRangeAvailable = true ∧
      (call.run s).2.nsDramMapList = s.nsDramMapList := by
  cases call with
  | validate hyp nsAddr nsSize => exact ⟨h, rfl⟩
  | register c =>
      rw [Call.run, platformRegisterNsDramRanges, if_pos h]
      exact ⟨h, rfl⟩

theorem after_frozen {s : Ctx} (calls : List Call) (h : s.nsDramRangeAvailable = true) :
    (after s calls).nsDramMapList = s.nsDramMapList := by
  induction calls generalizing s with
  | nil => rfl
  | cons call calls ih =>
      obtain ⟨havail, hlist⟩ := run_frozen call h
      exact (ih havail).trans hlist

theorem allCovered_cons {s : Ctx} {call : Call} {calls : List Call} :
    AllCovered s (call :: calls) ↔
      (∀ c, call = .register c → s.nsDramRangeAvailable = false → c.Covered) ∧
      AllCovered (call.run s).2 calls := by
  constructor
  · intro h
    refine ⟨fun c hc => ?_, fun pre c post hsplit => ?_⟩
    · exact h [] c calls (by rw [hc]; rfl)
    · exact h (call :: pre) c post (by rw [hsplit]; rfl)
  · rintro ⟨hfirst, hrest⟩ pre c post hsplit
    cases pre with
    | nil =>
        rw [List.nil_append, List.cons.injEq] at hsplit
        exact hfirst c hsplit.1
    | cons call' pre =>
        rw [List.cons_append, List.cons.injEq] at hsplit
        obtain ⟨rfl, hsplit⟩ := hsplit
        exact hrest pre c post hsplit

theorem run_safe {s : Ctx} (call : Call) :
    (call.run s).2.Safe ↔
      s.Safe ∧ ∀ c, call = .register c → s.nsDramRangeAvailable = false → c.Covered := by
  cases call with
  | validate hyp nsAddr nsSize => exact ⟨fun h => ⟨h, fun c hc => by cases hc⟩, fun h => h.1⟩
  | register c =>
      cases havail : s.nsDramRangeAvailable with
      | true =>
          rw [Call.run, platformRegisterNsDramRanges, if_pos havail]
          exact ⟨fun h => ⟨h, fun c' _ hf => absurd hf (by decide)⟩, fun h => h.1⟩
      | false =>
          rw [Call.run, register_safe c havail]
          refine and_congr_right fun _ => ⟨fun h c' hc' _ => ?_, fun h => h c rfl rfl⟩
          cases hc'
          exact h

theorem after_safe (s : Ctx) (calls : List Call) :
    (after s calls).Safe ↔ s.Safe ∧ AllCovered s calls := by
  induction calls generalizing s with
  | nil =>
      refine ⟨fun h => ⟨h, fun pre c post hsplit => ?_⟩, fun h => h.1⟩
      simp at hsplit
  | cons call calls ih => rw [after, ih, run_safe, allCovered_cons, and_assoc]

/-- A run of calls reads only what the non-secure world names, registers all or
nothing, never changes the list again and answers by containment, exactly when
each request that is looked at is covered. -/
theorem sound_iff (calls : List Call) : Sound .init calls ↔ AllCovered .init calls := by
  have hempty : Ctx.init.Empty := fun _ => rfl
  have hsafe := after_safe .init calls
  constructor
  · intro h
    exact (hsafe.mp h.safe).2
  · intro h
    have hinit : Ctx.init.Safe := by simp [Ctx.Safe, Ctx.init]
    refine ⟨hsafe.mpr ⟨hinit, h⟩, fun pre call post _ => ?_, fun pre post hsplit havail => ?_⟩
    · exact run_meets call (after_empty pre hempty)
    · rw [hsplit, after_append]
      exact after_frozen post havail

/-- A header alone, which announces one entry. -/
def headerOnly : Request where
  nsBase := 0x80000000
  nsSize := 14
  vmmAllocPhysical := noError
  magic := tosNsMemMapMagicValue
  ver := tosNsMemMapCurVersion
  num := fun _ => 1
  entry := fun _ => { base := 0x80000000, size := 0x1000 }
  calloc := fun _ => true

/-- The entry is read from behind the end of the memory that was named. -/
theorem headerOnly_unsafe :
    { request := headerOnly, off := 14, len := 16 : Read } ∈
        (after .init [.register headerOnly]).reads ∧
      ¬ { request := headerOnly, off := 14, len := 16 : Read }.Inside ∧
      ¬ Sound .init [.register headerOnly] := by
  have hmem : { request := headerOnly, off := 14, len := 16 : Read } ∈
      (after .init [.register headerOnly]).reads := by
    simp [after, Call.run, platformRegisterNsDramRanges, Ctx.init, registerFrom, headerOnly,
      Ctx.read, Request.mapResult, tosNsMemMapMagicValue, tosNsMemMapCurVersion]
  have hout : ¬ { request := headerOnly, off := 14, len := 16 : Read }.Inside := by
    intro h
    exact absurd h.1 (by decide)
  exact ⟨hmem, hout, fun h => hout (h.safe _ hmem)⟩

end TX2SecureUart.NsDram
