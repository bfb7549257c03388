/-
# `AddrSpace.Mmio` — what a request maps

`trusty_app_setup_mmio` maps a region that the manifest declares, contiguously and up to the
size that is asked for.  The physical address of a page is in its entry.
-/
import TX2SecureUart.AddrSpace.Manifest
import TX2SecureUart.AddrSpace.Undo

namespace TX2SecureUart.AddrSpace

open Mask UserSpace

/-! ## A contiguous mapping -/

/-- The physical address in a leaf entry: bits 47 to 12. -/
def pteAddr (pte : UInt64) : UInt64 := pte &&& 0xFFFFFFFFF000

/-- An entry of a mapping that starts at the physical address `paddr`. -/
structure Maps (paddr : Paddr) (size : UInt64) (attrs : UInt64) (v : Vaddr) (p : Nat) (pte : UInt64) :
    Prop where
  aligned : unaligned v paddr size = false
  inside : pageIn v size p = true
  entry : pte = leafEntry v paddr attrs p

theorem arm64MmuMap_changes {t t' : PageTable} {ptAlloc : Bool} {v : Vaddr} {paddr : Paddr}
    {size attrs : UInt64} {e : Int} (h : arm64MmuMap t ptAlloc v paddr size attrs = (e, t')) {p : Nat}
    (hp : t' p ≠ t p) : ∃ pte, t' p = some pte ∧ Maps paddr size attrs v p pte := by
  rw [arm64MmuMap] at h
  split at h
  · cases h
    exact absurd rfl hp
  split at h
  · cases h
    exact absurd rfl hp
  next halign =>
  split at h
  · cases h
    exact absurd rfl hp
  · cases h
    by_cases hin : pageIn v size p = true
    · refine ⟨leafEntry v paddr attrs p, ?_, Bool.eq_false_of_not_eq_true halign, hin, rfl⟩
      exact if_pos hin
    · exact absurd (if_neg hin) hp

/-- A contiguous record has one entry, or none. -/
theorem archUthreadMap_contig {t t' : PageTable} {al : Nat → Bool} {mp : UthreadMap} {e : Int}
    (hcontig : hasFlag mp.flags utmPhysContig = true) (h : archUthreadMap t al mp = some (e, t'))
    {p : Nat} (hp : t' p ≠ t p) :
    ∃ pte, t' p = some pte ∧ Maps (mp.pfnList.getD 0 0) mp.size (mapAttr mp.flags) mp.vaddr p pte := by
  have hsize : entrySizeOf mp = mp.size := if_pos hcontig
  have hcount : (mp.size / mp.size).toNat = 0 ∨ (mp.size / mp.size).toNat = 1 := by
    rw [UInt64.toNat_div]
    rcases Nat.eq_zero_or_pos mp.size.toNat with h0 | hpos
    · exact .inl (by rw [h0])
    · exact .inr (Nat.div_self hpos)
  have hzero : mp.vaddr + UInt64.ofNat 0 * mp.size = mp.vaddr := by simp
  by_cases he : e = noError
  · subst he
    rw [archUthreadMap, hsize] at h
    split at h
    · cases h
    rcases hcount with hnone | hone
    · rw [hnone] at h
      cases h
      exact absurd rfl hp
    · rw [hone] at h
      cases hm : arm64MmuMap t (al 0) (entryAddr mp mp.size 0) (mp.pfnList.getD 0 0) mp.size
          (mapAttr mp.flags) with
      | mk err s =>
        simp only [mapEntries, hm] at h
        rw [entryAddr, hzero] at hm
        by_cases herr : err ≠ noError
        · simp only [if_pos herr] at h
          exact absurd (Prod.mk.inj (Option.some.inj h)).1 herr
        · simp only [if_neg herr] at h
          cases h
          exact arm64MmuMap_changes hm hp
  · rw [archUthreadMap_err h he] at hp
    exact absurd rfl hp

/-- A contiguous mapping changes pages of its range only, and each to its place behind `paddr`. -/
theorem uthreadMap_contig {ut ut' : Uthread} {env : Env} {va v : Vaddr} {paddr : Paddr} {size : UInt64}
    {flags align : UInt32} {e : Int} (hcontig : hasFlag flags utmPhysContig = true)
    (h : uthreadMap ut env va [paddr] size flags align = some (e, v, ut')) {p : Nat}
    (hp : ut'.pageTable p ≠ ut.pageTable p) :
    ∃ pte start, ut'.pageTable p = some pte ∧ Maps paddr size (mapAttr flags) start p pte := by
  rcases uthreadMap_cases h with ⟨-, rfl⟩ | ⟨ut₁, mp, t, halloc, harch, rfl⟩
  · exact absurd rfl hp
  · have hnew : ∃ va, mp = newMap va [paddr] size flags align := by
      rw [mapRecord] at halloc
      split at halloc
      · cases halloc
      split at halloc
      · cases halloc
      · exact ⟨_, (uthreadMapAlloc_ok halloc).2.1⟩
    obtain ⟨va', rfl⟩ := hnew
    obtain ⟨pte, hpte, hmaps⟩ := archUthreadMap_contig hcontig harch hp
    have hpfn : (newMap va' [paddr] size flags align).pfnList.getD 0 0 = paddr := by
      rw [newMap, allocPages, if_pos hcontig]
      rfl
    rw [hpfn] at hmaps
    exact ⟨pte, va', hpte, hmaps⟩

/-! ## Where a page lies -/

theorem pteAddr_toNat {x attrs : UInt64} (hx : x.toNat < 2 ^ 48) (halign : x.toNat % 4096 = 0)
    (hattrs : attrs &&& 0xFFFFFFFFF000 = 0) : (pteAddr (x ||| attrs)).toNat = x.toNat := by
  have hmask : (0xFFFFFFFFF000 : UInt64) = (2 ^ 48 - 1) &&& ~~~(4096 - 1) := by decide
  have hlow : x &&& (2 ^ 48 - 1) = x := by
    apply UInt64.toNat_inj.mp
    rw [UInt64.toNat_and, show (2 ^ 48 - 1 : UInt64).toNat = 2 ^ 48 - 1 by decide,
      Nat.and_two_pow_sub_one_eq_mod, Nat.mod_eq_of_lt hx]
  have hround : x &&& ~~~(4096 - 1) = x := by
    apply UInt64.toNat_inj.mp
    have := roundDown_toNat (b := 4096) (k := 12) (by decide) x
    rw [roundDown] at this
    omega
  have hdistrib : (x ||| attrs) &&& 0xFFFFFFFFF000 = x &&& 0xFFFFFFFFF000 ||| attrs &&& 0xFFFFFFFFF000 := by
    apply UInt64.toNat_inj.mp
    simp only [UInt64.toNat_and, UInt64.toNat_or, Nat.and_or_distrib_right]
  rw [pteAddr, hdistrib, hattrs, UInt64.or_zero, hmask, ← UInt64.and_assoc, hlow, hround]

theorem unaligned_false {v : Vaddr} {paddr : Paddr} {size : UInt64} (h : unaligned v paddr size = false) :
    v.toNat % 4096 = 0 ∧ paddr.toNat % 4096 = 0 ∧ size.toNat % 4096 = 0 := by
  have hzero : (v ||| paddr ||| size) &&& 0xFFF = 0 := by simpa [unaligned] using h
  have hnat : ((v.toNat ||| paddr.toNat) ||| size.toNat) % 2 ^ 12 = 0 := by
    rw [← Nat.and_two_pow_sub_one_eq_mod]
    have := congrArg UInt64.toNat hzero
    simpa [UInt64.toNat_and, UInt64.toNat_or] using this
  rw [Nat.or_mod_two_pow, Nat.or_mod_two_pow] at hnat
  have houter := Nat.or_eq_zero_iff.mp hnat
  have hinner := Nat.or_eq_zero_iff.mp houter.1
  exact ⟨hinner.1, hinner.2, houter.2⟩

/-- The attributes do not touch the address of an entry. -/
def AttrsOutside (attrs : UInt64) : Prop := attrs &&& 0xFFFFFFFFF000 = 0

/-- The page of an entry lies behind `paddr`, within the size. -/
theorem Maps.addr {paddr : Paddr} {size attrs : UInt64} {v : Vaddr} {p : Nat} {pte : UInt64}
    (h : Maps paddr size attrs v p pte) (hattrs : AttrsOutside attrs)
    (hend : paddr.toNat + size.toNat ≤ 2 ^ 48) :
    paddr.toNat % 4096 = 0 ∧ paddr.toNat ≤ (pteAddr pte).toNat ∧
      (pteAddr pte).toNat + 4096 ≤ paddr.toNat + size.toNat := by
  obtain ⟨hv, hpaddr, hsize⟩ := unaligned_false h.aligned
  obtain ⟨hlo, hhi⟩ := pageIn_iff.mp h.inside
  have hk : (p - v.toNat / 4096) * 4096 + 4096 ≤ size.toNat := by omega
  have hsum : (paddr + UInt64.ofNat ((p - v.toNat / 4096) * 4096)).toNat =
      paddr.toNat + (p - v.toNat / 4096) * 4096 := by
    rw [UInt64.toNat_add, UInt64.toNat_ofNat', Nat.add_mod_mod]
    exact Nat.mod_eq_of_lt (by omega)
  have haddr : (pteAddr pte).toNat = paddr.toNat + (p - v.toNat / 4096) * 4096 := by
    rw [h.entry, leafEntry, pteAddr_toNat (by omega) (by omega) hattrs, hsum]
  omega

/-! ## The result -/

theorem arm64MmuMap_ne_notFound (t : PageTable) (ptAlloc : Bool) (v : Vaddr) (paddr : Paddr)
    (size attrs : UInt64) : (arm64MmuMap t ptAlloc v paddr size attrs).1 ≠ errNotFound := by
  have hargs : errInvalidArgs ≠ errNotFound := by decide
  have hgeneric : errGeneric ≠ errNotFound := by decide
  have hno : noError ≠ errNotFound := by decide
  unfold arm64MmuMap
  split
  · exact hargs
  split
  · exact hargs
  split
  · exact hgeneric
  · exact hno

theorem mapEntries_ne_notFound (mp : UthreadMap) (al : Nat → Bool) (size : UInt64) (n pg : Nat)
    (t : PageTable) : (mapEntries mp al size n pg t).1 ≠ errNotFound := by
  induction n generalizing pg t with
  | zero => exact (by decide : noError ≠ errNotFound)
  | succ n ih =>
    have := arm64MmuMap_ne_notFound t (al pg) (entryAddr mp size pg) (mp.pfnList.getD pg 0) size
      (mapAttr mp.flags)
    cases hm : arm64MmuMap t (al pg) (entryAddr mp size pg) (mp.pfnList.getD pg 0) size
        (mapAttr mp.flags) with
    | mk err s =>
      rw [hm] at this
      rw [mapEntries, hm]
      show (if err ≠ noError then (err, pg, t) else mapEntries mp al size n (pg + 1) s).1 ≠ _
      split
      · exact this
      · exact ih _ _

theorem archUthreadMap_ne_notFound {t t' : PageTable} {al : Nat → Bool} {mp : UthreadMap} {e : Int}
    (h : archUthreadMap t al mp = some (e, t')) : e ≠ errNotFound := by
  have := mapEntries_ne_notFound mp al (entrySizeOf mp) (mp.size / entrySizeOf mp).toNat 0 t
  unfold archUthreadMap at h
  split at h
  · cases h
  cases hr : mapEntries mp al (entrySizeOf mp) (mp.size / entrySizeOf mp).toNat 0 t with
  | mk err r =>
    rw [hr] at h this
    by_cases herr : err ≠ noError
    · simp only [if_pos herr] at h
      cases h
      exact this
    · simp only [if_neg herr] at h
      cases h
      decide

theorem mapRecord_ne_notFound {ut : Uthread} {env : Env} {va : Vaddr} {pfnList : List Paddr}
    {size : UInt64} {flags align : UInt32} {e : Int}
    (h : mapRecord ut env va pfnList size flags align = .error e) : e ≠ errNotFound := by
  unfold mapRecord at h
  split at h
  · cases h
    decide
  split at h
  · cases h
    decide
  unfold uthreadMapAlloc at h
  split at h
  · cases h
    decide
  split at h
  · cases h
    decide
  dsimp only at h
  split at h
  · cases h
    decide
  · cases h

theorem uthreadMap_ne_notFound {ut ut' : Uthread} {env : Env} {va v : Vaddr} {pfnList : List Paddr}
    {size : UInt64} {flags align : UInt32} {e : Int}
    (h : uthreadMap ut env va pfnList size flags align = some (e, v, ut')) : e ≠ errNotFound := by
  rcases uthreadMap_cases h with ⟨hrecord, -⟩ | ⟨_, _, _, -, harch, -⟩
  · exact mapRecord_ne_notFound hrecord
  · exact archUthreadMap_ne_notFound harch

/-- The kernel does not stop at a mapping that is not executable. -/
theorem uthreadMap_isSome {flags : UInt32} (hflags : mapAsserts flags = true) (ut : Uthread) (env : Env)
    (va : Vaddr) (pfnList : List Paddr) (size : UInt64) (align : UInt32) :
    ∃ r, uthreadMap ut env va pfnList size flags align = some r := by
  unfold uthreadMap
  split
  · exact ⟨_, rfl⟩
  dsimp only
  split
  · exact ⟨_, rfl⟩
  split
  · exact ⟨_, rfl⟩
  · next ut' mp halloc =>
    have hmp : mp.flags = flags := by
      rw [(uthreadMapAlloc_ok halloc).2.1]
      rfl
    have harch : ∃ r, archUthreadMap ut'.pageTable env.ptAlloc mp = some r := by
      unfold archUthreadMap
      rw [hmp, hflags, if_neg (by decide)]
      dsimp only
      split
      · exact ⟨_, rfl⟩
      · exact ⟨_, rfl⟩
    obtain ⟨r, hr⟩ := harch
    rw [hr]
    exact ⟨_, rfl⟩

/-! ## A request -/

/-- The page that an address lies in, and the first page behind it. -/
def pageDown (x : Nat) : Nat := x / 4096 * 4096

def pageUp (x : Nat) : Nat := (x + 4095) / 4096 * 4096

theorem roundUpPage32_toNat (x : UInt32) : (roundUpPage32 x).toNat = pageUp x.toNat % 2 ^ 32 := by
  have hx := UInt32.toNat_lt x
  rw [roundUpPage32, UInt64.toNat_toUInt32, roundUp_toNat (k := 12) (by decide), UInt32.toNat_toUInt64]
  rw [Nat.mod_eq_of_lt (show x.toNat + (2 ^ 12 - 1) < 2 ^ 64 by omega)]
  rfl

/-- What a request does when the manifest holds the entries `es`, which start at `starts`. -/
structure Follows (es : List ConfigEntry) (starts : List Nat) (blob : List UInt32) (s : Mem) (env : Env)
    (mmioId mapSize : UInt32) : Prop where
  blob_eq : blob = wordsOf es
  starts_eq : starts = startsOf 0 es
  /-- the walk comes to the same entries and reads nothing behind the blob -/
  walk : ∃ visited, setupLoop blob mmioId (blob.length + 1) 0 = some (visited, regionOf mmioId es) ∧
    visited <+: starts ∧ (regionOf mmioId es = none → visited = starts)
  region : mmioRegion mmioId blob = regionOf mmioId es
  result : ∃ e s', trustyAppSetupMmio s env blob mmioId mapSize = some (e, s') ∧
    (e = errNotFound ↔ ∀ offset size, ConfigEntry.mapMem mmioId offset size ∉ es) ∧
    ∀ p, s'.ut.pageTable p ≠ s.ut.pageTable p → ∃ pte offset size,
      s'.ut.pageTable p = some pte ∧ ConfigEntry.mapMem mmioId offset size ∈ es ∧
        pageDown offset.toNat ≤ (pteAddr pte).toNat ∧
        (pteAddr pte).toNat + 4096 ≤ pageUp (offset.toNat + size.toNat)

/-- The flags of the mapping. -/
def mmioFlags : UInt32 := utmW ||| utmR ||| utmIo ||| utmPhysContig

theorem mmio_attrsOutside : AttrsOutside (mapAttr mmioFlags) := by
  unfold AttrsOutside
  decide

/-- The request for a declared region. -/
theorem setupMmio_result {es : List ConfigEntry} (s : Mem) (env : Env) (mmioId mapSize : UInt32) :
    ∃ e s', trustyAppSetupMmio s env (wordsOf es) mmioId mapSize = some (e, s') ∧
      (e = errNotFound ↔ ∀ offset size, ConfigEntry.mapMem mmioId offset size ∉ es) ∧
      ∀ p, s'.ut.pageTable p ≠ s.ut.pageTable p → ∃ pte offset size,
        s'.ut.pageTable p = some pte ∧ ConfigEntry.mapMem mmioId offset size ∈ es ∧
          pageDown offset.toNat ≤ (pteAddr pte).toNat ∧
          (pteAddr pte).toNat + 4096 ≤ pageUp (offset.toNat + size.toNat) := by
  unfold trustyAppSetupMmio
  rw [mmioRegion_wordsOf]
  cases hregion : regionOf mmioId es with
  | none =>
    refine ⟨_, _, rfl, ?_, ?_⟩
    · exact iff_of_true rfl (regionOf_none hregion)
    · intro p hp
      exact absurd rfl hp
  | some r =>
    obtain ⟨offset, size⟩ := r
    have hmem := regionOf_some hregion
    have hsome : ∀ e : Int, e ≠ errNotFound →
        (e = errNotFound ↔ ∀ offset size, ConfigEntry.mapMem mmioId offset size ∉ es) :=
      fun e he => iff_of_false he (fun hnot => hnot offset size hmem)
    dsimp only
    split
    · refine ⟨_, _, rfl, hsome _ (by decide), ?_⟩
      intro p hp
      exact absurd rfl hp
    · next hfits =>
      obtain ⟨⟨e, v, ut⟩, hmap⟩ := @uthreadMap_isSome mmioFlags (by decide) s.ut env 0
        [offset.toUInt64] (roundUpPage32 mapSize).toUInt64 utMapAlign4KB
      have hmap' : uthreadMap s.ut env 0 [offset.toUInt64] (roundUpPage32 mapSize).toUInt64
          (utmW ||| utmR ||| utmIo ||| utmPhysContig) utMapAlign4KB = some (e, v, ut) := hmap
      rw [hmap']
      refine ⟨_, _, rfl, hsome e (uthreadMap_ne_notFound hmap), ?_⟩
      intro p hp
      obtain ⟨pte, start, hpte, hmaps⟩ := uthreadMap_contig (by decide) hmap hp
      have hoffset := UInt32.toNat_lt offset
      have hround := UInt32.toNat_lt (roundUpPage32 mapSize)
      obtain ⟨halign, hlo, hhi⟩ := hmaps.addr mmio_attrsOutside (by
        rw [UInt32.toNat_toUInt64, UInt32.toNat_toUInt64]
        omega)
      rw [UInt32.toNat_toUInt64] at halign hlo hhi
      rw [UInt32.toNat_toUInt64] at hhi
      have hle : (roundUpPage32 mapSize).toNat ≤ (roundUpPage32 size).toNat :=
        UInt32.le_iff_toNat_le.mp (UInt32.not_lt.mp hfits)
      rw [roundUpPage32_toNat size] at hle
      have hmod := Nat.mod_le (pageUp size.toNat) (2 ^ 32)
      refine ⟨pte, offset, size, hpte, hmem, ?_, ?_⟩
      · rw [pageDown]
        omega
      · rw [pageUp] at hle hmod ⊢
        omega

/-- For a manifest that is accepted when the application is loaded, and any request: the two walks
agree, a region is found when one is declared for the id, and only pages of a region declared for
the id are mapped. -/
theorem setupMmio_follows_manifest (manifest : List UInt8) {starts : List Nat} {props : TrustyAppProps}
    (hload : loadAppConfigOptions manifest = some (starts, props)) (s : Mem) (env : Env)
    (mmioId mapSize : UInt32) :
    ∃ es, Follows es starts props.configBlob s env mmioId mapSize := by
  unfold loadAppConfigOptions at hload
  split at hload
  · obtain ⟨hblob, es, hes, hstarts⟩ := loadLoop_entries (Nat.sub_le _ _) hload
    have hwords : props.configBlob = wordsOf es := hblob.trans hes
    refine ⟨es, hwords, hstarts, ?_, ?_, ?_⟩
    · rw [hstarts]
      exact setupLoop_entries mmioId (Nat.lt_succ_of_le (Nat.sub_le _ _)) hwords
    · rw [hwords]
      exact mmioRegion_wordsOf mmioId es
    · rw [hwords]
      exact setupMmio_result s env mmioId mapSize
  · cases hload

/-- One region of two pages, with the id 7. -/
def deviceManifest : List UInt8 :=
  List.replicate 16 0 ++ [3, 0, 0, 0, 7, 0, 0, 0, 0, 0, 16, 3, 0, 32, 0, 0]

theorem deviceManifest_follows :
    ∃ es, Follows es [0] (configWords deviceManifest) ⟨Uthread.init 0x100000, [], fun _ => none⟩
      Env.all 7 0x2000 :=
  setupMmio_follows_manifest deviceManifest
    (show loadAppConfigOptions deviceManifest =
      some ([0], ⟨List.replicate 16 0, 4096, 16384, 1, configWords deviceManifest⟩) by decide +kernel) _ _ _ _

end TX2SecureUart.AddrSpace
