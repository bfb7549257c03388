/-
# `Sparse.Bounds` — what a download may overwrite and unpack

The decoder compares the size in the image header with `max_unsparse_size` and
takes the sizes in the chunk headers as they are; it copies as much of a chunk
header as the image header says, and as much of a fill value as there is.  So a
download stays within its bounds exactly when its buffers fit and the chunks do
not come to more than the limit.
-/
import TX2SecureUart.Sparse.Image

namespace TX2SecureUart.Sparse

/-- No copy has left its array, and no more has been written and skipped than
`max_unsparse_size` allows. -/
structure Safe (maxUnsparseSize : Nat) (out : Outcome) : Prop where
  headers : out.result ≠ .error .corrupted
  fillValue : out.stray = false
  total : total (flat out.events) ≤ maxUnsparseSize

/-- The buffers that are taken: an empty one is refused. -/
def taken (buffers : List (List UInt8)) : List (List UInt8) :=
  buffers.takeWhile fun buff => buff ≠ []

theorem taken_ne_nil (buffers : List (List UInt8)) : ∀ buff ∈ taken buffers, buff ≠ [] := by
  intro buff hmem
  exact of_decide_eq_true (List.mem_takeWhile_imp (p := fun b => decide (b ≠ [])) hmem)

theorem safe_later (max : Nat) (stray : Bool) (later : Outcome) :
    Safe max { later with stray := stray || later.stray } ↔ stray = false ∧ Safe max later := by
  constructor
  · intro h
    obtain ⟨hstray, hlater⟩ := Bool.or_eq_false_iff.mp h.fillValue
    exact ⟨hstray, h.headers, hlater, h.total⟩
  · rintro ⟨hstray, h⟩
    exact ⟨h.headers, Bool.or_eq_false_iff.mpr ⟨hstray, h.fillValue⟩, h.total⟩

/-- The buffers behind an empty one change nothing. -/
theorem safe_taken (io : Device) (max : Nat) (st : UnsparseState) (events : List Event)
    (buffers : List (List UInt8)) :
    Safe max (download io st events buffers) ↔ Safe max (download io st events (taken buffers)) := by
  induction buffers generalizing st events with
  | nil => exact Iff.rfl
  | cons buff rest ih =>
      rw [taken]
      rcases eq_or_ne buff [] with rfl | hne
      · have hempty : download io st events ([] :: rest) =
            { result := .error (.fail .badParameter), st := st, events := events,
              stray := false } := rfl
        rw [List.takeWhile_cons_of_neg (by simp), hempty, download]
        constructor
        · intro h
          exact ⟨by simp, rfl, h.total⟩
        · intro h
          exact ⟨by simp, rfl, h.total⟩
      · rw [List.takeWhile_cons_of_pos (by simpa using hne), download, download]
        cases (unsparse io st buff events).result with
        | error stop => exact Iff.rfl
        | ok u =>
            dsimp only
            rw [safe_later, safe_later, ih]
            exact Iff.rfl

theorem total_mono {xs ys : List Out} (h : xs <+: ys) : total xs ≤ total ys := by
  obtain ⟨zs, rfl⟩ := h
  rw [total, total, List.map_append, List.sum_append]
  exact Nat.le_add_right _ _

theorem saved_init (max : Nat) : (Stream.init max).saved = initUnsparseState max := rfl

theorem init_live (max : Nat) : (Stream.init max).Live := by
  intro stop h
  cases h

/-- The buffers fit, and the chunks come to no more than the limit. -/
def WithinBounds (max : Nat) (buffers : List (List UInt8)) : Prop :=
  AllFit (.init max) (taken buffers) ∧
    total ((Stream.init max).feed (taken buffers).flatten).out ≤ max

/-- A download whose buffers fit is safe when the chunks do not come to more than
the limit. -/
theorem safe_of_total (io : Device) {max : Nat} {σ : Stream} {out : Outcome}
    (h : CallRefined io σ out) (hended : σ.place ≠ .ended .corrupted) (htotal : total σ.out ≤ max) :
    Safe max out := by
  cases h with
  | on hres _ hflat _ hstray => exact ⟨by rw [hres]; simp, hstray, by rw [hflat]; exact htotal⟩
  | ended stop hres hp hflat hstray =>
      refine ⟨?_, hstray, by rw [hflat]; exact htotal⟩
      rw [hres]
      rintro ⟨⟩
      exact hended hp
  | device e events hres _ hpre hstray =>
      exact ⟨by rw [hres]; simp, hstray, (total_mono hpre).trans htotal⟩

/-! ## The stream leaves no array -/

theorem openChunk_not_corrupted (σ : Stream) (c : List UInt8) :
    (σ.openChunk c).place ≠ .ended .corrupted := by
  intro h
  rw [Stream.openChunk] at h
  split at h
  · cases h
  split at h
  · cases h
  dsimp only at h
  split at h <;> cases h

theorem chunkByte_not_corrupted (σ : Stream) (size : Nat) (got : List UInt8) (b : UInt8) :
    (σ.chunkByte size got b).place ≠ .ended .corrupted := by
  intro h
  rw [Stream.chunkByte] at h
  split at h
  · cases h
  split at h
  · cases h
  exact openChunk_not_corrupted σ _ h

theorem next_not_corrupted {σ : Stream} (b : UInt8) (h : σ.place ≠ .ended .corrupted) :
    (σ.next b).place ≠ .ended .corrupted := by
  intro hnext
  rw [Stream.next] at hnext
  split at hnext
  · split at hnext
    · cases hnext
    · rw [Stream.openImage] at hnext
      split at hnext <;> cases hnext
  · exact chunkByte_not_corrupted σ _ _ b hnext
  · split at hnext
    · exact chunkByte_not_corrupted σ _ _ b hnext
    · dsimp only at hnext
      split at hnext <;> cases hnext
  · dsimp only at hnext
    split at hnext <;> cases hnext
  · cases hnext
  · exact h hnext

theorem feed_not_corrupted {σ : Stream} (xs : List UInt8) (h : σ.place ≠ .ended .corrupted) :
    (σ.feed xs).place ≠ .ended .corrupted := by
  induction xs generalizing σ with
  | nil => exact h
  | cons b xs ih => exact ih (next_not_corrupted b h)

theorem within_of_safe {max : Nat} {buffers : List (List UInt8)}
    (h : Safe max (download (fun _ => none) (initUnsparseState max) [] buffers)) :
    WithinBounds max buffers := by
  have hout : flat [] = (Stream.init max).out := rfl
  have hne := taken_ne_nil buffers
  have hsafe := (safe_taken _ _ _ _ _).mp h
  rw [← saved_init] at hsafe
  have hfit : AllFit (.init max) (taken buffers) := by
    refine Classical.not_not.mp fun hnot => ?_
    rcases download_leaves (fun _ => rfl) hout (wf_init max) (init_live max) hne hnot with
      hstray | hres
    · exact Bool.false_ne_true (hsafe.fillValue.symm.trans hstray)
    · exact hsafe.headers hres
  refine ⟨hfit, ?_⟩
  have htotal := hsafe.total
  cases download_refines (fun _ => none) hout (wf_init max) (init_live max) hne hfit with
  | on _ _ hflat => rwa [hflat] at htotal
  | ended _ _ _ hflat => rwa [hflat] at htotal
  | device _ _ _ hio => cases hio

theorem safe_of_within {max : Nat} {buffers : List (List UInt8)} (h : WithinBounds max buffers)
    (io : Device) : Safe max (download io (initUnsparseState max) [] buffers) := by
  obtain ⟨hfit, htotal⟩ := h
  have hout : flat [] = (Stream.init max).out := rfl
  rw [safe_taken, ← saved_init]
  have hrun := download_refines io hout (wf_init max) (init_live max) (taken_ne_nil buffers) hfit
  refine safe_of_total io hrun (feed_not_corrupted _ ?_) htotal
  intro hplace
  cases hplace

/-- Every download, with every device, stays within its bounds exactly when its
buffers fit and the chunks do not come to more than the limit. -/
theorem download_safe_iff (max : Nat) (buffers : List (List UInt8)) :
    (∀ io, Safe max (download io (initUnsparseState max) [] buffers)) ↔
      WithinBounds max buffers := by
  constructor
  · intro h
    exact within_of_safe (h fun _ => none)
  · intro h io
    exact safe_of_within h io

/-! ## Three downloads out of bounds -/

/-- A header of an image of one block of 4096 bytes. -/
def smallHeader (chunkHdrSz totalChunks : Nat) : List UInt8 :=
  ({ magic := headerMagic
     majorVersion := 1
     minorVersion := 0
     fileHdrSz := sizeofImageHeader
     chunkHdrSz := chunkHdrSz
     blkSz := 4096
     totalBlks := 1
     totalChunks := totalChunks
     imageChecksum := 0 : ImageHeader }).bytes

def chunkBytes (chunkType totalSz : Nat) : List UInt8 :=
  ({ chunkType := chunkType
     reserved := 0
     chunkSz := 1
     totalSz := totalSz : ChunkHeader }).bytes

/-- A chunk header of 16 bytes, in one buffer. -/
def longHeader : List (List UInt8) :=
  [smallHeader 16 1 ++ chunkBytes chunkTypeDontCare 16 ++ leBytes 4 0]

/-- The first byte of a fill value ends its buffer. -/
def splitFill : List (List UInt8) :=
  [smallHeader 12 2 ++ chunkBytes chunkTypeFill 16 ++ [1], [2, 3, 4] ++ chunkBytes chunkTypeRaw 12]

/-- The image has one block, and each of the two chunks has one. -/
def twoBlocks : List (List UInt8) :=
  [smallHeader 12 2 ++ chunkBytes chunkTypeDontCare 12 ++ chunkBytes chunkTypeDontCare 12]

theorem downloads_out_of_bounds :
    ¬ Safe 4096 (download (fun _ => none) (initUnsparseState 4096) [] longHeader) ∧
      ¬ Safe 4096 (download (fun _ => none) (initUnsparseState 4096) [] splitFill) ∧
      ¬ Safe 4096 (download (fun _ => none) (initUnsparseState 4096) [] twoBlocks) := by
  refine ⟨?_, ?_, ?_⟩
  · intro h
    refine (within_of_safe h).1.1.header ⟨smallHeader 16 1 ++ chunkBytes chunkTypeDontCare 16,
      leBytes 4 0, by decide, by decide, rfl, 16, chunkBytes chunkTypeDontCare 16, ?_, by decide,
      by decide⟩
    decide +kernel
  · intro h
    refine (within_of_safe h).1.2.1.fill ⟨chunkBytes chunkTypeFill 16, 4096, 1, ?_, by decide,
      by decide⟩
    decide +kernel
  · intro h
    have htotal := (within_of_safe h).2
    revert htotal
    decide +kernel

end TX2SecureUart.Sparse
