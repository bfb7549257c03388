/-
# `Update.Search` — the entry that is written for a partition

A device writes, for each partition of a payload, the first entry that carries
the partition's name and fits the device.  The search looks at the entries of
that name one after the other; each one it looks at must have a `spec_info` that
ends inside the payload.
-/
import TX2SecureUart.Update.Writes

namespace TX2SecureUart.Update

open Prog Storage StrRead

variable (buf : Buffer) (bh : BlobInfo)

/-- Where an entry of an update blob lies. -/
def entryAt (i : Nat) : Nat := bh.offset + buf.word (bh.offset + 24) + 120 * i

def entryName (i : Nat) : List UInt8 := (Str.field (entryAt buf bh i)).name buf

/-- Where an entry's data lies. -/
def dataAt (i : Nat) : Nat := bh.offset + buf.word (entryAt buf bh i + 40)

def sizeAt (i : Nat) : Nat := buf.word (entryAt buf bh i + 44)

/-- The header of an update blob and its table of entries are in the buffer. -/
structure Table (num : Nat) : Prop where
  header : bh.offset + 36 ≤ buf.bytes.length
  type : buf.word (bh.offset + 32) = blobUpdate
  inside : ∀ i < num, entryAt buf bh i + 120 ≤ buf.bytes.length

/-- The `spec_info` of an entry ends in the buffer. -/
def SpecEnds (i : Nat) : Prop := 0 ∈ buf.tail (entryAt buf bh i + 56)

/-- What a device is asked for. -/
structure Criteria where
  spec : List UInt8
  production : Bool

/-- An entry is for any spec or for the device's, and for any fusing or the device's. -/
def fits (c : Criteria) (entry : Nat) : Bool :=
  ((buf.tail (entry + 56)).takeWhile (· ≠ 0) = [] ∨
    upTo 64 (buf.tail (entry + 56)) = upTo 64 (c.spec ++ [0])) ∧
  (buf.word (entry + 52) = 0 ∨ buf.word (entry + 52) - 1 = c.production.toNat)

/-- The search comes to entry `j`. -/
structure Examined (num : Nat) (c : Criteria) (n : List UInt8) (j : Nat) : Prop where
  lt : j < num
  name : entryName buf bh j = n
  before : ∀ i < j, entryName buf bh i = n → fits buf c (entryAt buf bh i) = false

/-- The search ends at entry `j`. -/
structure Chosen (num : Nat) (c : Criteria) (n : List UInt8) (j : Nat) : Prop
    extends Examined buf bh num c n j where
  fit : fits buf c (entryAt buf bh j) = true

/-- Every entry that the search comes to can be looked at. -/
def Searchable (num : Nat) (c : Criteria) (n : List UInt8) : Prop :=
  ∀ j, Examined buf bh num c n j → SpecEnds buf bh j

inductive SearchResult (num : Nat) (c : Criteria) (n : List UInt8) :
    Option (Except TegrablErr (Option (Nat × Nat))) → Prop
  | left {j : Nat} : Examined buf bh num c n j → ¬ SpecEnds buf bh j → SearchResult num c n none
  | missing : (∀ j < num, entryName buf bh j = n → fits buf c (entryAt buf bh j) = false) →
      Searchable buf bh num c n → SearchResult num c n (some (.ok none))
  | found {j : Nat} : Chosen buf bh num c n j → Searchable buf bh num c n →
      SearchResult num c n (some (.ok (some (j, entryAt buf bh j))))

variable {buf bh} {num : Nat} {c : Criteria} {n : List UInt8}

/-- The search ends at one entry only. -/
theorem Chosen.unique {i j : Nat} (h : Chosen buf bh num c n i) (h' : Chosen buf bh num c n j) :
    i = j := by
  rcases Nat.lt_trichotomy i j with hlt | heq | hgt
  · have := h'.before i hlt h.name
    rw [h.fit] at this
    cases this
  · exact heq
  · have := h.before j hgt h'.name
    rw [h'.fit] at this
    cases this

/-- Nothing is examined behind the entry that is chosen. -/
theorem Chosen.examined_le {i j : Nat} (h : Chosen buf bh num c n j)
    (h' : Examined buf bh num c n i) : i ≤ j := by
  by_contra hlt
  have := h'.before j (Nat.not_le.mp hlt) h.name
  rw [h.fit] at this
  cases this

theorem not_chosen (h : ∀ j < num, entryName buf bh j = n → fits buf c (entryAt buf bh j) = false)
    (j : Nat) : ¬ Chosen buf bh num c n j := by
  intro hj
  have hfit := h j hj.lt hj.name
  rw [hj.fit] at hfit
  cases hfit

theorem exists_chosen_or (num : Nat) (c : Criteria) (n : List UInt8) :
    (∃ j, Chosen buf bh num c n j) ∨
      ∀ j < num, entryName buf bh j = n → fits buf c (entryAt buf bh j) = false := by
  by_cases h : ∃ j, j < num ∧ entryName buf bh j = n ∧ fits buf c (entryAt buf bh j) = true
  · obtain ⟨hlt, hname, hfit⟩ := Nat.find_spec h
    refine .inl ⟨Nat.find h, ⟨hlt, hname, ?_⟩, hfit⟩
    intro i hi hn
    have hnot := Nat.find_min h hi
    by_contra hf
    exact hnot ⟨hi.trans hlt, hn, Bool.eq_true_of_not_eq_false hf⟩
  · refine .inr ?_
    intro j hj hn
    by_contra hf
    exact h ⟨j, hj, hn, Bool.eq_true_of_not_eq_false hf⟩

/-! ## Looking at one entry -/

theorem readable_tail {off k : Nat} (h : off + k ≤ buf.bytes.length) :
    Readable k (buf.tail off) := by
  refine .inl ?_
  rw [Buffer.tail, List.length_drop]
  omega

/-- Names are compared as far as `gptPartNameLen` goes. -/
theorem strncmp_names {p q : Str} (hp : Readable gptPartNameLen (p.bytes buf))
    (hq : Readable gptPartNameLen (q.bytes buf)) :
    strncmp gptPartNameLen (p.bytes buf) (q.bytes buf) =
      some (decide (p.name buf = q.name buf)) := strncmp_eq hp hq

theorem fitsMode_eq {production : Bool} {entry : Nat} (h : entry + 120 ≤ buf.bytes.length) :
    fitsMode buf production entry =
      some (decide (buf.word (entry + 52) = 0 ∨ buf.word (entry + 52) - 1 = production.toNat)) := by
  rw [fitsMode, load32_of_le buf (by omega)]
  rfl

theorem fitsSpec_eq {spec : List UInt8} {entry : Nat} (h : entry + 120 ≤ buf.bytes.length)
    (hends : 0 ∈ buf.tail (entry + 56)) :
    fitsSpec buf spec entry = some (decide ((buf.tail (entry + 56)).takeWhile (· ≠ 0) = [] ∨
      upTo 64 (buf.tail (entry + 56)) = upTo 64 (spec ++ [0]))) := by
  rw [fitsSpec, cstring_of_mem hends, Option.bind_eq_bind, Option.bind_some]
  split
  case isTrue hnil =>
    rw [decide_eq_true (Or.inl hnil)]
    rfl
  case isFalse hne =>
    rw [strncmp_eq (readable_tail (by omega)) (readable_of_mem (by simp))]
    congr 1
    rw [decide_eq_decide]
    exact ⟨.inr, fun h => h.resolve_left hne⟩

theorem isChosen_eq {part : Str} {entry : Nat} (h : entry + 120 ≤ buf.bytes.length)
    (hpart : Readable gptPartNameLen (part.bytes buf)) :
    isChosen buf c.spec c.production part entry =
      if (Str.field entry).name buf = part.name buf then
        if 0 ∈ buf.tail (entry + 56) then some (fits buf c entry) else none
      else some false := by
  have hcmp : strncmp gptPartNameLen (buf.tail entry) (part.bytes buf) =
      some (decide ((Str.field entry).name buf = part.name buf)) :=
    strncmp_names (p := .field entry) (readable_tail (by rw [gptPartNameLen]; omega)) hpart
  rw [isChosen, hcmp, Option.bind_eq_bind, Option.bind_some]
  by_cases hname : (Str.field entry).name buf = part.name buf
  case neg =>
    rw [if_neg (by simpa using hname), if_neg hname]
    rfl
  rw [if_pos (by simpa using hname), if_pos hname]
  by_cases hends : 0 ∈ buf.tail (entry + 56)
  case neg =>
    rw [if_neg hends, fitsSpec, cstring_of_not_mem hends]
    rfl
  rw [if_pos hends, fitsSpec_eq h hends, fitsMode_eq h, Option.bind_some, fits]
  by_cases hspec : (buf.tail (entry + 56)).takeWhile (· ≠ 0) = [] ∨
      upTo 64 (buf.tail (entry + 56)) = upTo 64 (c.spec ++ [0])
  · rw [if_pos (by simpa using hspec)]
    congr 1
    simp only [hspec, true_and]
  · rw [if_neg (by simpa using hspec)]
    show some false = _
    congr 1
    simp only [hspec, false_and, decide_false]

/-! ## The search -/

theorem blobGetEntry_eq (ht : Table buf bh num) (i : Nat) :
    blobGetEntry buf bh i = some (.ok (entryAt buf bh i)) := by
  have hheader := ht.header
  rw [blobGetEntry, load32_of_le buf (by omega), load32_of_le buf (by omega), ht.type]
  rfl

theorem blobGetEntryData_eq (ht : Table buf bh num) {i : Nat} (hi : i < num) :
    blobGetEntryData buf bh i = some (.ok (dataAt buf bh i, sizeAt buf bh i)) := by
  have hheader := ht.header
  have hin := ht.inside i hi
  rw [blobGetEntryData, blobGetEntry_eq ht, Option.bind_eq_bind, Option.bind_some]
  show (blobGetType buf bh).bind _ = _
  rw [blobGetType, load32_of_le buf (by omega), ht.type, Option.bind_some]
  show (parseEntry buf blobUpdate (entryAt buf bh i)).bind _ = _
  rw [parseEntry, if_pos rfl, load32_of_le buf (by omega), load32_of_le buf (by omega)]
  rfl

/-- From the `i`-th entry on, when none before it fits. -/
theorem findEntry_spec_from (ht : Table buf bh num) {part : Str}
    (hpart : Readable gptPartNameLen (part.bytes buf)) :
    ∀ k i, i + k = num →
      (∀ j < i, entryName buf bh j = part.name buf → fits buf c (entryAt buf bh j) = false) →
      (∀ j < i, entryName buf bh j = part.name buf → SpecEnds buf bh j) →
      SearchResult buf bh num c (part.name buf)
        (findEntry buf bh c.spec c.production part i k)
  | 0, i, hik, hnone, hends => by
      obtain rfl : i = num := by omega
      exact .missing hnone (fun j hj => hends j hj.lt hj.name)
  | k + 1, i, hik, hnone, hends => by
      have hi : i < num := by omega
      rw [findEntry, blobGetEntry_eq ht, Option.bind_eq_bind, Option.bind_some]
      show SearchResult _ _ _ _ _ ((isChosen buf c.spec c.production part (entryAt buf bh i)).bind _)
      rw [isChosen_eq (ht.inside i hi) hpart]
      by_cases hname : entryName buf bh i = part.name buf
      case neg =>
        rw [if_neg (show ¬ (Str.field _).name buf = _ from hname)]
        refine findEntry_spec_from ht hpart k (i + 1) (by omega) ?_ ?_
        · intro j hj hjn
          have hji : j ≠ i := fun h => hname (h ▸ hjn)
          exact hnone j (by omega) hjn
        · intro j hj hjn
          have hji : j ≠ i := fun h => hname (h ▸ hjn)
          exact hends j (by omega) hjn
      rw [if_pos (show (Str.field _).name buf = _ from hname)]
      have hex : Examined buf bh num c (part.name buf) i := ⟨hi, hname, hnone⟩
      by_cases hspec : SpecEnds buf bh i
      case neg =>
        rw [if_neg (show ¬ 0 ∈ buf.tail _ from hspec)]
        exact .left hex hspec
      rw [if_pos (show 0 ∈ buf.tail _ from hspec), Option.bind_some]
      cases hfit : fits buf c (entryAt buf bh i) with
      | true =>
          refine .found ⟨hex, hfit⟩ ?_
          intro j hj
          have hle := Chosen.examined_le (⟨hex, hfit⟩ : Chosen buf bh num c _ i) hj
          rcases Nat.lt_or_eq_of_le hle with hlt | rfl
          · exact hends j hlt hj.name
          · exact hspec
      | false =>
          refine findEntry_spec_from ht hpart k (i + 1) (by omega) ?_ ?_
          · intro j hj hjn
            rcases Nat.lt_or_eq_of_le (Nat.lt_succ_iff.mp hj) with hlt | rfl
            · exact hnone j hlt hjn
            · exact hfit
          · intro j hj hjn
            rcases Nat.lt_or_eq_of_le (Nat.lt_succ_iff.mp hj) with hlt | rfl
            · exact hends j hlt hjn
            · exact hspec

theorem findEntry_spec (ht : Table buf bh num) {part : Str}
    (hpart : Readable gptPartNameLen (part.bytes buf)) :
    SearchResult buf bh num c (part.name buf)
      (findEntry buf bh c.spec c.production part 0 num) :=
  findEntry_spec_from ht hpart num 0 (Nat.zero_add num) (fun _ h => absurd h (Nat.not_lt_zero _))
    (fun _ h => absurd h (Nat.not_lt_zero _))

end TX2SecureUart.Update
