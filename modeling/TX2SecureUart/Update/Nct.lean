/-
# `Update.Nct` — the spec in the NCT

`tegrabl_nct_init` looks at nothing but the magic.  `tegrabl_nct_get_spec` copies
the texts behind `"config":"` and `"id":"` as far as the next quote, into buffers
of 64 bytes whose size it is not given.  That stays inside the item and the
buffers exactly when the searches find an end and every text that is copied is
closed in time.

Reads are confined to the table of the partition, and those of the spec to its
item; what would leave them is `none`.
-/
import TX2SecureUart.Lib.LeBytes
import TX2SecureUart.Lib.StrSearch
import TX2SecureUart.Storage.Err

namespace TX2SecureUart.Update

open StrSearch Storage

abbrev nctMagicId : List UInt8 := [0x6E, 0x56, 0x43, 0x74]
abbrev nctEntryOffset : Nat := 0x4000
abbrev maxNctEntry : Nat := 512
/-- `sizeof(struct nct_entry)` -/
abbrev nctEntrySize : Nat := 1040
abbrev nctEntryDataOffset : Nat := 12
/-- `sizeof(union nct_item)` -/
abbrev maxNctDataSize : Nat := 1024
abbrev nctMaxSpecLength : Nat := 64
abbrev nctIdSpec : Nat := 42
abbrev nctIdEnd : Nat := 43

abbrev quote : UInt8 := 0x22

/-- `"id":"` -/
abbrev nctSpecIdName : List UInt8 := [quote, 0x69, 0x64, quote, 0x3A, quote]

/-- `"config":"` -/
abbrev nctSpecCfgName : List UInt8 :=
  [quote, 0x63, 0x6F, 0x6E, 0x66, 0x69, 0x67, quote, 0x3A, quote]

structure Nct where
  tegraNctInitialized : Bool
  /-- The partition, from `nct_ptr` on. -/
  nctPtr : List UInt8

/-- The variables before the first call. -/
def Nct.boot : Nct := ⟨false, []⟩

def readFrom (bytes : List UInt8) (off n : Nat) : Option (List UInt8) :=
  if off + n ≤ bytes.length then some ((bytes.drop off).take n) else none

/-- `load` is what `tegrabl_load_binary` does. -/
def tegrablNctInit (load : Except TegrablErr (List UInt8)) (s : Nct) :
    Option (Except TegrablErr Unit × Nct) :=
  if s.tegraNctInitialized then some (.ok (), s) else
  match load with
  | .error e => some (.error (e.setHighestModule .nct), s)
  | .ok bytes =>
      (readFrom bytes 0 nctMagicId.length).map fun magic =>
        if magic ≠ nctMagicId then
          (.error (tegrablError .nct .badParameter 0), { s with nctPtr := bytes })
        else (.ok (), ⟨true, bytes⟩)

/-- The table entries that the partition has. -/
def nctTable (nct : List UInt8) : List UInt8 :=
  (nct.drop nctEntryOffset).take (maxNctEntry * nctEntrySize)

/-- From the address of the entry on. -/
def readEntry (table : List UInt8) (id : Nat) : Option (Except TegrablErr (List UInt8)) :=
  (readFrom table (id * nctEntrySize) 4).bind fun index =>
    if id ≠ leNat index then some (.error (tegrablError .nct .badParameter 4)) else
    (readFrom table (id * nctEntrySize + nctEntryDataOffset) maxNctDataSize).map .ok

/-- What is copied to `buf`, which may be `NULL`. -/
def tegrablNctReadItem (s : Nct) (id : UInt32) (bufGiven : Bool) :
    Option (Except TegrablErr (List UInt8)) :=
  if !s.tegraNctInitialized then some (.error (tegrablError .nct .notInitialized 0)) else
  if nctIdEnd < id.toNat then some (.error (tegrablError .nct .invalid 1)) else
  if !bufGiven then some (.error (tegrablError .nct .badAddress 2)) else
  readEntry (nctTable s.nctPtr) id.toNat

/-- The second half of `tegrabl_nct_get_spec`: the result, and both buffers. -/
def copyId (item id config : List UInt8) :
    Option (Except TegrablErr Unit × List UInt8 × List UInt8) :=
  (strstr item nctSpecIdName).bind fun
    | none => some (.error (tegrablError .nct .notFound 1), id, config)
    | some p =>
        (copyTo quote (p.drop nctSpecIdName.length) id).map fun id => (.ok (), id, config)

/-- `tegrabl_nct_get_spec` behind the read of the item. -/
def copySpec (item id config : List UInt8) :
    Option (Except TegrablErr Unit × List UInt8 × List UInt8) :=
  (strstr item nctSpecCfgName).bind fun
    | none => some (.error (tegrablError .nct .notFound 0), id, config)
    | some p =>
        (copyTo quote (p.drop nctSpecCfgName.length) config).bind fun config => copyId item id config

def tegrablNctGetSpec (s : Nct) (id config : Option (List UInt8)) :
    Option (Except TegrablErr Unit × Option (List UInt8) × Option (List UInt8)) :=
  match id, config with
  | some idBuf, some configBuf =>
      (tegrablNctReadItem s (UInt32.ofNat nctIdSpec) true).bind fun
        | .error e => some (.error e, id, config)
        | .ok item =>
            (copySpec item idBuf configBuf).map fun (r, i, c) => (r, some i, some c)
  | _, _ => some (.error (tegrablError .nct .invalid 0), id, config)

/-! ## What the calls should keep to -/

/-- The quoted value of a key, from the key's first place in the text. -/
def Quoted (name item v : List UInt8) : Prop :=
  ∃ rest, Finds name item (v ++ quote :: rest) ∧ quote ∉ v

/-- No read leaves the table or the item, no write a buffer of 64 bytes; and two
values that are there and fit are what is returned. -/
structure NctRight (s : Nct) : Prop where
  reads : ∀ id given, tegrablNctReadItem s id given ≠ none
  spec : ∀ id config : List UInt8, id.length = nctMaxSpecLength →
    config.length = nctMaxSpecLength → tegrablNctGetSpec s (some id) (some config) ≠ none
  values : ∀ item, tegrablNctReadItem s (UInt32.ofNat nctIdSpec) true = some (.ok item) →
    ∀ id config v w : List UInt8, id.length = nctMaxSpecLength →
      config.length = nctMaxSpecLength → Quoted nctSpecIdName item v →
      Quoted nctSpecCfgName item w → v.length < nctMaxSpecLength → w.length < nctMaxSpecLength →
      tegrablNctGetSpec s (some id) (some config) =
        some (.ok (), some (v ++ 0 :: id.drop (v.length + 1)),
          some (w ++ 0 :: config.drop (w.length + 1)))

/-! ## When they do -/

def entryIndex (nct : List UInt8) (id : Nat) : Nat :=
  leNat (((nctTable nct).drop (id * nctEntrySize)).take 4)

def entryData (nct : List UInt8) (id : Nat) : List UInt8 :=
  ((nctTable nct).drop (id * nctEntrySize + nctEntryDataOffset)).take maxNctDataSize

/-- The partition goes as far as the index of the last entry, and as its data if
that index is right. -/
def TableInside (nct : List UInt8) : Prop :=
  nctIdEnd * nctEntrySize + 4 ≤ (nctTable nct).length ∧
    (nctIdEnd = entryIndex nct nctIdEnd →
      nctIdEnd * nctEntrySize + nctEntryDataOffset + maxNctDataSize ≤ (nctTable nct).length)

/-- A key is found or the text has an end, and a value behind the key is closed in time. -/
def TextCloses (name item : List UInt8) : Prop :=
  Searchable name item ∧ ∀ after, Finds name item after → Closed quote nctMaxSpecLength after

/-- The id is not looked for in an item without a config. -/
def SpecCloses (item : List UInt8) : Prop :=
  TextCloses nctSpecCfgName item ∧
    ((∃ after, Finds nctSpecCfgName item after) → TextCloses nctSpecIdName item)

variable {s : Nct} {nct item id config v w : List UInt8} {i n off : Nat}

theorem readFrom_ne_none_iff : readFrom nct off n ≠ none ↔ off + n ≤ nct.length := by
  rw [readFrom]
  split
  · next h => exact ⟨fun _ => h, fun _ h => by cases h⟩
  · next h => exact ⟨fun h => absurd rfl h, fun h' => absurd h' h⟩

theorem readEntry_ne_none_iff :
    readEntry (nctTable nct) i ≠ none ↔ i * nctEntrySize + 4 ≤ (nctTable nct).length ∧
      (i = entryIndex nct i →
        i * nctEntrySize + nctEntryDataOffset + maxNctDataSize ≤ (nctTable nct).length) := by
  rw [readEntry, readFrom]
  split
  · next hlen =>
      show (if i ≠ entryIndex nct i then _ else _) ≠ none ↔ _
      by_cases hi : i = entryIndex nct i
      · rw [if_neg (not_not.mpr hi), Ne, Option.map_eq_none_iff, ← Ne, readFrom_ne_none_iff]
        exact ⟨fun h => ⟨hlen, fun _ => h⟩, fun h => h.2 hi⟩
      · rw [if_pos hi]
        exact ⟨fun _ => ⟨hlen, fun h => absurd h hi⟩, fun _ h => by cases h⟩
  · next hlen => exact ⟨fun h => absurd rfl h, fun h => absurd h.1 hlen⟩

/-- Every entry before the last lies in front of it. -/
theorem entry_before {i last size off len n : Nat} (hi : i < last) (h : last * size + 4 ≤ n)
    (hfit : off + len ≤ size) : i * size + off + len ≤ n := by
  have hle : (i + 1) * size ≤ last * size := Nat.mul_le_mul_right _ hi
  rw [Nat.add_mul, Nat.one_mul] at hle
  omega

/-- The last entry decides for all. -/
theorem reads_iff (hinit : s.tegraNctInitialized = true) :
    (∀ id given, tegrablNctReadItem s id given ≠ none) ↔ TableInside s.nctPtr := by
  have hread : ∀ id, ¬ nctIdEnd < id.toNat →
      tegrablNctReadItem s id true = readEntry (nctTable s.nctPtr) id.toNat := by
    intro id hid
    rw [tegrablNctReadItem, hinit, if_neg (by decide), if_neg hid, if_neg (by decide)]
  constructor
  · intro h
    have hlast := h (UInt32.ofNat nctIdEnd) true
    rw [hread _ (by decide)] at hlast
    exact readEntry_ne_none_iff.mp hlast
  · rintro ⟨hindex, hdata⟩ id given
    rw [tegrablNctReadItem, hinit, if_neg (by decide)]
    by_cases hid : nctIdEnd < id.toNat
    · rw [if_pos hid]
      intro h
      cases h
    · rw [if_neg hid]
      cases given with
      | false => intro h; cases h
      | true =>
          rw [if_neg (by decide), readEntry_ne_none_iff]
          rcases Nat.lt_or_ge id.toNat nctIdEnd with hlt | hge
          · have hfirst : id.toNat * nctEntrySize + 4 + 0 ≤ _ := entry_before hlt hindex (by decide)
            exact ⟨hfirst, fun _ => entry_before hlt hindex (by decide)⟩
          · have heq : id.toNat = nctIdEnd := Nat.le_antisymm (Nat.le_of_not_lt hid) hge
            rw [heq]
            exact ⟨hindex, hdata⟩

theorem copyId_ne_none_iff (hid : id.length = nctMaxSpecLength) :
    copyId item id config ≠ none ↔ TextCloses nctSpecIdName item := by
  rw [copyId]
  rcases strstr_cases (show nctSpecIdName ≠ [] by decide) (by decide) item with
    ⟨hr, hno⟩ | ⟨hr, hyes, hnone⟩ | ⟨after, hr, hyes, hfinds⟩
  · rw [hr]
    exact ⟨fun h => absurd rfl h, fun h => absurd h.1 hno⟩
  · rw [hr]
    exact ⟨fun _ => ⟨hyes, fun after h => absurd h (hnone after)⟩, fun _ h => by cases h⟩
  · rw [hr]
    show Option.map _ (copyTo quote ((nctSpecIdName ++ after).drop nctSpecIdName.length) id) ≠ none
      ↔ _
    rw [List.drop_left, Ne, Option.map_eq_none_iff, ← Ne, copyTo_ne_none_iff, hid]
    constructor
    · intro h
      refine ⟨hyes, fun after' h' => ?_⟩
      rw [(hfinds after').mp h']
      exact h
    · rintro ⟨-, h⟩
      exact h after ((hfinds after).mpr rfl)

theorem copySpec_ne_none_iff (hid : id.length = nctMaxSpecLength)
    (hconfig : config.length = nctMaxSpecLength) :
    copySpec item id config ≠ none ↔ SpecCloses item := by
  rw [copySpec]
  rcases strstr_cases (show nctSpecCfgName ≠ [] by decide) (by decide) item with
    ⟨hr, hno⟩ | ⟨hr, hyes, hnone⟩ | ⟨after, hr, hyes, hfinds⟩
  · rw [hr]
    exact ⟨fun h => absurd rfl h, fun h => absurd h.1.1 hno⟩
  · rw [hr]
    refine ⟨fun _ => ⟨⟨hyes, fun after h => absurd h (hnone after)⟩, ?_⟩, fun _ h => by cases h⟩
    rintro ⟨after, h⟩
    exact absurd h (hnone after)
  · rw [hr]
    show Option.bind (copyTo quote ((nctSpecCfgName ++ after).drop nctSpecCfgName.length) config) _
      ≠ none ↔ _
    rw [List.drop_left]
    cases hcopy : copyTo quote after config with
    | none =>
        refine ⟨fun h => absurd rfl h, ?_⟩
        rintro ⟨⟨-, h⟩, -⟩
        have hclosed := h after ((hfinds after).mpr rfl)
        rw [← hconfig, ← copyTo_ne_none_iff] at hclosed
        exact absurd hcopy hclosed
    | some r =>
        have hclosed := copyTo_closed hcopy
        rw [hconfig] at hclosed
        show copyId item id r ≠ none ↔ _
        rw [copyId_ne_none_iff hid]
        constructor
        · intro h
          refine ⟨⟨hyes, fun after' h' => ?_⟩, fun _ => h⟩
          rw [(hfinds after').mp h']
          exact hclosed
        · rintro ⟨-, h⟩
          exact h ⟨after, (hfinds after).mpr rfl⟩

/-- What stands between the quotes arrives. -/
theorem copySpec_values (hid : id.length = nctMaxSpecLength)
    (hconfig : config.length = nctMaxSpecLength) (hv : Quoted nctSpecIdName item v)
    (hw : Quoted nctSpecCfgName item w) (hvlen : v.length < nctMaxSpecLength)
    (hwlen : w.length < nctMaxSpecLength) :
    copySpec item id config =
      some (.ok (), v ++ 0 :: id.drop (v.length + 1), w ++ 0 :: config.drop (w.length + 1)) := by
  obtain ⟨vrest, hvfinds, hvquote⟩ := hv
  obtain ⟨wrest, hwfinds, hwquote⟩ := hw
  have hcfg : strstr item nctSpecCfgName = some (some (nctSpecCfgName ++ (w ++ quote :: wrest))) := by
    rw [strstr, if_neg (by decide), hwfinds.strstrLoop (by decide) (by decide)]
  have hidn : strstr item nctSpecIdName = some (some (nctSpecIdName ++ (v ++ quote :: vrest))) := by
    rw [strstr, if_neg (by decide), hvfinds.strstrLoop (by decide) (by decide)]
  rw [copySpec, hcfg]
  show Option.bind (copyTo quote
    ((nctSpecCfgName ++ (w ++ quote :: wrest)).drop nctSpecCfgName.length) config) _ = _
  rw [List.drop_left, copyTo_append hwquote (hconfig ▸ hwlen)]
  show copyId item id _ = _
  rw [copyId, hidn]
  show Option.map _ (copyTo quote
    ((nctSpecIdName ++ (v ++ quote :: vrest)).drop nctSpecIdName.length) id) = _
  rw [List.drop_left, copyTo_append hvquote (hid ▸ hvlen)]
  rfl

/-- An initialised NCT is what the partition holds. -/
theorem tegrablNctInit_ok {bytes : List UInt8}
    (h : tegrablNctInit (.ok bytes) .boot = some (.ok (), s)) : s = ⟨true, bytes⟩ := by
  obtain ⟨magic, -, hmagic⟩ := Option.map_eq_some_iff.mp h
  by_cases hm : magic ≠ nctMagicId
  · rw [if_pos hm] at hmagic
    cases hmagic
  · rw [if_neg hm] at hmagic
    cases hmagic
    rfl

theorem readItem_spec (bytes : List UInt8) :
    tegrablNctReadItem ⟨true, bytes⟩ (UInt32.ofNat nctIdSpec) true =
      readEntry (nctTable bytes) nctIdSpec := rfl

/-- The spec's entry is there, and which data it has. -/
theorem readEntry_inside (h : TableInside nct) (hi : i < nctIdEnd) :
    readEntry (nctTable nct) i =
      some (if i = entryIndex nct i then .ok (entryData nct i)
        else .error (tegrablError .nct .badParameter 4)) := by
  have hfirst : i * nctEntrySize + 4 + 0 ≤ _ := entry_before hi h.1 (by decide)
  have hdata : i * nctEntrySize + nctEntryDataOffset + maxNctDataSize ≤ _ :=
    entry_before hi h.1 (by decide)
  rw [readEntry, readFrom, if_pos (show i * nctEntrySize + 4 ≤ _ from hfirst)]
  show (if i ≠ entryIndex nct i then _ else _) = _
  by_cases hindex : i = entryIndex nct i
  · rw [if_neg (not_not.mpr hindex), if_pos hindex, readFrom, if_pos hdata]
    rfl
  · rw [if_pos hindex, if_neg hindex]

theorem getSpec_ne_none_iff (h : TableInside nct) (hid : id.length = nctMaxSpecLength)
    (hconfig : config.length = nctMaxSpecLength) :
    tegrablNctGetSpec ⟨true, nct⟩ (some id) (some config) ≠ none ↔
      (nctIdSpec = entryIndex nct nctIdSpec → SpecCloses (entryData nct nctIdSpec)) := by
  rw [tegrablNctGetSpec, readItem_spec, readEntry_inside h (by decide)]
  by_cases hindex : nctIdSpec = entryIndex nct nctIdSpec
  · rw [if_pos hindex]
    show Option.map _ (copySpec (entryData nct nctIdSpec) id config) ≠ none ↔ _
    rw [Ne, Option.map_eq_none_iff, ← Ne, copySpec_ne_none_iff hid hconfig]
    exact ⟨fun h _ => h, fun h => h hindex⟩
  · rw [if_neg hindex]
    exact ⟨fun _ h => absurd h hindex, fun _ h => by cases h⟩

/-! ## A partition around an item -/

def specEntry (item : List UInt8) : List UInt8 :=
  [42, 0, 0, 0] ++ (List.replicate 8 0 ++ (item ++ List.replicate 4 0))

/-- Entries of zeros around that of the spec. -/
def tableWith (item : List UInt8) : List UInt8 :=
  List.replicate (nctIdSpec * nctEntrySize) 0 ++ (specEntry item ++ List.replicate nctEntrySize 0)

def partitionWith (item : List UInt8) : List UInt8 :=
  nctMagicId ++ List.replicate (nctEntryOffset - nctMagicId.length) 0 ++ tableWith item

theorem init_partitionWith (item : List UInt8) :
    tegrablNctInit (.ok (partitionWith item)) .boot = some (.ok (), ⟨true, partitionWith item⟩) := by
  have hmagic : readFrom (partitionWith item) 0 nctMagicId.length = some nctMagicId := by
    rw [readFrom, if_pos]
    · rw [List.drop_zero, partitionWith, List.append_assoc, List.take_left]
    · rw [Nat.zero_add, partitionWith, List.append_assoc, List.length_append]
      exact Nat.le_add_right _ _
  have hboot : ¬ Nct.boot.tegraNctInitialized = true := Bool.false_ne_true
  rw [tegrablNctInit, if_neg hboot]
  show Option.map _ (readFrom (partitionWith item) 0 nctMagicId.length) = _
  rw [hmagic]
  rfl

theorem length_tableWith (hlen : item.length = maxNctDataSize) :
    (tableWith item).length = 44 * nctEntrySize := by
  simp only [tableWith, specEntry, List.length_append, List.length_replicate, List.length_cons,
    List.length_nil, hlen]
  rfl

theorem nctTable_partitionWith (hlen : item.length = maxNctDataSize) :
    nctTable (partitionWith item) = tableWith item := by
  rw [nctTable, partitionWith, List.drop_left', List.take_of_length_le]
  · rw [length_tableWith hlen]
    decide
  · rw [List.length_append, List.length_replicate]
    rfl

theorem tableInside_partitionWith (hlen : item.length = maxNctDataSize) :
    TableInside (partitionWith item) := by
  rw [TableInside, nctTable_partitionWith hlen, length_tableWith hlen]
  exact ⟨by decide, fun _ => by decide⟩

theorem drop_tableWith (item : List UInt8) (off : Nat) :
    (tableWith item).drop (nctIdSpec * nctEntrySize + off) =
      (specEntry item ++ List.replicate nctEntrySize 0).drop off := by
  rw [← List.drop_drop, tableWith, List.drop_left' List.length_replicate]

theorem entryIndex_partitionWith (hlen : item.length = maxNctDataSize) :
    entryIndex (partitionWith item) nctIdSpec = nctIdSpec := by
  have hdrop := drop_tableWith item 0
  rw [Nat.add_zero, List.drop_zero] at hdrop
  rw [entryIndex, nctTable_partitionWith hlen, hdrop]
  rfl

theorem entryData_partitionWith (hlen : item.length = maxNctDataSize) :
    entryData (partitionWith item) nctIdSpec = item := by
  rw [entryData, nctTable_partitionWith hlen, drop_tableWith]
  show (item ++ List.replicate 4 0 ++ List.replicate nctEntrySize 0).take maxNctDataSize = item
  rw [List.append_assoc, List.take_left' hlen]

/-- Of a partition with an entry for it, the item decides. -/
theorem getSpec_partitionWith (hlen : item.length = maxNctDataSize)
    (hid : id.length = nctMaxSpecLength) (hconfig : config.length = nctMaxSpecLength) :
    tegrablNctGetSpec ⟨true, partitionWith item⟩ (some id) (some config) ≠ none ↔
      SpecCloses item := by
  rw [getSpec_ne_none_iff (tableInside_partitionWith hlen) hid hconfig,
    entryIndex_partitionWith hlen, entryData_partitionWith hlen]
  exact ⟨fun h => h rfl, fun h _ => h⟩

/-! ## The calls as a whole -/

/-- The calls keep to the table, the item and the buffers exactly when the table is
there and the item closes what is copied. -/
theorem nct_right_iff {bytes : List UInt8}
    (h : tegrablNctInit (.ok bytes) .boot = some (.ok (), s)) :
    NctRight s ↔ TableInside bytes ∧
      (nctIdSpec = entryIndex bytes nctIdSpec → SpecCloses (entryData bytes nctIdSpec)) := by
  rw [tegrablNctInit_ok h]
  have hreads := reads_iff (s := ⟨true, bytes⟩) rfl
  constructor
  · intro hright
    have htable := hreads.mp hright.reads
    exact ⟨htable, (getSpec_ne_none_iff htable List.length_replicate List.length_replicate).mp
      (hright.spec (List.replicate nctMaxSpecLength 0) (List.replicate nctMaxSpecLength 0)
        List.length_replicate List.length_replicate)⟩
  · rintro ⟨htable, hcloses⟩
    refine ⟨hreads.mpr htable, fun id config hid hconfig =>
      (getSpec_ne_none_iff htable hid hconfig).mpr hcloses, ?_⟩
    intro item hitem id config v w hid hconfig hv hw hvlen hwlen
    rw [tegrablNctGetSpec, hitem]
    show Option.map _ (copySpec item id config) = _
    rw [copySpec_values hid hconfig hv hw hvlen hwlen]
    rfl

/-- `"config":"A"`, `"id":"B"` and zeros. -/
def specAB : List UInt8 :=
  nctSpecCfgName ++ (0x41 :: quote :: (nctSpecIdName ++ 0x42 :: quote :: List.replicate 1004 0))

theorem nct_right_specAB : NctRight ⟨true, partitionWith specAB⟩ := by
  have hlen : specAB.length = maxNctDataSize := by
    simp only [specAB, List.length_append, List.length_replicate, List.length_cons, List.length_nil]
  have hzero : (0 : UInt8) ∈ List.replicate 1004 0 := List.mem_replicate.mpr ⟨by decide, rfl⟩
  have hend : (0 : UInt8) ∈ specAB :=
    List.mem_append_right _ (.tail _ (.tail _ (List.mem_append_right _ (.tail _ (.tail _ hzero)))))
  have hcfg : Finds nctSpecCfgName specAB
      (0x41 :: quote :: (nctSpecIdName ++ 0x42 :: quote :: List.replicate 1004 0)) := .here _
  have hidn : strstrLoop nctSpecIdName specAB =
      some (some (nctSpecIdName ++ 0x42 :: quote :: List.replicate 1004 0)) := rfl
  have hidn' : Finds nctSpecIdName specAB (0x42 :: quote :: List.replicate 1004 0) := by
    obtain ⟨after, hafter, hfinds⟩ := strstrLoop_finds hidn
    rw [List.append_cancel_left hafter]
    exact hfinds
  refine (nct_right_iff (init_partitionWith specAB)).mpr
    ⟨tableInside_partitionWith hlen, fun _ => ?_⟩
  rw [entryData_partitionWith hlen]
  refine ⟨⟨.inl hend, fun after h => ?_⟩, fun _ => ⟨.inl hend, fun after h => ?_⟩⟩
  · rw [hcfg.unique h (by decide) (by decide)]
    exact ⟨[0x41], _, rfl, by decide, by decide⟩
  · rw [hidn'.unique h (by decide) (by decide)]
    exact ⟨[0x42], _, rfl, by decide, by decide⟩

/-- `"config":"` and nothing but `x` behind it. -/
def openConfig : List UInt8 := nctSpecCfgName ++ List.replicate 1014 0x78

/-- The copy of the config runs over its buffer. -/
theorem open_config_overruns :
    tegrablNctInit (.ok (partitionWith openConfig)) .boot =
        some (.ok (), ⟨true, partitionWith openConfig⟩) ∧
      ¬ NctRight ⟨true, partitionWith openConfig⟩ := by
  have hlen : openConfig.length = maxNctDataSize := by
    simp only [openConfig, List.length_append, List.length_replicate, List.length_cons,
      List.length_nil]
  refine ⟨init_partitionWith openConfig, fun hright => ?_⟩
  have hspec := hright.spec (List.replicate nctMaxSpecLength 0) (List.replicate nctMaxSpecLength 0)
    List.length_replicate List.length_replicate
  rw [getSpec_partitionWith hlen List.length_replicate List.length_replicate] at hspec
  obtain ⟨v, rest, hv, -, -⟩ := hspec.1.2 (List.replicate 1014 0x78) (.here _)
  have hquote : quote ∈ List.replicate 1014 (0x78 : UInt8) := by
    rw [hv]
    exact List.mem_append_right v List.mem_cons_self
  cases List.eq_of_mem_replicate hquote

end TX2SecureUart.Update
