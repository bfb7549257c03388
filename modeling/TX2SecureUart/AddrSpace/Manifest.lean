/-
# `AddrSpace.Manifest` — two readers of the manifest

The configuration blob of an application is a sequence of entries, each a key and its
values.  `load_app_config_options` walks it when the application is loaded and stops the
kernel at what it does not know; `trusty_app_setup_mmio` walks it again for every request
to map a region, by rules of its own.
-/
import TX2SecureUart.Lib.LeBytes
import TX2SecureUart.AddrSpace.Pmm

namespace TX2SecureUart.AddrSpace

open Mask

/-! ## The program -/

/-- `TRUSTY_APP_CONFIG_KEY_MIN_STACK_SIZE` -/
def trustyAppConfigKeyMinStackSize : UInt32 := 1

/-- `TRUSTY_APP_CONFIG_KEY_MIN_HEAP_SIZE` -/
def trustyAppConfigKeyMinHeapSize : UInt32 := 2

/-- `DEFAULT_STACK_SIZE` -/
def defaultStackSize : UInt32 := 4096

/-- `trusty_app_props_t`, as far as the manifest goes; `config_entry_cnt` is the length of the
blob. -/
structure TrustyAppProps where
  uuid : List UInt8
  minStackSize : UInt32
  minHeapSize : UInt32
  mapIoMemCnt : UInt32
  configBlob : List UInt32
deriving DecidableEq

/-- One pass of the loop in `load_app_config_options`: where the next one starts, `none` where an
assertion fails. -/
def loadEntry (blob : List UInt32) (i : Nat) (props : TrustyAppProps) :
    Option (Nat × TrustyAppProps) :=
  if blob.getD i 0 = trustyAppConfigKeyMinStackSize then
    if 1 < blob.length - i ∧ 0 < roundUpPage32 (blob.getD (i + 1) 0) then
      some (i + 2, { props with minStackSize := roundUpPage32 (blob.getD (i + 1) 0) })
    else none
  else if blob.getD i 0 = trustyAppConfigKeyMinHeapSize then
    if 1 < blob.length - i ∧ 0 < roundUpPage32 (blob.getD (i + 1) 0) then
      some (i + 2, { props with minHeapSize := roundUpPage32 (blob.getD (i + 1) 0) })
    else none
  else if blob.getD i 0 = trustyAppConfigKeyMapMem then
    if 3 < blob.length - i then some (i + 4, { props with mapIoMemCnt := props.mapIoMemCnt + 1 })
    else none
  else none

/-- The loop, with where each entry starts. -/
def loadLoop (blob : List UInt32) : Nat → Nat → TrustyAppProps → Option (List Nat × TrustyAppProps)
  | 0, _, props => some ([], props)
  | passes + 1, i, props =>
      if i < blob.length then
        match loadEntry blob i props with
        | none => none
        | some (i', props') => (loadLoop blob passes i' props').map fun r => (i :: r.1, r.2)
      else some ([], props)

/-- The words behind the UUID. -/
def configWords (manifest : List UInt8) : List UInt32 :=
  (List.range ((manifest.length - 16) / 4)).map fun i =>
    UInt32.ofNat (leNat ((manifest.drop (16 + 4 * i)).take 4))

/-- `load_app_config_options` on a manifest section: where the entries start, and the
properties. -/
def loadAppConfigOptions (manifest : List UInt8) : Option (List Nat × TrustyAppProps) :=
  if 16 ≤ manifest.length then
    loadLoop (configWords manifest) (configWords manifest).length 0
      { uuid := manifest.take 16, minStackSize := defaultStackSize, minHeapSize := 4 * 4096
        mapIoMemCnt := 0, configBlob := configWords manifest }
  else none

/-- The walk of `trusty_app_setup_mmio`: the entries it comes to, and the region it finds; `none` where
it reads past the end. -/
def setupLoop (blob : List UInt32) (mmioId : UInt32) :
    Nat → Nat → Option (List Nat × Option (UInt32 × UInt32))
  | 0, _ => some ([], none)
  | passes + 1, i =>
      match blob[i]? with
      | none => some ([], none)
      | some key =>
          if key = trustyAppConfigKeyMapMem then
            match blob[i + 1]?, blob[i + 2]?, blob[i + 3]? with
            | some id, some offset, some size =>
                if id = mmioId then some ([i], some (offset, size))
                else (setupLoop blob mmioId passes (i + 4)).map fun r => (i :: r.1, r.2)
            | _, _, _ => none
          else (setupLoop blob mmioId passes (i + 2)).map fun r => (i :: r.1, r.2)

/-! ## The entries -/

inductive ConfigEntry where
  | minStackSize (size : UInt32)
  | minHeapSize (size : UInt32)
  | mapMem (id offset size : UInt32)
deriving DecidableEq

def ConfigEntry.words : ConfigEntry → List UInt32
  | .minStackSize size => [trustyAppConfigKeyMinStackSize, size]
  | .minHeapSize size => [trustyAppConfigKeyMinHeapSize, size]
  | .mapMem id offset size => [trustyAppConfigKeyMapMem, id, offset, size]

/-- The region of an entry for this id. -/
def ConfigEntry.region (mmioId : UInt32) : ConfigEntry → Option (UInt32 × UInt32)
  | .mapMem id offset size => if id = mmioId then some (offset, size) else none
  | _ => none

/-- Where the entries start, from `i` on. -/
def startsOf : Nat → List ConfigEntry → List Nat
  | _, [] => []
  | i, e :: es => i :: startsOf (i + e.words.length) es

/-- The words of some entries. -/
def wordsOf (es : List ConfigEntry) : List UInt32 := es.flatMap ConfigEntry.words

theorem ConfigEntry.words_pos (e : ConfigEntry) : 0 < e.words.length := by
  cases e with
  | minStackSize size => exact Nat.succ_pos _
  | minHeapSize size => exact Nat.succ_pos _
  | mapMem id offset size => exact Nat.succ_pos _

theorem drop_two {blob : List UInt32} {i : Nat} (h : 1 < blob.length - i) :
    blob.drop i = blob.getD i 0 :: blob.getD (i + 1) 0 :: blob.drop (i + 2) := by
  rw [List.drop_eq_getElem_cons (by omega), List.drop_eq_getElem_cons (show i + 1 < blob.length by omega),
    List.getD_eq_getElem, List.getD_eq_getElem]

/-- A pass that is accepted takes one entry. -/
theorem loadEntry_entry {blob : List UInt32} {i i' : Nat} {props props' : TrustyAppProps}
    (h : loadEntry blob i props = some (i', props')) :
    props'.configBlob = props.configBlob ∧
      ∃ e : ConfigEntry, blob.drop i = e.words ++ blob.drop i' ∧ i' = i + e.words.length := by
  unfold loadEntry at h
  split at h
  · next hkey =>
    split at h
    · next hroom =>
      cases h
      refine ⟨rfl, .minStackSize (blob.getD (i + 1) 0), ?_, rfl⟩
      rw [drop_two hroom.1, hkey]
      rfl
    · cases h
  · split at h
    · next hkey =>
      split at h
      · next hroom =>
        cases h
        refine ⟨rfl, .minHeapSize (blob.getD (i + 1) 0), ?_, rfl⟩
        rw [drop_two hroom.1, hkey]
        rfl
      · cases h
    · split at h
      · next hkey =>
        split at h
        · next hroom =>
          cases h
          refine ⟨rfl,
            .mapMem (blob.getD (i + 1) 0) (blob.getD (i + 2) 0) (blob.getD (i + 3) 0), ?_, rfl⟩
          rw [drop_two (by omega), drop_two (show 1 < blob.length - (i + 2) by omega), hkey]
          rfl
        · cases h
      · cases h

/-- A blob that is accepted is a sequence of entries. -/
theorem loadLoop_entries {blob : List UInt32} {passes i : Nat} {props props' : TrustyAppProps}
    {starts : List Nat} (hpasses : blob.length - i ≤ passes)
    (h : loadLoop blob passes i props = some (starts, props')) :
    props'.configBlob = props.configBlob ∧ ∃ es, blob.drop i = wordsOf es ∧ starts = startsOf i es := by
  induction passes generalizing i props starts with
  | zero =>
    cases h
    exact ⟨rfl, [], List.drop_eq_nil_of_le (by omega), rfl⟩
  | succ passes ih =>
    rw [loadLoop] at h
    split at h
    · next hlt =>
      cases hentry : loadEntry blob i props with
      | none =>
        rw [hentry] at h
        cases h
      | some r =>
        obtain ⟨i', next⟩ := r
        rw [hentry] at h
        obtain ⟨rest, hrest, hr⟩ := Option.map_eq_some_iff.mp h
        cases hr
        obtain ⟨hblob, e, hwords, rfl⟩ := loadEntry_entry hentry
        have hpos := e.words_pos
        obtain ⟨hblobs, es, hes, hstarts⟩ := ih (by omega) hrest
        refine ⟨hblobs.trans hblob, e :: es, ?_, ?_⟩
        · rw [hwords, hes]
          rfl
        · rw [hstarts]
          rfl
    · next hge =>
      cases h
      exact ⟨rfl, [], List.drop_eq_nil_of_le (by omega), rfl⟩

/-! ## The second walk -/

/-- The region of the first entry for this id. -/
def regionOf (mmioId : UInt32) (es : List ConfigEntry) : Option (UInt32 × UInt32) :=
  es.findSome? (ConfigEntry.region mmioId)

theorem getElem?_words {blob ws rest : List UInt32} {i : Nat} (h : blob.drop i = ws ++ rest) (j : Nat)
    (hj : j < ws.length) : blob[i + j]? = ws[j]? := by
  rw [← List.getElem?_drop, h, List.getElem?_append_left hj]

theorem drop_words {blob ws rest : List UInt32} {i : Nat} (h : blob.drop i = ws ++ rest) :
    blob.drop (i + ws.length) = rest := by
  rw [← List.drop_drop, h, List.drop_left]

/-- Over entries the second walk comes to the same places as the first, as far as it goes, and finds
the first entry for the id. -/
theorem setupLoop_entries {blob : List UInt32} (mmioId : UInt32) {es : List ConfigEntry} {passes i : Nat}
    (hpasses : blob.length - i < passes) (h : blob.drop i = wordsOf es) :
    ∃ visited, setupLoop blob mmioId passes i = some (visited, regionOf mmioId es) ∧
      visited <+: startsOf i es ∧ (regionOf mmioId es = none → visited = startsOf i es) := by
  induction es generalizing passes i with
  | nil =>
    cases passes with
    | zero => exact absurd hpasses (Nat.not_lt_zero _)
    | succ passes =>
      have hend : blob[i]? = none := by
        rw [List.getElem?_eq_none_iff]
        exact List.drop_eq_nil_iff.mp h
      refine ⟨[], ?_, List.prefix_rfl, fun _ => rfl⟩
      rw [setupLoop, hend]
      rfl
  | cons e es ih =>
    cases passes with
    | zero => exact absurd hpasses (Nat.not_lt_zero _)
    | succ passes =>
      have hwords : blob.drop i = e.words ++ wordsOf es := h
      have hget := getElem?_words hwords
      have hlen : e.words.length ≤ blob.length - i := by
        rw [← List.length_drop, hwords, List.length_append]
        exact Nat.le_add_right _ _
      have hpos := e.words_pos
      obtain ⟨visited, hrun, hprefix, hall⟩ :=
        @ih passes _ (by omega) (drop_words hwords)
      have hskip : ∀ key, blob[i]? = some key → key ≠ trustyAppConfigKeyMapMem → e.words.length = 2 →
          e.region mmioId = none → ∃ visited,
            setupLoop blob mmioId (passes + 1) i = some (visited, regionOf mmioId (e :: es)) ∧
              visited <+: startsOf i (e :: es) ∧
              (regionOf mmioId (e :: es) = none → visited = startsOf i (e :: es)) := by
        intro key hkey hne htwo hregion
        have hrest : regionOf mmioId (e :: es) = regionOf mmioId es := by
          rw [regionOf, List.findSome?_cons, hregion]
          rfl
        refine ⟨i :: visited, ?_, ?_, ?_⟩
        · rw [htwo] at hrun
          rw [setupLoop, hkey, hrest]
          show (if key = trustyAppConfigKeyMapMem then _ else _) = _
          rw [if_neg hne, hrun]
          rfl
        · exact List.cons_prefix_cons.mpr ⟨rfl, hprefix⟩
        · intro hnone
          rw [hrest] at hnone
          rw [hall hnone]
          rfl
      cases e with
      | minStackSize size => exact hskip _ (hget 0 hpos) (by decide) rfl rfl
      | minHeapSize size => exact hskip _ (hget 0 hpos) (by decide) rfl rfl
      | mapMem id offset size =>
        have hstep : setupLoop blob mmioId (passes + 1) i =
            if id = mmioId then some ([i], some (offset, size))
            else (setupLoop blob mmioId passes (i + 4)).map fun r => (i :: r.1, r.2) := by
          have hfour : (ConfigEntry.mapMem id offset size).words.length = 4 := rfl
          rw [setupLoop, show blob[i]? = _ from hget 0 hpos, hget 1 (by omega), hget 2 (by omega),
            hget 3 (by omega)]
          rfl
        by_cases hid : id = mmioId
        · have hfound : regionOf mmioId (.mapMem id offset size :: es) = some (offset, size) := by
            rw [regionOf, List.findSome?_cons, ConfigEntry.region, if_pos hid]
          refine ⟨[i], ?_, ?_, ?_⟩
          · rw [hstep, if_pos hid, hfound]
          · exact List.cons_prefix_cons.mpr ⟨rfl, List.nil_prefix⟩
          · rw [hfound]
            intro hnone
            cases hnone
        · have hrest : regionOf mmioId (.mapMem id offset size :: es) = regionOf mmioId es := by
            rw [regionOf, List.findSome?_cons, ConfigEntry.region, if_neg hid]
            rfl
          refine ⟨i :: visited, ?_, ?_, ?_⟩
          · rw [hstep, if_neg hid, show i + 4 = i + (ConfigEntry.mapMem id offset size).words.length from rfl,
              hrun, hrest]
            rfl
          · exact List.cons_prefix_cons.mpr ⟨rfl, hprefix⟩
          · intro hnone
            rw [hrest] at hnone
            rw [hall hnone]
            rfl

theorem mmioRegion_skip (mmioId : UInt32) {key : UInt32} (hkey : (key == trustyAppConfigKeyMapMem) = false)
    (a : UInt32) (rest : List UInt32) :
    mmioRegion mmioId (key :: a :: rest) = mmioRegion mmioId rest := by
  rw [mmioRegion.eq_def]
  simp only [hkey, Bool.false_eq_true, if_false]

/-- The model of the request finds the same region. -/
theorem mmioRegion_wordsOf (mmioId : UInt32) (es : List ConfigEntry) :
    mmioRegion mmioId (wordsOf es) = regionOf mmioId es := by
  induction es with
  | nil => rfl
  | cons e es ih =>
    cases e with
    | minStackSize size =>
      exact (mmioRegion_skip mmioId (by decide) size (wordsOf es)).trans ih
    | minHeapSize size =>
      exact (mmioRegion_skip mmioId (by decide) size (wordsOf es)).trans ih
    | mapMem id offset size =>
      show (if id == mmioId then some (offset, size) else mmioRegion mmioId (wordsOf es)) = _
      rw [regionOf, List.findSome?_cons, ConfigEntry.region]
      by_cases hid : id = mmioId
      · rw [if_pos hid, if_pos (beq_iff_eq.mpr hid)]
      · rw [if_neg hid, if_neg (fun h => hid (beq_iff_eq.mp h)), ih]
        rfl

theorem regionOf_some {mmioId offset size : UInt32} {es : List ConfigEntry}
    (h : regionOf mmioId es = some (offset, size)) : ConfigEntry.mapMem mmioId offset size ∈ es := by
  obtain ⟨e, he, hregion⟩ := List.exists_of_findSome?_eq_some h
  cases e with
  | minStackSize size => cases hregion
  | minHeapSize size => cases hregion
  | mapMem id o sz =>
    rw [ConfigEntry.region] at hregion
    split at hregion
    · next hid =>
      cases hregion
      rw [← hid]
      exact he
    · cases hregion

theorem regionOf_none {mmioId : UInt32} {es : List ConfigEntry} (h : regionOf mmioId es = none)
    (offset size : UInt32) : ConfigEntry.mapMem mmioId offset size ∉ es := by
  intro hmem
  have := List.findSome?_eq_none_iff.mp h _ hmem
  rw [ConfigEntry.region, if_pos rfl] at this
  cases this

end TX2SecureUart.AddrSpace
