/-
# `Loader.Image` — app images, and parsing one where it lies

What the loader makes of an app depends on the bytes of the app only: parsing
it in the middle of the memory has the result of parsing it alone
(`framed_parseApp`).  A `TaskImage` is an image on which that parse asserts
nothing false and reads nothing outside.
-/
import TX2SecureUart.Loader.Bootloader

namespace TX2SecureUart.Loader

open Prog Region

/-! ## Parsing in place -/

variable {b : Nat}

theorem framed_field (ptr k n : Nat) : Framed b (field 0 ptr k n) (field b ptr k n) := by
  rw [field, field, Nat.zero_add]
  exact framed_readLe n (ptr + k)

theorem framed_strcmp (p : Nat) (s : List UInt8) :
    Framed b (strcmp (0 + p) s : ImageM Bool) (strcmp (b + p) s) := by
  rw [Nat.zero_add]
  exact framed_matchBytes p (s ++ [0])

theorem framed_trackSection (shstbl shdr : Nat) (r : Scan) :
    Framed b (trackSection 0 shstbl shdr r) (trackSection b shstbl shdr r) := by
  refine (framed_field shdr 0 4).bind ?_
  intro name
  refine (framed_strcmp _ bssName).bind ?_
  intro isBss
  refine framed_ite Iff.rfl ?_ ?_
  · intro _
    refine (framed_field shdr 12 4).bind ?_
    intro addr
    refine (framed_field shdr 20 4).bind ?_
    intro size
    exact framed_pure _
  · intro _
    refine (framed_strcmp _ bssPadName).bind ?_
    intro isPad
    refine framed_ite Iff.rfl (fun _ => framed_pure _) ?_
    intro _
    refine (framed_strcmp _ manifestName).bind ?_
    intro isManifest
    exact framed_ite Iff.rfl (fun _ => framed_pure _) (fun _ => framed_pure _)

theorem framed_trackExtent (shdr : Nat) (r : Scan) :
    Framed b (trackExtent 0 shdr r) (trackExtent b shdr r) := by
  refine (framed_field shdr 4 4).bind ?_
  intro type
  refine framed_ite Iff.rfl (fun _ => framed_pure _) ?_
  intro _
  refine (framed_field shdr 16 4).bind ?_
  intro offset
  refine (framed_field shdr 20 4).bind ?_
  intro size
  exact framed_pure _

theorem framed_scanSection (shstbl shdr : Nat) (r : Scan) :
    Framed b (scanSection 0 shstbl shdr r) (scanSection b shstbl shdr r) := by
  refine (framed_field shdr 4 4).bind ?_
  intro type
  refine framed_ite Iff.rfl (fun _ => framed_pure _) ?_
  intro _
  refine (framed_trackSection shstbl shdr r).bind ?_
  intro r'
  exact framed_trackExtent shdr r'

theorem framed_scanLoop (shstbl n shdr : Nat) (r : Scan) :
    Framed b (scanLoop 0 shstbl n shdr r) (scanLoop b shstbl n shdr r) := by
  induction n generalizing shdr r with
  | zero => exact framed_pure r
  | succ n ih =>
      refine (framed_scanSection shstbl shdr r).bind ?_
      intro r'
      exact ih _ r'

theorem framed_sections (r : Scan) : Framed b r.sections r.sections := by
  rw [Scan.sections]
  split
  · exact framed_pure _
  · exact framed_throw _ _

theorem framed_scanSections : Framed b (scanSections 0) (scanSections b) := by
  refine (framed_field 0 32 4).bind ?_
  intro shdr
  refine (framed_field 0 50 2).bind ?_
  intro shstrndx
  refine (framed_field _ 16 4).bind ?_
  intro shstbl
  refine (framed_field 0 48 2).bind ?_
  intro shnum
  refine (framed_scanLoop shstbl shnum shdr _).bind ?_
  intro r
  exact framed_sections r

theorem framed_clearBss (s : Sections) : Framed b (clearBss 0 s) (clearBss b s) := by
  refine (framed_field s.bssShdr 16 4).bind ?_
  intro offset
  refine (framed_field s.bssShdr 20 4).bind ?_
  intro size
  refine framed_check id ?_
  intro _
  rw [Nat.zero_add]
  exact framed_fill 0 offset size

theorem framed_configEntry (blob i : Nat) :
    Framed b (configEntry 0 blob i) (configEntry b blob i) := framed_field blob (4 * i) 4

theorem framed_configLoop (blob n i : Nat) (props : TrustyAppProps) :
    Framed b (configLoop 0 blob n i props) (configLoop b blob n i props) := by
  induction n generalizing i props with
  | zero => exact framed_pure props
  | succ n ih =>
      refine framed_ite Iff.rfl (fun _ => framed_pure _) ?_
      intro _
      refine (framed_configEntry blob i).bind ?_
      intro key
      refine framed_ite Iff.rfl ?_ ?_
      · intro _
        refine framed_check id ?_
        intro _
        refine (framed_configEntry blob (i + 1)).bind ?_
        intro v
        refine framed_check id ?_
        intro _
        exact ih _ _
      · intro _
        refine framed_ite Iff.rfl ?_ ?_
        · intro _
          refine framed_check id ?_
          intro _
          refine (framed_configEntry blob (i + 1)).bind ?_
          intro v
          refine framed_check id ?_
          intro _
          exact ih _ _
        · intro _
          refine framed_ite Iff.rfl ?_ (fun _ => framed_throw _ _)
          intro _
          refine framed_check id ?_
          intro _
          exact ih _ _

theorem framed_loadAppConfigOptions (shdr taskVmid : Nat) :
    Framed b (loadAppConfigOptions 0 shdr taskVmid) (loadAppConfigOptions b shdr taskVmid) := by
  refine (framed_field shdr 20 4).bind ?_
  intro size
  refine framed_check id ?_
  intro _
  refine (framed_field shdr 16 4).bind ?_
  intro manifestData
  have huuid : Framed b (readBytes (0 + manifestData) sizeofUuid : ImageM (List UInt8))
      (readBytes (b + manifestData) sizeofUuid) := by
    rw [Nat.zero_add]
    exact framed_readBytes manifestData sizeofUuid
  refine huuid.bind ?_
  intro uuid
  exact framed_configLoop _ _ _ _

/-- In place there is at least as much of the image left as when it is alone. -/
theorem framed_nextAppStart {len imageEnd : Nat} (padHdr maxExtent : Nat)
    (h : b + len ≤ imageEnd) :
    Framed b (nextAppStart 0 padHdr maxExtent len) (nextAppStart b padHdr maxExtent imageEnd) := by
  refine (framed_field 0 32 4).bind ?_
  intro shoff
  refine framed_check id ?_
  intro _
  refine (framed_field 0 48 2).bind ?_
  intro shnum
  refine (framed_field 0 46 2).bind ?_
  intro shentsize
  refine framed_check (by omega) ?_
  intro _
  refine (framed_field padHdr 16 4).bind ?_
  intro offset
  refine (framed_field padHdr 20 4).bind ?_
  intro size
  exact framed_check id (fun _ => framed_pure _)

/-- The result does not depend on where the image lies. -/
theorem framed_parseApp {len imageEnd : Nat} (taskVmid : Nat) (h : b + len ≤ imageEnd) :
    Framed b (parseApp 0 len taskVmid) (parseApp b imageEnd taskVmid) := by
  refine framed_scanSections.bind ?_
  intro s
  refine (framed_clearBss s).bind ?_
  intro _
  refine (framed_loadAppConfigOptions s.manifestShdr taskVmid).bind ?_
  intro props
  refine (framed_nextAppStart s.bssPadShdr s.maxExtent h).bind ?_
  intro next
  exact framed_pure _

/-! ## The vmid

The vmid passes through the parse: it is the one thing in the result that is not
from the image. -/

def TrustyAppProps.setVmid (v : Nat) (props : TrustyAppProps) : TrustyAppProps :=
  { props with vmid := v }

def Parsed.setVmid (v : Nat) (p : Parsed) : Parsed := { p with props := p.props.setVmid v }

@[simp] theorem configEntryCnt_setVmid (v : Nat) (props : TrustyAppProps) :
    (props.setVmid v).configEntryCnt = props.configEntryCnt := rfl

theorem map_ite {α β : Type} {c : Prop} [Decidable c] (f : α → β) (m n : ImageM α) :
    f <$> (if c then m else n) = if c then f <$> m else f <$> n := by
  split <;> rfl

theorem map_panicAssert {α β : Type} (f : α → β) :
    f <$> (panicAssert : ImageM α) = panicAssert := rfl

theorem configLoop_setVmid (ehdr blob n i v : Nat) (props : TrustyAppProps) :
    configLoop ehdr blob n i (props.setVmid v) =
      TrustyAppProps.setVmid v <$> configLoop ehdr blob n i props := by
  induction n generalizing i props with
  | zero => rfl
  | succ n ih =>
      simp only [configLoop, configEntryCnt_setVmid, map_ite, map_bind, map_pure, map_panicAssert]
      refine ite_congr rfl (fun _ => rfl) ?_
      intro _
      refine bind_congr ?_
      intro key
      refine ite_congr rfl ?_ ?_
      · intro _
        refine ite_congr rfl (fun _ => rfl) ?_
        intro _
        refine bind_congr ?_
        intro w
        exact ite_congr rfl (fun _ => rfl)
          (fun _ => ih _ { props with minStackSize := roundup w 4096 })
      · intro _
        refine ite_congr rfl ?_ ?_
        · intro _
          refine ite_congr rfl (fun _ => rfl) ?_
          intro _
          refine bind_congr ?_
          intro w
          exact ite_congr rfl (fun _ => rfl)
            (fun _ => ih _ { props with minHeapSize := roundup w 4096 })
        · intro _
          refine ite_congr rfl ?_ (fun _ => rfl)
          intro _
          exact ite_congr rfl (fun _ => rfl)
            (fun _ => ih _ { props with mapIoMemCnt := props.mapIoMemCnt + 1 })

theorem loadAppConfigOptions_setVmid (ehdr shdr v : Nat) :
    loadAppConfigOptions ehdr shdr v =
      TrustyAppProps.setVmid v <$> loadAppConfigOptions ehdr shdr 0 := by
  simp only [loadAppConfigOptions, map_ite, map_bind, map_panicAssert]
  refine bind_congr ?_
  intro size
  refine ite_congr rfl (fun _ => rfl) ?_
  intro _
  refine bind_congr ?_
  intro manifestData
  refine bind_congr ?_
  intro uuid
  rw [← configLoop_setVmid]
  rfl

theorem parseApp_setVmid (ehdr imageEnd v : Nat) :
    parseApp ehdr imageEnd v = Parsed.setVmid v <$> parseApp ehdr imageEnd 0 := by
  simp only [parseApp, map_bind, map_pure]
  refine bind_congr ?_
  intro s
  refine bind_congr ?_
  intro _
  rw [loadAppConfigOptions_setVmid, bind_map_left]
  rfl

/-! ## Images -/

/-- The header that the bind step puts before an app. -/
structure GuestHeader where
  /-- what follows the magic string -/
  text : List UInt8
  length_text : text.length = nvGuestTaskHeadSize - nvGuestTaskMagicIdLen
  value : Nat
  converts : strtoul text = some (value, 0)

def GuestHeader.bytes (h : GuestHeader) : List UInt8 := nvGuestTaskMagicStr ++ [0] ++ h.text

def GuestHeader.vmid (h : GuestHeader) : Nat := h.value % 2 ^ 32

@[simp] theorem GuestHeader.length_bytes (h : GuestHeader) :
    h.bytes.length = nvGuestTaskHeadSize := by
  rw [bytes, List.length_append, h.length_text]
  rfl

/-- `sh_offset + sh_size` of the section that is cleared. -/
def readBssEnd (ehdr : Nat) : ImageM Nat := do
  let s ← scanSections ehdr
  let offset ← shOffset ehdr s.bssShdr
  let size ← shSize ehdr s.bssShdr
  pure (offset + size)

def bssEnd (elf : List UInt8) : Option Nat := valueOf (readBssEnd 0 elf)

/-- What the loader makes of an app that is alone in the memory. -/
def parseAlone (elf : List UInt8) : EStateM.Result (Stop Panic) (List UInt8) Parsed :=
  parseApp 0 elf.length 0 elf

/-- Alone, the app passes the `ASSERT`s and is all that the loader looks at.
The one access that may leave it is the clearing of a `.bss` whose `ASSERT`
passes because its sum has wrapped. -/
def Accepted (elf : List UInt8) : Prop :=
  (∃ p, valueOf (parseAlone elf) = some p ∧ p.fsizeStart = elf.length) ∨
    (faultOf (parseAlone elf) = some .writeOutside ∧ ∃ n, bssEnd elf = some n ∧ 2 ^ 32 ≤ n)

/-- An app in the image, as it was linked. -/
structure TaskImage where
  header : Option GuestHeader
  elf : List UInt8
  ident : elf.take 4 = elfmag
  accepted : Accepted elf

namespace TaskImage

def bytes (img : TaskImage) : List UInt8 :=
  match img.header with
  | none => img.elf
  | some h => h.bytes ++ img.elf

/-- The vmid of its own header, or 0. -/
def vmid (img : TaskImage) : Nat :=
  match img.header with
  | none => 0
  | some h => h.vmid

/-- How far the bytes after the app move down. -/
def gap (img : TaskImage) : Nat :=
  match valueOf (parseAlone img.elf) with
  | none => 0
  | some p => p.fsizeStart - p.alignStart

end TaskImage

/-- The apps, one after the other. -/
def imageBytes (images : List TaskImage) : List UInt8 := images.flatMap TaskImage.bytes

@[simp] theorem imageBytes_nil : imageBytes [] = [] := rfl

@[simp] theorem imageBytes_cons (img : TaskImage) (images : List TaskImage) :
    imageBytes (img :: images) = img.bytes ++ imageBytes images := rfl

variable {img : TaskImage}

theorem TaskImage.elf_eq (img : TaskImage) : ∃ tail, img.elf = elfmag ++ tail :=
  ⟨img.elf.drop 4, by rw [← img.ident, List.take_append_drop]⟩

theorem TaskImage.bytes_ne_nil (img : TaskImage) : 0 < img.bytes.length := by
  obtain ⟨tail, htail⟩ := img.elf_eq
  unfold bytes
  split
  · rw [htail]
    exact Nat.succ_pos _
  · rw [htail, List.length_append, List.length_append]
    exact Nat.add_pos_right _ (Nat.add_pos_left (Nat.succ_pos 3) _)

theorem TaskImage.length_elf_le (img : TaskImage) : img.elf.length ≤ img.bytes.length := by
  unfold bytes
  split
  · exact Nat.le_refl _
  · rw [List.length_append]
    exact Nat.le_add_left _ _

/-! ## Parsing an image among others -/

/-- The last `ASSERT` of `align_next_app`. -/
theorem parseApp_ordered (ehdr imageEnd v : Nat) (mem : List UInt8) :
    wp (parseApp ehdr imageEnd v) (fun (p : Parsed) _ => p.alignStart ≤ p.fsizeStart) anyStop
      mem := by
  refine wp_seq (wp_any _ _) ?_
  intro s _ _
  refine wp_seq (wp_any _ _) ?_
  intro _ _ _
  refine wp_seq (wp_any _ _) ?_
  intro props mem' _
  have hnext : wp (nextAppStart ehdr s.bssPadShdr s.maxExtent imageEnd)
      (fun next _ => next.1 ≤ next.2) anyStop mem' := by
    refine wp_seq (wp_any _ _) ?_
    intro shoff _ _
    split
    · trivial
    · refine wp_seq (wp_any _ _) ?_
      intro shnum _ _
      refine wp_seq (wp_any _ _) ?_
      intro shentsize _ _
      dsimp only
      split
      · trivial
      · refine wp_seq (wp_any _ _) ?_
        intro offset _ _
        refine wp_seq (wp_any _ _) ?_
        intro size _ _
        split
        · trivial
        · next h => exact Nat.le_of_not_lt h
  refine wp_seq hnext ?_
  intro next _ h
  exact h

/-- An app whose `.bss` ends below 4 GiB is parsed alone. -/
theorem TaskImage.parse_alone (img : TaskImage)
    (hbss : ∀ n, bssEnd img.elf = some n → n < 2 ^ 32) :
    ∃ p, valueOf (parseAlone img.elf) = some p ∧ p.fsizeStart = img.elf.length := by
  rcases img.accepted with h | ⟨_, n, hn, hwraps⟩
  · exact h
  · exact absurd (hbss n hn) (Nat.not_lt_of_le hwraps)

/-- In the memory the app is parsed as it is alone, and what lies around it is
as it was. -/
theorem TaskImage.parse_inPlace (img : TaskImage) (pre post : List UInt8) {imageEnd : Nat}
    (v : Nat) (hbss : ∀ n, bssEnd img.elf = some n → n < 2 ^ 32)
    (hend : pre.length + img.elf.length ≤ imageEnd) :
    ∃ p cleared, valueOf (parseAlone img.elf) = some p ∧ p.fsizeStart = img.elf.length ∧
      p.alignStart ≤ p.fsizeStart ∧ cleared.length = img.elf.length ∧
      parseApp pre.length imageEnd v (pre ++ img.elf ++ post) =
        .ok (p.setVmid v) (pre ++ cleared ++ post) := by
  obtain ⟨p, hp, hsize⟩ := img.parse_alone hbss
  have hrun := eq_ok_of_valueOf hp
  obtain ⟨hplace, hlen⟩ := framed_parseApp 0 hend pre img.elf _ post p rfl hrun
  refine ⟨p, _, hp, hsize, ?_, hlen, ?_⟩
  · exact (wp_ok (parseApp_ordered 0 img.elf.length 0 img.elf) hrun :)
  · rw [parseApp_setVmid, map_eq_pure_bind, run_bind, hplace]
    rfl

/-- A `.bss` that ends at 4 GiB or above reaches beyond a smaller memory. -/
theorem clearBss_wraps {ehdr offset size : Nat} {s : Sections} {mem mem₁ mem₂ : List UInt8}
    (hoffset : shOffset ehdr s.bssShdr mem = .ok offset mem₁)
    (hsize : shSize ehdr s.bssShdr mem₁ = .ok size mem₂) (hwraps : 2 ^ 32 ≤ offset + size)
    (hmem : mem₂.length < 2 ^ 32) : valueOf (clearBss ehdr s mem) = none := by
  have hlt : offset < 256 ^ 4 := (wp_ok (readLe_lt 4 _) hoffset :)
  have hpos : 0 < size := by omega
  have hout : mem₂.length < ehdr + offset + size := by omega
  obtain ⟨t, hfill⟩ : ∃ t, (fill 0 (ehdr + offset) size : ImageM Unit) mem₂ = _ :=
    fill_outside hpos hout
  rw [clearBss, run_bind, hoffset]
  dsimp only
  rw [run_bind, hsize]
  dsimp only
  rw [run_ite, hfill]
  split <;> rfl

/-- An app whose `.bss` ends at 4 GiB or above is not parsed. -/
theorem TaskImage.parse_wraps (img : TaskImage) (pre post : List UInt8) (imageEnd v : Nat) {n : Nat}
    (hn : bssEnd img.elf = some n) (hwraps : 2 ^ 32 ≤ n)
    (hmem : (pre ++ img.elf ++ post).length < 2 ^ 32) :
    valueOf (parseApp pre.length imageEnd v (pre ++ img.elf ++ post)) = none := by
  have hrun := eq_ok_of_valueOf hn
  rw [readBssEnd, run_bind] at hrun
  cases hscan : scanSections 0 img.elf with
  | error e t =>
      rw [hscan] at hrun
      cases hrun
  | ok s elf₁ =>
      obtain ⟨hscan', hlen₁⟩ := framed_scanSections pre _ _ post s rfl hscan
      rw [hscan] at hrun
      dsimp only at hrun
      rw [run_bind] at hrun
      cases hoffset : shOffset 0 s.bssShdr elf₁ with
      | error e t =>
          rw [hoffset] at hrun
          cases hrun
      | ok offset elf₂ =>
          obtain ⟨hoffset', hlen₂⟩ := framed_field _ 16 4 pre _ _ post offset rfl hoffset
          rw [hoffset] at hrun
          dsimp only at hrun
          rw [run_bind] at hrun
          cases hsize : shSize 0 s.bssShdr elf₂ with
          | error e t =>
              rw [hsize] at hrun
              cases hrun
          | ok size elf₃ =>
              obtain ⟨hsize', hlen₃⟩ := framed_field _ 20 4 pre _ _ post size rfl hsize
              rw [hsize] at hrun
              cases hrun
              have hmem' : (pre ++ elf₃ ++ post).length < 2 ^ 32 := by
                simp only [List.length_append] at hmem ⊢
                omega
              rw [parseApp, run_bind, hscan']
              dsimp only
              exact valueOf_bind (clearBss_wraps hoffset' hsize' hwraps hmem')

end TX2SecureUart.Loader
