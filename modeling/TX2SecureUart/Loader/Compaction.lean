/-
# `Loader.Compaction` — every app is loaded once, as it was linked

The loader stands at the apps that are still to come (`At`).  A pass takes the
guest header away, parses the app in place and closes the gap behind it, so
that it stands at the rest (`wp_bootloaderPass`).  Over a whole image this
loads every app, unless the image is of a kind that the arithmetic of the
loader does not hold.  The vmid is another matter: `task_vmid` is set by a
header only, so that an app without one gets that of the last header before it.
-/
import TX2SecureUart.Loader.Image

namespace TX2SecureUart.Loader

open Prog Region

/-- The size is that of what is left of the image. -/
def Cursor.Exact (c : Cursor) : Prop := c.imageAddr + c.imageSize = c.imageEnd

/-- The app was parsed with its own bytes under the cursor, and got this vmid. -/
structure Visited (img : TaskImage) (vmid : Nat) (v : Visit) (app : TrustyApp) : Prop where
  head : v.head.Exact
  cursor : v.cursor.Exact
  bytes : (v.mem.drop v.cursor.imageAddr).take img.elf.length = img.elf
  entry : ∃ p, valueOf (parseAlone img.elf) = some p ∧
    app = ⟨p.endBss, p.props.setVmid vmid, v.cursor.imageAddr⟩

/-- The loader returns from the image of these apps, and so has touched nothing
outside; it has visited one app after the other, each once, and given it the
vmid of its own header. -/
def Loads (images : List TaskImage) : Prop :=
  ∃ s, trustyAppBootloader (imageBytes images) = .ok ⟨⟩ s ∧
    s.visits.length = images.length ∧ s.apps.length = images.length ∧
    ∀ (i : Nat) (img : TaskImage) (v : Visit) (app : TrustyApp),
      images[i]? = some img → s.visits[i]? = some v → s.apps[i]? = some app →
        Visited img img.vmid v app

/-- The vmid of the last header among these apps, or 0. -/
def lastVmid (before : List TaskImage) : Nat :=
  match (before.filterMap TaskImage.header).getLast? with
  | none => 0
  | some h => h.vmid

/-- The images that the loader's arithmetic and its one `task_vmid` hold. -/
structure Loadable (images : List TaskImage) : Prop where
  size : (imageBytes images).length < 2 ^ 32
  bss : ∀ img ∈ images, ∀ n, bssEnd img.elf = some n → n < 2 ^ 32
  copies : ∀ before img after, images = before ++ img :: after →
    8 ∣ img.gap ∨ (imageBytes after).length < 2 ^ 31
  vmids : ∀ before img after, images = before ++ img :: after → img.header = none →
    lastVmid before = 0

/-! ## Where the loader stands -/

/-- `body` is what is left of the image. -/
structure At (s : Boot) (pre body post : List UInt8) : Prop where
  mem : s.mem = pre ++ body ++ post
  addr : s.cursor.imageAddr = pre.length
  size : s.cursor.imageSize = body.length
  stop : body ≠ [] → s.cursor.imageEnd = pre.length + body.length

/-- What a header makes of the vmid. -/
def TaskImage.carry (img : TaskImage) (v : Nat) : Nat :=
  match img.header with
  | none => v
  | some h => h.vmid

variable {s : Boot} {pre post rest : List UInt8} {img : TaskImage}

theorem At.exact {body : List UInt8} (h : At s pre body post) (hne : body ≠ []) :
    s.cursor.Exact := by
  rw [Cursor.Exact, h.addr, h.size, h.stop hne]

theorem wp_onMem {α : Type} {m : ImageM α} {a : α} {mem mem' : List UInt8}
    {Q : α → Boot → Prop} {E : Stop Panic → Boot → Prop} (hs : s.mem = mem)
    (hrun : m mem = .ok a mem') (hQ : Q a { s with mem := mem' }) : wp (onMem m) Q E s := by
  rw [onMem, wp_zoom, hs]
  exact wp_run hrun hQ

/-- An ELF image does not begin with the magic string. -/
theorem strcmp_elf (pre post : List UInt8) (img : TaskImage) :
    (strcmp pre.length nvGuestTaskMagicStr : ImageM Bool) (pre ++ img.elf ++ post) =
      .ok false (pre ++ img.elf ++ post) := by
  obtain ⟨tail, htail⟩ := img.elf_eq
  rw [htail, List.append_assoc]
  exact matchBytes_ne pre _ _ (show (0x7f : UInt8) ≠ 0x4e by decide)

theorem strncmp_elf (pre post : List UInt8) (img : TaskImage) :
    (strncmp pre.length elfmag : ImageM Bool) (pre ++ img.elf ++ post) =
      .ok true (pre ++ img.elf ++ post) := by
  obtain ⟨tail, htail⟩ := img.elf_eq
  have hmatch : (matchBytes pre.length elfmag : ImageM Bool) _ = _ :=
    matchBytes_append pre elfmag (tail ++ post)
  rw [htail, ← List.append_assoc, List.append_assoc]
  exact hmatch

theorem strcmp_header (pre post : List UInt8) (g : GuestHeader) :
    (strcmp pre.length nvGuestTaskMagicStr : ImageM Bool) (pre ++ g.bytes ++ post) =
      .ok true (pre ++ g.bytes ++ post) := by
  have hmatch : (matchBytes pre.length _ : ImageM Bool) _ = _ :=
    matchBytes_append pre (nvGuestTaskMagicStr ++ [0]) (g.text ++ post)
  rw [GuestHeader.bytes, ← List.append_assoc, List.append_assoc]
  exact hmatch

theorem readVmid_header (pre post : List UInt8) (g : GuestHeader) :
    readVmid (pre.length + nvGuestTaskMagicIdLen) (pre ++ g.bytes ++ post) =
      .ok (g.value, 0) (pre ++ g.bytes ++ post) := by
  have hdrop : (pre ++ g.bytes ++ post).drop (pre.length + nvGuestTaskMagicIdLen) =
      g.text ++ post := by
    rw [List.append_assoc, List.drop_length_add_append, GuestHeader.bytes, List.append_assoc]
    rfl
  rw [readVmid, run_bind, run_get]
  dsimp only
  rw [hdrop, strtoul_append post g.converts]
  rfl

/-- `memmove` over a header, in whole words. -/
theorem memmove_header (pre body post : List UInt8) (g : GuestHeader) (hne : body ≠ [])
    (hsize : body.length < 2 ^ 32) :
    ∃ gap, (memmove pre.length (pre.length + nvGuestTaskHeadSize) body.length : ImageM Unit)
        (pre ++ g.bytes ++ body ++ post) = .ok ⟨⟩ (pre ++ body ++ gap ++ post) ∧
      gap.length = nvGuestTaskHeadSize := by
  have hwords : 8 ∣ g.bytes.length := by
    rw [g.length_bytes]
    decide
  obtain ⟨gap, hrun, hgap⟩ := moveUp_spec (ε := Panic) pre g.bytes body post hsize (.inr hwords)
  rw [List.length_append, g.length_bytes] at hrun
  refine ⟨gap, ?_, hgap.trans g.length_bytes⟩
  have hlen : 0 < body.length := List.length_pos_iff.mpr hne
  have hlt : pre.length < pre.length + nvGuestTaskHeadSize := Nat.lt_add_of_pos_right (by decide)
  rw [memmove, if_neg (by omega), if_pos hlt]
  exact hrun

/-- The header, when there is one, is gone, and its vmid is `task_vmid`. -/
theorem wp_updateTaskAddrWithVmid (h : At s pre (img.bytes ++ rest) post)
    (hsize : (img.bytes ++ rest).length < 2 ^ 32) :
    wp updateTaskAddrWithVmid (fun _ t => ∃ post', At t pre (img.elf ++ rest) post' ∧
      t.mem.length = s.mem.length ∧ t.taskVmid = img.carry s.taskVmid ∧ t.apps = s.apps ∧
      t.visits = s.visits) (fun _ _ => False) s := by
  rw [updateTaskAddrWithVmid, wp_bind, wp_get, wp_bind, h.addr]
  cases hheader : img.header with
  | none =>
      have hbytes : img.bytes = img.elf := by rw [TaskImage.bytes, hheader]
      rw [hbytes] at h
      have hmem : s.mem = pre ++ img.elf ++ (rest ++ post) := by
        rw [h.mem]
        simp only [List.append_assoc]
      refine wp_onMem hmem (strcmp_elf pre (rest ++ post) img) ?_
      rw [if_neg Bool.false_ne_true, wp_pure, ← hmem, TaskImage.carry, hheader]
      exact ⟨post, h, rfl, rfl, rfl, rfl⟩
  | some g =>
      have hbytes : img.bytes = g.bytes ++ img.elf := by rw [TaskImage.bytes, hheader]
      rw [hbytes, List.append_assoc] at h hsize
      have hmem : s.mem = pre ++ g.bytes ++ (img.elf ++ rest ++ post) := by
        rw [h.mem]
        simp only [List.append_assoc]
      have hne : img.elf ++ rest ≠ [] := by
        obtain ⟨tail, htail⟩ := img.elf_eq
        rw [htail]
        exact List.cons_ne_nil _ _
      have hstop := h.stop (List.append_ne_nil_of_right_ne_nil _ hne)
      have hlen : (g.bytes ++ (img.elf ++ rest)).length =
          nvGuestTaskHeadSize + (img.elf ++ rest).length := by
        rw [List.length_append, g.length_bytes]
      have hleft : (s.cursor.imageSize + (2 ^ 32 - nvGuestTaskHeadSize)) % 2 ^ 32 =
          (img.elf ++ rest).length := by
        rw [h.size, hlen]
        rw [hlen] at hsize
        simp only [nvGuestTaskHeadSize] at hsize ⊢
        omega
      obtain ⟨gap, hmove, hgap⟩ := memmove_header pre (img.elf ++ rest) post g hne (by omega)
      refine wp_onMem hmem (strcmp_header pre _ g) ?_
      rw [if_pos rfl, wp_bind, wp_modify, wp_bind]
      refine wp_onMem rfl (readVmid_header pre _ g) ?_
      rw [wp_bind, wp_modify, if_neg (fun h => h rfl), hleft]
      dsimp only
      rw [wp_bind, wp_modify]
      refine wp_onMem ?_ hmove ?_
      · show pre ++ g.bytes ++ (img.elf ++ rest ++ post) = _
        rw [← List.append_assoc]
      · refine ⟨gap ++ post, ⟨?_, rfl, rfl, ?_⟩, ?_, ?_, rfl, rfl⟩
        · show _ = _
          simp only [List.append_assoc]
        · intro _
          show s.cursor.imageEnd - nvGuestTaskHeadSize = _
          rw [hstop, hlen]
          omega
        · show (pre ++ (img.elf ++ rest) ++ gap ++ post).length = s.mem.length
          rw [hmem]
          simp only [List.length_append, hgap, g.length_bytes]
          omega
        · rw [TaskImage.carry, hheader]
          rfl

/-- The gap behind an app: `keep` are its bytes up to the end of `.bss-pad`. -/
structure Behind (s : Boot) (pre keep gap rest post : List UInt8) : Prop where
  mem : s.mem = pre ++ (keep ++ gap) ++ (rest ++ post)
  addr : s.cursor.imageAddr = pre.length
  size : s.cursor.imageSize = (keep ++ gap).length + rest.length
  stop : s.cursor.imageEnd = pre.length + ((keep ++ gap).length + rest.length)

variable {keep gap : List UInt8}

theorem Behind.copySize (h : Behind s pre keep gap rest post) (hlt : s.mem.length < 2 ^ 32) :
    (s.cursor.imageEnd - (s.cursor.imageAddr + (keep ++ gap).length)) % 2 ^ 32 = rest.length := by
  have hmem := congrArg List.length h.mem
  simp only [List.length_append] at hmem
  rw [h.stop, h.addr]
  simp only [List.length_append]
  omega

theorem Behind.sizeLeft (h : Behind s pre keep gap rest post) (hlt : s.mem.length < 2 ^ 32) :
    (s.cursor.imageSize + (2 ^ 32 - (keep ++ gap).length % 2 ^ 32)) % 2 ^ 32 = rest.length := by
  have hmem := congrArg List.length h.mem
  simp only [List.length_append] at hmem
  rw [h.size]
  simp only [List.length_append]
  omega

/-- The rest of the image has moved down over the gap. -/
theorem wp_copyNextApp (h : Behind s pre keep gap rest post) (hlt : s.mem.length < 2 ^ 32)
    (hfits : 8 ∣ gap.length ∨ rest.length < 2 ^ 31) :
    wp (copyNextApp keep.length (keep ++ gap).length) (fun _ t => ∃ post',
      At t (pre ++ keep) rest post' ∧ t.mem.length = s.mem.length ∧ t.taskVmid = s.taskVmid ∧
      t.apps = s.apps ∧ t.visits = s.visits) (fun _ _ => False) s := by
  have hlen := congrArg List.length h.mem
  rw [copyNextApp, wp_bind, wp_get]
  dsimp only
  rw [h.copySize hlt, h.sizeLeft hlt, h.addr]
  split
  · next hrest =>
      have hnil : rest = [] := List.length_eq_zero_iff.mp hrest
      subst hnil
      rw [wp_modify]
      refine ⟨gap ++ post, ⟨?_, ?_, rfl, fun hne => absurd rfl hne⟩, rfl, rfl, rfl, rfl⟩
      · show s.mem = _
        rw [h.mem]
        simp only [List.append_assoc, List.nil_append]
      · show _ = _
        rw [List.length_append]
  · next hrest =>
      have hmem : s.mem = (pre ++ keep) ++ gap ++ rest ++ post := by
        rw [h.mem]
        simp only [List.append_assoc]
      simp only [List.length_append] at hlen
      obtain ⟨gap', hmove, hgap'⟩ :=
        memcpy_spec (ε := Panic) (pre ++ keep) gap rest post (by omega) hfits
      rw [wp_bind, ← List.length_append, Nat.add_comm pre.length, ← Nat.add_comm pre.length,
        ← List.length_append, ← List.append_assoc]
      refine wp_onMem hmem hmove ?_
      rw [wp_modify]
      refine ⟨gap' ++ post, ⟨?_, rfl, rfl, ?_⟩, ?_, rfl, rfl, rfl⟩
      · show pre ++ keep ++ rest ++ gap' ++ post = _
        rw [List.append_assoc _ gap']
      · intro _
        show s.cursor.imageEnd - _ = _
        rw [h.stop]
        simp only [List.length_append]
        omega
      · show (pre ++ keep ++ rest ++ gap' ++ post).length = s.mem.length
        rw [hmem]
        simp only [List.length_append, hgap']
        omega

/-- Without alignment, two gigabytes cannot be moved. -/
theorem wp_copyNextApp_stops (h : Behind s pre keep gap rest post) (hlt : s.mem.length < 2 ^ 32)
    (hfits : ¬ (8 ∣ gap.length ∨ rest.length < 2 ^ 31)) :
    wp (copyNextApp keep.length (keep ++ gap).length) (fun _ _ => False) anyStop s := by
  have hlen := congrArg List.length h.mem
  simp only [List.length_append] at hlen
  rw [copyNextApp, wp_bind, wp_get]
  dsimp only
  rw [h.copySize hlt, if_neg (by omega), wp_bind, h.addr, List.length_append, ← Nat.add_assoc, onMem,
    wp_zoom]
  have hnone : valueOf ((memcpy (pre.length + keep.length) _ rest.length : ImageM Unit) s.mem) = none :=
    memcpy_outside (by omega) hlt hfits
  rw [wp]
  cases hrun : (memcpy (pre.length + keep.length) (pre.length + keep.length + gap.length) rest.length :
      ImageM Unit) s.mem with
  | ok a t =>
      rw [hrun] at hnone
      cases hnone
  | error e t => trivial

/-! ## One pass -/

/-- What the loader can do with the app it stands at, given what is behind. -/
structure Fits (img : TaskImage) (rest : List UInt8) : Prop where
  bss : ∀ n, bssEnd img.elf = some n → n < 2 ^ 32
  copies : 8 ∣ img.gap ∨ rest.length < 2 ^ 31

/-- Where the loader stands between two passes, with the apps `before` it loaded. -/
structure Standing (s : Boot) (before rest : List TaskImage) : Prop where
  body : ∃ pre post, At s pre (imageBytes rest) post
  small : s.mem.length < 2 ^ 32
  vmid : s.taskVmid = lastVmid before
  visits : s.visits.length = before.length
  apps : s.apps.length = before.length
  visited : ∀ (i : Nat) (img : TaskImage) (v : Visit) (app : TrustyApp),
    before[i]? = some img → s.visits[i]? = some v → s.apps[i]? = some app →
      Visited img (img.carry (lastVmid (before.take i))) v app

theorem lastVmid_concat (before : List TaskImage) (img : TaskImage) :
    lastVmid (before ++ [img]) = img.carry (lastVmid before) := by
  rw [lastVmid, List.filterMap_append, TaskImage.carry]
  cases hheader : img.header with
  | none => rw [List.filterMap_cons_none hheader, List.filterMap_nil, List.append_nil, lastVmid]
  | some g => rw [List.filterMap_cons_some hheader, List.filterMap_nil, List.getLast?_concat]

theorem wp_of_valueOf {ε σ α : Type} {m : EStateM ε σ α} {s : σ} {Q : α → σ → Prop}
    (h : valueOf (m s) = none) : wp m Q anyStop s := by
  rw [wp]
  cases hm : m s with
  | ok a t =>
      rw [hm] at h
      cases h
  | error e t => trivial

/-- The app is parsed in place, and a gap is behind it. -/
theorem At.parsed (h : At s pre (img.elf ++ rest) post)
    (hbss : ∀ n, bssEnd img.elf = some n → n < 2 ^ 32) :
    ∃ p keep gap, valueOf (parseAlone img.elf) = some p ∧ keep.length = p.alignStart ∧
      (keep ++ gap).length = p.fsizeStart ∧ gap.length = img.gap ∧
      (pre ++ (keep ++ gap) ++ (rest ++ post)).length = s.mem.length ∧
      parseApp s.cursor.imageAddr s.cursor.imageEnd s.taskVmid s.mem =
        .ok (p.setVmid s.taskVmid) (pre ++ (keep ++ gap) ++ (rest ++ post)) ∧
      ∀ t : Boot, t.cursor = s.cursor → t.mem = pre ++ (keep ++ gap) ++ (rest ++ post) →
        Behind t pre keep gap rest post := by
  have hmem : s.mem = pre ++ img.elf ++ (rest ++ post) := by
    rw [h.mem]
    simp only [List.append_assoc]
  have hne : img.elf ++ rest ≠ [] := by
    obtain ⟨tail, htail⟩ := img.elf_eq
    rw [htail]
    exact List.cons_ne_nil _ _
  have hstop := h.stop hne
  have hsize := h.size
  rw [List.length_append] at hstop hsize
  obtain ⟨p, cleared, hp, hfsize, hordered, hcleared, hparse⟩ :=
    img.parse_inPlace pre (rest ++ post) s.taskVmid hbss (show _ ≤ s.cursor.imageEnd by omega)
  refine ⟨p, cleared.take p.alignStart, cleared.drop p.alignStart, hp, ?_, ?_, ?_, ?_, ?_, ?_⟩
  · rw [List.length_take]
    omega
  · rw [List.take_append_drop, hcleared, hfsize]
  · rw [TaskImage.gap, hp, List.length_drop, hcleared, ← hfsize]
  · rw [List.take_append_drop, hmem]
    simp only [List.length_append, hcleared]
  · rw [List.take_append_drop, h.addr, hmem]
    exact hparse
  · intro t hcursor ht
    refine ⟨ht, hcursor ▸ h.addr, ?_, ?_⟩
    · rw [List.take_append_drop, hcursor, hsize, hcleared]
    · rw [List.take_append_drop, hcursor, hstop, hcleared]

/-- The loader stands at the rest. -/
theorem wp_loadNextApp (head : Cursor) (h : At s pre (img.elf ++ rest) post)
    (hlt : s.mem.length < 2 ^ 32) (hfits : Fits img rest)
    (hcount : s.apps.length + 1 < maxTrustyAppCount) :
    wp (loadNextApp head) (fun _ t => ∃ pre' post' p, At t pre' rest post' ∧
      t.mem.length = s.mem.length ∧ t.taskVmid = s.taskVmid ∧
      t.visits = s.visits ++ [⟨head, s.cursor, s.mem⟩] ∧
      valueOf (parseAlone img.elf) = some p ∧
      t.apps = s.apps ++ [⟨p.endBss, p.props.setVmid s.taskVmid, s.cursor.imageAddr⟩])
      (fun _ _ => False) s := by
  obtain ⟨p, keep, gap, hp, hkeep, hwhole, hgap, hlen, hparse, hbehind⟩ := h.parsed hfits.bss
  rw [loadNextApp, wp_bind, wp_get, wp_bind, wp_modify, wp_bind]
  refine wp_onMem rfl hparse ?_
  show wp (copyNextApp p.alignStart p.fsizeStart >>= _) _ _ _
  rw [← hkeep, ← hwhole]
  refine wp_seq (wp_copyNextApp (hbehind _ rfl rfl) (hlen ▸ hlt) (hgap ▸ hfits.copies)) ?_
  rintro _ t ⟨post', hat, hmem, hvmid, happs, hvisits⟩
  rw [if_pos hcount, wp_modify]
  refine ⟨_, post', p, ⟨hat.mem, hat.addr, hat.size, hat.stop⟩, hmem.trans hlen, hvmid, hvisits, hp, ?_⟩
  show t.apps ++ _ = _
  rw [happs]
  rfl

/-- The pass does not come to an end when the app does not fit. -/
theorem wp_loadNextApp_stops (head : Cursor) (h : At s pre (img.elf ++ rest) post)
    (hlt : s.mem.length < 2 ^ 32) (hfits : ¬ Fits img rest) :
    wp (loadNextApp head) (fun _ _ => False) anyStop s := by
  rw [loadNextApp, wp_bind, wp_get, wp_bind, wp_modify, wp_bind]
  by_cases hbss : ∀ n, bssEnd img.elf = some n → n < 2 ^ 32
  · obtain ⟨p, keep, gap, hp, hkeep, hwhole, hgap, hlen, hparse, hbehind⟩ := h.parsed hbss
    have hcopies : ¬ (8 ∣ gap.length ∨ rest.length < 2 ^ 31) := by
      intro hcopies
      exact hfits ⟨hbss, hgap ▸ hcopies⟩
    refine wp_onMem rfl hparse ?_
    show wp (copyNextApp p.alignStart p.fsizeStart >>= _) _ _ _
    rw [← hkeep, ← hwhole]
    exact wp_seq (wp_copyNextApp_stops (hbehind _ rfl rfl) (hlen ▸ hlt) hcopies)
      (fun _ _ hfalse => hfalse.elim)
  · rw [not_forall] at hbss
    obtain ⟨n, hn⟩ := hbss
    rw [Classical.not_imp, Nat.not_lt] at hn
    have hmem : s.mem = pre ++ img.elf ++ (rest ++ post) := by
      rw [h.mem]
      simp only [List.append_assoc]
    have hwraps := img.parse_wraps pre (rest ++ post) s.cursor.imageEnd s.taskVmid hn.1 hn.2
      (hmem ▸ hlt)
    rw [onMem, wp_zoom, h.addr]
    refine wp_of_valueOf ?_
    show valueOf (parseApp _ _ _ s.mem) = none
    rw [hmem]
    exact hwraps

/-- One more app has been loaded. -/
theorem Standing.concat {before rest : List TaskImage} {t : Boot} {v : Visit} {app : TrustyApp}
    {post' : List UInt8} (h : Standing s before (img :: rest)) (hat : At t pre (imageBytes rest) post')
    (hmem : t.mem.length = s.mem.length) (hvmid : t.taskVmid = img.carry (lastVmid before))
    (hvisits : t.visits = s.visits ++ [v]) (happs : t.apps = s.apps ++ [app])
    (hvisited : Visited img (img.carry (lastVmid before)) v app) :
    Standing t (before ++ [img]) rest := by
  refine ⟨⟨pre, post', hat⟩, hmem ▸ h.small, ?_, ?_, ?_, ?_⟩
  · rw [hvmid, lastVmid_concat]
  · rw [hvisits, List.length_append, List.length_append, h.visits]
    rfl
  · rw [happs, List.length_append, List.length_append, h.apps]
    rfl
  · intro i img' v' app' himg hv happ
    rcases Nat.lt_trichotomy i before.length with hi | rfl | hi
    · rw [List.getElem?_append_left hi] at himg
      rw [hvisits, List.getElem?_append_left (h.visits ▸ hi)] at hv
      rw [happs, List.getElem?_append_left (h.apps ▸ hi)] at happ
      rw [List.take_append_of_le_length (Nat.le_of_lt hi)]
      exact h.visited i img' v' app' himg hv happ
    · rw [List.getElem?_concat_length] at himg
      rw [hvisits, ← h.visits, List.getElem?_concat_length] at hv
      rw [happs, ← h.apps, List.getElem?_concat_length] at happ
      cases himg
      cases hv
      cases happ
      rw [List.take_left]
      exact hvisited
    · rw [List.getElem?_eq_none] at himg
      · cases himg
      · rw [List.length_append]
        exact hi

theorem TaskImage.elf_ne_nil (img : TaskImage) (rest : List UInt8) : img.elf ++ rest ≠ [] := by
  obtain ⟨tail, htail⟩ := img.elf_eq
  rw [htail]
  exact List.cons_ne_nil _ _

/-- A pass up to the app: the rest of it is `loadNextApp` at the app. -/
theorem wp_bootloaderPass {Q : Bool → Boot → Prop} {E : Stop Panic → Boot → Prop}
    (h : At s pre (img.bytes ++ rest) post) (hlt : s.mem.length < 2 ^ 32)
    (hload : ∀ t post', At t pre (img.elf ++ rest) post' → t.mem.length = s.mem.length →
      t.taskVmid = img.carry s.taskVmid → t.apps = s.apps → t.visits = s.visits →
      wp (loadNextApp s.cursor) (fun _ => Q true) E t) :
    wp bootloaderPass Q E s := by
  have hsize : (img.bytes ++ rest).length < 2 ^ 32 := by
    have hmem := congrArg List.length h.mem
    rw [List.length_append, List.length_append] at hmem
    omega
  rw [bootloaderPass, wp_bind, wp_get]
  dsimp only
  refine wp_seq (wp_mono (wp_updateTaskAddrWithVmid h hsize) (fun _ _ hQ => hQ)
    (fun _ _ hfalse => hfalse.elim)) ?_
  rintro _ t ⟨post', hat, hmem, hvmid, happs, hvisits⟩
  have hident : t.mem = pre ++ img.elf ++ (rest ++ post') := by
    rw [hat.mem]
    simp only [List.append_assoc]
  rw [wp_bind, wp_get, wp_bind, hat.addr]
  refine wp_onMem hident (strncmp_elf pre (rest ++ post') img) ?_
  rw [if_pos rfl, ← hident]
  exact wp_seq (hload t post' hat hmem hvmid happs hvisits) (fun _ _ hQ => hQ)

theorem Standing.wp_pass {before rest : List TaskImage} (h : Standing s before (img :: rest))
    (hfits : Fits img (imageBytes rest)) (hcount : before.length + 1 < maxTrustyAppCount) :
    wp bootloaderPass (fun go t => go = true ∧ Standing t (before ++ [img]) rest)
      (fun _ _ => False) s := by
  obtain ⟨pre, post, hat⟩ := h.body
  have hne : img.bytes ++ imageBytes rest ≠ [] :=
    List.append_ne_nil_of_left_ne_nil (List.length_pos_iff.mp img.bytes_ne_nil) _
  refine wp_bootloaderPass hat h.small ?_
  intro t post' hat' hmem hvmid happs hvisits
  refine wp_conseq (wp_loadNextApp s.cursor hat' (hmem ▸ h.small) hfits ?_) ?_
  · rw [happs, h.apps]
    exact hcount
  · rintro _ u ⟨pre', post'', p, hat'', hmem', hvmid', hvisits', hp, happs'⟩
    rw [hvmid, h.vmid] at hvmid' happs'
    rw [hvisits] at hvisits'
    rw [happs] at happs'
    refine ⟨rfl, h.concat hat'' (hmem'.trans hmem) hvmid' hvisits' happs' ?_⟩
    refine ⟨hat.exact hne, hat'.exact (img.elf_ne_nil _), ?_, p, hp, rfl⟩
    show (t.mem.drop t.cursor.imageAddr).take _ = _
    rw [hat'.mem, hat'.addr, List.append_assoc, List.drop_left, List.append_assoc, List.take_left]

theorem Standing.wp_pass_stops {before rest : List TaskImage} (h : Standing s before (img :: rest))
    (hfits : ¬ Fits img (imageBytes rest)) :
    wp bootloaderPass (fun _ _ => False) anyStop s := by
  obtain ⟨pre, post, hat⟩ := h.body
  refine wp_bootloaderPass hat h.small ?_
  intro t post' hat' hmem _ _ _
  exact wp_loadNextApp_stops s.cursor hat' (hmem ▸ h.small) hfits

/-! ## The whole image -/

/-- Every app that is still to come fits. -/
def AllFit : List TaskImage → Prop
  | [] => True
  | img :: rest => Fits img (imageBytes rest) ∧ AllFit rest

theorem Standing.wp_loop : ∀ {rest before : List TaskImage} {n : Nat} {s : Boot},
    Standing s before rest → AllFit rest → before.length + rest.length < maxTrustyAppCount →
    rest.length < n →
    wp (bootloaderLoop n) (fun _ t => Standing t (before ++ rest) []) (fun _ _ => False) s := by
  intro rest
  induction rest with
  | nil =>
      intro before n s h _ _ hn
      obtain ⟨m, rfl⟩ : ∃ m, n = m + 1 := ⟨n - 1, by omega⟩
      obtain ⟨pre, post, hat⟩ := h.body
      have hsize : s.cursor.imageSize = 0 := hat.size
      rw [bootloaderLoop, wp_bind, wp_get, if_pos hsize, wp_pure, List.append_nil]
      exact h
  | cons img rest ih =>
      intro before n s h hfit hcount hn
      rw [List.length_cons] at hcount hn
      obtain ⟨m, rfl⟩ : ∃ m, n = m + 1 := ⟨n - 1, by omega⟩
      obtain ⟨pre, post, hat⟩ := h.body
      have hpos := img.bytes_ne_nil
      have hsize : s.cursor.imageSize ≠ 0 := by
        rw [hat.size, imageBytes_cons, List.length_append]
        omega
      rw [bootloaderLoop, wp_bind, wp_get, if_neg hsize]
      refine wp_seq (h.wp_pass hfit.1 (by omega)) ?_
      rintro _ t ⟨rfl, ht⟩
      rw [if_pos rfl, List.append_cons]
      refine ih ht hfit.2 ?_ (by omega)
      rw [List.length_append]
      show before.length + 1 + rest.length < _
      omega

/-- A loader that returns has found that every app fits. -/
theorem Standing.loop_fits : ∀ {rest before : List TaskImage} {n : Nat} {s : Boot},
    Standing s before rest → before.length + rest.length < maxTrustyAppCount →
    wp (bootloaderLoop n) (fun _ _ => AllFit rest) anyStop s := by
  intro rest
  induction rest with
  | nil =>
      intro before n s _ _
      exact wp_conseq (wp_any _ _) (fun _ _ _ => trivial)
  | cons img rest ih =>
      intro before n s h hcount
      rw [List.length_cons] at hcount
      cases n with
      | zero => trivial
      | succ n =>
          obtain ⟨pre, post, hat⟩ := h.body
          have hpos := img.bytes_ne_nil
          have hsize : s.cursor.imageSize ≠ 0 := by
            rw [hat.size, imageBytes_cons, List.length_append]
            omega
          rw [bootloaderLoop, wp_bind, wp_get, if_neg hsize]
          by_cases hfits : Fits img (imageBytes rest)
          · refine wp_seq (wp_mono (h.wp_pass hfits (by omega)) (fun _ _ hQ => hQ)
              (fun _ _ hfalse => hfalse.elim)) ?_
            rintro _ t ⟨rfl, ht⟩
            rw [if_pos rfl]
            refine wp_conseq (ih ht ?_) (fun _ _ hrest => ⟨hfits, hrest⟩)
            rw [List.length_append]
            show before.length + 1 + rest.length < _
            omega
          · exact wp_seq (h.wp_pass_stops hfits) (fun _ _ hfalse => hfalse.elim)

/-! ## An image of 4 GiB

Of any image at all: the first visit was made from where the loop began. -/

theorem onMem_keeps {α : Type} (m : ImageM α) (s : Boot) :
    wp (onMem m) (fun _ t => t.visits = s.visits) anyStop s := by
  rw [onMem, wp_zoom]
  exact wp_mono (wp_any m s.mem) (fun _ _ _ => rfl) (fun _ _ _ => trivial)

theorem updateTaskAddrWithVmid_keeps (s : Boot) :
    wp updateTaskAddrWithVmid (fun _ t => t.visits = s.visits) anyStop s := by
  rw [updateTaskAddrWithVmid, wp_bind, wp_get]
  dsimp only
  refine wp_seq (onMem_keeps _ s) ?_
  intro found t ht
  rw [wp_ite]
  split
  · rw [wp_bind, wp_modify]
    refine wp_seq (onMem_keeps _ _) ?_
    intro r t' ht'
    rw [wp_bind, wp_modify, wp_ite]
    split
    · trivial
    · rw [wp_bind, wp_modify]
      generalize (s.cursor.imageSize + (2 ^ 32 - nvGuestTaskHeadSize)) % 2 ^ 32 = size
      refine wp_conseq (onMem_keeps _ _) ?_
      intro _ u hu
      exact hu.trans (ht'.trans ht)
  · exact ht

theorem loadNextApp_visits (head : Cursor) (s : Boot) :
    wp (loadNextApp head) (fun _ t => t.visits = s.visits ++ [⟨head, s.cursor, s.mem⟩]) anyStop s := by
  rw [loadNextApp, wp_bind, wp_get, wp_bind, wp_modify]
  refine wp_seq (onMem_keeps _ _) ?_
  intro p t ht
  have hcopy : wp (copyNextApp p.alignStart p.fsizeStart) (fun _ u => u.visits = t.visits) anyStop
      t := by
    rw [copyNextApp, wp_bind, wp_get]
    dsimp only
    split
    · rfl
    · refine wp_seq (onMem_keeps _ t) ?_
      intro _ u hu
      exact hu
  refine wp_seq hcopy ?_
  intro _ u hu
  split
  · exact hu.trans ht
  · trivial

theorem bootloaderPass_visits (s : Boot) :
    wp bootloaderPass (fun go t => (go = false ∧ t.visits = s.visits) ∨
      ∃ v, v.head = s.cursor ∧ t.visits = s.visits ++ [v]) anyStop s := by
  rw [bootloaderPass, wp_bind, wp_get]
  refine wp_seq (updateTaskAddrWithVmid_keeps s) ?_
  intro _ t ht
  rw [wp_bind, wp_get]
  refine wp_seq (onMem_keeps _ t) ?_
  intro found u hu
  split
  · refine wp_seq (loadNextApp_visits s.cursor u) ?_
    intro _ w hw
    exact .inr ⟨_, rfl, by rw [hw, hu, ht]⟩
  · exact .inl ⟨rfl, hu.trans ht⟩

theorem bootloaderLoop_visits (n : Nat) (s : Boot) :
    wp (bootloaderLoop n) (fun _ t => t.visits = s.visits ∨
      ∃ v, v.head = s.cursor ∧ s.visits ++ [v] <+: t.visits) anyStop s := by
  induction n generalizing s with
  | zero => trivial
  | succ n ih =>
      rw [bootloaderLoop, wp_bind, wp_get]
      split
      · exact .inl rfl
      · refine wp_seq (bootloaderPass_visits s) ?_
        rintro go t (⟨rfl, ht⟩ | ⟨v, hv, ht⟩)
        · exact .inl ht
        · split
          · refine wp_conseq (ih t) ?_
            rintro _ u (hu | ⟨v', _, hu⟩)
            · exact .inr ⟨v, hv, ht ▸ hu ▸ List.prefix_rfl⟩
            · exact .inr ⟨v, hv, ht ▸ (List.prefix_append _ _).trans hu⟩
          · exact .inr ⟨v, hv, ht ▸ List.prefix_rfl⟩

variable {images : List TaskImage}

/-- `trusty_app_image_size` is a `u_int`. -/
theorem Loads.small (h : Loads images) : (imageBytes images).length < 2 ^ 32 := by
  obtain ⟨s, hrun, hvisits, happs, hvisited⟩ := h
  cases images with
  | nil => exact Nat.two_pow_pos 32
  | cons img rest =>
      rcases wp_ok (bootloaderLoop_visits _ _) hrun with hnone | ⟨v, hhead, hprefix⟩
      · rw [hnone] at hvisits
        cases hvisits
      · obtain ⟨more, hmore⟩ := hprefix
        have hv : s.visits[0]? = some v := by
          rw [← hmore]
          rfl
        obtain ⟨app, happ⟩ : ∃ app, s.apps[0]? = some app :=
          ⟨_, List.getElem?_eq_getElem (happs ▸ Nat.succ_pos rest.length)⟩
        have hexact := (hvisited 0 img v app rfl hv happ).head
        rw [hhead] at hexact
        have hsum : 0 + (imageBytes (img :: rest)).length % 2 ^ 32 =
          (imageBytes (img :: rest)).length := hexact
        have hmod : (imageBytes (img :: rest)).length % 2 ^ 32 < 2 ^ 32 :=
          Nat.mod_lt _ (Nat.two_pow_pos 32)
        omega

/-! ## The result -/

theorem standing_init (hsize : (imageBytes images).length < 2 ^ 32) :
    Standing (Boot.init (imageBytes images)) [] images := by
  refine ⟨⟨[], [], ?_, rfl, Nat.mod_eq_of_lt hsize, fun _ => ?_⟩, hsize, rfl, rfl, rfl, ?_⟩
  · rw [List.append_nil, List.nil_append]
    rfl
  · exact (Nat.zero_add _).symm
  · intro i img v app himg
    cases himg

theorem allFit_iff : ∀ {images : List TaskImage}, AllFit images ↔
    ∀ before img after, images = before ++ img :: after → Fits img (imageBytes after) := by
  intro images
  induction images with
  | nil =>
      refine ⟨fun _ before img after h => ?_, fun _ => trivial⟩
      exact absurd h.symm (List.append_ne_nil_of_right_ne_nil _ (List.cons_ne_nil _ _))
  | cons img rest ih =>
      rw [AllFit, ih]
      constructor
      · rintro ⟨hfits, hrest⟩ before img' after h
        cases before with
        | nil =>
            cases h
            exact hfits
        | cons img'' before =>
            cases h
            exact hrest before img' after rfl
      · intro h
        refine ⟨h [] img rest rfl, ?_⟩
        intro before img' after hrest
        exact h (img :: before) img' after (congrArg _ hrest)

theorem Loadable.allFit (h : Loadable images) : AllFit images := by
  refine allFit_iff.mpr ?_
  intro before img after himages
  exact ⟨h.bss img (himages ▸ List.mem_append_right _ List.mem_cons_self),
    h.copies before img after himages⟩

/-- An app without a header gets the vmid of the last header before it. -/
theorem carry_eq_vmid {before : List TaskImage}
    (h : img.header = none → lastVmid before = 0) : img.carry (lastVmid before) = img.vmid := by
  rw [TaskImage.carry, TaskImage.vmid]
  cases hheader : img.header with
  | none => exact h hheader
  | some g => rfl

theorem split_at {i : Nat} (h : images[i]? = some img) :
    images = images.take i ++ img :: images.drop (i + 1) := by
  obtain ⟨hi, rfl⟩ := List.getElem?_eq_some_iff.mp h
  rw [← List.drop_eq_getElem_cons hi, List.take_append_drop]

theorem Loadable.loads (hcount : images.length < maxTrustyAppCount) (h : Loadable images) :
    Loads images := by
  have hcount' : ([] : List TaskImage).length + images.length < maxTrustyAppCount := by
    rw [List.length_nil, Nat.zero_add]
    exact hcount
  obtain ⟨⟨⟩, s, hrun, hs⟩ := wp_total ((standing_init h.size).wp_loop h.allFit hcount' hcount)
  refine ⟨s, hrun, hs.visits, hs.apps, ?_⟩
  intro i img v app himg hv happ
  have hcarry := hs.visited i img v app himg hv happ
  rw [List.nil_append, carry_eq_vmid (h.vmids _ img _ (split_at himg))] at hcarry
  exact hcarry

/-- What a loader that loads every app with its own vmid has been given. -/
theorem Loads.loadable (hcount : images.length < maxTrustyAppCount) (h : Loads images) :
    Loadable images := by
  have hsize := h.small
  obtain ⟨s, hrun, hvisits, happs, hvisited⟩ := h
  have hstart := standing_init hsize
  have hcount' : ([] : List TaskImage).length + images.length < maxTrustyAppCount := by
    rw [List.length_nil, Nat.zero_add]
    exact hcount
  have hfit : AllFit images := wp_ok (hstart.loop_fits hcount') hrun
  have hend := wp_ok (hstart.wp_loop hfit hcount' hcount) hrun
  refine ⟨hsize, ?_, ?_, ?_⟩
  · intro img himg
    obtain ⟨before, after, himages⟩ := List.append_of_mem himg
    exact (allFit_iff.mp hfit before img after himages).bss
  · intro before img after himages
    exact (allFit_iff.mp hfit before img after himages).copies
  · intro before img after himages hheader
    have hat : images[before.length]? = some img := by
      rw [himages, List.getElem?_append_right (Nat.le_refl _), Nat.sub_self]
      rfl
    have hlt : before.length < images.length := (List.getElem?_eq_some_iff.mp hat).1
    obtain ⟨v, hv⟩ : ∃ v, s.visits[before.length]? = some v :=
      ⟨_, List.getElem?_eq_getElem (hvisits ▸ hlt)⟩
    obtain ⟨app, happ⟩ : ∃ app, s.apps[before.length]? = some app :=
      ⟨_, List.getElem?_eq_getElem (happs ▸ hlt)⟩
    obtain ⟨p, _, hown⟩ := (hvisited _ img v app hat hv happ).entry
    obtain ⟨p', _, hcarried⟩ := (hend.visited _ img v app hat hv happ).entry
    have hvmid : img.vmid = img.carry (lastVmid before) := by
      have htake : images.take before.length = before := by rw [himages, List.take_left]
      have hprops := congrArg (fun a => a.props.vmid) (hown.symm.trans hcarried)
      rw [List.nil_append, htake] at hprops
      exact hprops
    rw [TaskImage.vmid, TaskImage.carry, hheader] at hvmid
    exact hvmid.symm

/-- The loader does what it is for exactly when the image is shorter than 4 GiB,
every `.bss` ends below 4 GiB, no gap out of step with the words is closed by
moving 2 GiB or more, and an app without a header has no header before it, or
one with vmid 0. -/
theorem trustyAppBootloader_loads_iff (images : List TaskImage)
    (hcount : images.length < maxTrustyAppCount) : Loads images ↔ Loadable images :=
  ⟨Loads.loadable hcount, Loadable.loads hcount⟩

/-! ## Two apps -/

def shdrBytes (name type offset size : Nat) : List UInt8 :=
  leBytes 4 name ++ leBytes 4 type ++ leBytes 8 0 ++ leBytes 4 offset ++ leBytes 4 size ++ leBytes 16 0

/-- A manifest of a UUID, four bytes of `.bss`, eight of `.bss-pad`, the names
and the four section headers. -/
def sampleElf : List UInt8 :=
  elfmag ++ leBytes 28 0 ++ leBytes 4 116 ++ leBytes 10 0 ++ leBytes 2 40 ++ leBytes 2 4 ++
    leBytes 2 3 ++
  [0, 1, 2, 3, 4, 5, 6, 7, 8, 9, 10, 11, 12, 13, 14, 15] ++ leBytes 4 0 ++ leBytes 8 0 ++
  [0] ++ bssName ++ [0] ++ bssPadName ++ [0] ++ manifestName ++ [0] ++
  shdrBytes 1 1 68 4 ++ shdrBytes 6 1 72 8 ++ shdrBytes 15 1 52 16 ++ shdrBytes 0 3 80 36

def sampleParsed : Parsed :=
  ⟨4, ⟨[0, 1, 2, 3, 4, 5, 6, 7, 8, 9, 10, 11, 12, 13, 14, 15], 0, 4096, 16384, 0, 0, none⟩, 80, 276⟩

theorem sampleElf_accepted : Accepted sampleElf :=
  .inl ⟨sampleParsed, by decide +kernel, by decide +kernel⟩

def plainImage : TaskImage := ⟨none, sampleElf, by decide +kernel, sampleElf_accepted⟩

/-- "1" -/
def guestHeader : GuestHeader := ⟨0x31 :: leBytes 19 0, by decide +kernel, 1, by decide +kernel⟩

def guestImage : TaskImage := ⟨some guestHeader, sampleElf, by decide +kernel, sampleElf_accepted⟩

/-- Behind a guest's app, an app without a header gets the guest's vmid. -/
theorem plainImage_guestVmid : ¬ Loads [guestImage, plainImage] := by
  intro h
  have hcount : [guestImage, plainImage].length < maxTrustyAppCount := by decide
  have hzero := (h.loadable hcount).vmids [guestImage] plainImage [] rfl rfl
  exact absurd hzero (by decide)

theorem trustyAppBootloader_loads_pair : Loads [plainImage, guestImage] := by
  refine (trustyAppBootloader_loads_iff [plainImage, guestImage] (by decide)).mpr ⟨?_, ?_, ?_, ?_⟩
  · decide +kernel
  · have hbss : bssEnd sampleElf = some 72 := by decide +kernel
    intro img himg n hn
    have helf : img.elf = sampleElf := by
      rcases List.mem_pair.mp himg with rfl | rfl <;> rfl
    rw [helf, hbss] at hn
    cases hn
    decide
  · intro before img after h
    have hsize : (imageBytes [plainImage, guestImage]).length = 584 := by decide +kernel
    rw [h, imageBytes, List.flatMap_append, List.length_append, List.flatMap_cons,
      List.length_append] at hsize
    refine .inr ?_
    rw [imageBytes]
    omega
  · intro before img after h hheader
    cases before with
    | nil => rfl
    | cons first before =>
        cases before with
        | nil =>
            cases h
            cases hheader
        | cons second before =>
            have hlen := congrArg List.length h
            simp only [List.cons_append, List.length_cons, List.length_append, List.length_nil] at hlen
            omega

end TX2SecureUart.Loader
