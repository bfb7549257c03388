/-
# `Update.Writes` — what writing one partition comes to

A partition is written to a list of slots that is fixed by its name, by how the
storage and the slot metadata answer, and by the ratchet check: its `Plan`.  A
write that succeeds makes exactly the writes of a plan, and one that fails the
first few of them.

`Halted` says why a program stopped.  It left the payload or a local buffer only
where `sound` does not hold, and it failed only where a primitive did.
-/
import TX2SecureUart.Update.BootloaderUpdate

namespace TX2SecureUart.Update

open Prog Storage StrRead

/-! ## The writes of a run -/

def StorageOp.toWrite : StorageOp → Option Write
  | .erase _ => none
  | .write w => some w

def writesOf (log : List StorageOp) : List Write := log.filterMap StorageOp.toWrite

/-- The name under which a slot of a partition is opened. -/
def slotTarget (n : List UInt8) : Option Nat → List UInt8
  | none => n
  | some slot => if slot = 0 then n else n ++ ascii "_b"

/-- The write of a partition's data to one of its slots. -/
def theWrite (n : List UInt8) (data size : Nat) (slot : Option Nat) (done : Bool) : Write :=
  ⟨n, slot, slotTarget n slot, isBct (slotTarget n slot), data, size, done⟩

/-- The device's spec, once it is asked for. -/
def specOf (dev : Device) (s : State) : Option (List UInt8) :=
  if s.globalNctSpec ≠ [] then some s.globalNctSpec
  else dev.nctSpec.map (fun ids => formatSpec ids.1 ids.2)

/-- Only the log and the number of calls changed, and perhaps the spec is known now. -/
structure Frame (dev : Device) (s t : State) (ws : List Write) : Prop where
  list : t.list = s.list
  spec : specOf dev t = specOf dev s
  checked : t.isNewBupChecked = s.isNewBupChecked
  required : t.isRequired = s.isRequired
  suffix : t.updateSlotSuffix = s.updateSlotSuffix
  writes : writesOf t.log = writesOf s.log ++ ws

/-- No primitive fails, and the suffix is that of a slot. -/
structure Faultless (pat : Pattern) (suffix : List UInt8) : Prop where
  opens : ∀ k name, pat.opens k name = none
  fails : ∀ k, pat.fails k = none
  suffix : ∃ slot, getSlotViaSuffix suffix = .ok slot

/-- Why a program stopped. -/
def Halts (pat : Pattern) (suffix : List UInt8) (sound : Prop) (stop : Stop) : Prop :=
  (stop = .outOfBounds ∧ ¬ sound) ∨ ((∃ e, stop = .err e) ∧ ¬ Faultless pat suffix)

/-- A program that began in `s` stopped in `t`, after writes of which `ok` holds. -/
def Halted (dev : Device) (pat : Pattern) (sound : Prop) (s : State) (ok : List Write → Prop) (stop : Stop)
    (t : State) : Prop :=
  Halts pat s.updateSlotSuffix sound stop ∧ ∃ ws, Frame dev s t ws ∧ ok ws

/-- How many slots there are taken to be. -/
def slotCount (pat : Pattern) (k : Nat) : Nat := (pat.slots k).elim 1 (· % 256)

/-- The slots that are written after the update slot. -/
def furtherSlots (required : Bool) (n : List UInt8) (numSlots updateSlot : Nat) : List Nat :=
  if numSlots = 1 then []
  else if required || decide (n = ascii "mb1") then otherSlots numSlots updateSlot
  else []

/-- The slots to which a partition is written. -/
inductive Plan (pat : Pattern) (required : Bool) (suffix n : List UInt8) :
    List (Option Nat) → Prop
  | whole {k : Nat} : pat.opens k (n ++ ascii "_b") ≠ none → Plan pat required suffix n [none]
  | slots {k updateSlot : Nat} (k' : Nat) : getSlotViaSuffix suffix = .ok updateSlot →
      pat.opens k (n ++ ascii "_b") = none →
      Plan pat required suffix n
        (some updateSlot :: (furtherSlots required n (slotCount pat k') updateSlot).map some)

/-- The first few writes of a plan; the last may have failed. -/
structure Attempt (n : List UInt8) (data size : Nat) (slots : List (Option Nat))
    (ws : List Write) : Prop where
  planned : ws.map Write.slot <+: slots
  same : ∀ w ∈ ws, w = theWrite n data size w.slot w.done

variable {buf : Buffer} {dev : Device} {pat : Pattern} {s t u : State}

@[simp] theorem writesOf_append (log : List StorageOp) (op : StorageOp) :
    writesOf (log ++ [op]) = writesOf log ++ op.toWrite.toList := by
  cases op <;> simp [writesOf, StorageOp.toWrite]

theorem Frame.refl (dev : Device) (s : State) : Frame dev s s [] :=
  ⟨rfl, rfl, rfl, rfl, rfl, (List.append_nil _).symm⟩

theorem Frame.trans {ws ws' : List Write} (h : Frame dev s t ws) (h' : Frame dev t u ws') :
    Frame dev s u (ws ++ ws') where
  list := h'.list.trans h.list
  spec := h'.spec.trans h.spec
  checked := h'.checked.trans h.checked
  required := h'.required.trans h.required
  suffix := h'.suffix.trans h.suffix
  writes := by rw [h'.writes, h.writes, List.append_assoc]

/-- Another call of a primitive. -/
theorem Frame.call {ws : List Write} (h : Frame dev s t ws) :
    Frame dev s { t with calls := t.calls + 1 } ws :=
  ⟨h.list, h.spec, h.checked, h.required, h.suffix, h.writes⟩

theorem frame_logOp (dev : Device) (op : StorageOp) :
    Frame dev s { s with log := s.log ++ [op] } op.toWrite.toList :=
  ⟨rfl, rfl, rfl, rfl, rfl, writesOf_append s.log op⟩

/-! ## Halting -/

theorem Halts.mono {suffix : List UInt8} {sound sound' : Prop} {stop : Stop}
    (h : Halts pat suffix sound stop) (hs : sound' → sound) : Halts pat suffix sound' stop :=
  h.imp (And.imp_right (fun hn hs' => hn (hs hs'))) id

/-- A part that stopped, in a program that had made writes before it. -/
theorem Halted.after {sound sound' : Prop} {ok ok' : List Write → Prop} {stop : Stop}
    {ws : List Write} (hf : Frame dev s t ws) (h : Halted dev pat sound' t ok' stop u)
    (hs : sound → sound') (hok : ∀ ws', ok' ws' → ok (ws ++ ws')) :
    Halted dev pat sound s ok stop u := by
  obtain ⟨hh, ws', hf', hok'⟩ := h
  rw [hf.suffix] at hh
  exact ⟨hh.mono hs, ws ++ ws', hf.trans hf', hok ws' hok'⟩

theorem Halted.mono {sound sound' : Prop} {ok ok' : List Write → Prop} {stop : Stop}
    (h : Halted dev pat sound' s ok' stop u) (hs : sound → sound') (hok : ∀ ws, ok' ws → ok ws) :
    Halted dev pat sound s ok stop u :=
  Halted.after (Frame.refl dev s) h hs hok

theorem halted_outOfBounds {sound : Prop} {ok : List Write → Prop} (h : ¬ sound) (hok : ok []) :
    Halted dev pat sound s ok .outOfBounds s :=
  ⟨.inl ⟨rfl, h⟩, [], Frame.refl dev s, hok⟩

theorem halted_err {sound : Prop} {ok : List Write → Prop} {e : TegrablErr} {ws : List Write}
    (h : ¬ Faultless pat s.updateSlotSuffix) (hf : Frame dev s t ws) (hok : ok ws) :
    Halted dev pat sound s ok (.err e) t :=
  ⟨.inr ⟨⟨e, rfl⟩, h⟩, ws, hf, hok⟩

theorem not_faultless_of_fails {suffix : List UInt8} {k : Nat} {e : TegrablErr}
    (h : pat.fails k = some e) : ¬ Faultless pat suffix := by
  intro hf
  rw [hf.fails k] at h
  cases h

theorem not_faultless_of_opens {suffix : List UInt8} {k : Nat} {name : List UInt8}
    {e : TegrablErr} (h : pat.opens k name = some e) : ¬ Faultless pat suffix := by
  intro hf
  rw [hf.opens k name] at h
  cases h

/-! ## Primitives -/

variable {α : Type} {Q : α → State → Prop} {E : Stop → State → Prop}

theorem wp_read {r : Option α} (hsome : ∀ a, r = some a → Q a s)
    (hnone : r = none → E .outOfBounds s) : wp (read r) Q E s := by
  cases r with
  | some a => exact hsome a rfl
  | none => exact hnone rfl

theorem wp_read_some {r : Option α} {a : α} (h : r = some a) (hq : Q a s) : wp (read r) Q E s := by
  rw [h]
  exact hq

theorem wp_orFail {r : Except TegrablErr α} (hok : ∀ a, r = .ok a → Q a s)
    (herr : ∀ e, r = .error e → E (.err e) s) : wp (orFail r) Q E s := by
  cases r with
  | ok a => exact hok a rfl
  | error e => exact herr e rfl

theorem wp_throwIf {failed : Option TegrablErr} {Q : Unit → State → Prop}
    (hnone : failed = none → Q () s) (hsome : ∀ e, failed = some e → E (.err e) s) :
    wp (throwIf failed) Q E s := by
  cases failed with
  | none => exact hnone rfl
  | some e => exact hsome e rfl

@[simp] theorem wp_nextFault {Q : Option TegrablErr → State → Prop} :
    wp (nextFault pat) Q E s ↔ Q (pat.fails s.calls) { s with calls := s.calls + 1 } := Iff.rfl

@[simp] theorem wp_partitionOpen {name : List UInt8} {Q : Option TegrablErr → State → Prop} :
    wp (partitionOpen pat name) Q E s ↔
      Q (pat.opens s.calls name) { s with calls := s.calls + 1 } := Iff.rfl

@[simp] theorem wp_logOp {op : StorageOp} {Q : Unit → State → Prop} :
    wp (logOp op) Q E s ↔ Q () { s with log := s.log ++ [op] } := Iff.rfl

@[simp] theorem wp_getSlotNum {Q : Nat → State → Prop} :
    wp (getSlotNum pat) Q E s ↔ Q (slotCount pat s.calls) { s with calls := s.calls + 1 } :=
  Iff.rfl

/-- All the bytes of a range are in the payload. -/
def InRange (buf : Buffer) (off len : Nat) : Prop := len = 0 ∨ off + len ≤ buf.bytes.length

theorem wp_readRange {off len : Nat} {Q : Unit → State → Prop} (hin : InRange buf off len → Q () s)
    (hout : ¬ InRange buf off len → E .outOfBounds s) : wp (readRange buf off len) Q E s := by
  refine wp_read ?_ ?_
  · intro a h
    split at h
    case isTrue hr => exact hin hr
    case isFalse => cases h
  · intro h
    split at h
    case isTrue => cases h
    case isFalse hr => exact hout hr

/-! ## One write -/

theorem wp_eraseOnQspi (dev : Device) (target : List UInt8) :
    wp (eraseOnQspi pat target) (fun _ t => Frame dev s t []) (Halted dev pat True s (· = [])) s := by
  rw [eraseOnQspi, wp_ite]
  split
  case isFalse => exact Frame.refl dev s
  case isTrue =>
    simp only [wp_bind, wp_logOp, wp_nextFault]
    have hframe := (frame_logOp (s := s) dev (.erase target)).call
    refine wp_throwIf (fun _ => hframe) ?_
    intro e he
    obtain ⟨e', he', -⟩ := Option.map_eq_some_iff.mp he
    exact halted_err (not_faultless_of_fails he') hframe rfl

/-- A write is made, or it is not, or it fails. -/
theorem wp_storageWrite (dev : Device) (w : Write) :
    wp (storageWrite buf pat w)
      (fun _ t => InRange buf w.off w.len ∧ Frame dev s t [{ w with done := true }])
      (Halted dev pat (InRange buf w.off w.len) s
        (fun ws => ws = [] ∨ ws = [{ w with done := false }])) s := by
  rw [storageWrite, wp_bind]
  refine wp_readRange ?_ (fun hout => halted_outOfBounds hout (.inl rfl))
  intro hin
  simp only [wp_bind, wp_nextFault, wp_logOp]
  have hframe : ∀ done, Frame dev s { s with
      calls := s.calls + 1, log := s.log ++ [.write { w with done := done }] }
      [{ w with done := done }] := by
    intro done
    exact ⟨rfl, rfl, rfl, rfl, rfl, writesOf_append s.log _⟩
  refine wp_throwIf ?_ ?_
  · intro hnone
    rw [hnone]
    exact ⟨hin, hframe true⟩
  · intro e he
    have hnf : ¬ Faultless pat s.updateSlotSuffix := not_faultless_of_fails he
    rw [he]
    exact halted_err hnf (hframe false) (.inr rfl)

/-- The partition at `part` is written under the name that `p` holds. -/
theorem wp_writePartition (dev : Device) {part data size : Nat} {slot : Option Nat} {p : Str}
    {target : List UInt8} (htarget : cstring (p.bytes buf) = some target) {w : Bool → Write}
    (hw : w = fun done =>
      ⟨(Str.field part).name buf, slot, target, isBct target, data, size, done⟩) :
    wp (writePartition buf pat part slot p data size)
      (fun _ t => InRange buf data size ∧ Frame dev s t [w true])
      (Halted dev pat (InRange buf data size) s (fun ws => ws = [] ∨ ws = [w false])) s := by
  subst hw
  rw [writePartition, wp_bind]
  refine wp_read_some htarget ?_
  simp only [wp_bind, wp_partitionOpen]
  have hopen := (Frame.refl dev s).call
  refine wp_throwIf ?_ (fun e he => halted_err (not_faultless_of_opens he) hopen (.inl rfl))
  intro _
  rw [wp_bind]
  refine wp_mono (wp_eraseOnQspi dev target) ?_ ?_
  · intro _ t ht
    have hframe := hopen.trans ht
    refine wp_mono (wp_storageWrite dev _) ?_ ?_
    · intro _ u hu
      exact ⟨hu.1, hframe.trans hu.2⟩
    · intro stop u hu
      exact hu.after hframe id (fun ws hws => hws)
  · intro stop t ht
    exact ht.after hopen (fun _ => trivial) (fun ws hws => .inl hws)

/-! ## Names in local buffers -/

/-- A partition name for which the local buffers have room. -/
structure NameOk (buf : Buffer) (part : Nat) : Prop where
  ends : 0 ∈ buf.tail part
  room : (upTo (gptPartNameLen - 1) (buf.tail part)).length + 2 < gptPartNameLen

theorem NameOk.whole {part : Nat} (h : NameOk buf part) :
    (buf.tail part).takeWhile (· ≠ 0) = upTo (gptPartNameLen - 1) (buf.tail part) := by
  have hroom := h.room
  rw [gptPartNameLen] at hroom
  exact takeWhile_of_upTo_lt (by rw [gptPartNameLen]; omega)

/-- The copy in a local buffer is the name that the code compares. -/
theorem NameOk.copy {part : Nat} (h : NameOk buf part) :
    upTo (gptPartNameLen - 1) (buf.tail part) = (Str.field part).name buf := by
  rw [← h.whole]
  have hroom := h.room
  rw [← h.whole] at hroom
  exact takeWhile_eq_upTo (by omega)

theorem NameOk.cstring {part : Nat} (h : NameOk buf part) :
    cstring (buf.tail part) = some ((Str.field part).name buf) := by
  rw [cstring_of_mem h.ends, h.whole, h.copy]

theorem NameOk.length {part : Nat} (h : NameOk buf part) :
    ((Str.field part).name buf).length + 2 < gptPartNameLen := by
  rw [← h.copy]
  exact h.room

theorem name_no_zero (buf : Buffer) (part : Str) : 0 ∉ part.name buf := by
  intro hmem
  simpa using List.mem_takeWhile_imp hmem

theorem fullPartName_eq {n : List UInt8} (h : n.length + 2 < gptPartNameLen) (slot : Nat) :
    fullPartName slot n = some (slotTarget n (some slot)) := by
  rw [fullPartName, slotTarget, if_pos h]
  split <;> rfl

theorem cstring_literal {s : List UInt8} (hs : 0 ∉ s) : cstring (s ++ [0]) = some s := by
  rw [cstring_of_mem (by simp)]
  have hlt : ((s ++ [(0 : UInt8)]).takeWhile (· ≠ 0)).length < s.length + 2 := by
    refine Nat.lt_of_le_of_lt (List.takeWhile_sublist _).length_le ?_
    simp
  rw [takeWhile_eq_upTo hlt, upTo_literal hs (by omega)]

theorem slotTarget_no_zero {n : List UInt8} (h : 0 ∉ n) (slot : Option Nat) :
    0 ∉ slotTarget n slot := by
  cases slot with
  | none => exact h
  | some slot =>
      rw [slotTarget]
      split
      · exact h
      · intro hmem
        rcases List.mem_append.mp hmem with hm | hm
        · exact h hm
        · exact absurd hm (by decide)

/-! ## The slots of a partition -/

variable {part data size : Nat}

theorem wp_partitionHasSlot (dev : Device) (hread : Readable (gptPartNameLen - 1) (buf.tail part))
    (hends : 0 ∈ buf.tail part) :
    wp (partitionHasSlot buf pat part)
      (fun b t => NameOk buf part ∧ Frame dev s t [] ∧
        ∃ k, b = (pat.opens k ((Str.field part).name buf ++ ascii "_b")).isNone)
      (Halted dev pat (NameOk buf part) s (· = [])) s := by
  rw [partitionHasSlot, wp_bind]
  refine wp_read_some (strncpy_eq hread) ?_
  rw [wp_bind]
  refine wp_read ?_ ?_
  · intro full hfull
    rw [fullPartName, if_neg (by decide)] at hfull
    split at hfull
    case isFalse => cases hfull
    case isTrue hroom =>
      have hok : NameOk buf part := ⟨hends, hroom⟩
      rw [hok.copy] at hfull
      obtain rfl := Option.some.inj hfull
      exact ⟨hok, (Frame.refl dev s).call, s.calls, rfl⟩
  · intro hnone
    refine halted_outOfBounds ?_ rfl
    intro hok
    rw [fullPartName_eq hok.room] at hnone
    cases hnone

theorem wp_writeSlot (dev : Device) (hread : Readable (gptPartNameLen - 1) (buf.tail part))
    (hok : NameOk buf part) (slot : Nat) :
    wp (writeSlot buf pat part data size slot)
      (fun _ t => InRange buf data size ∧
        Frame dev s t [theWrite ((Str.field part).name buf) data size (some slot) true])
      (Halted dev pat (InRange buf data size) s (fun ws => ws = [] ∨
        ws = [theWrite ((Str.field part).name buf) data size (some slot) false])) s := by
  rw [writeSlot, wp_bind]
  refine wp_read_some (strncpy_eq hread) ?_
  rw [wp_bind, hok.copy]
  refine wp_read_some (fullPartName_eq hok.length slot) ?_
  have htarget := cstring_literal (slotTarget_no_zero (name_no_zero buf (.field part))
    (some slot))
  exact wp_writePartition dev (p := .const _) htarget rfl

theorem attempt_nil (n : List UInt8) (slots : List (Option Nat)) : Attempt n data size slots [] :=
  ⟨List.nil_prefix, fun _ h => absurd h List.not_mem_nil⟩

theorem attempt_all (n : List UInt8) (slots : List (Option Nat)) :
    Attempt n data size slots (slots.map (theWrite n data size · true)) := by
  refine ⟨?_, ?_⟩
  · rw [List.map_map]
    exact (List.map_id slots).symm ▸ List.prefix_rfl
  · intro w hw
    obtain ⟨slot, -, rfl⟩ := List.mem_map.mp hw
    rfl

theorem Attempt.cons {n : List UInt8} {slots : List (Option Nat)} {ws : List Write}
    (h : Attempt n data size slots ws) (slot : Option Nat) (done : Bool) :
    Attempt n data size (slot :: slots) (theWrite n data size slot done :: ws) := by
  refine ⟨(List.prefix_cons_inj slot).mpr h.planned, ?_⟩
  intro w hw
  rcases List.mem_cons.mp hw with rfl | hw
  · rfl
  · exact h.same w hw

/-- The first write of a plan, made or failed or left out. -/
theorem attempt_first {n : List UInt8} {slot : Option Nat} {slots : List (Option Nat)}
    {ws : List Write} (h : ws = [] ∨ ws = [theWrite n data size slot false]) :
    Attempt n data size (slot :: slots) ws := by
  rcases h with rfl | rfl
  · exact attempt_nil n _
  · exact (attempt_nil n slots).cons slot false

/-- The loop over the other slots. -/
theorem wp_writeSlots (dev : Device) (hread : Readable (gptPartNameLen - 1) (buf.tail part))
    (hok : NameOk buf part) (hin : InRange buf data size) (slots : List Nat) :
    ∀ s, wp (forM slots (writeSlot buf pat part data size))
      (fun _ t => Frame dev s t
        ((slots.map some).map (theWrite ((Str.field part).name buf) data size · true)))
      (Halted dev pat True s (Attempt ((Str.field part).name buf) data size (slots.map some))) s := by
  induction slots with
  | nil => exact fun s => Frame.refl dev s
  | cons slot slots ih =>
      intro s
      simp only [List.forM_cons, wp_bind]
      refine wp_mono (wp_writeSlot dev hread hok slot) ?_ ?_
      · rintro _ t ⟨-, ht⟩
        refine wp_mono (ih t) ?_ ?_
        · intro _ u hu
          exact ht.trans hu
        · intro stop u hu
          exact hu.after ht id (fun ws hws => hws.cons (some slot) true)
      · intro stop t ht
        exact ht.mono (fun _ => hin) (fun ws hws => attempt_first hws)

theorem isAlwaysAb_eq (hok : NameOk buf part) :
    isAlwaysAb (buf.tail part) = some (decide ((Str.field part).name buf = ascii "mb1")) := by
  have hupTo : upTo 4 (literal "mb1") = ascii "mb1" := by decide
  rw [isAlwaysAb, strncmp_eq (readable_of_mem hok.ends) (readable_of_mem (by decide)), hupTo]
  congr 1
  rw [decide_eq_decide, ← take_upTo (show 4 ≤ gptPartNameLen by decide)]
  show (Str.name buf (.field part)).take 4 = _ ↔ _
  constructor
  · intro h
    have hlen : (Str.name buf (.field part)).length < 4 := by
      have := congrArg List.length h
      rw [List.length_take, show (ascii "mb1").length = 3 from by decide] at this
      omega
    rwa [List.take_of_length_le (by omega)] at h
  · intro h
    rw [h]
    decide

theorem wp_writeOtherSlots (hread : Readable (gptPartNameLen - 1) (buf.tail part))
    (hok : NameOk buf part) (hin : InRange buf data size) (hchk : s.isNewBupChecked = true)
    (updateSlot : Nat) :
    wp (writeOtherSlots buf dev pat part updateSlot data size)
      (fun _ t => ∃ k, Frame dev s t (((furtherSlots s.isRequired ((Str.field part).name buf)
        (slotCount pat k) updateSlot).map some).map
          (theWrite ((Str.field part).name buf) data size · true)))
      (Halted dev pat True s (fun ws => ∃ k, Attempt ((Str.field part).name buf) data size
        ((furtherSlots s.isRequired ((Str.field part).name buf) (slotCount pat k) updateSlot).map
          some) ws)) s := by
  have hcall := (Frame.refl dev s).call
  rw [writeOtherSlots, wp_bind, wp_getSlotNum, wp_ite]
  split
  case isTrue hone =>
    refine ⟨s.calls, ?_⟩
    rw [furtherSlots, if_pos hone]
    exact hcall
  case isFalse hmany =>
    rw [wp_bind]
    refine wp_read_some (isAlwaysAb_eq hok) ?_
    rw [wp_bind, isUpdateAllSlotsRequired, wp_bind, wp_get, if_pos hchk, wp_pure, wp_ite]
    have hfurther : furtherSlots s.isRequired ((Str.field part).name buf) (slotCount pat s.calls)
        updateSlot = if s.isRequired || decide ((Str.field part).name buf = ascii "mb1") then
          otherSlots (slotCount pat s.calls) updateSlot else [] := if_neg hmany
    split
    case isTrue hall =>
      rw [if_pos hall] at hfurther
      refine wp_mono (wp_writeSlots dev hread hok hin _ _) ?_ ?_
      · intro _ t ht
        refine ⟨s.calls, ?_⟩
        rw [hfurther]
        exact hcall.trans ht
      · intro stop t ht
        refine ht.after hcall id ?_
        intro ws hws
        refine ⟨s.calls, ?_⟩
        rw [hfurther]
        exact hws
    case isFalse hsome =>
      rw [if_neg hsome] at hfurther
      refine ⟨s.calls, ?_⟩
      rw [hfurther]
      exact hcall

/-- What holds of a partition's writes once they are made. -/
def Made (buf : Buffer) (dev : Device) (pat : Pattern) (s : State) (part data size : Nat) (t : State) : Prop :=
  (NameOk buf part ∧ InRange buf data size) ∧
    ∃ slots, Plan pat s.isRequired s.updateSlotSuffix ((Str.field part).name buf) slots ∧
      Frame dev s t (slots.map (theWrite ((Str.field part).name buf) data size · true))

/-- What holds of them where they were given up. -/
def Tried (buf : Buffer) (pat : Pattern) (s : State) (part data size : Nat) (ws : List Write) :
    Prop :=
  ws = [] ∨ ∃ slots, Plan pat s.isRequired s.updateSlotSuffix ((Str.field part).name buf) slots ∧
    Attempt ((Str.field part).name buf) data size slots ws

theorem wp_writeABPartition (hread : Readable (gptPartNameLen - 1) (buf.tail part))
    (hends : 0 ∈ buf.tail part) (hchk : s.isNewBupChecked = true) :
    wp (writeABPartition buf dev pat part data size)
      (fun _ t => Made buf dev pat s part data size t)
      (Halted dev pat (NameOk buf part ∧ InRange buf data size) s (Tried buf pat s part data size))
      s := by
  simp only [writeABPartition, wp_bind, wp_get]
  refine wp_orFail ?_ ?_
  case refine_2 =>
    intro e he
    refine halted_err ?_ (Frame.refl dev s) (.inl rfl)
    intro hf
    obtain ⟨slot, hslot⟩ := hf.suffix
    rw [he] at hslot
    cases hslot
  intro updateSlot hslot
  rw [wp_bind]
  refine wp_mono (wp_partitionHasSlot dev hread hends) ?_ ?_
  case refine_2 =>
    intro stop t ht
    exact ht.mono (fun h => h.1) (fun ws hws => .inl hws)
  rintro b t ⟨hok, ht, k, hb⟩
  have hreq : t.isRequired = s.isRequired := ht.required
  cases b with
  | false =>
      have hplan : Plan pat s.isRequired s.updateSlotSuffix ((Str.field part).name buf) [none] := by
        refine .whole (k := k) ?_
        intro hnone
        rw [hnone] at hb
        cases hb
      refine wp_mono (wp_writePartition dev (p := .field part) hok.cstring rfl) ?_ ?_
      · rintro _ u ⟨hin, hu⟩
        exact ⟨⟨hok, hin⟩, [none], hplan, ht.trans hu⟩
      · intro stop u hu
        exact hu.after ht (fun h => h.2) (fun ws hws => .inr ⟨_, hplan, attempt_first hws⟩)
  | true =>
      have hopen : pat.opens k ((Str.field part).name buf ++ ascii "_b") = none :=
        Option.isNone_iff_eq_none.mp hb.symm
      simp only [if_true, wp_bind]
      refine wp_mono (wp_writeSlot dev hread hok updateSlot) ?_ ?_
      · rintro _ u ⟨hin, hu⟩
        have hframe := ht.trans hu
        have hchk' : u.isNewBupChecked = true := hframe.checked.trans hchk
        refine wp_mono (wp_writeOtherSlots hread hok hin hchk' updateSlot) ?_ ?_
        · rintro _ v ⟨k', hv⟩
          rw [hframe.required] at hv
          exact ⟨⟨hok, hin⟩, _, .slots k' hslot hopen, hframe.trans hv⟩
        · intro stop v hv
          refine hv.after hframe (fun _ => trivial) ?_
          rintro ws ⟨k', hws⟩
          rw [hframe.required] at hws
          exact .inr ⟨_, .slots k' hslot hopen, hws.cons (some updateSlot) true⟩
      · intro stop u hu
        refine hu.after ht (fun h => h.2) ?_
        intro ws hws
        exact .inr ⟨_, .slots 0 hslot hopen, attempt_first hws⟩

end TX2SecureUart.Update
