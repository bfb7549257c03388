/-
# `Storage.References` — who counts in `ref`

In a run that refuses no registration and drops no last reference, `ref` is one
for the list plus the open handles of the device.  The last reference is where
it goes wrong: `unregister` takes the device out of the list first, so
`bdev_dec_ref` finds it in no list and neither closes nor frees it.
-/
import TX2SecureUart.Storage.Registry

namespace TX2SecureUart.Storage

open Prog ListNode

variable {n : Nat} {info : BdevInfo} {L : Links BdevNode} {devs l₁ l₂ : List Nat} {d : Nat}

/-! ## The system -/

structure RefSys where
  bdevs : Bdevs
  /-- The device of every open handle. -/
  handles : List Nat
  /-- Was registered, and not refused. -/
  known : Nat → Bool
  /-- Was unregistered. -/
  gone : Nat → Bool

inductive RefAct where
  | register (d : Nat)
  | openBdev (storageType instance_ : UInt32)
  | close (d : Nat)
  | unregister (d : Nat)

def onBdevs {α : Type} (m : BdevM α) : EStateM Crash RefSys α :=
  zoom RefSys.bdevs (fun b s => { s with bdevs := b }) m

def RefAct.run (n : Nat) (info : BdevInfo) : RefAct → EStateM Crash RefSys PUnit
  | .register d => do
      let e ← onBdevs (tegrablBlockdevRegisterDevice n info d)
      if e = none then modify fun s => { s with known := Function.update s.known d true }
      else pure ⟨⟩
  | .openBdev storageType instance_ => do
      match ← onBdevs (tegrablBlockdevOpen n info storageType instance_) with
      | some d => modify fun s => { s with handles := d :: s.handles }
      | none => pure ⟨⟩
  | .close d => do
      let _ ← onBdevs (tegrablBlockdevClose info d)
      modify fun s => { s with handles := s.handles.erase d }
  | .unregister d => do
      let _ ← onBdevs (tegrablBlockdevUnregisterDevice info d)
      modify fun s => { s with gone := Function.update s.gone d true }

/-- A handle is closed once, a device that was registered is unregistered once,
and one that was freed is not registered again. -/
def RefAct.Allowed (n : Nat) (s : RefSys) : RefAct → Prop
  | .register d => d < n ∧ s.bdevs.freed d = 0
  | .openBdev _ _ => True
  | .close d => d ∈ s.handles
  | .unregister d => s.known d = true ∧ s.gone d = false

def registry (n : Nat) (info : BdevInfo) : Machine Crash RefSys RefAct where
  init := ⟨tegrablBlockdevInit, [], fun _ => false, fun _ => false⟩
  run := RefAct.run n info
  Enabled := RefAct.Allowed n

/-- A registration of a new id, or a step after which the device it is about has
a reference; and the 32 bits of the counter that grows suffice. -/
def Retains (n : Nat) (info : BdevInfo) (s : RefSys) : RefAct → Prop
  | .register d => s.bdevs.search n (fun e => info.deviceId e = info.deviceId d) = some none ∧
      s.bdevs.ref d ≠ 0xFFFFFFFF
  | .openBdev storageType instance_ => ∀ d,
      info.deviceId d = tegrablBlockDeviceId storageType instance_ → s.bdevs.ref d ≠ 0xFFFFFFFF
  | .close d => s.bdevs.ref d ≠ 1
  | .unregister d => s.bdevs.ref d ≠ 1

/-- References of a device: its place in the list and its open handles. -/
def refsTo (devs handles : List Nat) (d : Nat) : Nat :=
  (if d ∈ devs then 1 else 0) + handles.count d

/-- What the references have to be worth, with `ok` for the steps that are meant. -/
structure Counted (n : Nat) (info : BdevInfo) (ok : RefSys → RefAct → Prop) (s : RefSys) : Prop where
  /-- `ref` is right, and with the last reference the device was closed and freed
  once, and never before. -/
  refs : ∃ devs, Ring s.bdevs.links .list (devs.map .dev) ∧ ∀ d,
    (s.bdevs.ref d).toNat = refsTo devs s.handles d ∧
    s.bdevs.freed d = (if s.known d = true ∧ refsTo devs s.handles d = 0 then 1 else 0) ∧
    s.bdevs.closed d =
      (if s.known d = true ∧ refsTo devs s.handles d = 0 ∧ info.hasClose d = true then 1 else 0)
  /-- A registration that is refused changes nothing. -/
  refused : ∀ d e t, RefAct.Allowed n s (.register d) → ok s (.register d) →
    tegrablBlockdevRegisterDevice n info d s.bdevs = .ok (some e) t →
    t.ref = s.bdevs.ref ∧ t.links = s.bdevs.links

/-! ## The list of devices -/

structure Listed (n : Nat) (info : BdevInfo) (L : Links BdevNode) (devs : List Nat) : Prop where
  ring : Ring L .list (devs.map .dev)
  bound : ∀ d ∈ devs, d < n
  ids : (devs.map info.deviceId).Nodup

theorem mem_map_dev {l : List Nat} : BdevNode.dev d ∈ l.map BdevNode.dev ↔ d ∈ l := by
  simp

theorem not_mem_ring (h : d ∉ devs) : BdevNode.dev d ∉ BdevNode.list :: devs.map BdevNode.dev := by
  intro hm
  exact h (mem_map_dev.mp ((List.mem_cons.mp hm).resolve_left (by simp)))

theorem Listed.nodup (h : Listed n info L devs) : devs.Nodup := List.Nodup.of_map _ h.ids

theorem Listed.length_le (h : Listed n info L devs) : devs.length ≤ n := by
  have hsub : devs ⊆ List.range n := fun d hd => List.mem_range.mpr (h.bound d hd)
  simpa using (h.nodup.subperm hsub).length_le

theorem Listed.search {s : Bdevs} (h : Listed n info s.links devs) (p : Nat → Bool) :
    s.search n p = some ((devs.find? p).map BdevNode.dev) := by
  have hlen : (devs.map BdevNode.dev).length < n + 1 := by
    rw [List.length_map]
    exact Nat.lt_succ_of_le h.length_le
  have hp : ∀ x ∈ devs.map BdevNode.dev, Bdevs.entry p x = some ((Bdevs.entry p x).getD false) := by
    intro x hx
    obtain ⟨d, _, rfl⟩ := List.mem_map.mp hx
    rfl
  rw [Bdevs.search, h.ring.find hp hlen, List.find?_map]
  rfl

theorem searchBdevs_run {s : Bdevs} (h : Listed n info s.links devs) (p : Nat → Bool) :
    searchBdevs n p s = .ok (devs.find? p) s := by
  simp only [searchBdevs, run_bind, run_get, h.search p]
  cases devs.find? p <;> rfl

theorem Listed.add (h : Listed n info L devs) (hd : d < n)
    (hnew : ∀ e ∈ devs, info.deviceId e ≠ info.deviceId d) :
    ∃ L', L.listAddTail .list (.dev d) = some L' ∧ Listed n info L' (devs ++ [d]) := by
  have hnot : d ∉ devs := fun hm => hnew d hm rfl
  obtain ⟨L', hadd, hring, _⟩ := h.ring.listAddTail (not_mem_ring hnot)
  refine ⟨L', hadd, by simpa using hring, ?_, ?_⟩
  · intro e he
    obtain he | rfl := by simpa using he
    · exact h.bound e he
    · exact hd
  · rw [List.map_append, List.map_singleton]
    refine List.nodup_append.mpr ⟨h.ids, List.nodup_singleton _, ?_⟩
    rintro a ha b hb rfl
    obtain ⟨e, he, rfl⟩ := List.mem_map.mp ha
    exact hnew e he (List.mem_singleton.mp hb)

theorem Listed.remove (h : Listed n info L (l₁ ++ d :: l₂)) :
    ∃ L', L.listDelete (.dev d) = some L' ∧ Listed n info L' (l₁ ++ l₂) ∧
      L'.listInList (.dev d) = false := by
  have hring := h.ring
  rw [List.map_append, List.map_cons] at hring
  obtain ⟨L', hdel, hring, _, hin⟩ := hring.listDelete
  refine ⟨L', hdel, ⟨by simpa using hring, ?_, ?_⟩, hin⟩
  · intro e he
    refine h.bound e ?_
    simp only [List.mem_append, List.mem_cons] at he ⊢
    tauto
  · refine h.ids.sublist ?_
    exact ((List.sublist_cons_self d l₂).append_left l₁).map _

/-! ## Steps that retain -/

/-- A sound registry whose devices all have a reference. -/
structure Retained (n : Nat) (info : BdevInfo) (s : RefSys) (devs : List Nat) : Prop where
  listed : Listed n info s.bdevs.links devs
  ref : ∀ d, (s.bdevs.ref d).toNat = refsTo devs s.handles d
  kept : ∀ d, s.bdevs.freed d = 0 ∧ s.bdevs.closed d = 0
  known : ∀ d, s.known d = true → s.bdevs.ref d ≠ 0
  still : ∀ d, s.known d = true → s.gone d = false → d ∈ devs

variable {s : RefSys}

theorem Retained.counted (h : Retained n info s devs) : Counted n info (Retains n info) s where
  refs := by
    refine ⟨devs, h.listed.ring, ?_⟩
    intro d
    have hzero : ¬ (s.known d = true ∧ refsTo devs s.handles d = 0) := by
      rintro ⟨hk, hz⟩
      refine h.known d hk ?_
      rw [← h.ref d] at hz
      exact UInt32.toNat_inj.mp hz
    refine ⟨h.ref d, ?_, ?_⟩
    · rw [if_neg hzero]
      exact (h.kept d).1
    · rw [if_neg (fun hc => hzero ⟨hc.1, hc.2.1⟩)]
      exact (h.kept d).2
  refused := by
    intro d e t _ hok hrun
    obtain ⟨hnew, _⟩ := hok
    rw [h.listed.search] at hnew
    have hnone : devs.find? (fun e => decide (info.deviceId e = info.deviceId d)) = none := by
      simpa using hnew
    have hs := searchBdevs_run (s := { s.bdevs with
      ref := Function.update s.bdevs.ref d (s.bdevs.ref d + 1) }) h.listed
      fun e => info.deviceId e = info.deviceId d
    simp only [tegrablBlockdevRegisterDevice, bdevIncRef, run_bind, run_modify, hs, hnone] at hrun
    split at hrun <;> cases hrun

theorem inc_toNat {r : UInt32} (h : r ≠ 0xFFFFFFFF) : (r + 1).toNat = r.toNat + 1 := by
  have hlt := r.toNat_lt
  have hne : r.toNat ≠ 0xFFFFFFFF := fun he => h (UInt32.toNat_inj.mp he)
  rw [UInt32.toNat_add]
  show (r.toNat + 1) % 4294967296 = r.toNat + 1
  omega

theorem dec_toNat {r : UInt32} (h : r ≠ 0) : (r - 1).toNat = r.toNat - 1 := by
  have hlt := r.toNat_lt
  have hne : r.toNat ≠ 0 := fun he => h (UInt32.toNat_inj.mp he)
  rw [UInt32.toNat_sub]
  show (4294967296 - 1 + r.toNat) % 4294967296 = r.toNat - 1
  omega

/-- Dropping a reference that is not the last touches nothing but the count. -/
theorem bdevDecRef_run (info : BdevInfo) (b : Bdevs) (h₀ : b.ref d ≠ 0) (h₁ : b.ref d ≠ 1) :
    bdevDecRef info d b = .ok none { b with ref := Function.update b.ref d (b.ref d - 1) } := by
  have hpos : b.ref d > 0 := UInt32.pos_iff_ne_zero.mpr h₀
  simp only [bdevDecRef, run_bind, run_get, if_pos hpos, run_modify, if_neg h₁, run_pure]

theorem register_retained (h : Retained n info s devs) (hd : d < n)
    (hok : Retains n info s (.register d)) :
    wp (RefAct.run n info (.register d)) (fun _ t => ∃ devs, Retained n info t devs)
      (fun _ _ => False) s := by
  obtain ⟨hnew, hwrap⟩ := hok
  rw [h.listed.search] at hnew
  have hnone : devs.find? (fun e => decide (info.deviceId e = info.deviceId d)) = none := by
    simpa using hnew
  have hs := searchBdevs_run (s := { s.bdevs with
    ref := Function.update s.bdevs.ref d (s.bdevs.ref d + 1) }) h.listed
    fun e => info.deviceId e = info.deviceId d
  have hids : ∀ e ∈ devs, info.deviceId e ≠ info.deviceId d := by
    intro e he
    simpa using List.find?_eq_none.mp hnone e he
  have hnot : d ∉ devs := fun hm => hids d hm rfl
  obtain ⟨L, hadd, hlisted⟩ := h.listed.add hd hids
  have hrun : tegrablBlockdevRegisterDevice n info d s.bdevs = .ok none { s.bdevs with
      links := L, ref := Function.update s.bdevs.ref d (s.bdevs.ref d + 1) } := by
    simp only [tegrablBlockdevRegisterDevice, bdevIncRef, run_bind, run_modify, hs, hnone, onNodes,
      run_get, hadd, run_pure]
  simp only [RefAct.run, onBdevs, wp_bind, wp_zoom]
  refine wp_run hrun ?_
  simp only [if_true]
  refine ⟨devs ++ [d], hlisted, ?_, h.kept, ?_, ?_⟩
  · intro e
    show (Function.update s.bdevs.ref d _ e).toNat = refsTo (devs ++ [d]) s.handles e
    by_cases he : e = d
    · subst he
      rw [Function.update_self, inc_toNat hwrap, h.ref e, refsTo, refsTo, if_neg hnot,
        if_pos (by simp)]
      omega
    · rw [Function.update_of_ne he, h.ref e, refsTo, refsTo]
      simp [he]
  · intro e he
    show Function.update s.bdevs.ref d _ e ≠ 0
    by_cases hed : e = d
    · subst hed
      rw [Function.update_self]
      intro hz
      have := inc_toNat hwrap
      rw [hz] at this
      simp at this
    · rw [Function.update_of_ne hed]
      have he : Function.update s.known d true e = true := he
      rw [Function.update_of_ne hed] at he
      exact h.known e he
  · intro e he hg
    by_cases hed : e = d
    · subst hed
      simp
    · have he : Function.update s.known d true e = true := he
      rw [Function.update_of_ne hed] at he
      exact List.mem_append_left _ (h.still e he hg)

theorem open_retained (h : Retained n info s devs) {storageType instance_ : UInt32}
    (hok : Retains n info s (.openBdev storageType instance_)) :
    wp (RefAct.run n info (.openBdev storageType instance_))
      (fun _ t => ∃ devs, Retained n info t devs) (fun _ _ => False) s := by
  simp only [RefAct.run, onBdevs, wp_bind, wp_zoom]
  by_cases hst : storageType ≥ tegrablStorageInvalid
  · have hrun : tegrablBlockdevOpen n info storageType instance_ s.bdevs = .ok none s.bdevs := by
      rw [tegrablBlockdevOpen, if_pos hst]
      rfl
    exact wp_run hrun ⟨devs, h⟩
  have hs := searchBdevs_run h.listed fun d => s.bdevs.ref d = 0 ||
    info.deviceId d = tegrablBlockDeviceId storageType instance_
  cases hf : devs.find? fun d => decide (s.bdevs.ref d = 0) ||
      decide (info.deviceId d = tegrablBlockDeviceId storageType instance_) with
  | none =>
      have hrun : tegrablBlockdevOpen n info storageType instance_ s.bdevs = .ok none s.bdevs := by
        simp only [tegrablBlockdevOpen, if_neg hst, run_bind, run_get, hs, hf, run_pure]
      exact wp_run hrun ⟨devs, h⟩
  | some d =>
      have hd : d ∈ devs := List.mem_of_find?_eq_some hf
      have hne : s.bdevs.ref d ≠ 0 := by
        intro hz
        have := h.ref d
        rw [hz, refsTo, if_pos hd] at this
        simp at this
        omega
      have hid : info.deviceId d = tegrablBlockDeviceId storageType instance_ := by
        simpa [hne] using List.find?_some hf
      have hrun : tegrablBlockdevOpen n info storageType instance_ s.bdevs = .ok (some d)
          { s.bdevs with ref := Function.update s.bdevs.ref d (s.bdevs.ref d + 1) } := by
        simp only [tegrablBlockdevOpen, if_neg hst, run_bind, run_get, hs, hf, if_neg hne, bdevIncRef,
          run_modify, run_pure]
      refine wp_run hrun ⟨devs, h.listed, ?_, h.kept, ?_, h.still⟩
      · intro e
        show (Function.update s.bdevs.ref d _ e).toNat = refsTo devs (d :: s.handles) e
        by_cases he : e = d
        · subst he
          rw [Function.update_self, inc_toNat (hok e hid), h.ref e, refsTo, refsTo, List.count_cons_self]
          omega
        · rw [Function.update_of_ne he, h.ref e, refsTo, refsTo, List.count_cons_of_ne (Ne.symm he)]
      · intro e he
        show Function.update s.bdevs.ref d _ e ≠ 0
        by_cases hed : e = d
        · subst hed
          rw [Function.update_self]
          intro hz
          have := inc_toNat (hok e hid)
          rw [hz] at this
          simp at this
        · rw [Function.update_of_ne hed]
          exact h.known e he

theorem dec_ne_zero {r : UInt32} (h₀ : r ≠ 0) (h₁ : r ≠ 1) : r - 1 ≠ 0 := by
  intro hz
  have hdec := dec_toNat h₀
  have hne₀ : r.toNat ≠ 0 := fun he => h₀ (UInt32.toNat_inj.mp he)
  have hne₁ : r.toNat ≠ 1 := fun he => h₁ (UInt32.toNat_inj.mp he)
  rw [hz] at hdec
  have hdec : 0 = r.toNat - 1 := hdec
  omega

theorem close_retained (h : Retained n info s devs) (hd : d ∈ s.handles)
    (hok : Retains n info s (.close d)) :
    wp (RefAct.run n info (.close d)) (fun _ t => ∃ devs, Retained n info t devs)
      (fun _ _ => False) s := by
  have hcount : 0 < s.handles.count d := List.count_pos_iff.mpr hd
  have hne : s.bdevs.ref d ≠ 0 := by
    intro hz
    have := h.ref d
    rw [hz, refsTo] at this
    simp at this
    omega
  simp only [RefAct.run, onBdevs, tegrablBlockdevClose, wp_bind, wp_zoom]
  refine wp_run (bdevDecRef_run _ _ hne hok) ⟨devs, h.listed, ?_, h.kept, ?_, h.still⟩
  · intro e
    show (Function.update s.bdevs.ref d _ e).toNat = refsTo devs (s.handles.erase d) e
    by_cases he : e = d
    · subst he
      rw [Function.update_self, dec_toNat hne, h.ref e, refsTo, refsTo, List.count_erase_self]
      omega
    · rw [Function.update_of_ne he, h.ref e, refsTo, refsTo, List.count_erase_of_ne he]
  · intro e he
    show Function.update s.bdevs.ref d _ e ≠ 0
    by_cases hed : e = d
    · subst hed
      rw [Function.update_self]
      exact dec_ne_zero hne hok
    · rw [Function.update_of_ne hed]
      exact h.known e he

theorem unregister_retained (h : Retained n info s devs) (hk : s.known d = true)
    (hg : s.gone d = false) (hok : Retains n info s (.unregister d)) :
    wp (RefAct.run n info (.unregister d)) (fun _ t => ∃ devs, Retained n info t devs)
      (fun _ _ => False) s := by
  have hd := h.still d hk hg
  have hne := h.known d hk
  obtain ⟨l₁, l₂, rfl⟩ := List.append_of_mem hd
  obtain ⟨L, hdel, hlisted, _⟩ := h.listed.remove
  have hnot : d ∉ l₁ ++ l₂ := (List.nodup_cons.mp ((List.nodup_middle).mp h.listed.nodup)).1
  have hdec := bdevDecRef_run info { s.bdevs with links := L } hne hok
  have hrun : tegrablBlockdevUnregisterDevice info d s.bdevs = .ok none { s.bdevs with
      links := L, ref := Function.update s.bdevs.ref d (s.bdevs.ref d - 1) } := by
    simp only [tegrablBlockdevUnregisterDevice, onNodes, run_bind, run_get, hdel, run_modify, hdec,
      run_pure]
  simp only [RefAct.run, onBdevs, wp_bind, wp_zoom]
  refine wp_run hrun ⟨l₁ ++ l₂, hlisted, ?_, h.kept, ?_, ?_⟩
  · intro e
    show (Function.update s.bdevs.ref d _ e).toNat = refsTo (l₁ ++ l₂) s.handles e
    by_cases he : e = d
    · subst he
      rw [Function.update_self, dec_toNat hne, h.ref e, refsTo, refsTo, if_neg hnot, if_pos hd]
      omega
    · have hmem : e ∈ l₁ ++ d :: l₂ ↔ e ∈ l₁ ++ l₂ := by
        simp [he]
      rw [Function.update_of_ne he, h.ref e, refsTo, refsTo]
      simp only [hmem]
  · intro e he
    show Function.update s.bdevs.ref d _ e ≠ 0
    by_cases hed : e = d
    · subst hed
      rw [Function.update_self]
      exact dec_ne_zero hne hok
    · rw [Function.update_of_ne hed]
      exact h.known e he
  · intro e he hge
    have hge : Function.update s.gone d true e = false := hge
    by_cases hed : e = d
    · rw [hed, Function.update_self] at hge
      cases hge
    · rw [Function.update_of_ne hed] at hge
      have := h.still e he hge
      simp only [List.mem_append, List.mem_cons] at this ⊢
      tauto

theorem step_retained (h : Retained n info s devs) {a : RefAct} (hen : a.Allowed n s)
    (hok : Retains n info s a) :
    wp (a.run n info) (fun _ t => ∃ devs, Retained n info t devs) (fun _ _ => False) s := by
  cases a with
  | register d => exact register_retained h hen.1 hok
  | openBdev storageType instance_ => exact open_retained h hok
  | close d => exact close_retained h hen hok
  | unregister d => exact unregister_retained h hen.1 hen.2 hok

/-! ## Runs -/

theorem retained_init (n : Nat) (info : BdevInfo) : Retained n info (registry n info).init [] where
  listed := ⟨ring_listInitialize BdevNode.list _, fun _ hd => absurd hd List.not_mem_nil,
    List.nodup_nil⟩
  ref := fun _ => rfl
  kept := fun _ => ⟨rfl, rfl⟩
  known := fun _ hk => Bool.noConfusion hk
  still := fun _ hk => Bool.noConfusion hk

/-- A run that refuses no registration and drops no last reference counts right. -/
theorem references_counted (h : (registry n info).Reachable (Retains n info) s) :
    Counted n info (Retains n info) s := by
  have hinv : ∃ devs, Retained n info s devs := by
    refine Machine.invariant (M := registry n info) (I := fun s => ∃ devs, Retained n info s devs)
      (E := fun _ _ _ _ => False) ⟨[], retained_init n info⟩ ?_ h
    intro s a hs hen hok
    obtain ⟨devs, hs⟩ := hs
    exact step_retained hs hen hok
  obtain ⟨devs, hs⟩ := hinv
  exact hs.counted

def oneDevice : BdevInfo where
  deviceId := fun _ => 0
  hasClose := fun _ => true

theorem references_counted_opened : ∃ s, (registry 1 oneDevice).Reachable (Retains 1 oneDevice) s ∧
    s.handles = [0] ∧ s.bdevs.ref 0 = 2 ∧ Counted 1 oneDevice (Retains 1 oneDevice) s := by
  have h₁ : (registry 1 oneDevice).Reachable (Retains 1 oneDevice)
      (stateOf ((RefAct.register 0).run 1 oneDevice (registry 1 oneDevice).init)) :=
    Machine.Reachable.step (M := registry 1 oneDevice) (a := RefAct.register 0)
      Machine.Reachable.init ⟨Nat.one_pos, rfl⟩ ⟨rfl, by decide⟩ rfl
  have hok : Retains 1 oneDevice
      (stateOf ((RefAct.register 0).run 1 oneDevice (registry 1 oneDevice).init)) (.openBdev 0 0) := by
    intro d _
    by_cases hd : d = 0
    · subst hd
      decide
    · have hz : (stateOf ((RefAct.register 0).run 1 oneDevice (registry 1 oneDevice).init)).bdevs.ref d
          = Function.update (fun _ => (0 : UInt32)) 0 1 d := rfl
      rw [hz, Function.update_of_ne hd]
      decide
  have h₂ := Machine.Reachable.step (M := registry 1 oneDevice) (a := RefAct.openBdev 0 0) h₁ trivial hok
    rfl
  exact ⟨_, h₂, rfl, rfl, references_counted h₂⟩

/-- A device that is registered and unregistered has no reference and is not freed. -/
theorem unregister_leaks : ¬ ∀ (n : Nat) (info : BdevInfo) (s : RefSys),
    (registry n info).Reachable (fun _ _ => True) s → Counted n info (fun _ _ => True) s := by
  intro hall
  have h₁ : (registry 1 oneDevice).Reachable (fun _ _ => True)
      (stateOf ((RefAct.register 0).run 1 oneDevice (registry 1 oneDevice).init)) :=
    Machine.Reachable.step (M := registry 1 oneDevice) (a := RefAct.register 0)
      Machine.Reachable.init ⟨Nat.one_pos, rfl⟩ trivial rfl
  have h₂ := Machine.Reachable.step (M := registry 1 oneDevice) (a := RefAct.unregister 0) h₁
    ⟨rfl, rfl⟩ trivial rfl
  obtain ⟨devs, _, hrefs⟩ := (hall 1 oneDevice _ h₂).refs
  obtain ⟨href, hfreed, _⟩ := hrefs 0
  have hz : refsTo devs (stateOf ((RefAct.unregister 0).run 1 oneDevice
      (stateOf ((RefAct.register 0).run 1 oneDevice (registry 1 oneDevice).init)))).handles 0 = 0 :=
    href.symm
  rw [if_pos ⟨rfl, hz⟩] at hfreed
  cases hfreed

end TX2SecureUart.Storage
