/-
# `Virtio.VqueueRuns` — a queue between two sides

One side publishes heads and pops what comes back, the other takes them off and adds them to
the used ring.  The first one keeps to its part: it has no more than `num` heads out, writes
the `k`-th of them to the slot `k % num`, and may do so between any two looks of the other.

Both directions are queues then, however often the counters wrap.  `published`, `taken`,
`added` and `popped` are no part of the program; they are what went through, from the
beginning.
-/
import TX2SecureUart.Virtio.Vqueue

namespace TX2SecureUart.Vqueue

open RingQueue Tipc

/-! ## The other side -/

variable (num : UInt32)

/-- The head after `n` others. -/
def VringAvail.publish (n : Nat) (avail : VringAvail) (head : UInt16) : VringAvail where
  idx := avail.idx + 1
  ring := Function.update avail.ring (n % num.toNat) head

def VringAvail.publishAll : Nat → VringAvail → List UInt16 → VringAvail
  | _, avail, [] => avail
  | n, avail, head :: heads => publishAll (n + 1) (avail.publish num n head) heads

structure Link where
  avail : VringAvail
  vq : Vqueue
  /-- How far the other side has come in the used ring. -/
  lastUsedIdx : UInt16
  published : List UInt16
  taken : List UInt16
  added : List VringUsedElem
  popped : List VringUsedElem

def Link.publish (s : Link) (heads : List UInt16) : Link :=
  { s with avail := s.avail.publishAll num s.published.length heads, published := s.published ++ heads }

/-- The other side may publish these heads. -/
def Link.Conforms (s : Link) (heads : List UInt16) : Prop :=
  (∀ head ∈ heads, head.toUInt32 < num) ∧
    s.published.length + heads.length ≤ s.popped.length + num.toNat

/-- The looks into the avail ring, with heads published before the second, the third and the
fourth of them. -/
def Link.look (s : Link) (b₁ b₂ b₃ : List UInt16) : Nat → VringAvail
  | 0 => s.avail
  | 1 => (s.publish num b₁).avail
  | 2 => (s.publish num (b₁ ++ b₂)).avail
  | _ => (s.publish num (b₁ ++ b₂ ++ b₃)).avail

/-- A head is taken off when the index moves on. -/
def Link.got (s : Link) (heads : List UInt16) (vq : Vqueue) (buf : VqBuf) : Link :=
  { s.publish num heads with
    vq := vq
    taken := if vq.lastAvailIdx = s.vq.lastAvailIdx then s.taken else s.taken ++ [buf.head] }

inductive Step : Link → Link → Prop
  | publish {s : Link} {heads : List UInt16} (hconf : s.Conforms num heads) : Step s (s.publish num heads)
  | get {s : Link} {b₁ b₂ b₃ : List UInt16} {desc : Nat → Nat → VringDesc} {buf buf' : VqBuf} {code : Int}
      {vq' : Vqueue} (hconf : s.Conforms num (b₁ ++ b₂ ++ b₃))
      (hret : vqueueGetAvailBuf desc (s.look num b₁ b₂ b₃) s.vq buf = .ret code vq' buf') :
      Step s (s.got num (b₁ ++ b₂ ++ b₃) vq' buf')
  /-- A buffer that was taken off is returned. -/
  | add {s : Link} {buf : VqBuf} {len : UInt32} {vq' : Vqueue} (hout : s.added.length < s.taken.length)
      (hret : vqueueAddBuf s.vq buf len = (noError, vq')) :
      Step s { s with vq := vq', added := s.added ++ [⟨buf.head.toUInt32, len⟩] }
  | pop {s : Link} (hnew : s.lastUsedIdx ≠ s.vq.used.idx) :
      Step s { s with
        lastUsedIdx := s.lastUsedIdx + 1
        popped := s.popped ++ [s.vq.used.ring (s.lastUsedIdx.toNat % num.toNat)] }

/-- Both rings are empty, and the queue has just been set up. -/
structure Fresh (s : Link) : Prop where
  num_eq : s.vq.num = num
  mapped : s.vq.mapped = true
  idx : s.avail.idx = 0 ∧ s.vq.lastAvailIdx = 0 ∧ s.vq.used.idx = 0 ∧ s.lastUsedIdx = 0
  empty : s.published = [] ∧ s.taken = [] ∧ s.added = [] ∧ s.popped = []

def Reachable (s : Link) : Prop := ∃ s₀, Fresh num s₀ ∧ Relation.ReflTransGen (Step num) s₀ s

/-! ## The invariant -/

structure Inv (s : Link) : Prop where
  num_eq : s.vq.num = num
  mapped : s.vq.mapped = true
  avail : Holds num.toNat s.published s.avail.idx s.avail.ring
  used : Holds num.toNat s.added s.vq.used.idx s.vq.used.ring
  lastAvail : s.vq.lastAvailIdx = UInt16.ofNat s.taken.length
  lastUsed : s.lastUsedIdx = UInt16.ofNat s.popped.length
  taken : s.taken <+: s.published
  popped : s.popped <+: s.added
  added_le : s.added.length ≤ s.taken.length
  published_le : s.published.length ≤ s.popped.length + num.toNat
  heads : ∀ head ∈ s.published, head.toUInt32 < num

variable {num} {s t : Link}

theorem Fresh.inv (h : Fresh num s) : Inv num s := by
  obtain ⟨hidx, hlast, hused, hlastUsed⟩ := h.idx
  obtain ⟨hpub, htaken, hadded, hpopped⟩ := h.empty
  constructor
  · exact h.num_eq
  · exact h.mapped
  · rw [hpub, hidx]
    exact Holds.nil
  · rw [hadded, hused]
    exact Holds.nil
  · rw [hlast, htaken]
    rfl
  · rw [hlastUsed, hpopped]
    rfl
  · rw [htaken]
    exact List.nil_prefix
  · rw [hpopped]
    exact List.nil_prefix
  · rw [hadded]
    exact Nat.zero_le _
  · rw [hpub]
    exact Nat.zero_le _
  · rw [hpub]
    exact fun head hhead => absurd hhead List.not_mem_nil

theorem publishAll_holds {avail : VringAvail} {published heads : List UInt16}
    (h : Holds num.toNat published avail.idx avail.ring) :
    Holds num.toNat (published ++ heads) (avail.publishAll num published.length heads).idx
      (avail.publishAll num published.length heads).ring := by
  induction heads generalizing avail published with
  | nil =>
    rw [List.append_nil]
    exact h
  | cons head heads ih =>
    have hpushed : Holds num.toNat (published ++ [head]) (avail.publish num published.length head).idx
        (avail.publish num published.length head).ring := h.push head
    have hnext := ih hpushed
    rw [List.length_append, List.length_singleton, List.append_assoc] at hnext
    exact hnext

theorem Inv.publish (h : Inv num s) {heads : List UInt16} (hconf : s.Conforms num heads) :
    Inv num (s.publish num heads) := by
  constructor
  · exact h.num_eq
  · exact h.mapped
  · exact publishAll_holds h.avail
  · exact h.used
  · exact h.lastAvail
  · exact h.lastUsed
  · exact h.taken.trans (List.prefix_append _ _)
  · exact h.popped
  · exact h.added_le
  · show (s.published ++ heads).length ≤ _
    rw [List.length_append]
    exact hconf.2
  · intro head hhead
    rcases List.mem_append.mp hhead with hold | hnew
    · exact h.heads head hold
    · exact hconf.1 head hnew

/-! ## Taking a head off -/

/-- What stays of the queue when a buffer is taken off. -/
structure SameUsed (vq vq' : Vqueue) : Prop where
  num_eq : vq'.num = vq.num
  mapped : vq'.mapped = vq.mapped
  idx : vq'.used.idx = vq.used.idx
  ring : vq'.used.ring = vq.used.ring

theorem SameUsed.refl (vq : Vqueue) : SameUsed vq vq := ⟨rfl, rfl, rfl, rfl⟩

/-- Reading the chain changes neither the queue nor the head. -/
theorem gather_keeps {desc : Nat → Nat → VringDesc} {vq vq' : Vqueue} {fuel k : Nat} {nextIdx : UInt16}
    {buf buf' : VqBuf} {code : Int} (hret : gather desc vq fuel k nextIdx buf = .ret code vq' buf') :
    vq' = vq ∧ buf'.head = buf.head := by
  induction fuel generalizing k nextIdx buf with
  | zero => cases hret
  | succ fuel ih =>
    have hset : ∀ write l, (buf.setIovs write l).head = buf.head := by
      intro write l
      cases write <;> rfl
    rw [gather] at hret
    split at hret
    · cases hret
      exact ⟨rfl, rfl⟩
    · dsimp only at hret
      split at hret
      · split at hret
        · cases hret
        · split at hret
          · obtain ⟨hvq, hhead⟩ := ih hret
            exact ⟨hvq, hhead.trans (hset _ _)⟩
          · cases hret
            exact ⟨rfl, hset _ _⟩
      · cases hret
        exact ⟨rfl, rfl⟩

theorem takeHead_ret {desc : Nat → Nat → VringDesc} {look : Nat → VringAvail} {vq vq' : Vqueue}
    {buf buf' : VqBuf} {code : Int} (hret : takeHead desc look vq buf = .ret code vq' buf') :
    vq' = { vq with lastAvailIdx := vq.lastAvailIdx + 1 } ∧
      buf'.head = (look 3).ring (vq.lastAvailIdx.toNat % vq.num.toNat) := by
  rw [takeHead] at hret
  dsimp only at hret
  split at hret
  · cases hret
  · exact gather_keeps hret

/-- The call finds nothing, and moves nothing; or it takes the next head off. -/
theorem getAvailBuf_cases {desc : Nat → Nat → VringDesc} {look : Nat → VringAvail} {vq vq' : Vqueue}
    {buf buf' : VqBuf} {code : Int} (hmapped : vq.mapped = true)
    (hret : vqueueGetAvailBuf desc look vq buf = .ret code vq' buf') :
    SameUsed vq vq' ∧
      (vq'.lastAvailIdx = vq.lastAvailIdx ∧ vq.lastAvailIdx = (look 2).idx ∧ code = errNotEnoughBuffer ∨
        (vq.lastAvailIdx ≠ (look 1).idx ∨ vq.lastAvailIdx ≠ (look 2).idx) ∧
          vq'.lastAvailIdx = vq.lastAvailIdx + 1 ∧
          buf'.head = (look 3).ring (vq.lastAvailIdx.toNat % vq.num.toNat)) := by
  rw [vqueueGetAvailBuf, if_neg (by rw [hmapped]; exact Bool.noConfusion)] at hret
  split at hret
  · cases hret
  · split at hret
    · split at hret
      · next hsame =>
        cases hret
        exact ⟨⟨rfl, rfl, rfl, rfl⟩, .inl ⟨rfl, hsame, rfl⟩⟩
      · next hne =>
        obtain ⟨rfl, hhead⟩ := takeHead_ret hret
        exact ⟨⟨rfl, rfl, rfl, rfl⟩, .inr ⟨.inr hne, rfl, hhead⟩⟩
    · next hne =>
      obtain ⟨rfl, hhead⟩ := takeHead_ret hret
      exact ⟨⟨rfl, rfl, rfl, rfl⟩, .inr ⟨.inl hne, rfl, hhead⟩⟩

theorem Link.Conforms.left {heads more : List UInt16} (h : s.Conforms num (heads ++ more)) :
    s.Conforms num heads := by
  refine ⟨fun head hhead => h.1 head (List.mem_append_left more hhead), ?_⟩
  have := h.2
  rw [List.length_append] at this
  omega

/-- An element that follows. -/
theorem prefix_snoc {α : Type} {xs ys : List α} {x : α} (h : xs <+: ys) (hx : ys[xs.length]? = some x) :
    xs ++ [x] <+: ys := by
  obtain ⟨rest, rfl⟩ := h
  rw [List.getElem?_append_right (Nat.le_refl _), Nat.sub_self] at hx
  cases rest with
  | nil => cases hx
  | cons y rest =>
    obtain rfl := Option.some.inj hx
    exact ⟨rest, by rw [List.append_assoc, List.singleton_append]⟩

/-- A ring size that the counters get along with. -/
structure Size (num : UInt32) : Prop where
  dvd : num.toNat ∣ 2 ^ 15

theorem Size.le (h : Size num) : num.toNat ≤ 2 ^ 15 := Nat.le_of_dvd (by decide) h.dvd

theorem Size.dvd16 (h : Size num) : num.toNat ∣ 2 ^ 16 := h.dvd.trans (by decide)

theorem Inv.taken_le (h : Inv num s) : s.taken.length ≤ s.published.length := h.taken.length_le

theorem Inv.behind (h : Inv num s) : s.published.length ≤ s.taken.length + num.toNat :=
  Nat.le_trans h.published_le (Nat.add_le_add_right (Nat.le_trans h.popped.length_le h.added_le) _)

/-- The index of the other side is the one of this side only when all is taken off. -/
theorem Inv.idx_eq_iff (hsize : Size num) (h : Inv num s) {heads : List UInt16}
    (hconf : s.Conforms num heads) : s.vq.lastAvailIdx = (s.publish num heads).avail.idx ↔
      s.taken.length = (s.published ++ heads).length := by
  have hinv := h.publish hconf
  have hle : s.taken.length ≤ (s.published ++ heads).length := hinv.taken_le
  have hbehind : (s.published ++ heads).length ≤ s.taken.length + num.toNat := hinv.behind
  have hnum := hsize.le
  rw [h.lastAvail, hinv.avail.idx_eq]
  show UInt16.ofNat s.taken.length = UInt16.ofNat (s.published ++ heads).length ↔ _
  exact ofNat_eq_ofNat hle (by omega)

/-- The slot that is looked at holds the next head. -/
theorem Inv.next (hsize : Size num) (h : Inv num s) {heads : List UInt16} (hconf : s.Conforms num heads)
    (hlt : s.taken.length < (s.published ++ heads).length) :
    (s.published ++ heads)[s.taken.length]? =
      some ((s.publish num heads).avail.ring (s.vq.lastAvailIdx.toNat % s.vq.num.toNat)) := by
  have hinv := h.publish hconf
  rw [h.lastAvail, h.num_eq, ofNat_mod hsize.dvd16]
  exact hinv.avail.read hlt hinv.behind

theorem Inv.got (hsize : Size num) (h : Inv num s) {b₁ b₂ b₃ : List UInt16}
    {desc : Nat → Nat → VringDesc} {buf buf' : VqBuf} {code : Int} {vq' : Vqueue}
    (hconf : s.Conforms num (b₁ ++ b₂ ++ b₃))
    (hret : vqueueGetAvailBuf desc (s.look num b₁ b₂ b₃) s.vq buf = .ret code vq' buf') :
    Inv num (s.got num (b₁ ++ b₂ ++ b₃) vq' buf') := by
  have hinv := h.publish hconf
  obtain ⟨hsame, hmoved⟩ := getAvailBuf_cases h.mapped hret
  have hkept : ∀ {taken : List UInt16}, vq'.lastAvailIdx = UInt16.ofNat taken.length →
      taken <+: s.published ++ (b₁ ++ b₂ ++ b₃) → s.taken.length ≤ taken.length →
      Inv num { s.publish num (b₁ ++ b₂ ++ b₃) with vq := vq', taken := taken } := by
    intro taken hlast hpre hle
    constructor
    · exact hsame.num_eq.trans h.num_eq
    · exact hsame.mapped.trans h.mapped
    · exact hinv.avail
    · show Holds _ _ vq'.used.idx vq'.used.ring
      rw [hsame.idx, hsame.ring]
      exact h.used
    · exact hlast
    · exact h.lastUsed
    · exact hpre
    · exact h.popped
    · exact Nat.le_trans h.added_le hle
    · exact hinv.published_le
    · exact hinv.heads
  rcases hmoved with ⟨hstill, -, -⟩ | ⟨hne, hmove, hhead⟩
  · rw [Link.got, if_pos hstill]
    exact hkept (hstill.trans h.lastAvail) hinv.taken (Nat.le_refl _)
  · have hlt : s.taken.length < (s.published ++ (b₁ ++ b₂ ++ b₃)).length := by
      have hle := h.taken_le
      rcases hne with hne | hne
      · have hlen := mt (h.idx_eq_iff hsize hconf.left.left).mpr hne
        rw [List.length_append] at hlen
        simp only [List.length_append]
        omega
      · have hlen := mt (h.idx_eq_iff hsize hconf.left).mpr hne
        simp only [List.length_append] at hlen ⊢
        omega
    have hnext := h.next hsize hconf hlt
    have hhead' : (s.published ++ (b₁ ++ b₂ ++ b₃))[s.taken.length]? = some buf'.head :=
      hnext.trans (congrArg some hhead.symm)
    rw [Link.got, if_neg (by rw [hmove]; exact fun heq => absurd heq (by simp))]
    refine hkept ?_ (prefix_snoc hinv.taken hhead') ?_
    · rw [hmove, h.lastAvail, List.length_append, List.length_singleton, UInt16.ofNat_add]
      rfl
    · rw [List.length_append]
      exact Nat.le_add_right _ _

theorem vqueueAddBuf_ok {vq vq' : Vqueue} {buf : VqBuf} {len : UInt32}
    (hret : vqueueAddBuf vq buf len = (noError, vq')) :
    vq' = { vq with used := { vq.used with
      idx := vq.used.idx + 1
      ring := Function.update vq.used.ring (vq.used.idx.toNat % vq.num.toNat)
        ⟨buf.head.toUInt32, len⟩ } } := by
  rw [vqueueAddBuf] at hret
  split at hret
  · cases hret
  · split at hret
    · cases hret
    · exact (Prod.mk.inj hret).2.symm

theorem Inv.step (hsize : Size num) (h : Inv num s) (hstep : Step num s t) : Inv num t := by
  cases hstep with
  | publish hconf => exact h.publish hconf
  | get hconf hret => exact h.got hsize hconf hret
  | @add buf len vq' hout hret =>
    obtain rfl := vqueueAddBuf_ok hret
    have hpush := h.used.push ⟨buf.head.toUInt32, len⟩
    constructor
    · exact h.num_eq
    · exact h.mapped
    · exact h.avail
    · show Holds _ _ _ (Function.update _ (s.vq.used.idx.toNat % s.vq.num.toNat) _)
      rw [h.used.idx_eq, h.num_eq, ofNat_mod hsize.dvd16, ← h.used.idx_eq]
      exact hpush
    · exact h.lastAvail
    · exact h.lastUsed
    · exact h.taken
    · exact h.popped.trans (List.prefix_append _ _)
    · show (s.added ++ [_]).length ≤ _
      rw [List.length_append]
      exact hout
    · exact h.published_le
    · exact h.heads
  | pop hnew =>
    have hle := h.popped.length_le
    have hadded := Nat.le_trans h.added_le h.taken_le
    have hpub := h.published_le
    have hnum := hsize.le
    have hne : s.popped.length ≠ s.added.length := by
      intro heq
      exact hnew (by rw [h.lastUsed, h.used.idx_eq, heq])
    have hread := h.used.read (n := s.popped.length) (by omega) (by omega)
    rw [← ofNat_mod hsize.dvd16, ← h.lastUsed] at hread
    constructor
    · exact h.num_eq
    · exact h.mapped
    · exact h.avail
    · exact h.used
    · exact h.lastAvail
    · show s.lastUsedIdx + 1 = UInt16.ofNat (s.popped ++ [_]).length
      rw [h.lastUsed, List.length_append, List.length_singleton, UInt16.ofNat_add]
      rfl
    · exact h.taken
    · exact prefix_snoc h.popped hread
    · exact h.added_le
    · show s.published.length ≤ (s.popped ++ [_]).length + num.toNat
      rw [List.length_append]
      omega
    · exact h.heads

theorem Reachable.inv (hsize : Size num) (h : Reachable num s) : Inv num s := by
  obtain ⟨s₀, hfresh, hrun⟩ := h
  induction hrun with
  | refl => exact hfresh.inv
  | tail _ hstep ih => exact ih.step hsize hstep

/-! ## What a call comes to -/

/-- The iovecs that are free. -/
def freeIovs (l : VqueueIovs) : Nat := l.iovs.length - l.used

def VqBuf.free (buf : VqBuf) : Nat := freeIovs buf.inIovs + freeIovs buf.outIovs

theorem freeIovs_putIov {l : VqueueIovs} (len : UInt32) (phys : UInt64) (h : l.used < l.iovs.length) :
    freeIovs (putIov l len phys h) < freeIovs l := by
  rw [freeIovs, putIov, List.length_modify]
  exact Nat.sub_succ_lt_self _ _ h

theorem free_setIovs {buf : VqBuf} (write : Bool) (len : UInt32) (phys : UInt64)
    (h : (buf.iovs write).used < (buf.iovs write).iovs.length) :
    (buf.setIovs write (putIov (buf.iovs write) len phys h)).free < buf.free := by
  cases write with
  | false => exact Nat.add_lt_add_right (freeIovs_putIov len phys h) _
  | true => exact Nat.add_lt_add_left (freeIovs_putIov len phys h) _

/-- The loop ends when the iovecs are used up, if not before; it only panics when an address is
changed between two looks at it. -/
theorem gather_ends {desc : Nat → Nat → VringDesc} {vq : Vqueue} {fuel k : Nat} {nextIdx : UInt16}
    {buf : VqBuf} (hfuel : buf.free < fuel) :
    (∃ code buf', gather desc vq fuel k nextIdx buf = .ret code vq buf') ∨
      gather desc vq fuel k nextIdx buf = .panic ∧ ∃ i j n, (desc i n).addr ≠ (desc j n).addr := by
  induction fuel generalizing k nextIdx buf with
  | zero => exact absurd hfuel (Nat.not_lt_zero _)
  | succ fuel ih =>
    rw [gather]
    split
    · exact .inl ⟨_, _, rfl⟩
    · dsimp only
      split
      · next hroom =>
        split
        · next hchanged => exact .inr ⟨rfl, _, _, _, hchanged⟩
        · split
          · exact ih (Nat.lt_of_lt_of_le (free_setIovs _ _ _ hroom) (Nat.le_of_lt_succ hfuel))
          · exact .inl ⟨_, _, rfl⟩
      · exact .inl ⟨_, _, rfl⟩

/-- Whatever the other side writes, a call comes to an end. -/
theorem getAvailBuf_ends (desc : Nat → Nat → VringDesc) (look : Nat → VringAvail) (vq : Vqueue)
    (buf : VqBuf) : vqueueGetAvailBuf desc look vq buf ≠ .running := by
  have htake : ∀ vq, takeHead desc look vq buf ≠ .running := by
    intro vq
    rw [takeHead]
    dsimp only
    split
    · exact Outcome.noConfusion
    · have hfuel : VqBuf.free ⟨(look 3).ring (vq.lastAvailIdx.toNat % vq.num.toNat),
          VqueueIovs.cleared buf.inIovs, VqueueIovs.cleared buf.outIovs⟩ < buf.passes := Nat.lt_succ_self _
      intro hrun
      rcases gather_ends hfuel with ⟨_, _, hret⟩ | ⟨hpanic, -⟩
      · cases hret.symm.trans hrun
      · cases hpanic.symm.trans hrun
  rw [vqueueGetAvailBuf]
  split
  · exact Outcome.noConfusion
  · split
    · exact Outcome.noConfusion
    · split
      · split
        · exact Outcome.noConfusion
        · exact htake _
      · exact htake _

/-- Nothing is taken off when there is nothing, and otherwise the next head is. -/
theorem Inv.get_returns (hsize : Size num) (h : Inv num s) {b₁ b₂ b₃ : List UInt16}
    {desc : Nat → Nat → VringDesc} (buf : VqBuf) (hconf : s.Conforms num (b₁ ++ b₂ ++ b₃))
    (hstable : ∀ i j n, (desc i n).addr = (desc j n).addr) :
    ∃ code vq' buf', vqueueGetAvailBuf desc (s.look num b₁ b₂ b₃) s.vq buf = .ret code vq' buf' := by
  have hcnt : ¬ s.vq.num.toUInt16 < (s.look num b₁ b₂ b₃ 0).idx - s.vq.lastAvailIdx := by
    show ¬ s.vq.num.toUInt16 < s.avail.idx - s.vq.lastAvailIdx
    have hnum := hsize.le
    have hbehind := h.behind
    have hnum16 : s.vq.num.toUInt16.toNat = num.toNat := by
      rw [h.num_eq, UInt32.toNat_toUInt16, Nat.mod_eq_of_lt (by omega)]
    rw [UInt16.lt_iff_toNat_lt, hnum16, h.avail.idx_eq, h.lastAvail,
      ofNat_sub_ofNat h.taken_le (by omega)]
    omega
  have htake : ∀ vq : Vqueue, vq.num = s.vq.num → vq.lastAvailIdx = s.vq.lastAvailIdx →
      s.taken.length < (s.published ++ (b₁ ++ b₂ ++ b₃)).length →
      ∃ code vq' buf', takeHead desc (s.look num b₁ b₂ b₃) vq buf = .ret code vq' buf' := by
    intro vq hvnum hvlast hlt
    have hnext := h.next hsize hconf hlt
    have hhead := (h.publish hconf).heads _ (List.mem_of_getElem? hnext)
    rw [takeHead]
    dsimp only
    rw [hvnum, hvlast, h.num_eq, if_neg]
    · have hfuel : VqBuf.free ⟨(s.look num b₁ b₂ b₃ 3).ring (s.vq.lastAvailIdx.toNat % num.toNat),
          VqueueIovs.cleared buf.inIovs, VqueueIovs.cleared buf.outIovs⟩ < buf.passes := Nat.lt_succ_self _
      rcases gather_ends hfuel with ⟨code, buf', hret⟩ | ⟨-, i, j, n, hchanged⟩
      · exact ⟨code, _, buf', hret⟩
      · exact absurd (hstable i j n) hchanged
    · rw [h.num_eq] at hhead
      exact UInt32.not_le.mpr hhead
  have hlater : ∀ {heads : List UInt16}, s.Conforms num heads → heads <+: b₁ ++ b₂ ++ b₃ →
      s.vq.lastAvailIdx ≠ (s.publish num heads).avail.idx →
      s.taken.length < (s.published ++ (b₁ ++ b₂ ++ b₃)).length := by
    intro heads hheads hpre hne
    have hlen := mt (h.idx_eq_iff hsize hheads).mpr hne
    have hle := h.taken_le
    have hmore := hpre.length_le
    rw [List.length_append] at hlen ⊢
    omega
  rw [vqueueGetAvailBuf, if_neg (by rw [h.mapped]; exact Bool.noConfusion), if_neg hcnt]
  split
  · split
    · exact ⟨_, _, _, rfl⟩
    · next hne => exact htake _ rfl rfl (hlater hconf.left ⟨b₃, rfl⟩ hne)
  · next hne =>
    exact htake s.vq rfl rfl (hlater hconf.left.left ⟨b₂ ++ b₃, (List.append_assoc _ _ _).symm⟩ hne)

/-! ## The two queues -/

/-- With a ring size that is a power of two of at most `2 ^ 15`, and however long the run is:
what is taken off are the heads that were published, in their order, and what is popped are
the elements that were added.  A call of `vqueue_get_avail_buf` does not panic, takes the next
head off when one was there at its first looks, and otherwise says that there is none. -/
theorem run_fifo (hsize : Size num) (h : Reachable num s) :
    s.taken <+: s.published ∧ s.popped <+: s.added ∧
      ∀ b₁ b₂ b₃ desc buf, s.Conforms num (b₁ ++ b₂ ++ b₃) →
        (∀ i j n, (desc i n : VringDesc).addr = (desc j n).addr) →
        ∃ code vq' buf', vqueueGetAvailBuf desc (s.look num b₁ b₂ b₃) s.vq buf = .ret code vq' buf' ∧
          if s.taken.length = s.published.length + b₁.length + b₂.length then
            code = errNotEnoughBuffer ∧ vq'.lastAvailIdx = s.vq.lastAvailIdx
          else
            (s.published ++ (b₁ ++ b₂ ++ b₃))[s.taken.length]? = some buf'.head ∧
              vq'.lastAvailIdx = s.vq.lastAvailIdx + 1 := by
  have hinv := h.inv hsize
  refine ⟨hinv.taken, hinv.popped, ?_⟩
  intro b₁ b₂ b₃ desc buf hconf hstable
  obtain ⟨code, vq', buf', hret⟩ := hinv.get_returns hsize buf hconf hstable
  refine ⟨code, vq', buf', hret, ?_⟩
  have hsecond := hinv.idx_eq_iff hsize hconf.left
  have hfirst := hinv.idx_eq_iff hsize hconf.left.left
  have hle := hinv.taken_le
  simp only [List.length_append] at hfirst hsecond
  rcases (getAvailBuf_cases hinv.mapped hret).2 with ⟨hstill, hidx, hcode⟩ | ⟨hne, hmove, hhead⟩
  · have hall := hsecond.mp hidx
    rw [if_pos (by omega)]
    exact ⟨hcode, hstill⟩
  · have hlt : ¬ s.taken.length = s.published.length + b₁.length + b₂.length ∧
        s.taken.length < (s.published ++ (b₁ ++ b₂ ++ b₃)).length := by
      simp only [List.length_append]
      rcases hne with hne | hne
      · have := mt hfirst.mpr hne
        omega
      · have := mt hsecond.mpr hne
        omega
    rw [if_neg hlt.1]
    exact ⟨(hinv.next hsize hconf hlt.2).trans (congrArg some hhead.symm), hmove⟩

/-- A queue of four. -/
def emptyLink : Link where
  avail := ⟨0, fun _ => 0⟩
  vq := { num := 4, used := ⟨0, 0, fun _ => ⟨0, 0⟩⟩, mapped := true, lastAvailIdx := 0, availEvent := false }
  lastUsedIdx := 0
  published := []
  taken := []
  added := []
  popped := []

/-- Two heads are published, and the first one is taken off. -/
theorem emptyLink_next :
    ∃ code vq' buf', vqueueGetAvailBuf (fun _ _ => ⟨0, 0, 0, 0⟩)
        ((emptyLink.publish 4 [3, 1]).look 4 [] [] []) (emptyLink.publish 4 [3, 1]).vq
        ⟨0, ⟨0, [], Nat.le_refl 0⟩, ⟨0, [], Nat.le_refl 0⟩⟩ = .ret code vq' buf' ∧
      ([3, 1] : List UInt16)[0]? = some buf'.head ∧ vq'.lastAvailIdx = 0 + 1 := by
  have hfresh : Fresh 4 emptyLink := ⟨rfl, rfl, ⟨rfl, rfl, rfl, rfl⟩, rfl, rfl, rfl, rfl⟩
  have hconf : emptyLink.Conforms 4 [3, 1] :=
    ⟨List.forall_mem_cons.mpr ⟨by decide, List.forall_mem_cons.mpr ⟨by decide, List.forall_mem_nil _⟩⟩,
      by decide⟩
  have hreach : Reachable 4 (emptyLink.publish 4 [3, 1]) :=
    ⟨emptyLink, hfresh, Relation.ReflTransGen.single (.publish hconf)⟩
  obtain ⟨code, vq', buf', hret, hnext⟩ := (run_fifo ⟨⟨2 ^ 13, rfl⟩⟩ hreach).2.2 [] [] []
    (fun _ _ => ⟨0, 0, 0, 0⟩) ⟨0, ⟨0, [], Nat.le_refl 0⟩, ⟨0, [], Nat.le_refl 0⟩⟩
    ⟨List.forall_mem_nil _, by decide⟩ (fun _ _ _ => rfl)
  rw [if_neg (by decide)] at hnext
  exact ⟨code, vq', buf', hret, hnext⟩

end TX2SecureUart.Vqueue
