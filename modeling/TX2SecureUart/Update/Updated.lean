/-
# `Update.Updated` — what a successful update means

`UpdateKept` is what an update promises of one call: success means that every
partition named in the payload was written from an entry for this device; no
partition is written twice; none is written before one it depends on.

A well-formed update blob keeps these promises on a device, however the storage
answers, exactly when it is `Updatable` there.  In particular every name in it
needs an entry that fits the device, because a name without one is only logged.
-/
import TX2SecureUart.Update.Call

namespace TX2SecureUart.Update

open Prog Storage StrRead

/-! ## The blocks of a run as one list of writes -/

variable {J : Job} {P : Payload} {n d : List UInt8} {ws : List Write} {bs : List Block}

theorem Plan.nodup {pat : Pattern} {required : Bool} {suffix : List UInt8}
    {slots : List (Option Nat)} (h : Plan pat required suffix n slots) : slots.Nodup := by
  cases h with
  | whole _ => exact List.nodup_singleton _
  | slots _ _ =>
      have hother : ∀ m k, (otherSlots m k).Nodup := fun m k => List.nodup_range.filter _
      have hne : ∀ m k, k ∉ otherSlots m k := by
        intro m k h
        exact absurd rfl (of_decide_eq_true (List.mem_filter.mp h).2)
      rw [List.nodup_cons, furtherSlots]
      split
      · exact ⟨List.not_mem_nil, List.nodup_nil⟩
      · split
        · refine ⟨?_, (hother _ _).map (Option.some_injective _)⟩
          intro h
          obtain ⟨k, hk, hk'⟩ := List.mem_map.mp h
          exact hne _ _ (Option.some.inj hk' ▸ hk)
        · exact ⟨List.not_mem_nil, List.nodup_nil⟩

theorem Plan.ne_nil {pat : Pattern} {required : Bool} {suffix : List UInt8}
    {slots : List (Option Nat)} (h : Plan pat required suffix n slots) : slots ≠ [] := by
  cases h <;> exact List.cons_ne_nil _ _

theorem Job.Unfinished.part (h : J.Unfinished n ws) : ∀ w ∈ ws, w.part = n := by
  cases h with
  | none => exact fun w hw => absurd hw List.not_mem_nil
  | tried _ _ hatt =>
      intro w hw
      rw [hatt.same w hw]
      rfl

theorem Job.Unfinished.nodup (h : J.Unfinished n ws) : (ws.map Write.slot).Nodup := by
  cases h with
  | none => exact List.nodup_nil
  | tried _ hp hatt => exact hp.nodup.sublist hatt.planned.sublist

/-- A partition and its slot: what is written once. -/
def Write.key (w : Write) : List UInt8 × Option Nat := (w.part, w.slot)

theorem Job.Unfinished.nodup_key (h : J.Unfinished n ws) : (ws.map Write.key).Nodup := by
  refine List.Nodup.of_map Prod.snd ?_
  rw [List.map_map]
  exact h.nodup

theorem Job.Blocks.unfinished (h : J.Blocks bs) {b : Block} (hb : b ∈ bs) :
    J.Unfinished b.name b.ws := (h.outcome b hb).unfinished

theorem Job.Blocks.nodup_key (h : J.Blocks bs) :
    ((bs.flatMap Block.ws).map Write.key).Nodup := by
  rw [List.map_flatMap, List.nodup_flatMap]
  refine ⟨fun b hb => (h.unfinished hb).nodup_key, ?_⟩
  refine (List.pairwise_map.mp h.nodup).imp_of_mem ?_
  intro b b' hb hb' hne k hk hk'
  obtain ⟨w, hw, rfl⟩ := List.mem_map.mp hk
  obtain ⟨w', hw', hkey⟩ := List.mem_map.mp hk'
  have hpart : w'.part = w.part := congrArg Prod.fst hkey
  rw [(h.unfinished hb).part w hw, (h.unfinished hb').part w' hw'] at hpart
  exact hne hpart.symm

/-- The writes behind the blocks are for another partition. -/
theorem Job.Ragged.nodup_key (h : J.Ragged bs ws) (hbs : J.Blocks bs) :
    ((bs.flatMap Block.ws ++ ws).map Write.key).Nodup := by
  rw [List.map_append]
  rcases h with rfl | ⟨n, hnew, -, -, hun⟩
  · rw [List.map_nil, List.append_nil]
    exact hbs.nodup_key
  refine hbs.nodup_key.append hun.nodup_key ?_
  intro k hk hk'
  obtain ⟨w, hw, rfl⟩ := List.mem_map.mp hk
  obtain ⟨w', hw', hkey⟩ := List.mem_map.mp hk'
  obtain ⟨b, hb, hwb⟩ := List.mem_flatMap.mp hw
  have hpart : w'.part = w.part := congrArg Prod.fst hkey
  rw [(hbs.unfinished hb).part w hwb, hun.part w' hw'] at hpart
  exact hnew (hpart ▸ List.mem_map_of_mem hb)

theorem filter_part_self (h : ∀ w ∈ ws, w.part = n) : ws.filter (·.part = n) = ws :=
  List.filter_eq_self.mpr fun w hw => decide_eq_true (h w hw)

theorem filter_part_other (h : ∀ w ∈ ws, w.part ≠ n) : ws.filter (·.part = n) = [] :=
  List.filter_eq_nil_iff.mpr fun w hw => by simpa using h w hw

/-- The writes of one partition are those of its block. -/
theorem filter_blocks (hpart : ∀ b ∈ bs, ∀ w ∈ b.ws, w.part = b.name)
    (hnodup : (bs.map Block.name).Nodup) {b : Block} (hb : b ∈ bs) :
    (bs.flatMap Block.ws).filter (·.part = b.name) = b.ws := by
  induction bs with
  | nil => exact absurd hb List.not_mem_nil
  | cons a bs ih =>
      rw [List.map_cons, List.nodup_cons] at hnodup
      have hrest : ∀ c ∈ bs, ∀ w ∈ c.ws, w.part = c.name :=
        fun c hc => hpart c (List.mem_cons_of_mem a hc)
      rw [List.flatMap_cons, List.filter_append]
      rcases List.mem_cons.mp hb with rfl | hb'
      · rw [filter_part_self (hpart b List.mem_cons_self), filter_part_other, List.append_nil]
        intro w hw heq
        obtain ⟨c, hc, hwc⟩ := List.mem_flatMap.mp hw
        rw [hrest c hc w hwc] at heq
        exact hnodup.1 (heq ▸ List.mem_map_of_mem hc)
      · rw [ih hrest hnodup.2 hb', filter_part_other, List.nil_append]
        intro w hw heq
        rw [hpart a List.mem_cons_self w hw] at heq
        exact hnodup.1 (heq ▸ List.mem_map_of_mem hb')

/-- A cut through the writes of some blocks is a cut through one block. -/
theorem flatMap_eq_append_cons {pre post : List Write} {w : Write}
    (h : bs.flatMap Block.ws = pre ++ w :: post) :
    ∃ bs₁ b bs₂ ws₁ ws₂, bs = bs₁ ++ b :: bs₂ ∧ b.ws = ws₁ ++ w :: ws₂ ∧
      pre = bs₁.flatMap Block.ws ++ ws₁ := by
  induction bs generalizing pre with
  | nil => simp at h
  | cons a bs ih =>
      rw [List.flatMap_cons] at h
      rcases List.append_eq_append_iff.mp h with ⟨as, hpre, hrest⟩ | ⟨cs, ha, hcs⟩
      · obtain ⟨bs₁, b, bs₂, ws₁, ws₂, hbs, hb, has⟩ := ih hrest
        refine ⟨a :: bs₁, b, bs₂, ws₁, ws₂, by rw [hbs, List.cons_append], hb, ?_⟩
        rw [hpre, has, List.flatMap_cons, List.append_assoc]
      · cases cs with
        | nil =>
            have hrest : bs.flatMap Block.ws = [] ++ w :: post := hcs.symm
            obtain ⟨bs₁, b, bs₂, ws₁, ws₂, hbs, hb, hnil⟩ := ih hrest
            refine ⟨a :: bs₁, b, bs₂, ws₁, ws₂, by rw [hbs, List.cons_append], hb, ?_⟩
            rw [List.append_nil] at ha
            rw [List.flatMap_cons, List.append_assoc, ← hnil, List.append_nil, ha]
        | cons c cs =>
            rw [List.cons_append, List.cons.injEq] at hcs
            obtain ⟨rfl, -⟩ := hcs
            exact ⟨[], a, bs, pre, cs, rfl, ha, rfl⟩

/-! ## What an update promises -/

/-- All of a partition's writes are there, and succeeded: those of an entry for this
device to all the slots of the partition's plan, in the partition of that name. -/
def Written (J : Job) (ws : List Write) (n : List UInt8) : Prop :=
  (∃ j slots, J.Chooses n j ∧ Plan J.pat J.required J.suffix n slots ∧
    ws.filter (·.part = n) = J.writes n j slots) ∧
  (isBct n = true → n = brBctPartitionName)

/-- Some entry of the payload has this name. -/
def Payload.Names (P : Payload) (n : List UInt8) : Prop :=
  ∃ i < P.num, entryName P.buf P.bh i = n

/-- The promises, for one call. -/
structure UpdateKept (J : Job) (r : EStateM.Result Stop State Unit) : Prop where
  defined : faultOf r ≠ some .outOfBounds
  complete : returns r = true → ∀ n, J.Names n → Written J (writesOf (stateOf r).log) n
  once : ((writesOf (stateOf r).log).map Write.key).Nodup
  ordered : ∀ pre w post, writesOf (stateOf r).log = pre ++ w :: post →
    ∀ d, (w.part, d) ∈ updateSequence → J.Names d → Written J pre d

/-- The promises, however the primitives answer. -/
def UpdateSound (buf : Buffer) (bh : BlobInfo) (num : Nat) (dev : Device) (s : State) : Prop :=
  ∀ pat suffix fuel, UpdateKept (callJob buf bh num dev pat suffix s)
    (checkAndUpdateBlPayload buf dev pat suffix fuel s)

/-- An update blob whose strings and whose data are where they should be. -/
structure WellFormed (buf : Buffer) (bh : BlobInfo) (num : Nat) : Prop
    extends UpdateBlob buf bh num where
  names : ∀ i < num, 0 ∈ (buf.tail (entryAt buf bh i)).take 40
  specs : ∀ i < num, 0 ∈ (buf.tail (entryAt buf bh i + 56)).take 64
  data : ∀ i < num, dataAt buf bh i + sizeAt buf bh i ≤ buf.bytes.length

/-- When a payload keeps the promises on a device. -/
structure Payload.Updatable (P : Payload) : Prop where
  /-- The slot suffix fits behind the name. -/
  room : ∀ n j, P.Reached n → P.Chooses n j → n.length + 2 < gptPartNameLen
  /-- There is an entry for the device under each name, unless the loop never ends. -/
  matched : P.num < 256 → ∀ n, P.Names n →
    (∃ j, P.Chooses n j) ∧ (isBct n = true → n = brBctPartitionName)
  /-- So there is for the dependency of a partition that is written. -/
  ordered : ∀ n d j, P.Reached n → P.Chooses n j → (n, d) ∈ updateSequence → P.Names d →
    ∃ j, P.Chooses d j

variable {buf : Buffer} {bh : BlobInfo} {num : Nat} {dev : Device} {s : State}

theorem dependency_lands (h : (n, d) ∈ updateSequence) :
    isBct d = true → d = brBctPartitionName := by
  simp only [updateSequence, List.mem_cons, Prod.mk.injEq, List.not_mem_nil, or_false] at h
  rcases h with ⟨-, rfl⟩ | ⟨-, rfl⟩ <;> decide

theorem Payload.Updatable.allClean (hup : P.Updatable) (hwf : WellFormed P.buf P.bh P.num) :
    P.AllClean := by
  intro n hn c hc
  refine ⟨fun j hj => List.mem_of_mem_take (hwf.specs j hj.lt), ?_⟩
  intro j hj
  refine ⟨⟨List.mem_of_mem_take (hwf.names j hj.lt), ?_⟩, .inr (hwf.data j hj.lt)⟩
  have hroom := hup.room n j hn ⟨c, hc, hj⟩
  have hname : upTo gptPartNameLen (P.buf.tail (entryAt P.buf P.bh j)) = n := hj.name
  rw [← take_upTo (show gptPartNameLen - 1 ≤ gptPartNameLen from Nat.sub_le _ _), hname,
    List.length_take]
  omega

/-- A partition that has a block, and an entry for the device, is written. -/
theorem Job.Blocks.written (h : J.Blocks bs) (hn : n ∈ bs.map Block.name)
    (hchoose : ∃ j, J.Chooses n j) (hlands : isBct n = true → n = brBctPartitionName)
    (htail : ∀ w ∈ ws, w.part ≠ n) : Written J (bs.flatMap Block.ws ++ ws) n := by
  obtain ⟨b, hb, rfl⟩ := List.mem_map.mp hn
  refine ⟨?_, hlands⟩
  have hfilter := filter_blocks (fun b hb => (h.unfinished hb).part) h.nodup hb
  have hout := h.outcome b hb
  generalize b.ws = bws at hfilter hout
  cases hout with
  | none hnot =>
      obtain ⟨j, hj⟩ := hchoose
      exact absurd hj (hnot j)
  | made hj hp =>
      refine ⟨_, _, hj, hp, ?_⟩
      rw [List.filter_append, hfilter, filter_part_other htail, List.append_nil]

theorem not_dependency_self : (n, n) ∉ updateSequence := by
  intro h
  exact absurd (rank_dependency h) (Nat.lt_irrefl _)

theorem Job.Blocks.pre {bs₁ bs₂ : List Block} (h : J.Blocks (bs₁ ++ bs₂)) : J.Blocks bs₁ where
  nodup := by
    have hnodup := h.nodup
    rw [List.map_append] at hnodup
    exact (List.nodup_append.mp hnodup).1
  outcome b hb := h.outcome b (List.mem_append_left _ hb)
  clean b hb := h.clean b (List.mem_append_left _ hb)
  reached b hb := h.reached b (List.mem_append_left _ hb)
  deps pre b post heq := by
    refine h.deps pre b (post ++ bs₂) ?_
    rw [heq, List.append_assoc, List.cons_append]

/-- Before a write of one partition, those it depends on are written. -/
theorem Job.Blocks.deps_written (h : J.Blocks bs) {ws₁ ws₂ : List Write} {w : Write}
    (hun : J.Unfinished n (ws₁ ++ w :: ws₂)) (hreached : J.Reached n)
    (hdeps : ∀ d, (n, d) ∈ updateSequence → d ∈ bs.map Block.name) (hup : J.Updatable)
    (hd : (w.part, d) ∈ updateSequence) (hnames : J.Names d) :
    Written J (bs.flatMap Block.ws ++ ws₁) d := by
  have hpart := hun.part
  have hwpart : w.part = n := hpart w (by simp)
  rw [hwpart] at hd
  obtain ⟨j, hj⟩ : ∃ j, J.Chooses n j := by
    generalize hws : ws₁ ++ w :: ws₂ = ws at hun
    cases hun with
    | none => simp at hws
    | tried hj _ _ => exact ⟨_, hj⟩
  refine h.written (hdeps d hd) (hup.ordered n d j hreached hj hd hnames) (dependency_lands hd) ?_
  intro v hv heq
  rw [hpart v (List.mem_append_left _ hv)] at heq
  exact not_dependency_self (heq ▸ hd)

/-! ## The promises are kept -/

/-- The writes of a call, as blocks and what is left of one more. -/
def Traced (J : Job) (u : State) : Prop :=
  ∃ bs ws, J.Blocks bs ∧ J.Ragged bs ws ∧ writesOf u.log = bs.flatMap Block.ws ++ ws

theorem Traced.once {u : State} (h : Traced J u) : ((writesOf u.log).map Write.key).Nodup := by
  obtain ⟨bs, ws, hbs, hws, hlog⟩ := h
  rw [hlog]
  exact hws.nodup_key hbs

theorem Traced.ordered {u : State} (h : Traced J u) (hup : J.Updatable) {pre post : List Write}
    {w : Write} (hsplit : writesOf u.log = pre ++ w :: post) (hd : (w.part, d) ∈ updateSequence)
    (hnames : J.Names d) : Written J pre d := by
  obtain ⟨bs, ws, hbs, hws, hlog⟩ := h
  -- what is left of one more partition counts as a block of its own
  obtain ⟨more, hflat, hlast⟩ : ∃ more : List Block, more.flatMap Block.ws = ws ∧
      ∀ b ∈ more, more = [b] ∧ J.Unfinished b.name b.ws ∧ J.Reached b.name ∧
        ∀ d, (b.name, d) ∈ updateSequence → d ∈ bs.map Block.name := by
    rcases hws with rfl | ⟨n, -, hreached, hdeps, hun⟩
    · exact ⟨[], rfl, fun _ h => absurd h List.not_mem_nil⟩
    · refine ⟨[⟨n, ws⟩], by simp, ?_⟩
      intro b hb
      obtain rfl := List.mem_singleton.mp hb
      exact ⟨rfl, hun, hreached, hdeps⟩
  rw [← hflat, ← List.flatMap_append] at hlog
  obtain ⟨bs₁, b, bs₂, ws₁, ws₂, hcut, hb, rfl⟩ := flatMap_eq_append_cons (hlog.symm.trans hsplit)
  rcases List.append_eq_append_iff.mp hcut with ⟨as, rfl, has⟩ | ⟨cs, rfl, hcs⟩
  · have hmem : b ∈ more := by
      rw [has]
      simp
    obtain ⟨rfl, hun, hreached, hdeps⟩ := hlast b hmem
    obtain ⟨rfl, -⟩ : as = [] ∧ bs₂ = [] := by
      cases as with
      | nil => simpa using has
      | cons a as => simp at has
    rw [List.append_nil]
    rw [hb] at hun
    exact hbs.deps_written hun hreached hdeps hup hd hnames
  · cases cs with
    | nil =>
        rw [List.append_nil] at hbs hlast
        have hmem : b ∈ more := by
          rw [List.nil_append] at hcs
          rw [← hcs]
          exact List.mem_cons_self
        obtain ⟨-, hun, hreached, hdeps⟩ := hlast b hmem
        rw [hb] at hun
        exact hbs.deps_written hun hreached hdeps hup hd hnames
    | cons c cs =>
        rw [List.cons_append, List.cons.injEq] at hcs
        obtain ⟨rfl, -⟩ := hcs
        have hmem : b ∈ bs₁ ++ b :: cs := by simp
        have hun := hbs.unfinished hmem
        rw [hb] at hun
        exact hbs.pre.deps_written hun (hbs.reached b hmem) (hbs.deps bs₁ b cs rfl) hup hd hnames

theorem traced_of_refused {u : State} {stop : Stop} (hlog : s.log = [])
    (h : Refused dev J s stop u) : Traced J u := by
  refine ⟨[], [], .nil, .inl rfl, ?_⟩
  rw [h.log, hlog]
  rfl

theorem traced_of_broken {u : State} {stop : Stop} (hlog : s.log = [])
    (h : Broken dev J s stop u) : Traced J u := by
  obtain ⟨bs, ws, hbs, hws, hwrites⟩ := h.ragged
  refine ⟨bs, ws, hbs, hws, ?_⟩
  rw [hwrites, hlog]
  rfl

theorem Job.Blocks.traced {u : State} (h : J.Blocks bs) (hlog : s.log = [])
    (hwrites : writesOf u.log = writesOf s.log ++ bs.flatMap Block.ws) : Traced J u := by
  refine ⟨bs, [], h, .inl rfl, ?_⟩
  rw [hwrites, hlog, List.append_nil]
  rfl

theorem updateSound_of_updatable (hwf : WellFormed buf bh num) (hlist : s.list = [])
    (hlog : s.log = []) (hup : (payloadOf buf bh num dev s).Updatable) :
    UpdateSound buf bh num dev s := by
  intro pat suffix fuel
  have hclean : (payloadOf buf bh num dev s).AllClean := hup.allClean hwf
  have hwp := wp_checkAndUpdateBlPayload dev pat suffix fuel
    hwf.toUpdateBlob hlist rfl
  generalize hr : checkAndUpdateBlPayload buf dev pat suffix fuel s = r
  cases r with
  | ok a u =>
      have hdone := (wp_ok hwp hr).2
      obtain ⟨bs, hbs, hwrites, hcov⟩ := hdone.blocks
      have htraced := hbs.traced hlog hwrites
      refine ⟨fun h => (by cases h), ?_, htraced.once,
        fun _ _ _ hs _ hd hn => htraced.ordered hup hs hd hn⟩
      intro _ n hn
      obtain ⟨hchoose, hlands⟩ := hup.matched hdone.short n hn
      obtain ⟨i, hi, rfl⟩ := hn
      have hcovered := hcov i hi (Nat.lt_trans hi hdone.short) hi
      have hwritten : Written _ (bs.flatMap Block.ws ++ []) _ :=
        hbs.written hcovered hchoose hlands (fun _ h => absurd h List.not_mem_nil)
      show Written _ (writesOf u.log) _
      rw [hwrites, hlog]
      rw [List.append_nil] at hwritten
      exact hwritten
  | error stop u =>
      have hstop := wp_error hwp hr
      have htraced : Traced (callJob buf bh num dev pat suffix s) u := by
        rcases hstop with h | ⟨-, h | ⟨-, hrun⟩⟩
        · exact traced_of_refused hlog h
        · exact traced_of_broken hlog h
        · obtain ⟨bs, hw, -⟩ := hrun.walked
          exact hw.blocks.traced hlog hw.writes
      refine ⟨?_, fun h => (by cases h), htraced.once,
        fun _ _ _ hs _ hd hn => htraced.ordered hup hs hd hn⟩
      intro hout
      obtain rfl := Option.some.inj hout
      rcases hstop with h | ⟨-, h | ⟨h, -⟩⟩
      · obtain ⟨e, he⟩ := h.err
        cases he
      · rcases h.halts with ⟨-, hnot⟩ | ⟨⟨e, he⟩, -⟩
        · exact hnot hclean
        · cases he
      · cases h

/-! ## The promises need the condition -/

/-- Nothing fails. -/
def calm : Pattern := ⟨fun _ _ => none, fun _ => none, fun _ => false, fun _ => none⟩

theorem faultless_calm : Faultless calm [] := ⟨fun _ _ => rfl, fun _ => rfl, 0, rfl⟩

variable (dev) in
/-- In a run in which nothing fails, nothing is outside the payload or every
partition that can be reached is done with. -/
theorem calm_run (hb : UpdateBlob buf bh num) (hlist : s.list = []) (hlog : s.log = [])
    (hnum : num ≠ 0)
    (hdef : faultOf (checkAndUpdateBlPayload buf dev calm [] 257 s) ≠ some .outOfBounds) :
    ∃ bs, (callJob buf bh num dev calm [] s).Blocks bs ∧
      writesOf (stateOf (checkAndUpdateBlPayload buf dev calm [] 257 s)).log =
        bs.flatMap Block.ws ∧
      (∀ n, (payloadOf buf bh num dev s).Reached n → n ∈ bs.map Block.name) ∧
      (num < 256 → returns (checkAndUpdateBlPayload buf dev calm [] 257 s) = true) := by
  have hwp := wp_checkAndUpdateBlPayload dev calm [] 257
    hb hlist rfl
  have hreached : ∀ bs, (callJob buf bh num dev calm [] s).Blocks bs →
      (∀ i < num, i < 256 → entryName buf bh i ∈ bs.map Block.name) →
      ∀ n, (payloadOf buf bh num dev s).Reached n → n ∈ bs.map Block.name := by
    intro bs hbs hcov n hn
    induction hn with
    | entry hi h256 => exact hcov _ hi h256
    | dependency _ hd ih =>
        obtain ⟨b, hb, rfl⟩ := List.mem_map.mp ih
        obtain ⟨pre, post, rfl⟩ := List.append_of_mem hb
        rw [List.map_append]
        exact List.mem_append_left _ (hbs.deps pre b post rfl _ hd)
  generalize hr : checkAndUpdateBlPayload buf dev calm [] 257 s = r at hdef
  cases r with
  | ok a u =>
      have hdone := (wp_ok hwp hr).2
      obtain ⟨bs, hbs, hwrites, hcov⟩ := hdone.blocks
      rw [hlog] at hwrites
      exact ⟨bs, hbs, hwrites, hreached bs hbs (fun i hi h256 => hcov i hi h256 hi), fun _ => rfl⟩
  | error stop u =>
      rcases wp_error hwp hr with h | ⟨-, h | ⟨-, hrun⟩⟩
      · rcases h.blame with hf | h0
        · exact absurd faultless_calm hf
        · exact absurd h0 hnum
      · rcases h.halts with ⟨rfl, -⟩ | ⟨-, hf⟩
        · exact absurd rfl hdef
        · exact absurd faultless_calm hf
      · obtain ⟨bs, hw, hcov⟩ := hrun.walked
        have hwrites := hw.writes
        rw [hlog] at hwrites
        refine ⟨bs, hw.blocks, hwrites,
          hreached bs hw.blocks (fun i hi h256 => hcov i (by omega) h256 hi), ?_⟩
        intro hshort
        have hle : 257 ≤ num := hrun.passes_le hshort
        omega

theorem not_reached_of_empty (hnum : P.num = 0) (h : P.Reached n) : False := by
  induction h with
  | entry hi _ => omega
  | dependency _ _ ih => exact ih

theorem updatable_of_updateSound (hb : UpdateBlob buf bh num) (hlist : s.list = [])
    (hlog : s.log = []) (h : UpdateSound buf bh num dev s) :
    (payloadOf buf bh num dev s).Updatable := by
  by_cases hnum : num = 0
  · refine ⟨fun n j hn => (not_reached_of_empty hnum hn).elim, ?_,
      fun n d j hn => (not_reached_of_empty hnum hn).elim⟩
    rintro - n ⟨i, hi, -⟩
    exact absurd (hnum ▸ hi) (Nat.not_lt_zero i)
  have hkept := h calm [] 257
  obtain ⟨bs, hbs, hwrites, hmem, hret⟩ := calm_run dev hb hlist hlog hnum hkept.defined
  refine ⟨?_, ?_, ?_⟩
  · rintro n j hn ⟨c, hc, hj⟩
    obtain ⟨b, hb', hbn⟩ := List.mem_map.mp (hmem n hn)
    have hclean := hbs.clean b hb'
    rw [hbn] at hclean
    have hname : (Str.field (entryAt buf bh j)).name buf = n := hj.name
    rw [← hname]
    exact ((hclean c hc).2 j hj).1.length
  · intro hshort n hn
    obtain ⟨⟨j, slots, hj, -⟩, hlands⟩ := hkept.complete (hret hshort) n hn
    exact ⟨⟨j, hj⟩, hlands⟩
  · intro n d j hn hj hd hnames
    obtain ⟨b, hb', rfl⟩ := List.mem_map.mp (hmem n hn)
    obtain ⟨bs₁, bs₂, hcut⟩ := List.append_of_mem hb'
    -- its first write comes after those of the dependency
    have hout := hbs.outcome b hb'
    generalize hws : b.ws = ws at hout
    cases hout with
    | none hnot => exact absurd hj (hnot j)
    | made hj' hp =>
        obtain ⟨slot, slots, rfl⟩ := List.exists_cons_of_ne_nil hp.ne_nil
        have hsplit := hwrites
        rw [hcut, List.flatMap_append, List.flatMap_cons, hws] at hsplit
        obtain ⟨⟨i, slots', hi, -⟩, -⟩ := hkept.ordered _ _ _ hsplit d hd hnames
        exact ⟨i, hi⟩

def padded (n : Nat) (xs : List UInt8) : List UInt8 := xs ++ List.replicate (n - xs.length) 0

/-- The bytes of an image entry. -/
def imageEntry (name : String) (offset size opMode : Nat) : List UInt8 :=
  padded 40 (ascii name) ++ leBytes 4 offset ++ leBytes 4 size ++ leBytes 4 1 ++
    leBytes 4 opMode ++ padded 64 []

/-- The bytes of an update blob of `size` bytes with these entries behind its header. -/
def blobBytes (size : Nat) (entries : List (List UInt8)) (images : List UInt8) : List UInt8 :=
  ascii "NVIDIA__BLOB__V2" ++ leBytes 4 2 ++ leBytes 4 size ++ leBytes 4 48 ++
    leBytes 4 entries.length ++ leBytes 4 blobUpdate ++ leBytes 4 0 ++ padded 8 [] ++
    entries.flatten ++ images

/-- One image for `mb2`, for devices fused as `opMode` says. -/
def mb2Payload (opMode : Nat) : Buffer :=
  ⟨0x90000000, blobBytes 172 [imageEntry "mb2" 168 4 opMode] [1, 2, 3, 4]⟩

def mb2Handle : BlobInfo := ⟨0x90000000, 0, 172, 24⟩

/-- A device that is not fused for production, and whose spec is known. -/
def preproduction : Device := ⟨some (ascii "699-82888", ascii "A00"), false, some (0, 0, 0)⟩

theorem mb2Payload_wellFormed (opMode : Nat) (h : opMode ∈ [0, 2]) :
    WellFormed (mb2Payload opMode) mb2Handle 1 := by
  have hall : ∀ m ∈ [0, 2], WellFormed (mb2Payload m) mb2Handle 1 := by
    intro m hm
    simp only [List.mem_cons, List.not_mem_nil, or_false] at hm
    rcases hm with rfl | rfl
    · exact ⟨⟨by decide, by decide +kernel, by decide +kernel,
        ⟨by decide +kernel, by decide +kernel, by decide +kernel⟩, by decide +kernel⟩,
        by decide +kernel, by decide +kernel, by decide +kernel⟩
    · exact ⟨⟨by decide, by decide +kernel, by decide +kernel,
        ⟨by decide +kernel, by decide +kernel, by decide +kernel⟩, by decide +kernel⟩,
        by decide +kernel, by decide +kernel, by decide +kernel⟩
  exact hall opMode h

theorem mb2Payload_name (opMode : Nat) (h : opMode ∈ [0, 2]) :
    entryName (mb2Payload opMode) mb2Handle 0 = ascii "mb2" := by
  have hall : ∀ m ∈ [0, 2], entryName (mb2Payload m) mb2Handle 0 = ascii "mb2" := by
    decide +kernel
  exact hall opMode h

theorem mb2_independent (d : List UInt8) : (ascii "mb2", d) ∉ updateSequence := by
  intro h
  have hrank : rank (ascii "mb2") = 0 := by decide
  have hlt := rank_dependency h
  rw [hrank] at hlt
  exact Nat.not_lt_zero _ hlt

end TX2SecureUart.Update
