/-
# `Ipc.Scatter` — where the bytes of a message go

`Ipc.Iovec` says which bytes a copy takes or stores.  Here an array is a list of address
ranges, and the bytes are those at the addresses: a message is gathered from a memory, and
scattered over one.

The entries of a user's array are those that each pass reads, so that nothing is assumed of
what happens to the array meanwhile.  The buffer of the kernel is a memory of its own.
-/
import TX2SecureUart.Ipc.Iovec

namespace TX2SecureUart.Ipc

/-! ## Arrays of address ranges -/

/-- `iovec_kern_t` and `iovec_user_t`; a base of 0 is `NULL`. -/
structure Iovec where
  base : Nat
  len : Nat
deriving DecidableEq

/-- What the kernel finds at an entry of its own. -/
def kernEntry (mem : Nat → UInt8) (v : Iovec) : KernIov :=
  if v.base = 0 then .null v.len else .mem (bytesAt mem v.base v.len)

/-- How many of `n` bytes can be accessed before the first fault. -/
def reach (acc : Nat → Bool) (base n : Nat) : Nat :=
  ((List.range n).takeWhile fun k => acc (base + k)).length

/-- What `copy_from_user` finds at an entry of a user's; `none` cannot be read. -/
def userEntry (acc : Nat → Bool) (mem : Nat → UInt8) : Option Iovec → UserIov
  | none => .unmapped
  | some v => .mapped v.len (bytesAt mem v.base (reach acc v.base v.len))

/-- The loop of `membuf_to_kern_iovec`. -/
def scatterKernLoop (mem : Nat → UInt8) (data : List UInt8) (copied : Nat) :
    List Iovec → Int × (Nat → UInt8)
  | [] => (copied, mem)
  | v :: iov =>
      let toCopy := min data.length v.len
      if toCopy = 0 then scatterKernLoop mem data copied iov
      else if v.base = 0 then (errInvalidArgs, mem)
      else
        let mem := write mem v.base (data.take toCopy)
        if data.length - toCopy = 0 then (copied + toCopy, mem)
        else scatterKernLoop mem (data.drop toCopy) (copied + toCopy) iov

/-- `membuf_to_kern_iovec`, with the memory that it leaves -/
def scatterKern (mem : Nat → UInt8) (null : Bool) (iov : List Iovec) (data : List UInt8) :
    Int × (Nat → UInt8) :=
  if iov.length = 0 ∨ data.length = 0 then (0, mem)
  else if null then (errInvalidArgs, mem)
  else scatterKernLoop mem data 0 iov

/-- The loop of `membuf_to_user_iovec`. -/
def scatterUserLoop (acc : Nat → Bool) (mem : Nat → UInt8) (data : List UInt8) (copied : Nat) :
    List (Option Iovec) → Int × (Nat → UInt8)
  | [] => (copied, mem)
  | none :: _ => (errFault, mem)
  | some v :: iov =>
      let toCopy := min data.length v.len
      if reach acc v.base toCopy < toCopy then
        (errFault, write mem v.base (data.take (reach acc v.base toCopy)))
      else
        let mem := write mem v.base (data.take toCopy)
        if data.length - toCopy = 0 then (copied + toCopy, mem)
        else scatterUserLoop acc mem (data.drop toCopy) (copied + toCopy) iov

/-- `membuf_to_user_iovec`, with the memory that it leaves -/
def scatterUser (acc : Nat → Bool) (mem : Nat → UInt8) (iov : List (Option Iovec))
    (data : List UInt8) : Int × (Nat → UInt8) :=
  if iov.length = 0 ∨ data.length = 0 then (0, mem) else scatterUserLoop acc mem data 0 iov

/-! ## What the arrays mean -/

/-- The length of an array. -/
def total (iov : List Iovec) : Nat := (iov.map Iovec.len).sum

/-- The bytes of an array. -/
def gathered (mem : Nat → UInt8) : List Iovec → List UInt8
  | [] => []
  | v :: iov => bytesAt mem v.base v.len ++ gathered mem iov

/-- The bytes are put into the ranges, one range after the other. -/
def place (mem : Nat → UInt8) : List Iovec → List UInt8 → Nat → UInt8
  | [], _ => mem
  | v :: iov, bytes => place (write mem v.base (bytes.take v.len)) iov (bytes.drop v.len)

/-- The part of the array that so many bytes take up. -/
def used : List Iovec → Nat → List Iovec
  | [], _ => []
  | v :: iov, n => ⟨v.base, min n v.len⟩ :: used iov (n - v.len)

/-- Two ranges have no address in common. -/
def Iovec.Apart (v v' : Iovec) : Prop :=
  v.base + v.len ≤ v'.base ∨ v'.base + v'.len ≤ v.base

variable {mem : Nat → UInt8} {acc : Nat → Bool} {v : Iovec} {iov : List Iovec} {data : List UInt8}

theorem total_cons (v : Iovec) (iov : List Iovec) : total (v :: iov) = v.len + total iov := by
  rw [total, List.map_cons, List.sum_cons]
  rfl

theorem length_gathered (mem : Nat → UInt8) (iov : List Iovec) :
    (gathered mem iov).length = total iov := by
  induction iov with
  | nil => rfl
  | cons v iov ih => rw [gathered, List.length_append, length_bytesAt, ih, total_cons]

theorem place_nil (mem : Nat → UInt8) (iov : List Iovec) : place mem iov [] = mem := by
  induction iov with
  | nil => rfl
  | cons v iov ih => rw [place, List.take_nil, List.drop_nil, write_nil, ih]

/-- Bytes that find no room are not put anywhere. -/
theorem place_take (mem : Nat → UInt8) (iov : List Iovec) (data : List UInt8) {n : Nat}
    (h : total iov ≤ n) : place mem iov (data.take n) = place mem iov data := by
  induction iov generalizing mem data n with
  | nil => rfl
  | cons v iov ih =>
      rw [total_cons] at h
      have hn : n = v.len + (n - v.len) := by omega
      rw [place, place, List.take_take, Nat.min_eq_left (by omega), List.drop_take]
      exact ih _ _ (by omega)

/-- Nothing but the ranges that the bytes take up is touched. -/
theorem place_outside {a : Nat}
    (h : ∀ v ∈ used iov data.length, a < v.base ∨ v.base + v.len ≤ a) : place mem iov data a = mem a := by
  induction iov generalizing mem data with
  | nil => rfl
  | cons v iov ih =>
      have hhead := h _ List.mem_cons_self
      rw [place, ih]
      · refine write_outside ?_
        rw [List.length_take]
        rwa [Nat.min_comm] at hhead
      · intro v' hv'
        rw [List.length_drop] at hv'
        exact h v' (List.mem_cons_of_mem _ hv')

/-- A part that is taken up lies inside its range. -/
theorem mem_used {n : Nat} (h : v ∈ used iov n) : ∃ x ∈ iov, v.base = x.base ∧ v.len ≤ x.len := by
  induction iov generalizing n with
  | nil => exact absurd h List.not_mem_nil
  | cons x iov ih =>
      cases List.mem_cons.mp h with
      | inl h =>
          subst h
          exact ⟨x, List.mem_cons_self, rfl, Nat.min_le_right _ _⟩
      | inr h =>
          obtain ⟨y, hy, hrest⟩ := ih h
          exact ⟨y, List.mem_cons_of_mem _ hy, hrest⟩

/-- With ranges that are apart, the bytes are found where they were put. -/
theorem gathered_place (hapart : iov.Pairwise Iovec.Apart) (h : data.length ≤ total iov) :
    (gathered (place mem iov data) iov).take data.length = data := by
  induction iov generalizing mem data with
  | nil =>
      have hnil : data = [] := List.length_eq_zero_iff.mp (Nat.le_zero.mp h)
      rw [hnil]
      rfl
  | cons v iov ih =>
      obtain ⟨hhead, htail⟩ := List.pairwise_cons.mp hapart
      rw [total_cons] at h
      have hkept : ∀ k, v.base ≤ k → k < v.base + v.len →
          place mem (v :: iov) data k = write mem v.base (data.take v.len) k := by
        intro k hle hlt
        show place (write mem v.base (data.take v.len)) iov (data.drop v.len) k = _
        refine place_outside ?_
        intro v' hv'
        obtain ⟨x, hx, hbase, hlen⟩ := mem_used hv'
        have hx' := hhead x hx
        unfold Iovec.Apart at hx'
        omega
      rw [gathered, bytesAt_congr hkept]
      have hrest := @ih (write mem v.base (data.take v.len)) (data.drop v.len) htail (by
        rw [List.length_drop]
        omega)
      rw [List.length_drop] at hrest
      by_cases hfull : v.len ≤ data.length
      · have hlen : (data.take v.len).length = v.len := by
          rw [List.length_take]
          omega
        have hbytes := bytesAt_write mem v.base (data.take v.len)
        rw [hlen] at hbytes
        rw [hbytes, List.take_append, List.take_of_length_le (by omega), hlen]
        show data.take v.len ++ (gathered (place (write mem v.base (data.take v.len)) iov
          (data.drop v.len)) iov).take (data.length - v.len) = data
        rw [hrest, List.take_append_drop]
      · have htake : data.take v.len = data := List.take_of_length_le (by omega)
        rw [htake, List.take_append_of_le_length (by rw [length_bytesAt]; omega)]
        have hsplit : (bytesAt (write mem v.base data) v.base v.len).take data.length =
            bytesAt (write mem v.base data) v.base data.length := by
          rw [bytesAt, ← List.map_take, List.take_range, Nat.min_eq_left (by omega)]
          rfl
        rw [hsplit, bytesAt_write]

/-! ## The copies, over the memory

The bytes that the loops of `Ipc.Iovec` store are the ones that go to the ranges. -/

/-- A range without room, or nothing to put. -/
theorem place_skip (h : v.len = 0 ∨ data = []) : place mem (v :: iov) data = place mem iov data := by
  cases h with
  | inl h => rw [place, h, List.take_zero, List.drop_zero, write_nil]
  | inr h => rw [h, place_nil, place_nil]

/-- A range that is filled, and the others behind it. -/
theorem place_append {bytes : List UInt8} (h : bytes.length = v.len) :
    place mem (v :: iov) (bytes ++ data) = place (write mem v.base bytes) iov data := by
  rw [place, ← h, List.take_left, List.drop_left]

/-- A range that takes all the bytes. -/
theorem place_all (h : data.length ≤ v.len) : place mem (v :: iov) data = write mem v.base data := by
  rw [place, List.take_of_length_le h, List.drop_of_length_le h, place_nil]

theorem scatterKernLoop_eq (mem mem' : Nat → UInt8) (data : List UInt8) (copied : Nat)
    (iov : List Iovec) :
    scatterKernLoop mem data copied iov =
      ((toKernLoop data copied (iov.map (kernEntry mem'))).1,
        place mem iov (toKernLoop data copied (iov.map (kernEntry mem'))).2) := by
  induction iov generalizing mem data copied with
  | nil => rfl
  | cons v iov ih =>
      by_cases h0 : min data.length v.len = 0
      · -- the entry is passed over
        have hentry : toKernLoop data copied ((v :: iov).map (kernEntry mem')) =
            toKernLoop data copied (iov.map (kernEntry mem')) := by
          rw [List.map_cons, kernEntry]
          by_cases hbase : v.base = 0
          · simp only [if_pos hbase, toKernLoop, if_pos h0]
          · simp only [if_neg hbase, toKernLoop, length_bytesAt, if_pos h0]
        have hskip : v.len = 0 ∨ (toKernLoop data copied (iov.map (kernEntry mem'))).2 = [] := by
          cases Nat.min_eq_zero_iff.mp h0 with
          | inl hdata =>
              have hnil : data = [] := List.length_eq_zero_iff.mp hdata
              have hpre := toKernLoop_writes (iov.map (kernEntry mem')) data copied
              exact Or.inr (List.prefix_nil.mp (hnil ▸ hpre))
          | inr hlen => exact Or.inl hlen
        rw [hentry, place_skip hskip, ← ih, scatterKernLoop, if_pos h0]
      · rw [scatterKernLoop, if_neg h0, List.map_cons, kernEntry]
        by_cases hbase : v.base = 0
        · simp only [if_pos hbase, toKernLoop, if_neg h0, place_nil]
        · simp only [if_neg hbase, toKernLoop, length_bytesAt, if_neg h0]
          by_cases hfull : data.length - min data.length v.len = 0
          · rw [if_pos hfull, if_pos hfull, place_all]
            rw [List.length_take]
            omega
          · rw [if_neg hfull, if_neg hfull, ih, place_append]
            rw [List.length_take]
            omega

theorem reach_le (acc : Nat → Bool) (base n : Nat) : reach acc base n ≤ n := by
  have h := (List.takeWhile_sublist (fun k => acc (base + k)) (l := List.range n)).length_le
  rwa [List.length_range] at h

/-- Fewer bytes are reached as far as more of them are. -/
theorem reach_min (acc : Nat → Bool) (base : Nat) {m n : Nat} (h : m ≤ n) :
    reach acc base m = min (reach acc base n) m := by
  have hsplit : List.range n = List.range m ++ (List.range (n - m)).map (m + ·) := by
    rw [← List.range_add, Nat.add_sub_cancel' h]
  unfold reach
  rw [hsplit, List.takeWhile_append]
  split
  · rename_i hall
    rw [hall, List.length_append, List.length_range]
    omega
  · have hle := reach_le acc base m
    exact (Nat.min_eq_left hle).symm

theorem scatterUserLoop_eq (acc : Nat → Bool) (mem mem' : Nat → UInt8) (data : List UInt8)
    (copied : Nat) (iov : List (Option Iovec)) :
    scatterUserLoop acc mem data copied iov =
      ((toUserLoop data copied (iov.map (userEntry acc mem'))).1,
        place mem (iov.filterMap id) (toUserLoop data copied (iov.map (userEntry acc mem'))).2) := by
  induction iov generalizing mem data copied with
  | nil => rfl
  | cons o iov ih =>
      cases o with
      | none =>
          rw [List.map_cons, userEntry, scatterUserLoop, toUserLoop, place_nil]
      | some v =>
          have hreach : reach acc v.base (min data.length v.len) =
              min (reach acc v.base v.len) (min data.length v.len) := reach_min _ _ (Nat.min_le_right _ _)
          have hids : (some v :: iov).filterMap id = v :: iov.filterMap id := rfl
          rw [List.map_cons, userEntry, scatterUserLoop, hids]
          simp only [toUserLoop, length_bytesAt]
          by_cases hfault : reach acc v.base v.len < min data.length v.len
          · have hlow : reach acc v.base (min data.length v.len) = reach acc v.base v.len := by omega
            rw [hlow, if_pos hfault, if_pos hfault, place_all]
            rw [List.length_take]
            omega
          · have hhigh : ¬reach acc v.base (min data.length v.len) < min data.length v.len := by omega
            rw [if_neg hfault, if_neg hhigh]
            by_cases hfull : data.length - min data.length v.len = 0
            · rw [if_pos hfull, if_pos hfull, place_all]
              rw [List.length_take]
              omega
            · rw [if_neg hfull, if_neg hfull, ih, place_append]
              rw [List.length_take]
              omega

/-! ## Arrays without faults -/

/-- No range is at `NULL` unless it is empty, and every byte can be accessed. -/
structure Valid (acc : Nat → Bool) (iov : List Iovec) : Prop where
  base : ∀ v ∈ iov, v.len ≠ 0 → v.base ≠ 0
  acc : ∀ v ∈ iov, ∀ k < v.len, acc (v.base + k) = true

theorem Valid.tail (h : Valid acc (v :: iov)) : Valid acc iov :=
  ⟨fun x hx => h.base x (List.mem_cons_of_mem _ hx), fun x hx => h.acc x (List.mem_cons_of_mem _ hx)⟩

theorem Valid.reach (h : Valid acc (v :: iov)) : Ipc.reach acc v.base v.len = v.len := by
  have hall : (List.range v.len).takeWhile (fun k => acc (v.base + k)) = List.range v.len := by
    rw [List.takeWhile_eq_self_iff]
    intro k hk
    exact h.acc v List.mem_cons_self k (List.mem_range.mp hk)
  rw [Ipc.reach, hall, List.length_range]

theorem Valid.kernPayload (h : Valid acc iov) :
    kernPayload (iov.map (kernEntry mem)) = gathered mem iov := by
  induction iov with
  | nil => rfl
  | cons v iov ih =>
      rw [List.map_cons, gathered, ← ih h.tail, kernEntry]
      by_cases hbase : v.base = 0
      · have hlen : v.len = 0 := by
          by_contra hne
          exact h.base v List.mem_cons_self hne hbase
        rw [if_pos hbase, Ipc.kernPayload, hlen]
        rfl
      · rw [if_neg hbase, Ipc.kernPayload]

theorem Valid.userPayload (h : Valid acc iov) :
    userPayload (iov.map (userEntry acc mem ∘ some)) = gathered mem iov := by
  induction iov with
  | nil => rfl
  | cons v iov ih =>
      rw [List.map_cons, gathered, ← ih h.tail, Function.comp_apply, userEntry, Ipc.userPayload, h.reach,
        List.take_of_length_le (Nat.le_of_eq (length_bytesAt ..))]

theorem Valid.kernLoop_nonneg (h : Valid acc iov) (buf : Nat → UInt8) (pos len copied : Nat) :
    0 ≤ (kernLoop buf pos len copied (iov.map (kernEntry mem))).1 := by
  induction iov generalizing buf pos len copied with
  | nil => exact Int.natCast_nonneg _
  | cons v iov ih =>
      rw [List.map_cons, kernEntry]
      by_cases hbase : v.base = 0
      · have hlen : v.len = 0 := by
          by_contra hne
          exact h.base v List.mem_cons_self hne hbase
        simp only [if_pos hbase, kernLoop, hlen, Nat.min_zero, if_true]
        exact ih h.tail ..
      · simp only [if_neg hbase, kernLoop]
        split
        · exact ih h.tail ..
        · split
          · omega
          · exact ih h.tail ..

theorem Valid.userLoop_nonneg (h : Valid acc iov) (buf : Nat → UInt8) (pos len copied : Nat) :
    0 ≤ (userLoop buf pos len copied (iov.map (userEntry acc mem ∘ some))).1 := by
  induction iov generalizing buf pos len copied with
  | nil => exact Int.natCast_nonneg _
  | cons v iov ih =>
      rw [List.map_cons, Function.comp_apply, userEntry, h.reach]
      simp only [userLoop, length_bytesAt]
      rw [if_neg (Nat.not_lt.mpr (Nat.min_le_right _ _))]
      split
      · omega
      · exact ih h.tail ..

theorem Valid.toKernLoop (h : Valid acc iov) (data : List UInt8) (copied : Nat) :
    toKernLoop data copied (iov.map (kernEntry mem)) =
      (((copied + min data.length (total iov) : Nat) : Int), data.take (total iov)) := by
  induction iov generalizing data copied with
  | nil => simp [Ipc.toKernLoop, total]
  | cons v iov ih =>
      rw [List.map_cons, total_cons]
      by_cases h0 : min data.length v.len = 0
      · -- the entry is passed over
        have hentry : Ipc.toKernLoop data copied (kernEntry mem v :: iov.map (kernEntry mem)) =
            Ipc.toKernLoop data copied (iov.map (kernEntry mem)) := by
          rw [kernEntry]
          by_cases hbase : v.base = 0
          · simp only [if_pos hbase, Ipc.toKernLoop, if_pos h0]
          · simp only [if_neg hbase, Ipc.toKernLoop, length_bytesAt, if_pos h0]
        rw [hentry, ih h.tail]
        cases Nat.min_eq_zero_iff.mp h0 with
        | inl hdata =>
            rw [List.length_eq_zero_iff.mp hdata, List.take_nil, List.take_nil, List.length_nil,
              Nat.zero_min, Nat.zero_min]
        | inr hlen => rw [hlen, Nat.zero_add]
      · have hbase : v.base ≠ 0 := h.base v List.mem_cons_self (by omega)
        simp only [kernEntry, if_neg hbase, Ipc.toKernLoop, length_bytesAt, if_neg h0]
        by_cases hfull : data.length - min data.length v.len = 0
        · rw [if_pos hfull, List.take_of_length_le (by omega), List.take_of_length_le (by omega)]
          exact Prod.ext (by omega) rfl
        · have hlen : min data.length v.len = v.len := by omega
          rw [if_neg hfull, hlen, ih h.tail, List.length_drop, ← List.take_add]
          exact Prod.ext (by omega) rfl

theorem Valid.toUserLoop (h : Valid acc iov) (data : List UInt8) (copied : Nat) (hdata : data ≠ []) :
    toUserLoop data copied (iov.map (userEntry acc mem ∘ some)) =
      (((copied + min data.length (total iov) : Nat) : Int), data.take (total iov)) := by
  induction iov generalizing data copied with
  | nil => simp [Ipc.toUserLoop, total]
  | cons v iov ih =>
      rw [List.map_cons, total_cons, Function.comp_apply, userEntry, h.reach]
      simp only [Ipc.toUserLoop, length_bytesAt]
      rw [if_neg (Nat.not_lt.mpr (Nat.min_le_right _ _))]
      by_cases hfull : data.length - min data.length v.len = 0
      · rw [if_pos hfull, List.take_of_length_le (by omega), List.take_of_length_le (by omega)]
        exact Prod.ext (by omega) rfl
      · have hlen : min data.length v.len = v.len := by omega
        have hrest : data.drop v.len ≠ [] := by
          intro hnil
          have := congrArg List.length hnil
          rw [List.length_drop, List.length_nil] at this
          omega
        rw [if_neg hfull, hlen, ih h.tail _ _ hrest, List.length_drop, ← List.take_add]
        exact Prod.ext (by omega) rfl

/-! ## The four functions -/

/-- A copy that succeeds has stored as much of the array as there is room for. -/
theorem CopiesIn.gathered {buf : Nat → UInt8} {pos cap : Nat} {r : Int × (Nat → UInt8)}
    (h : CopiesIn buf pos cap 0 (Ipc.gathered mem iov) r) (hr : 0 ≤ r.1) :
    r = (((min cap (total iov) : Nat) : Int), write buf pos ((Ipc.gathered mem iov).take cap)) := by
  refine Prod.ext ?_ (h.stored hr)
  rw [h.ret hr, List.length_take, length_gathered, Nat.zero_add]

/-- No room, or no array. -/
theorem gathered_none {buf : Nat → UInt8} {pos cap : Nat} (h : iov.length = 0 ∨ cap = 0) :
    ((0 : Int), buf) =
      (((min cap (total iov) : Nat) : Int), write buf pos ((gathered mem iov).take cap)) := by
  cases h with
  | inl h =>
      rw [List.length_eq_zero_iff.mp h, gathered, List.take_nil, write_nil]
      exact Prod.ext (by simp [total]) rfl
  | inr h => rw [h, List.take_zero, write_nil, Nat.zero_min, Nat.cast_zero]

theorem Valid.kernIovecToMembuf (h : Valid acc iov) (buf : Nat → UInt8) (pos cap : Nat) :
    kernIovecToMembuf buf pos cap false (iov.map (kernEntry mem)) =
      (((min cap (total iov) : Nat) : Int), write buf pos ((gathered mem iov).take cap)) := by
  unfold Ipc.kernIovecToMembuf
  rw [List.length_map]
  by_cases h0 : iov.length = 0 ∨ cap = 0
  · rw [if_pos h0]
    exact gathered_none h0
  · rw [if_neg h0, if_neg Bool.false_ne_true]
    have hspec := kernLoop_spec (iov.map (kernEntry mem)) buf pos cap 0
    rw [h.kernPayload] at hspec
    exact hspec.gathered (h.kernLoop_nonneg ..)

theorem Valid.userIovecToMembuf (h : Valid acc iov) (buf : Nat → UInt8) (pos cap : Nat) :
    userIovecToMembuf buf pos cap (iov.map (userEntry acc mem ∘ some)) =
      (((min cap (total iov) : Nat) : Int), write buf pos ((gathered mem iov).take cap)) := by
  unfold Ipc.userIovecToMembuf
  rw [List.length_map]
  by_cases h0 : iov.length = 0 ∨ cap = 0
  · rw [if_pos h0]
    exact gathered_none h0
  · rw [if_neg h0]
    have hspec := userLoop_spec (iov.map (userEntry acc mem ∘ some)) buf pos cap 0
    rw [h.userPayload] at hspec
    exact hspec.gathered (h.userLoop_nonneg ..)

/-- No message, or no array. -/
theorem placed_none (h : iov.length = 0 ∨ data.length = 0) :
    ((0 : Int), mem) = (((min data.length (total iov) : Nat) : Int), place mem iov data) := by
  cases h with
  | inl h =>
      rw [List.length_eq_zero_iff.mp h]
      exact Prod.ext (by simp [total]) rfl
  | inr h => rw [List.length_eq_zero_iff.mp h, place_nil, List.length_nil, Nat.zero_min, Nat.cast_zero]

theorem Valid.scatterKern (h : Valid acc iov) (mem : Nat → UInt8) (data : List UInt8) :
    scatterKern mem false iov data =
      (((min data.length (total iov) : Nat) : Int), place mem iov data) := by
  unfold Ipc.scatterKern
  by_cases h0 : iov.length = 0 ∨ data.length = 0
  · rw [if_pos h0]
    exact placed_none h0
  · rw [if_neg h0, if_neg Bool.false_ne_true, scatterKernLoop_eq mem mem, h.toKernLoop,
      place_take _ _ _ (Nat.le_refl _), Nat.zero_add]

theorem Valid.scatterUser (h : Valid acc iov) (mem : Nat → UInt8) (data : List UInt8) :
    scatterUser acc mem (iov.map some) data =
      (((min data.length (total iov) : Nat) : Int), place mem iov data) := by
  unfold Ipc.scatterUser
  rw [List.length_map]
  by_cases h0 : iov.length = 0 ∨ data.length = 0
  · rw [if_pos h0]
    exact placed_none h0
  · have hdata : data ≠ [] := fun hnil => h0 (Or.inr (by rw [hnil]; rfl))
    have hids : (iov.map some).filterMap id = iov := by
      rw [List.filterMap_map]
      exact List.filterMap_some
    rw [if_neg h0, scatterUserLoop_eq acc mem mem, List.map_map, h.toUserLoop _ _ hdata, hids,
      place_take _ _ _ (Nat.le_refl _), Nat.zero_add]

/-- With valid arrays the two ways to gather a message agree, and so do the two ways to
scatter one: the concatenation of the ranges is what is read and written, as far as there
is room.  Nothing else is touched; with ranges that are apart the message can be read
back, and what was gathered from one layout is found in every other one that is large
enough. -/
theorem iovec_copies {acc : Nat → Bool} {iov : List Iovec} (h : Valid acc iov)
    (mem buf : Nat → UInt8) (pos cap : Nat) (data : List UInt8) :
    (kernIovecToMembuf buf pos cap false (iov.map (kernEntry mem)) =
        (((min cap (total iov) : Nat) : Int), write buf pos ((gathered mem iov).take cap)) ∧
      userIovecToMembuf buf pos cap (iov.map (userEntry acc mem ∘ some)) =
        (((min cap (total iov) : Nat) : Int), write buf pos ((gathered mem iov).take cap))) ∧
    (scatterKern mem false iov data =
        (((min data.length (total iov) : Nat) : Int), place mem iov (data.take (total iov))) ∧
      scatterUser acc mem (iov.map some) data =
        (((min data.length (total iov) : Nat) : Int), place mem iov (data.take (total iov)))) ∧
    (∀ a, (∀ v ∈ used iov data.length, a < v.base ∨ v.base + v.len ≤ a) →
      place mem iov (data.take (total iov)) a = mem a) ∧
    (iov.Pairwise Iovec.Apart → (gathered (place mem iov (data.take (total iov))) iov).take
      (min data.length (total iov)) = data.take (total iov)) ∧
    ∀ {acc' : Nat → Bool} {iov' : List Iovec} (mem' : Nat → UInt8), Valid acc' iov' →
      iov'.Pairwise Iovec.Apart → total iov ≤ cap → total iov ≤ total iov' →
      (gathered (scatterUser acc' mem' (iov'.map some) (bytesAt
        (kernIovecToMembuf buf pos cap false (iov.map (kernEntry mem))).2 pos (total iov))).2 iov').take
          (total iov) = gathered mem iov := by
  refine ⟨⟨h.kernIovecToMembuf .., h.userIovecToMembuf ..⟩, ⟨?_, ?_⟩, ?_, ?_, ?_⟩
  · rw [h.scatterKern, place_take _ _ _ (Nat.le_refl _)]
  · rw [h.scatterUser, place_take _ _ _ (Nat.le_refl _)]
  · intro a ha
    rw [place_take _ _ _ (Nat.le_refl _)]
    exact place_outside ha
  · intro hapart
    have hread := @gathered_place mem iov (data.take (total iov)) hapart (by
      rw [List.length_take]
      exact Nat.min_le_left _ _)
    rwa [List.length_take, Nat.min_comm] at hread
  · intro acc' iov' mem' h' hapart hcap hroom
    have hbytes : bytesAt (write buf pos (gathered mem iov)) pos (total iov) = gathered mem iov := by
      rw [← length_gathered mem iov]
      exact bytesAt_write ..
    have hread := @gathered_place mem' iov' (gathered mem iov) hapart (by
      rw [length_gathered]
      exact hroom)
    rw [length_gathered] at hread
    have hwhole : (gathered mem iov).take cap = gathered mem iov := by
      rw [List.take_of_length_le]
      rwa [length_gathered]
    rw [h.kernIovecToMembuf, hwhole, hbytes, h'.scatterUser]
    exact hread

/-- Two ranges, and an empty one at `NULL` between them. -/
def threeRanges : List Iovec := [⟨0x10, 2⟩, ⟨0, 0⟩, ⟨0x20, 1⟩]

theorem threeRanges_valid : Valid (fun _ => true) threeRanges where
  base := by decide
  acc := fun _ _ _ _ => rfl

theorem threeRanges_copies :
    kernIovecToMembuf (fun _ => 0) 0 8 false (threeRanges.map (kernEntry UInt8.ofNat)) =
        (3, write (fun _ => 0) 0 [0x10, 0x11, 0x20]) ∧
      (scatterUser (fun _ => true) (fun _ => 0) (threeRanges.map some) [0x51, 0x52]).1 = 2 := by
  have h := iovec_copies threeRanges_valid UInt8.ofNat (fun _ => 0) 0 8 []
  have h' := iovec_copies threeRanges_valid (fun _ => 0) (fun _ => 0) 0 8 [0x51, 0x52]
  exact ⟨h.1.1, congrArg Prod.fst h'.2.1.2⟩

end TX2SecureUart.Ipc
