/-
# `Lib.Region` — programs over a bounded block of bytes

The state of a program is the block.  An address is the distance from the
first byte of the block, and an access that is not in the block stops the
program.  What else may stop it (`ε`) is up to the program.

Two things are proved of such programs.  A program that returns on a piece of
a block alone does to the piece in place what it does to it alone (`Framed`):
it is enough to run a parser on the file it was written for.  And a copy that
goes up through the block and puts every unit at a lower address closes a gap:
what lay above the gap lies below it afterwards, unchanged (`copyUp_spec`).
-/
import TX2SecureUart.Lib.Prog
import TX2SecureUart.Lib.LeBytes
import Mathlib

namespace TX2SecureUart.Region

open Prog

inductive Stop (ε : Type) where
  | readOutside
  | writeOutside
  | stopped (e : ε)
deriving DecidableEq

abbrev RegionM (ε α : Type) := EStateM (Stop ε) (List UInt8) α

variable {ε α β : Type}

/-! ## Accesses -/

def readByte (p : Nat) : RegionM ε UInt8 := do
  match (← get)[p]? with
  | some b => pure b
  | none => throw .readOutside

def writeByte (p : Nat) (b : UInt8) : RegionM ε Unit := do
  let mem ← get
  if p < mem.length then set (mem.set p b) else throw .writeOutside

def readBytes : Nat → Nat → RegionM ε (List UInt8)
  | _, 0 => pure []
  | p, n + 1 => do
      let b ← readByte p
      let bs ← readBytes (p + 1) n
      pure (b :: bs)

def writeBytes : Nat → List UInt8 → RegionM ε Unit
  | _, [] => pure ()
  | p, b :: bs => do
      writeByte p b
      writeBytes (p + 1) bs

/-- A little-endian number of `n` bytes. -/
def readLe (n p : Nat) : RegionM ε Nat := leNat <$> readBytes p n

def fill (b : UInt8) : Nat → Nat → RegionM ε Unit
  | _, 0 => pure ()
  | p, n + 1 => do
      writeByte p b
      fill b (p + 1) n

/-- Whether these bytes stand at `p`.  Reading ends at the first that differs. -/
def matchBytes : Nat → List UInt8 → RegionM ε Bool
  | _, [] => pure true
  | p, c :: cs => do
      let b ← readByte p
      if b = c then matchBytes (p + 1) cs else pure false

/-- `n` units from `src` on to `dst` on, the lowest first. -/
def copyUp (unit : Nat) : Nat → Nat → Nat → RegionM ε Unit
  | 0, _, _ => pure ()
  | n + 1, dst, src => do
      let bs ← readBytes src unit
      writeBytes dst bs
      copyUp unit n (dst + unit) (src + unit)

/-- `n` units that end at `src` to the ones that end at `dst`, the highest first. -/
def copyDown (unit : Nat) : Nat → Nat → Nat → RegionM ε Unit
  | 0, _, _ => pure ()
  | n + 1, dst, src => do
      let bs ← readBytes (src - unit) unit
      writeBytes (dst - unit) bs
      copyDown unit n (dst - unit) (src - unit)

/-! ## A piece in its place -/

/-- `m'` does to a piece at `b` what `m` does to the piece alone, whenever `m`
returns.  The piece keeps its length. -/
def Framed (b : Nat) (m m' : RegionM ε α) : Prop :=
  ∀ (pre mem mem' post : List UInt8) (a : α), pre.length = b → m mem = .ok a mem' →
    m' (pre ++ mem ++ post) = .ok a (pre ++ mem' ++ post) ∧ mem'.length = mem.length

variable {b : Nat}

theorem framed_pure (a : α) : Framed b (pure a : RegionM ε α) (pure a) := by
  intro pre mem mem' post a' _ hm
  cases hm
  exact ⟨rfl, rfl⟩

/-- A program that stops on the piece alone says nothing of the piece in place. -/
theorem framed_throw (e : Stop ε) (m' : RegionM ε α) : Framed b (throw e) m' := by
  intro pre mem mem' post a _ hm
  cases hm

theorem Framed.bind {m m' : RegionM ε β} {f f' : β → RegionM ε α} (hm : Framed b m m')
    (hf : ∀ a, Framed b (f a) (f' a)) : Framed b (m >>= f) (m' >>= f') := by
  intro pre mem mem' post a hb hrun
  rw [run_bind] at hrun ⊢
  cases hmid : m mem with
  | error e t =>
      rw [hmid] at hrun
      cases hrun
  | ok c t =>
      rw [hmid] at hrun
      obtain ⟨hm₁, hlen₁⟩ := hm _ _ _ post _ hb hmid
      obtain ⟨hm₂, hlen₂⟩ := hf c _ _ _ post _ hb hrun
      rw [hm₁]
      exact ⟨hm₂, hlen₂.trans hlen₁⟩

theorem Framed.map {m m' : RegionM ε β} (f : β → α) (hm : Framed b m m') :
    Framed b (f <$> m) (f <$> m') := by
  rw [map_eq_pure_bind, map_eq_pure_bind]
  refine hm.bind ?_
  intro a
  exact framed_pure (f a)

theorem framed_ite {c c' : Prop} [Decidable c] [Decidable c'] {m m' n n' : RegionM ε α}
    (hc : c ↔ c') (hm : c → Framed b m m') (hn : ¬ c → Framed b n n') :
    Framed b (if c then m else n) (if c' then m' else n') := by
  by_cases h : c
  · rw [if_pos h, if_pos (hc.mp h)]
    exact hm h
  · rw [if_neg h, if_neg (fun h' => h (hc.mpr h'))]
    exact hn h

/-- A check that passes on the piece alone passes in place. -/
theorem framed_check {c c' : Prop} [Decidable c] [Decidable c'] {e e' : Stop ε}
    {n n' : RegionM ε α} (hc : ¬ c → ¬ c') (hn : ¬ c → Framed b n n') :
    Framed b (if c then throw e else n) (if c' then throw e' else n') := by
  by_cases h : c
  · rw [if_pos h]
    exact framed_throw e _
  · rw [if_neg h, if_neg (hc h)]
    exact hn h

theorem framed_readByte (p : Nat) : Framed b (readByte p : RegionM ε UInt8) (readByte (b + p)) := by
  intro pre mem mem' post a hb hm
  rw [readByte, run_bind, run_get] at hm ⊢
  dsimp only at hm ⊢
  cases hp : mem[p]? with
  | none =>
      rw [hp] at hm
      cases hm
  | some c =>
      rw [hp] at hm
      cases hm
      have hplace : (pre ++ mem ++ post)[b + p]? = some a := by
        rw [List.append_assoc, ← hb, List.getElem?_append_right (Nat.le_add_right _ _),
          Nat.add_sub_cancel_left, List.getElem?_append_left]
        · exact hp
        · exact (List.getElem?_eq_some_iff.mp hp).1
      rw [hplace]
      exact ⟨rfl, rfl⟩

theorem framed_writeByte (p : Nat) (c : UInt8) :
    Framed b (writeByte p c : RegionM ε Unit) (writeByte (b + p) c) := by
  intro pre mem mem' post a hb hm
  rw [writeByte, run_bind, run_get] at hm ⊢
  dsimp only at hm ⊢
  by_cases hp : p < mem.length
  · rw [if_pos hp] at hm
    cases hm
    have hplace : b + p < (pre ++ mem ++ post).length := by
      simp only [List.length_append]
      omega
    rw [if_pos hplace, run_set, List.append_assoc, ← hb, List.set_append_right _ _ (Nat.le_add_right _ _),
      Nat.add_sub_cancel_left, List.set_append_left _ _ hp, ← List.append_assoc]
    exact ⟨rfl, List.length_set⟩
  · rw [if_neg hp] at hm
    cases hm

theorem framed_readBytes (p n : Nat) :
    Framed b (readBytes p n : RegionM ε (List UInt8)) (readBytes (b + p) n) := by
  induction n generalizing p with
  | zero => exact framed_pure []
  | succ n ih =>
      refine (framed_readByte p).bind ?_
      intro c
      refine (ih (p + 1)).bind ?_
      intro bs
      exact framed_pure _

theorem framed_readLe (n p : Nat) : Framed b (readLe n p : RegionM ε Nat) (readLe n (b + p)) :=
  (framed_readBytes p n).map leNat

theorem framed_fill (c : UInt8) (p n : Nat) :
    Framed b (fill c p n : RegionM ε Unit) (fill c (b + p) n) := by
  induction n generalizing p with
  | zero => exact framed_pure ()
  | succ n ih =>
      refine (framed_writeByte p c).bind ?_
      intro _
      exact ih (p + 1)

theorem framed_matchBytes (p : Nat) (cs : List UInt8) :
    Framed b (matchBytes p cs : RegionM ε Bool) (matchBytes (b + p) cs) := by
  induction cs generalizing p with
  | nil => exact framed_pure true
  | cons c cs ih =>
      refine (framed_readByte p).bind ?_
      intro c'
      refine framed_ite Iff.rfl ?_ ?_
      · intro _
        exact ih (p + 1)
      · intro _
        exact framed_pure false

/-! ## What an access does -/

theorem readByte_cons (pre : List UInt8) (x : UInt8) (post : List UInt8) :
    (readByte pre.length : RegionM ε UInt8) (pre ++ x :: post) = .ok x (pre ++ x :: post) := by
  rw [readByte, run_bind, run_get]
  dsimp only
  rw [List.getElem?_append_right (Nat.le_refl _), Nat.sub_self, List.getElem?_cons_zero]
  rfl

theorem writeByte_cons (pre : List UInt8) (x y : UInt8) (post : List UInt8) :
    (writeByte pre.length y : RegionM ε Unit) (pre ++ x :: post) = .ok ⟨⟩ (pre ++ y :: post) := by
  rw [writeByte, run_bind, run_get]
  dsimp only
  rw [if_pos (by simp), run_set, List.set_append_right _ _ (Nat.le_refl _), Nat.sub_self,
    List.set_cons_zero]

theorem readBytes_append (pre xs post : List UInt8) :
    (readBytes pre.length xs.length : RegionM ε (List UInt8)) (pre ++ xs ++ post) =
      .ok xs (pre ++ xs ++ post) := by
  induction xs generalizing pre with
  | nil => rfl
  | cons x xs ih =>
      have hrest := ih (pre ++ [x])
      simp only [List.length_append, List.length_cons, List.length_nil, List.append_assoc,
        List.cons_append, List.nil_append] at hrest
      rw [List.length_cons, readBytes, run_bind, List.append_assoc, List.cons_append, readByte_cons]
      dsimp only
      rw [run_bind, hrest]
      rfl

theorem writeBytes_append (pre post : List UInt8) {xs ys : List UInt8}
    (h : ys.length = xs.length) :
    (writeBytes pre.length ys : RegionM ε Unit) (pre ++ xs ++ post) =
      .ok ⟨⟩ (pre ++ ys ++ post) := by
  induction xs generalizing pre ys with
  | nil =>
      cases List.length_eq_zero_iff.mp h
      rfl
  | cons x xs ih =>
      cases ys with
      | nil => cases h
      | cons y ys =>
          have hrest := ih (pre ++ [y]) (Nat.succ.inj h)
          simp only [List.length_append, List.length_cons, List.length_nil, List.append_assoc,
            List.cons_append, List.nil_append] at hrest
          rw [writeBytes, run_bind, List.append_assoc, List.cons_append, writeByte_cons]
          dsimp only
          rw [hrest, List.append_assoc, List.cons_append]

theorem matchBytes_append (pre cs post : List UInt8) :
    (matchBytes pre.length cs : RegionM ε Bool) (pre ++ cs ++ post) =
      .ok true (pre ++ cs ++ post) := by
  induction cs generalizing pre with
  | nil => rfl
  | cons c cs ih =>
      have hrest := ih (pre ++ [c])
      simp only [List.length_append, List.length_cons, List.length_nil, List.append_assoc,
        List.cons_append, List.nil_append] at hrest
      rw [matchBytes, run_bind, List.append_assoc, List.cons_append, readByte_cons]
      dsimp only
      rw [if_pos rfl, hrest]

/-- The first byte decides when it differs. -/
theorem matchBytes_ne (pre post cs : List UInt8) {x c : UInt8} (h : x ≠ c) :
    (matchBytes pre.length (c :: cs) : RegionM ε Bool) (pre ++ x :: post) =
      .ok false (pre ++ x :: post) := by
  rw [matchBytes, run_bind, readByte_cons]
  dsimp only
  rw [if_neg h]
  rfl

/-! ## Accesses that leave the block -/

variable {mem : List UInt8}

/-- A read in the block returns, and changes nothing. -/
theorem readBytes_ok {p n : Nat} (h : p + n ≤ mem.length) :
    ∃ bs, (readBytes p n : RegionM ε (List UInt8)) mem = .ok bs mem ∧ bs.length = n := by
  have hlen : ((mem.drop p).take n).length = n := by
    rw [List.length_take, List.length_drop]
    omega
  have hpre : (mem.take p).length = p := List.length_take_of_le (by omega)
  have hmem : mem.take p ++ (mem.drop p).take n ++ (mem.drop p).drop n = mem := by
    rw [List.append_assoc, List.take_append_drop, List.take_append_drop]
  have hread : (readBytes _ _ : RegionM ε (List UInt8)) _ = _ :=
    readBytes_append (mem.take p) ((mem.drop p).take n) ((mem.drop p).drop n)
  rw [hpre, hlen, hmem] at hread
  exact ⟨_, hread, hlen⟩

theorem readBytes_length (p n : Nat) :
    wp (readBytes p n : RegionM ε (List UInt8)) (fun bs _ => bs.length = n) anyStop mem := by
  induction n generalizing p mem with
  | zero => rfl
  | succ n ih =>
      rw [readBytes, wp_bind]
      refine wp_conseq (wp_any _ _) ?_
      intro c _ _
      refine wp_seq (ih (p + 1)) ?_
      intro bs _ hbs
      exact congrArg Nat.succ hbs

theorem readLe_lt (n p : Nat) :
    wp (readLe n p : RegionM ε Nat) (fun v _ => v < 256 ^ n) anyStop mem := by
  rw [readLe, wp_map]
  refine wp_conseq (readBytes_length p n) ?_
  intro bs _ hbs
  rw [← hbs]
  exact leNat_lt bs

theorem readBytes_outside {p n : Nat} (hn : 0 < n) (h : mem.length < p + n) :
    (readBytes p n : RegionM ε (List UInt8)) mem = .error .readOutside mem := by
  induction n generalizing p with
  | zero => exact absurd hn (Nat.lt_irrefl 0)
  | succ n ih =>
      rw [readBytes, run_bind, readByte, run_bind, run_get]
      dsimp only
      cases hp : mem[p]? with
      | none => rfl
      | some c =>
          have hlt : p < mem.length := (List.getElem?_eq_some_iff.mp hp).1
          show (readBytes (p + 1) n >>= _) mem = _
          rw [run_bind, ih (by omega) (by omega)]

theorem writeBytes_ok {p : Nat} {ys : List UInt8} (h : p + ys.length ≤ mem.length) :
    ∃ mem', (writeBytes p ys : RegionM ε Unit) mem = .ok ⟨⟩ mem' ∧ mem'.length = mem.length := by
  induction ys generalizing p mem with
  | nil => exact ⟨mem, rfl, rfl⟩
  | cons y ys ih =>
      rw [List.length_cons] at h
      have htail : p + 1 + ys.length ≤ (mem.set p y).length := by
        rw [List.length_set]
        omega
      obtain ⟨mem', hrun, hlen⟩ := ih htail
      refine ⟨mem', ?_, hlen.trans List.length_set⟩
      rw [writeBytes, run_bind, writeByte, run_bind, run_get]
      dsimp only
      rw [if_pos (by omega), run_set]
      exact hrun

theorem fill_outside {c : UInt8} {p n : Nat} (hn : 0 < n) (h : mem.length < p + n) :
    ∃ mem', (fill c p n : RegionM ε Unit) mem = .error .writeOutside mem' := by
  induction n generalizing p mem with
  | zero => exact absurd hn (Nat.lt_irrefl 0)
  | succ n ih =>
      rw [fill, run_bind, writeByte, run_bind, run_get]
      dsimp only
      by_cases hp : p < mem.length
      · rw [if_pos hp, run_set]
        exact ih (by omega) (by rw [List.length_set]; omega)
      · rw [if_neg hp]
        exact ⟨mem, rfl⟩

/-! ## Closing a gap -/

/-- One unit of the copy: it is written over the first unit from the gap on, and
the gap has moved up by a unit. -/
theorem copyUp_unit (pre gap post : List UInt8) {xs : List UInt8} {unit : Nat} (n : Nat)
    (hx : xs.length = unit) :
    (copyUp unit (n + 1) pre.length (pre ++ gap).length : RegionM ε Unit)
        (pre ++ gap ++ xs ++ post) =
      copyUp unit n (pre ++ xs).length ((pre ++ xs) ++ (gap ++ xs).drop unit).length
        ((pre ++ xs) ++ (gap ++ xs).drop unit ++ post) := by
  have hlen : ((gap ++ xs).take unit).length = xs.length := by
    rw [List.length_take, List.length_append]
    omega
  have hgap : ((gap ++ xs).drop unit).length = gap.length := by
    rw [List.length_drop, List.length_append, hx, Nat.add_sub_cancel]
  have hsplit : pre ++ gap ++ xs ++ post =
      pre ++ (gap ++ xs).take unit ++ ((gap ++ xs).drop unit ++ post) := by
    calc pre ++ gap ++ xs ++ post = pre ++ (gap ++ xs) ++ post := by rw [List.append_assoc pre]
      _ = pre ++ ((gap ++ xs).take unit ++ (gap ++ xs).drop unit) ++ post := by
          rw [List.take_append_drop]
      _ = _ := by simp only [List.append_assoc]
  have hread : (readBytes _ _ : RegionM ε (List UInt8)) _ = _ :=
    readBytes_append (pre ++ gap) xs post
  rw [hx] at hread
  rw [copyUp, run_bind, hread]
  dsimp only
  rw [run_bind, hsplit, writeBytes_append _ _ hlen.symm]
  dsimp only
  simp only [List.length_append, hgap, hx]
  rw [← List.append_assoc, Nat.add_right_comm]

/-- The copy closes the gap: what lay above it now lies below it. -/
theorem copyUp_spec (pre gap post : List UInt8) {xs : List UInt8} {unit n : Nat}
    (hx : xs.length = n * unit) :
    ∃ gap', (copyUp unit n pre.length (pre ++ gap).length : RegionM ε Unit)
        (pre ++ gap ++ xs ++ post) = .ok ⟨⟩ (pre ++ xs ++ gap' ++ post) ∧
      gap'.length = gap.length := by
  induction n generalizing pre gap xs with
  | zero =>
      rw [Nat.zero_mul, List.length_eq_zero_iff] at hx
      subst hx
      refine ⟨gap, ?_, rfl⟩
      rw [List.append_nil, List.append_nil]
      rfl
  | succ n ih =>
      rw [Nat.succ_mul] at hx
      have hfirst : (xs.take unit).length = unit := List.length_take_of_le (by omega)
      have hrest : (xs.drop unit).length = n * unit := by
        rw [List.length_drop, hx, Nat.add_sub_cancel]
      have hstep : (copyUp unit (n + 1) _ _ : RegionM ε Unit) _ = _ :=
        copyUp_unit pre gap (xs.drop unit ++ post) n hfirst
      obtain ⟨gap', hrun, hgap'⟩ :=
        ih (pre ++ xs.take unit) ((gap ++ xs.take unit).drop unit) hrest
      refine ⟨gap', ?_, ?_⟩
      · rw [← List.append_assoc, List.append_assoc (pre ++ gap), List.take_append_drop] at hstep
        rw [hstep, ← List.append_assoc, hrun, List.append_assoc pre, List.take_append_drop]
      · rw [hgap', List.length_drop, List.length_append, hfirst, Nat.add_sub_cancel]

/-- A copy whose source reaches beyond the block stops. -/
theorem copyUp_outside {unit n dst src : Nat} (hunit : 0 < unit) (hn : 0 < n) (hdst : dst ≤ src)
    (h : mem.length < src + n * unit) :
    ∃ mem', (copyUp unit n dst src : RegionM ε Unit) mem = .error .readOutside mem' := by
  induction n generalizing dst src mem with
  | zero => exact absurd hn (Nat.lt_irrefl 0)
  | succ n ih =>
      rw [Nat.succ_mul] at h
      rw [copyUp, run_bind]
      by_cases hin : src + unit ≤ mem.length
      · obtain ⟨bs, hread, hbs⟩ := readBytes_ok hin
        have hfits : dst + bs.length ≤ mem.length := by omega
        obtain ⟨mem', hwrite, hmem'⟩ := writeBytes_ok hfits
        rw [hread]
        dsimp only
        rw [run_bind, hwrite]
        refine ih ?_ (by omega) (by omega)
        refine Nat.pos_of_ne_zero ?_
        rintro rfl
        omega
      · rw [readBytes_outside hunit (by omega)]
        exact ⟨mem, rfl⟩

end TX2SecureUart.Region
