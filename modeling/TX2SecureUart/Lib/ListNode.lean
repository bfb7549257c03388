/-
# `Lib.ListNode` — circular doubly linked lists with a head node

The nodes of every list share one pair of pointer maps, `Links`.  A head node
heads a ring; an entry is linked by storing four pointers and unlinked by
storing four more, whatever the pointers were before.  Nothing in the operations
checks that an entry is in no list yet.

`Ring L h xs` says that the pointers form one ring of the head `h` and the
entries `xs`, in both directions.  The rules: what `listAddHead`, `listAddTail`, `listDelete`
and `listRemoveHead` do to a ring, that a ring over other nodes is not touched, and
what a walk over a ring finds.
-/
import Mathlib

namespace TX2SecureUart.ListNode

variable {ι : Type}

/-- The two pointers of every node, `none` for NULL. -/
structure Links (ι : Type) where
  prev : ι → Option ι
  next : ι → Option ι

namespace Links

/-- The same nodes read in the other direction. -/
def mirror (L : Links ι) : Links ι := ⟨L.next, L.prev⟩

@[simp] theorem mirror_prev (L : Links ι) : L.mirror.prev = L.next := rfl

@[simp] theorem mirror_next (L : Links ι) : L.mirror.next = L.prev := rfl

variable [DecidableEq ι]

def setPrev (L : Links ι) (a : ι) (p : Option ι) : Links ι :=
  { L with prev := Function.update L.prev a p }

def setNext (L : Links ι) (a : ι) (p : Option ι) : Links ι :=
  { L with next := Function.update L.next a p }

/-- A head that heads no entry. -/
def listInitialize (h : ι) (L : Links ι) : Links ι :=
  (L.setPrev h (some h)).setNext h (some h)

/-- A node counts as linked unless both its pointers are NULL. -/
def listInList (x : ι) (L : Links ι) : Bool :=
  !((L.prev x).isNone && (L.next x).isNone)

def listClearNode (x : ι) (L : Links ι) : Links ι :=
  (L.setPrev x none).setNext x none

def listAddHead (h x : ι) (L : Links ι) : Option (Links ι) := do
  let L := L.setNext x (L.next h)
  let L := L.setPrev x (some h)
  let n ← L.next h
  let L := L.setPrev n (some x)
  return L.setNext h (some x)

def listAddTail (h x : ι) (L : Links ι) : Option (Links ι) := do
  let L := L.setPrev x (L.prev h)
  let L := L.setNext x (some h)
  let p ← L.prev h
  let L := L.setNext p (some x)
  return L.setPrev h (some x)

def listDelete (x : ι) (L : Links ι) : Option (Links ι) := do
  let n ← L.next x
  let L := L.setPrev n (L.prev x)
  let p ← L.prev x
  let L := L.setNext p (L.next x)
  return L.listClearNode x

/-- The first entry, unlinked; no entry when the head points at itself. -/
def listRemoveHead (h : ι) (L : Links ι) : Option (Option ι × Links ι) := do
  let x ← L.next h
  if x = h then
    return (none, L)
  let L ← L.listDelete x
  return (some x, L)

/-- Walk from `cur` to the first entry that `p` accepts, up to the head.  There
is no answer when the walk runs into NULL, into a node `p` cannot read, or does
not end. -/
def find (L : Links ι) (h : ι) (p : ι → Option Bool) : Nat → Option ι → Option (Option ι)
  | 0, _ => none
  | _ + 1, none => none
  | fuel + 1, some cur =>
      if cur = h then some none
      else match p cur with
        | none => none
        | some true => some (some cur)
        | some false => find L h p fuel (L.next cur)

end Links

/-! ## Paths -/

/-- Following `f` from `a` visits `xs` and then arrives at `b`. -/
def Path (f : ι → Option ι) : ι → List ι → ι → Prop
  | a, [], b => f a = some b
  | a, x :: xs, b => f a = some x ∧ Path f x xs b

variable {f g : ι → Option ι} {a b c x : ι} {xs ys : List ι}

theorem Path.first (h : Path f a xs b) : f a = some (xs.headD b) := by
  cases xs with
  | nil => exact h
  | cons x xs => exact h.1

/-- A path is decided by the pointer of its start and of its entries. -/
theorem Path.swap (h : Path f a xs b) (hc : g c = f a) (hxs : ∀ x ∈ xs, g x = f x) :
    Path g c xs b := by
  induction xs generalizing a c with
  | nil => exact hc.trans h
  | cons x xs ih =>
      refine ⟨hc.trans h.1, ih h.2 (hxs x List.mem_cons_self) ?_⟩
      intro y hy
      exact hxs y (List.mem_cons_of_mem _ hy)

theorem Path.congr (h : Path f a xs b) (hf : ∀ x ∈ a :: xs, g x = f x) : Path g a xs b :=
  h.swap (hf a List.mem_cons_self) (fun x hx => hf x (List.mem_cons_of_mem _ hx))

theorem path_append : Path f a (xs ++ x :: ys) b ↔ Path f a xs x ∧ Path f x ys b := by
  induction xs generalizing a with
  | nil => exact Iff.rfl
  | cons y xs ih =>
      show f a = some y ∧ Path f y (xs ++ x :: ys) b ↔ (f a = some y ∧ Path f y xs x) ∧ Path f x ys b
      rw [ih, and_assoc]

/-! ## Rings -/

/-- The pointers of both directions form one ring of the head and the entries. -/
structure Ring (L : Links ι) (h : ι) (xs : List ι) : Prop where
  nodup : (h :: xs).Nodup
  next : Path L.next h xs h
  prev : Path L.prev h xs.reverse h

/-- Two pointer maps agree on every node outside `S`. -/
def SameOff (S : List ι) (L L' : Links ι) : Prop :=
  ∀ a, a ∉ S → L'.prev a = L.prev a ∧ L'.next a = L.next a

variable {L L' : Links ι} {h : ι}

theorem Ring.mirror (hr : Ring L h xs) : Ring L.mirror h xs.reverse where
  nodup := by
    have hp : (h :: xs.reverse).Perm (h :: xs) := (List.reverse_perm xs).cons h
    exact hp.nodup_iff.mpr hr.nodup
  next := hr.prev
  prev := by
    rw [List.reverse_reverse]
    exact hr.next

/-- A ring is decided by the pointers of its own nodes. -/
theorem Ring.congr (hr : Ring L h xs)
    (hL : ∀ a ∈ h :: xs, L'.prev a = L.prev a ∧ L'.next a = L.next a) : Ring L' h xs where
  nodup := hr.nodup
  next := hr.next.congr (fun a ha => (hL a ha).2)
  prev := hr.prev.congr (fun a ha => (hL a (by simpa using ha)).1)

/-- A ring none of whose nodes lies in `S` is not touched. -/
theorem Ring.frame {S : List ι} (hr : Ring L h xs) (hL : SameOff S L L')
    (hS : ∀ a ∈ h :: xs, a ∉ S) : Ring L' h xs :=
  hr.congr (fun a ha => hL a (hS a ha))

theorem Ring.prev_head (hr : Ring L h xs) : L.prev h = some (xs.getLastD h) := by
  have := hr.prev.first
  simpa using this

theorem Ring.next_head (hr : Ring L h xs) : L.next h = some (xs.headD h) :=
  hr.next.first

/-- Any node of a ring may be taken for its head. -/
theorem Ring.rehead (hr : Ring L h (xs ++ x :: ys)) : Ring L x (ys ++ h :: xs) where
  nodup := by
    have hp : (x :: (ys ++ h :: xs)).Perm (h :: (xs ++ x :: ys)) := by
      show ((x :: ys) ++ (h :: xs)).Perm ((h :: xs) ++ (x :: ys))
      exact List.perm_append_comm
    exact hp.nodup_iff.mpr hr.nodup
  next := by
    obtain ⟨h₁, h₂⟩ := path_append.mp hr.next
    exact path_append.mpr ⟨h₂, h₁⟩
  prev := by
    have hprev := hr.prev
    rw [List.reverse_append, List.reverse_cons, List.append_assoc] at hprev ⊢
    obtain ⟨h₁, h₂⟩ := path_append.mp hprev
    exact path_append.mpr ⟨h₂, h₁⟩

/-! ## The operations on rings -/

variable [DecidableEq ι]

/-- The node before `x`, made to point where `x` points, leaves `x` out. -/
theorem Path.splice (hx : Path f a xs x) (hy : Path f x ys b) (hnd : (a :: (xs ++ ys)).Nodup)
    (hxa : x ∉ a :: xs) : Path (Function.update f (xs.getLastD a) (f x)) a (xs ++ ys) b := by
  induction xs generalizing a with
  | nil =>
      refine hy.swap (Function.update_self ..) ?_
      intro y hys
      refine Function.update_of_ne ?_ ..
      rintro rfl
      exact (List.nodup_cons.mp hnd).1 hys
  | cons z xs ih =>
      obtain ⟨ha, hnd⟩ := List.nodup_cons.mp hnd
      rw [List.getLastD_cons]
      refine ⟨?_, ih hx.2 hnd (fun h => hxa (List.mem_cons_of_mem _ h))⟩
      rw [Function.update_of_ne, hx.1]
      rintro rfl
      exact ha (List.mem_append_left _ (List.getLastD_mem_cons))

/-- The last node of a path, made to point elsewhere, moves its end. -/
theorem Path.redirect (h : Path f a xs b) (hnd : (a :: xs).Nodup) :
    Path (Function.update f (xs.getLastD a) (some c)) a xs c := by
  induction xs generalizing a with
  | nil => exact Function.update_self ..
  | cons z xs ih =>
      obtain ⟨ha, hnd⟩ := List.nodup_cons.mp hnd
      rw [List.getLastD_cons]
      refine ⟨?_, ih h.2 hnd⟩
      rw [Function.update_of_ne, h.1]
      rintro rfl
      exact ha (List.getLastD_mem_cons)

theorem ring_listInitialize (h : ι) (L : Links ι) : Ring (L.listInitialize h) h [] where
  nodup := List.nodup_singleton h
  next := Function.update_self ..
  prev := Function.update_self ..

theorem sameOff_listInitialize (h : ι) (L : Links ι) : SameOff [h] L (L.listInitialize h) := by
  intro a ha
  have hne : a ≠ h := by simpa using ha
  exact ⟨Function.update_of_ne hne .., Function.update_of_ne hne ..⟩

theorem Ring.listAddTail (hr : Ring L h xs) (hx : x ∉ h :: xs) :
    ∃ L', L.listAddTail h x = some L' ∧ Ring L' h (xs ++ [x]) ∧ SameOff (x :: h :: xs) L L' := by
  have hxh : h ≠ x := fun he => hx (he ▸ List.mem_cons_self)
  have hlast : xs.getLastD h ≠ x := fun he => hx (he ▸ List.getLastD_mem_cons)
  have hp : Function.update L.prev x (L.prev h) h = some (xs.getLastD h) := by
    rw [Function.update_of_ne hxh, hr.prev_head]
  refine ⟨⟨Function.update (Function.update L.prev x (L.prev h)) h (some x),
    Function.update (Function.update L.next x (some h)) (xs.getLastD h) (some x)⟩, ?_, ⟨?_, ?_, ?_⟩, ?_⟩
  · simp only [Links.listAddTail, Links.setPrev, Links.setNext, hp, Option.bind_eq_bind,
      Option.bind_some]
    rfl
  · have hperm : (h :: (xs ++ [x])).Perm (x :: h :: xs) := by
      rw [← List.cons_append]
      exact List.perm_append_singleton x (h :: xs)
    exact hperm.nodup_iff.mpr (List.nodup_cons.mpr ⟨hx, hr.nodup⟩)
  · refine path_append.mpr ⟨?_, ?_⟩
    · refine (hr.next.redirect hr.nodup).congr ?_
      intro a ha
      dsimp only
      have hax : a ≠ x := fun he => hx (he ▸ ha)
      by_cases hal : a = xs.getLastD h
      · rw [hal, Function.update_self, Function.update_self]
      · rw [Function.update_of_ne hal, Function.update_of_ne hax, Function.update_of_ne hal]
    · show Function.update (Function.update L.next x (some h)) (xs.getLastD h) (some x) x = some h
      rw [Function.update_of_ne hlast.symm, Function.update_self]
  · rw [List.reverse_append]
    refine ⟨Function.update_self .., hr.prev.swap ?_ ?_⟩
    · dsimp only
      rw [Function.update_of_ne hxh.symm, Function.update_self]
    · intro a ha
      dsimp only
      have hmem : a ∈ xs := List.mem_reverse.mp ha
      have hah : a ≠ h := fun he => (List.nodup_cons.mp hr.nodup).1 (he ▸ hmem)
      have hax : a ≠ x := fun he => hx (he ▸ List.mem_cons_of_mem _ hmem)
      rw [Function.update_of_ne hah, Function.update_of_ne hax]
  · intro a ha
    obtain ⟨hax, ha⟩ := List.ne_and_not_mem_of_not_mem_cons ha
    have hah : a ≠ h := fun he => ha (he ▸ List.mem_cons_self)
    have hal : a ≠ xs.getLastD h := fun he => ha (he ▸ List.getLastD_mem_cons)
    exact ⟨by dsimp only; rw [Function.update_of_ne hah, Function.update_of_ne hax],
      by dsimp only; rw [Function.update_of_ne hal, Function.update_of_ne hax]⟩

/-- Adding at the head is adding at the tail in the other direction. -/
theorem listAddHead_mirror (h x : ι) (L : Links ι) :
    L.listAddHead h x = (L.mirror.listAddTail h x).map Links.mirror := by
  simp only [Links.listAddHead, Links.listAddTail, Links.setPrev, Links.setNext, Links.mirror,
    Option.bind_eq_bind]
  cases Function.update L.next x (L.next h) h <;> rfl

theorem Ring.listAddHead (hr : Ring L h xs) (hx : x ∉ h :: xs) :
    ∃ L', L.listAddHead h x = some L' ∧ Ring L' h (x :: xs) ∧ SameOff (x :: h :: xs) L L' := by
  obtain ⟨M, hM, hring, hoff⟩ := hr.mirror.listAddTail (x := x) (by simpa using hx)
  refine ⟨M.mirror, ?_, ?_, ?_⟩
  · rw [listAddHead_mirror, hM]
    rfl
  · simpa using hring.mirror
  · intro a ha
    exact (hoff a (by simpa using ha)).symm

theorem Ring.listDelete (hr : Ring L h (xs ++ x :: ys)) :
    ∃ L', L.listDelete x = some L' ∧ Ring L' h (xs ++ ys) ∧ SameOff (h :: (xs ++ x :: ys)) L L' ∧
      L'.listInList x = false := by
  obtain ⟨hhd, hnd⟩ := List.nodup_cons.mp hr.nodup
  have hxs : x ∉ xs ++ ys := (List.nodup_cons.mp ((List.nodup_middle).mp hnd)).1
  have hnd' : (xs ++ ys).Nodup := (List.nodup_cons.mp ((List.nodup_middle).mp hnd)).2
  have hxh : x ≠ h := by
    rintro rfl
    exact hhd (by simp)
  have hmem : x ∉ h :: (xs ++ ys) := by
    intro hm
    exact (List.mem_cons.mp hm).elim hxh hxs
  have hh : h ∉ xs ++ ys := by
    intro hm
    exact hhd (by simp only [List.mem_append, List.mem_cons] at hm ⊢; tauto)
  obtain ⟨hn₁, hn₂⟩ := path_append.mp hr.next
  have hprev := hr.prev
  have hrevs : (xs ++ x :: ys).reverse = ys.reverse ++ x :: xs.reverse := by simp
  rw [hrevs] at hprev
  obtain ⟨hp₁, hp₂⟩ := path_append.mp hprev
  have hnx : L.next x = some (ys.headD h) := hn₂.first
  have hpx : L.prev x = some (xs.getLastD h) := by
    have := hp₂.first
    simpa using this
  have hy : ys.headD h ∈ h :: (xs ++ ys) := by
    cases ys with
    | nil => exact List.mem_cons_self
    | cons y ys => simp
  have hl : xs.getLastD h ∈ h :: (xs ++ ys) := by
    have := List.getLastD_mem_cons (l := xs) (a := h)
    simp only [List.mem_cons, List.mem_append] at this ⊢
    tauto
  have hyx : x ≠ ys.headD h := fun he => hmem (he ▸ hy)
  have hlx : x ≠ xs.getLastD h := fun he => hmem (he ▸ hl)
  refine ⟨⟨Function.update (Function.update L.prev (ys.headD h) (L.prev x)) x none,
    Function.update (Function.update L.next (xs.getLastD h) (L.next x)) x none⟩,
    ?_, ⟨List.nodup_cons.mpr ⟨hh, hnd'⟩, ?_, ?_⟩, ?_, ?_⟩
  · simp only [Links.listDelete, Links.setPrev, Links.setNext, Links.listClearNode, hnx, hpx,
      Option.bind_eq_bind, Option.bind_some, Function.update_of_ne hyx]
    rfl
  · refine (hn₁.splice hn₂ (List.nodup_cons.mpr ⟨hh, hnd'⟩) ?_).congr ?_
    · intro hm
      refine hmem ?_
      simp only [List.mem_cons, List.mem_append] at hm ⊢
      tauto
    · intro a ha
      refine Function.update_of_ne ?_ ..
      rintro rfl
      exact hmem ha
  · have hrev : (h :: (ys.reverse ++ xs.reverse)).Nodup := by
      rw [← List.reverse_append]
      exact List.nodup_cons.mpr ⟨fun hm => hh (List.mem_reverse.mp hm), List.nodup_reverse.mpr hnd'⟩
    have hs := hp₁.splice hp₂ hrev (by
      intro hm
      refine hmem ?_
      simp only [List.mem_cons, List.mem_append, List.mem_reverse] at hm ⊢
      tauto)
    have hlast : ys.reverse.getLastD h = ys.headD h := by simp
    rw [hlast] at hs
    rw [List.reverse_append]
    refine hs.congr ?_
    intro a ha
    refine Function.update_of_ne (fun he => hmem ?_) ..
    simp only [List.mem_cons, List.mem_append, List.mem_reverse] at ha ⊢
    rw [← he]
    tauto
  · intro a ha
    have hax : a ≠ x := by
      rintro rfl
      exact ha (by simp)
    have hsub : ∀ b ∈ h :: (xs ++ ys), b ∈ h :: (xs ++ x :: ys) := by
      intro b hb
      simp only [List.mem_cons, List.mem_append] at hb ⊢
      tauto
    have hay : a ≠ ys.headD h := fun he => ha (he ▸ hsub _ hy)
    have hal : a ≠ xs.getLastD h := fun he => ha (he ▸ hsub _ hl)
    exact ⟨by dsimp only; rw [Function.update_of_ne hax, Function.update_of_ne hay],
      by dsimp only; rw [Function.update_of_ne hax, Function.update_of_ne hal]⟩
  · simp [Links.listInList]

theorem Ring.listRemoveHead (hr : Ring L h (x :: xs)) :
    ∃ L', L.listRemoveHead h = some (some x, L') ∧ Ring L' h xs ∧ SameOff (h :: x :: xs) L L' ∧
      L'.listInList x = false := by
  have hxh : x ≠ h := by
    rintro rfl
    exact (List.nodup_cons.mp hr.nodup).1 List.mem_cons_self
  obtain ⟨L', hdel, hring, hoff, hin⟩ := (show Ring L h ([] ++ x :: xs) from hr).listDelete
  refine ⟨L', ?_, hring, hoff, hin⟩
  have hn : L.next h = some x := hr.next_head
  simp only [Links.listRemoveHead, hn, Option.bind_eq_bind, Option.bind_some, if_neg hxh, hdel]
  rfl

theorem Ring.listRemoveHead_nil (hr : Ring L h []) : L.listRemoveHead h = some (none, L) := by
  have hn : L.next h = some h := hr.next_head
  simp only [Links.listRemoveHead, hn, Option.bind_eq_bind, Option.bind_some, if_true]
  rfl

/-! ## Walks -/

/-- A walk along a path to the head finds the first entry `q` holds of. -/
theorem find_path {p : ι → Option Bool} {q : ι → Bool} (hp : Path L.next a xs h) (hh : h ∉ xs)
    (hq : ∀ x ∈ xs, p x = some (q x)) {fuel : Nat} (hfuel : xs.length < fuel) :
    L.find h p fuel (L.next a) = some (xs.find? q) := by
  induction xs generalizing a fuel with
  | nil =>
      obtain ⟨fuel, rfl⟩ := Nat.exists_eq_succ_of_ne_zero (Nat.ne_of_gt hfuel)
      have hn : L.next a = some h := hp
      rw [hn]
      exact if_pos rfl
  | cons x xs ih =>
      obtain ⟨fuel, rfl⟩ := Nat.exists_eq_succ_of_ne_zero (Nat.ne_of_gt (Nat.zero_lt_of_lt hfuel))
      have hxh : x ≠ h := fun he => hh (he ▸ List.mem_cons_self)
      have hrest := ih hp.2 (fun hm => hh (List.mem_cons_of_mem _ hm))
        (fun y hy => hq y (List.mem_cons_of_mem _ hy)) (Nat.lt_of_succ_lt_succ hfuel)
      rw [hp.1]
      simp only [Links.find, if_neg hxh, hq x List.mem_cons_self, List.find?_cons]
      cases q x with
      | true => rfl
      | false => exact hrest

theorem Ring.find {p : ι → Option Bool} {q : ι → Bool} (hr : Ring L h xs)
    (hq : ∀ x ∈ xs, p x = some (q x)) {fuel : Nat} (hfuel : xs.length < fuel) :
    L.find h p fuel (L.next h) = some (xs.find? q) :=
  find_path hr.next (List.nodup_cons.mp hr.nodup).1 hq hfuel

end TX2SecureUart.ListNode
