/-
# `Ipc.MsgQueue` — the message queue of one direction of a channel

`struct ipc_msg_queue` of `ipc_msg.c` and the part of every message call that
works on it.  An item is named by its index in `items`; the three intrusive
lists hold indices.  `list_delete` takes a node out of whichever list it is
in.

`MsgQueue.Inv` ties the lists, the state fields and the buffer regions
together.  `mailbox` is what a queue stands for, and each operation on a queue
that satisfies `Inv` is a step of that mailbox, or leaves it alone.
-/
import TX2SecureUart.Ipc.Iovec
import TX2SecureUart.Lib.Mailbox
import Mathlib

namespace TX2SecureUart.Ipc

/-! ## The queue -/

/-- `MSG_ITEM_STATE_*` -/
inductive MsgItemState where
  | free
  | filled
  | read
deriving DecidableEq

/-- `msg_item_t`; the node is represented by the lists. -/
structure MsgItem where
  id : UInt8
  state : MsgItemState
  numHandles : Nat
  len : Nat
deriving DecidableEq

structure MsgQueue where
  freeList : List Nat
  filledList : List Nat
  readList : List Nat
  numItems : Nat
  itemSz : Nat
  buf : Nat → UInt8
  items : Nat → MsgItem

/-- `ipc_msg_info_t` -/
structure MsgInfo where
  len : UInt32
  id : UInt32
deriving DecidableEq

namespace MsgQueue

/-- One pass of the loop of `ipc_msg_queue_create`. -/
def addItem (mq : MsgQueue) (i : Nat) : MsgQueue :=
  { mq with
    items := Function.update mq.items i { mq.items i with id := UInt8.ofNat i }
    freeList := mq.freeList ++ [i] }

/-- The queue from `calloc`, with its lists initialised and its buffer. -/
def noItems (numItems itemSz : Nat) (buf : Nat → UInt8) : MsgQueue where
  freeList := []
  filledList := []
  readList := []
  numItems := numItems
  itemSz := itemSz
  buf := buf
  items := fun _ => ⟨0, .free, 0, 0⟩

/-- `ipc_msg_queue_create`, when both allocations succeed; `buf` is what the
buffer from `malloc` contains. -/
def create (numItems itemSz : Nat) (buf : Nat → UInt8) : MsgQueue :=
  (List.range numItems).foldl addItem (noItems numItems itemSz buf)

/-- `ipc_msg_queue_is_empty` -/
def isEmpty (mq : MsgQueue) : Bool := mq.filledList.isEmpty

/-- `ipc_msg_queue_is_full` -/
def isFull (mq : MsgQueue) : Bool := mq.freeList.isEmpty

/-- `msg_queue_get_buf`, as an offset into `buf` -/
def getBuf (mq : MsgQueue) (i : Nat) : Nat := (mq.items i).id.toNat * mq.itemSz

/-- `msg_queue_get_item` -/
def getItem (mq : MsgQueue) (id : UInt32) : Option Nat :=
  if id.toNat < mq.numItems then some id.toNat else none

/-- `list_delete(&item->node)` -/
def listDelete (mq : MsgQueue) (i : Nat) : MsgQueue :=
  { mq with
    freeList := mq.freeList.erase i
    filledList := mq.filledList.erase i
    readList := mq.readList.erase i }

def setItem (mq : MsgQueue) (i : Nat) (f : MsgItem → MsgItem) : MsgQueue :=
  { mq with items := Function.update mq.items i (f (mq.items i)) }

/-- `msg_write_locked`, from the point where `item` is the head of the free
list. -/
def fill (mq : MsgQueue) (i : Nat) (msg : MsgDesc) : Int × MsgQueue :=
  let mq := mq.setItem i fun item => { item with numHandles := 0, len := 0 }
  let (ret, buf) := copyIn mq.buf (mq.getBuf i) mq.itemSz msg
  let mq := { mq with buf := buf }
  if ret < 0 then (ret, mq)
  else
    let mq := mq.setItem i fun item => { item with len := ret.toNat }
    let mq := mq.listDelete i
    let mq := { mq with filledList := mq.filledList ++ [i] }
    let mq := mq.setItem i fun item => { item with state := .filled }
    ((mq.items i).len, mq)

/-- `msg_read_locked`: the result, and the bytes stored through the iovec. -/
def read (mq : MsgQueue) (msgId offset : UInt32) (msg : MsgDesc) : Int × List UInt8 :=
  match mq.getItem msgId with
  | none => (errInvalidArgs, [])
  | some i =>
      if (mq.items i).state ≠ .read then (errInvalidArgs, [])
      else if (mq.items i).numHandles ≠ 0 then (errNotSupported, [])
      else if (mq.items i).len < offset.toNat then (errInvalidArgs, [])
      else
        copyOut (Ipc.bytesAt mq.buf (mq.getBuf i + offset.toNat)
          ((mq.items i).len - offset.toNat)) msg

/-- `msg_peek_next_filled_locked`; `none` is `ERR_NO_MSG`. -/
def peekNextFilled (mq : MsgQueue) : Option MsgInfo :=
  match mq.filledList with
  | [] => none
  | i :: _ => some ⟨UInt32.ofNat (mq.items i).len, (mq.items i).id.toUInt32⟩

/-- `msg_get_filled_locked`; `none` when there is no item to dereference. -/
def getFilled (mq : MsgQueue) : Option MsgQueue :=
  match mq.filledList with
  | [] => none
  | i :: _ =>
      let mq := mq.listDelete i
      let mq := { mq with readList := mq.readList ++ [i] }
      some (mq.setItem i fun item => { item with state := .read })

/-- `msg_put_read_locked`, as far as the queue is concerned; `none` is
`ERR_INVALID_ARGS`. -/
def putRead (mq : MsgQueue) (msgId : UInt32) : Option MsgQueue :=
  match mq.getItem msgId with
  | none => none
  | some i =>
      if (mq.items i).state ≠ .read then none
      else
        let mq := mq.listDelete i
        let mq := { mq with freeList := i :: mq.freeList }
        some (mq.setItem i fun item => { item with state := .free })

/-! ## The invariant -/

/-- The list an item is in, by its state. -/
def listOf (mq : MsgQueue) : MsgItemState → List Nat
  | .free => mq.freeList
  | .filled => mq.filledList
  | .read => mq.readList

structure Inv (mq : MsgQueue) : Prop where
  /-- the items are `0 .. numItems - 1`, each in one list, once -/
  nodup : (mq.freeList ++ mq.filledList ++ mq.readList).Nodup
  all : ∀ i, i ∈ mq.freeList ++ mq.filledList ++ mq.readList ↔ i < mq.numItems
  /-- the state field says which list it is in -/
  state : ∀ st i, i ∈ mq.listOf st → (mq.items i).state = st
  id : ∀ i < mq.numItems, (mq.items i).id.toNat = i
  /-- a message in the queue fits its item and carries no handles -/
  len : ∀ i ∈ mq.filledList ++ mq.readList, (mq.items i).len ≤ mq.itemSz
  numHandles : ∀ i ∈ mq.filledList ++ mq.readList, (mq.items i).numHandles = 0

/-- The message in item `i`. -/
def content (mq : MsgQueue) (i : Nat) : List UInt8 :=
  Ipc.bytesAt mq.buf (mq.getBuf i) (mq.items i).len

/-- What the queue stands for. -/
def mailbox (mq : MsgQueue) : Mailbox Nat (List UInt8) where
  capacity := mq.numItems
  waiting := mq.filledList.map mq.content
  held := mq.readList.map fun i => (i, mq.content i)

variable {mq : MsgQueue}

theorem Inv.mem_listOf (h : mq.Inv) {k : MsgItemState} {i : Nat} (hi : i < mq.numItems) :
    i ∈ mq.listOf k ↔ (mq.items i).state = k := by
  refine ⟨h.state k i, fun hst => ?_⟩
  have hmem := (h.all i).mpr hi
  simp only [List.mem_append] at hmem
  rcases hmem with (hmem | hmem) | hmem
  · rwa [← hst, h.state .free i hmem]
  · rwa [← hst, h.state .filled i hmem]
  · rwa [← hst, h.state .read i hmem]

theorem Inv.lt_numItems (h : mq.Inv) {k : MsgItemState} {i : Nat} (hi : i ∈ mq.listOf k) :
    i < mq.numItems := by
  refine (h.all i).mp ?_
  simp only [List.mem_append]
  cases k with
  | free => exact Or.inl (Or.inl hi)
  | filled => exact Or.inl (Or.inr hi)
  | read => exact Or.inr hi

/-- The three lists together have one entry for each item. -/
theorem Inv.length_lists (h : mq.Inv) :
    mq.freeList.length + mq.filledList.length + mq.readList.length = mq.numItems := by
  have hperm : (mq.freeList ++ mq.filledList ++ mq.readList).Perm (List.range mq.numItems) :=
    (List.perm_ext_iff_of_nodup h.nodup List.nodup_range).mpr fun i => by
      rw [h.all, List.mem_range]
  have := hperm.length_eq
  rwa [List.length_append, List.length_append, List.length_range] at this

theorem Inv.unretired (h : mq.Inv) :
    mq.mailbox.unretired + mq.freeList.length = mq.mailbox.capacity := by
  have := h.length_lists
  simp only [mailbox, Mailbox.unretired, List.length_map]
  omega

/-- What is held under `i` is the message in item `i`, if it has been read. -/
theorem Inv.look (h : mq.Inv) {i : Nat} (hi : i < mq.numItems) :
    mq.mailbox.look i =
      if (mq.items i).state = .read then some (mq.content i) else none := by
  have hlook : ∀ l : List Nat, (l.map fun i => (i, mq.content i)).lookup i =
      if i ∈ l then some (mq.content i) else none := by
    intro l
    induction l with
    | nil => rfl
    | cons j l ih =>
        by_cases hij : i = j
        · subst hij
          simp
        · have hb : (i == j) = false := beq_eq_false_iff_ne.mpr hij
          rw [List.map_cons, List.lookup_cons, hb, ih]
          simp [hij]
  rw [Mailbox.look, mailbox, hlook]
  exact if_congr (h.mem_listOf (k := .read) hi) rfl rfl

theorem Inv.look_eq_none (h : mq.Inv) {i : Nat} (hi : mq.numItems ≤ i) :
    mq.mailbox.look i = none := by
  simp only [Mailbox.look, mailbox, List.lookup_eq_none_iff, List.mem_map]
  rintro p ⟨j, hj, rfl⟩
  have := h.lt_numItems (k := .read) hj
  exact bne_iff_ne.mpr (by omega : i ≠ j)

/-! ## A new queue -/

theorem create_lists (numItems itemSz : Nat) (buf : Nat → UInt8) :
    ∀ n, let mq := (List.range n).foldl addItem (noItems numItems itemSz buf)
      mq.freeList = List.range n ∧ mq.filledList = [] ∧ mq.readList = [] ∧
        mq.numItems = numItems ∧ mq.itemSz = itemSz ∧
        ∀ i, mq.items i = ⟨if i < n then UInt8.ofNat i else 0, .free, 0, 0⟩
  | 0 => ⟨rfl, rfl, rfl, rfl, rfl, fun _ => rfl⟩
  | n + 1 => by
      obtain ⟨hfree, hfilled, hread, hnum, hsz, hitems⟩ := create_lists numItems itemSz buf n
      simp only [List.range_succ, List.foldl_append, List.foldl_cons, List.foldl_nil, addItem]
      refine ⟨by rw [hfree], hfilled, hread, hnum, hsz, fun i => ?_⟩
      by_cases hi : i = n
      · subst hi
        simp [hitems]
      · have hlt : i < n + 1 ↔ i < n := by omega
        simp only [Function.update_of_ne hi, hitems, hlt]

theorem inv_create {numItems : Nat} (hn : numItems ≤ 256) (itemSz : Nat) (buf : Nat → UInt8) :
    (create numItems itemSz buf).Inv := by
  obtain ⟨hfree, hfilled, hread, hnum, -, hitems⟩ := create_lists numItems itemSz buf numItems
  refine ⟨?_, fun i => ?_, fun st i hi => ?_, fun i hi => ?_, ?_, ?_⟩
  · simp [create, hfree, hfilled, hread, List.nodup_range]
  · simp [create, hfree, hfilled, hread, hnum]
  · cases st with
    | free => exact congrArg MsgItem.state (hitems i)
    | filled => simp [create, listOf, hfilled] at hi
    | read => simp [create, listOf, hread] at hi
  · have hi' : i < numItems := by simpa [create, hnum] using hi
    rw [create, hitems, if_pos hi']
    simp
    omega
  · simp [create, hfilled, hread]
  · simp [create, hfilled, hread]

theorem mailbox_create (numItems itemSz : Nat) (buf : Nat → UInt8) :
    (create numItems itemSz buf).mailbox = Mailbox.empty numItems := by
  obtain ⟨-, hfilled, hread, hnum, -, -⟩ := create_lists numItems itemSz buf numItems
  simp [mailbox, create, hfilled, hread, hnum, Mailbox.empty]

/-! ## Each operation is a step of the mailbox -/

/-- A message survives whatever happens outside its item. -/
theorem Inv.content_congr {mq' : MsgQueue} (h : mq.Inv) {i j : Nat}
    (hj : j ∈ mq.filledList ++ mq.readList) (hij : j ≠ i) (hitem : mq'.items j = mq.items j)
    (hsz : mq'.itemSz = mq.itemSz)
    (hbuf : ∀ k, k < i * mq.itemSz ∨ i * mq.itemSz + mq.itemSz ≤ k → mq'.buf k = mq.buf k) :
    mq'.content j = mq.content j := by
  have hjlt : j < mq.numItems := (h.all j).mp (by
    simp only [List.mem_append] at hj ⊢
    tauto)
  have hlen := h.len j hj
  simp only [content, getBuf, hitem, hsz, h.id j hjlt]
  refine bytesAt_congr fun k hk hk' => hbuf k ?_
  -- the regions of two items do not meet
  rcases Nat.lt_or_gt_of_ne hij with hlt | hlt
  · left
    have := Nat.mul_le_mul_right mq.itemSz (Nat.succ_le_of_lt hlt)
    rw [Nat.succ_mul] at this
    omega
  · right
    have := Nat.mul_le_mul_right mq.itemSz (Nat.succ_le_of_lt hlt)
    rw [Nat.succ_mul] at this
    omega

/-- An item leaves one list and enters another, the state field with it; the
other fields of other items are untouched. -/
theorem Inv.move {mq' : MsgQueue} (h : mq.Inv) {i : Nat} {k : MsgItemState}
    (hnum : mq'.numItems = mq.numItems) (hsz : mq'.itemSz = mq.itemSz)
    (hperm : (mq'.freeList ++ mq'.filledList ++ mq'.readList).Perm
      (mq.freeList ++ mq.filledList ++ mq.readList))
    (hmem : ∀ st j, j ∈ mq'.listOf st → if j = i then st = k else j ∈ mq.listOf st)
    (hstate : (mq'.items i).state = k) (hid : (mq'.items i).id = (mq.items i).id)
    (hlen : k ≠ .free → (mq'.items i).len ≤ mq.itemSz ∧ (mq'.items i).numHandles = 0)
    (hother : ∀ j, j ≠ i → mq'.items j = mq.items j) : mq'.Inv := by
  -- a filled or read item other than `i` was one before
  have hused : ∀ j ∈ mq'.filledList ++ mq'.readList,
      (j = i ∧ k ≠ .free) ∨ (j ≠ i ∧ j ∈ mq.filledList ++ mq.readList) := by
    intro j hj
    rcases List.mem_append.mp hj with hj | hj
    · have := hmem .filled j hj
      by_cases hji : j = i
      · rw [if_pos hji] at this
        exact Or.inl ⟨hji, this ▸ nofun⟩
      · rw [if_neg hji] at this
        exact Or.inr ⟨hji, List.mem_append_left _ this⟩
    · have := hmem .read j hj
      by_cases hji : j = i
      · rw [if_pos hji] at this
        exact Or.inl ⟨hji, this ▸ nofun⟩
      · rw [if_neg hji] at this
        exact Or.inr ⟨hji, List.mem_append_right _ this⟩
  refine ⟨hperm.nodup_iff.mpr h.nodup, fun j => ?_, fun st j hj => ?_, fun j hj => ?_,
    fun j hj => ?_, fun j hj => ?_⟩
  · rw [hperm.mem_iff, h.all, hnum]
  · have := hmem st j hj
    by_cases hji : j = i
    · rw [if_pos hji] at this
      rw [hji, hstate, this]
    · rw [if_neg hji] at this
      rw [hother j hji]
      exact h.state st j this
  · rw [hnum] at hj
    by_cases hji : j = i
    · rw [hji, hid]
      exact h.id i (hji ▸ hj)
    · rw [hother j hji]
      exact h.id j hj
  · rw [hsz]
    rcases hused j hj with ⟨rfl, hst⟩ | ⟨hji, hj⟩
    · exact (hlen hst).1
    · rw [hother j hji]
      exact h.len j hj
  · rcases hused j hj with ⟨rfl, hst⟩ | ⟨hji, hj⟩
    · exact (hlen hst).2
    · rw [hother j hji]
      exact h.numHandles j hj

/-- The head of the free list is in no other place. -/
theorem Inv.free_head (h : mq.Inv) {i : Nat} {rest : List Nat} (hfree : mq.freeList = i :: rest) :
    i ∉ rest ∧ i ∉ mq.filledList ∧ i ∉ mq.readList := by
  have := h.nodup
  rw [hfree] at this
  simp only [List.cons_append, List.nodup_cons, List.mem_append, not_or] at this
  exact ⟨this.1.1.1, this.1.1.2, this.1.2⟩

/-- Sending through the head of the free list: either nothing happens to the
mailbox, or the front of the payload, as much as an item holds, is sent. -/
theorem Inv.fill (h : mq.Inv) {i : Nat} {rest : List Nat} (hfree : mq.freeList = i :: rest)
    (msg : MsgDesc) :
    (mq.fill i msg).2.Inv ∧
      (((mq.fill i msg).1 < 0 ∧ (mq.fill i msg).2.mailbox = mq.mailbox) ∨
        ((mq.fill i msg).1 = ((payload msg).take mq.itemSz).length ∧
          (mq.fill i msg).2.mailbox = { mq.mailbox with
            waiting := mq.mailbox.waiting ++ [(payload msg).take mq.itemSz] })) := by
  obtain ⟨hrest, hfilled, hread⟩ := h.free_head hfree
  have hilt : i < mq.numItems := h.lt_numItems (k := .free) (by simp [listOf, hfree])
  have hpos : (mq.setItem i fun item => { item with numHandles := 0, len := 0 }).getBuf i =
      i * mq.itemSz := by simp [getBuf, setItem, h.id i hilt]
  have hcopy := copyIn_spec mq.buf (i * mq.itemSz) mq.itemSz msg
  have hfree' : (mq.items i).state = .free := h.state .free i (by simp [listOf, hfree])
  -- the other messages are outside the item
  have hcontent : ∀ mq' : MsgQueue, mq'.itemSz = mq.itemSz →
      mq'.buf = (copyIn mq.buf (i * mq.itemSz) mq.itemSz msg).2 →
      (∀ j, j ≠ i → mq'.items j = mq.items j) →
      mq.filledList.map mq'.content = mq.filledList.map mq.content ∧
        (mq.readList.map fun j => (j, mq'.content j)) = mq.readList.map fun j => (j, mq.content j) := by
    intro mq' hsz hbuf hitems
    have hc : ∀ j ∈ mq.filledList ++ mq.readList, mq'.content j = mq.content j := fun j hj => by
      have hji : j ≠ i := by
        rintro rfl
        exact (List.mem_append.mp hj).elim hfilled hread
      exact h.content_congr hj hji (hitems j hji) hsz (fun k hk => hbuf ▸ hcopy.outside k hk)
    exact ⟨List.map_congr_left fun j hj => hc j (List.mem_append_left _ hj),
      List.map_congr_left fun j hj => by rw [hc j (List.mem_append_right _ hj)]⟩
  unfold MsgQueue.fill
  simp only [hpos]
  by_cases hneg : (copyIn mq.buf (i * mq.itemSz) mq.itemSz msg).1 < 0
  · simp only [setItem, hneg, if_true, true_and]
    obtain ⟨hw, hh⟩ := hcontent { (mq.setItem i fun item => { item with numHandles := 0, len := 0 })
      with buf := (copyIn mq.buf (i * mq.itemSz) mq.itemSz msg).2 } rfl rfl
      (fun j hj => Function.update_of_ne hj _ _)
    refine ⟨?_, Or.inl ?_⟩
    · refine h.move (i := i) (k := .free) rfl rfl (List.Perm.refl _) (fun st j hj => ?_) ?_ ?_
        nofun (fun j hj => Function.update_of_ne hj _ _)
      · by_cases hji : j = i
        · rw [if_pos hji]
          have := h.state st j hj
          rw [hji, hfree'] at this
          exact this.symm
        · rw [if_neg hji]
          exact hj
      · simpa using hfree'
      · simp
    · simp only [mailbox, Mailbox.mk.injEq, true_and]
      exact ⟨hw, hh⟩
  · have hlen := hcopy.ret (Int.not_lt.mp hneg)
    rw [Nat.zero_add] at hlen
    simp only [setItem, hneg, if_false, Function.update_self, Function.update_idem, listDelete,
      hfree, List.erase_cons_head, List.erase_of_not_mem hfilled, List.erase_of_not_mem hread]
    obtain ⟨hw, hh⟩ := hcontent
      { mq with
        freeList := rest
        filledList := mq.filledList ++ [i]
        buf := (copyIn mq.buf (i * mq.itemSz) mq.itemSz msg).2
        items := Function.update mq.items i { mq.items i with
          state := .filled, numHandles := 0,
          len := (copyIn mq.buf (i * mq.itemSz) mq.itemSz msg).1.toNat } } rfl rfl
      (fun j hj => Function.update_of_ne hj _ _)
    refine ⟨?_, Or.inr ⟨?_, ?_⟩⟩
    · refine h.move (i := i) (k := .filled) rfl rfl ?_ (fun st j hj => ?_) ?_ ?_ (fun _ => ?_)
        (fun j hj => Function.update_of_ne hj _ _)
      · rw [List.perm_iff_count]
        intro a
        simp only [hfree, List.count_append, List.count_cons, List.count_nil]
        omega
      · by_cases hji : j = i
        · rw [if_pos hji]
          cases st with
          | free => exact absurd (hji ▸ hj) hrest
          | filled => rfl
          | read => exact absurd (hji ▸ hj) hread
        · rw [if_neg hji]
          cases st with
          | free =>
              rw [listOf, hfree]
              exact List.mem_cons_of_mem _ hj
          | filled => exact (List.mem_append.mp hj).resolve_right (by simpa using hji)
          | read => exact hj
      · simp
      · simp
      · simp only [Function.update_self, and_true, List.length_take] at hlen ⊢
        omega
    · rw [Int.toNat_of_nonneg (Int.not_lt.mp hneg), hlen]
    · simp only [mailbox, Mailbox.mk.injEq, true_and, List.map_append, List.map_singleton]
      refine ⟨?_, hh⟩
      have hnew : ∀ mq' : MsgQueue, mq'.getBuf i = i * mq.itemSz →
          mq'.buf = (copyIn mq.buf (i * mq.itemSz) mq.itemSz msg).2 →
          (mq'.items i).len = ((payload msg).take mq.itemSz).length →
          mq'.content i = (payload msg).take mq.itemSz := by
        intro mq' hgb hbuf hl
        rw [content, hgb, hbuf, hl, hcopy.stored (Int.not_lt.mp hneg), bytesAt_write]
      rw [hw, hnew _ (by simp [getBuf, h.id i hilt]) rfl
        (by simp only [Function.update_self, hlen]; rfl)]

/-- Moving items between the lists leaves the messages alone. -/
theorem mailbox_eq {mq' : MsgQueue} (hnum : mq'.numItems = mq.numItems)
    (hsz : mq'.itemSz = mq.itemSz) (hbuf : mq'.buf = mq.buf)
    (hitems : ∀ j, (mq'.items j).id = (mq.items j).id ∧ (mq'.items j).len = (mq.items j).len) :
    mq'.mailbox = ⟨mq.numItems, mq'.filledList.map mq.content,
      mq'.readList.map fun i => (i, mq.content i)⟩ := by
  have hcontent : mq'.content = mq.content := by
    funext j
    simp only [content, getBuf, hsz, hbuf, (hitems j).1, (hitems j).2]
  rw [mailbox, hnum, hcontent]

/-- The head of the filled list is in no other place. -/
theorem Inv.filled_head (h : mq.Inv) {i : Nat} {rest : List Nat}
    (hfilled : mq.filledList = i :: rest) :
    i ∉ mq.freeList ∧ i ∉ rest ∧ i ∉ mq.readList := by
  have hperm : (i :: (mq.freeList ++ rest ++ mq.readList)).Nodup := by
    refine (List.Perm.nodup_iff ?_).mp h.nodup
    rw [hfilled, List.perm_iff_count]
    intro a
    simp only [List.count_append, List.count_cons]
    omega
  simp only [List.nodup_cons, List.mem_append, not_or] at hperm
  exact ⟨hperm.1.1.1, hperm.1.1.2, hperm.1.2⟩

/-- Obtaining a message: the oldest one, under the identifier of its item. -/
theorem Inv.getFilled (h : mq.Inv) (hsz : mq.itemSz < 2 ^ 32) :
    match mq.peekNextFilled, mq.getFilled with
    | none, none => mq.mailbox.waiting = []
    | some info, some mq' => mq'.Inv ∧
        ∃ m rest, mq.mailbox.waiting = m :: rest ∧ info.len.toNat = m.length ∧
          mq.mailbox.look info.id.toNat = none ∧
          mq'.mailbox = { mq.mailbox with
            waiting := rest, held := mq.mailbox.held ++ [(info.id.toNat, m)] }
    | _, _ => False := by
  cases hfilled : mq.filledList with
  | nil => simp [MsgQueue.peekNextFilled, MsgQueue.getFilled, hfilled, mailbox]
  | cons i rest =>
      obtain ⟨hfree, hrest, hread⟩ := h.filled_head hfilled
      have hst : (mq.items i).state = .filled := h.state .filled i (by simp [listOf, hfilled])
      have hilt : i < mq.numItems := h.lt_numItems (k := .filled) (by simp [listOf, hfilled])
      have hlen : (mq.items i).len ≤ mq.itemSz := h.len i (by simp [hfilled])
      have hid : (mq.items i).id.toUInt32.toNat = i := by simpa using h.id i hilt
      simp only [MsgQueue.peekNextFilled, MsgQueue.getFilled, hfilled, setItem, listDelete,
        List.erase_cons_head, List.erase_of_not_mem hfree, List.erase_of_not_mem hread]
      refine ⟨?_, mq.content i, rest.map mq.content, ?_, ?_, ?_, ?_⟩
      · refine h.move (i := i) (k := .read) rfl rfl ?_ (fun st j hj => ?_) ?_ ?_ (fun _ => ?_)
          (fun j hj => Function.update_of_ne hj _ _)
        · rw [List.perm_iff_count]
          intro a
          simp only [hfilled, List.count_append, List.count_cons, List.count_nil]
          omega
        · by_cases hji : j = i
          · rw [if_pos hji]
            cases st with
            | free => exact absurd (hji ▸ hj) hfree
            | filled => exact absurd (hji ▸ hj) hrest
            | read => rfl
          · rw [if_neg hji]
            cases st with
            | free => exact hj
            | filled =>
                rw [listOf, hfilled]
                exact List.mem_cons_of_mem _ hj
            | read => exact (List.mem_append.mp hj).resolve_right (by simpa using hji)
        · simp
        · simp
        · simp only [Function.update_self]
          exact ⟨hlen, h.numHandles i (by simp [hfilled])⟩
      · simp [mailbox, hfilled]
      · simp only [content, length_bytesAt, UInt32.toNat_ofNat']
        exact Nat.mod_eq_of_lt (Nat.lt_of_le_of_lt hlen hsz)
      · rw [hid, h.look hilt, hst]
        rfl
      · refine Eq.trans (@mailbox_eq mq _ ?_ ?_ ?_ fun j => ?_) ?_
        · rfl
        · rfl
        · rfl
        · by_cases hji : j = i <;> simp [hji]
        · simp [mailbox, hid]

/-- Retiring a message: it succeeds on exactly the identifiers held. -/
theorem Inv.putRead (h : mq.Inv) (msgId : UInt32) :
    match mq.putRead msgId with
    | none => mq.mailbox.look msgId.toNat = none
    | some mq' => mq'.Inv ∧ (mq.mailbox.look msgId.toNat).isSome ∧
        mq'.mailbox = { mq.mailbox with
          held := mq.mailbox.held.filter (fun x => x.1 != msgId.toNat) } := by
  by_cases hlt : msgId.toNat < mq.numItems
  · have hlook := h.look hlt
    by_cases hst : (mq.items msgId.toNat).state = .read
    · have hread : msgId.toNat ∈ mq.readList := (h.mem_listOf (k := .read) hlt).mpr hst
      have hnotin : ∀ st, st ≠ .read → msgId.toNat ∉ mq.listOf st := fun st hne hmem =>
        hne (((h.mem_listOf hlt).mp hmem).symm.trans hst)
      have hfree : msgId.toNat ∉ mq.freeList := hnotin .free nofun
      have hfilled : msgId.toNat ∉ mq.filledList := hnotin .filled nofun
      have hnd : mq.readList.Nodup := (List.nodup_append.mp h.nodup).2.1
      simp only [MsgQueue.putRead, getItem, hlt, if_true, hst, ne_eq, not_true, if_false, setItem,
        listDelete, List.erase_of_not_mem hfree, List.erase_of_not_mem hfilled]
      refine ⟨?_, by simp [hlook, hst], ?_⟩
      · refine h.move (i := msgId.toNat) (k := .free) rfl rfl ?_ (fun st j hj => ?_) ?_ ?_ nofun
          (fun j hj => Function.update_of_ne hj _ _)
        · refine List.perm_iff_count.mpr fun a => ?_
          have hpos : 0 < mq.readList.count msgId.toNat := List.count_pos_iff.mpr hread
          by_cases ha : msgId.toNat = a
          · subst ha
            simp only [List.count_append, List.count_cons_self, List.count_erase_self]
            omega
          · simp only [List.count_append, List.count_cons_of_ne ha,
              List.count_erase_of_ne (Ne.symm ha)]
        · by_cases hji : j = msgId.toNat
          · rw [if_pos hji]
            cases st with
            | free => rfl
            | filled => exact absurd (hji ▸ hj) hfilled
            | read => exact absurd (hji ▸ hj) hnd.not_mem_erase
          · rw [if_neg hji]
            cases st with
            | free => exact (List.mem_cons.mp hj).resolve_left hji
            | filled => exact hj
            | read => exact List.mem_of_mem_erase hj
        · simp
        · simp
      · refine Eq.trans (@mailbox_eq mq _ ?_ ?_ ?_ fun j => ?_) ?_
        · rfl
        · rfl
        · rfl
        · by_cases hji : j = msgId.toNat <;> simp [hji]
        · simp only [mailbox, List.filter_map, hnd.erase_eq_filter]
          rfl
    · simp [MsgQueue.putRead, getItem, hlt, hst, hlook]
  · simp only [MsgQueue.putRead, getItem, hlt, if_false]
    exact h.look_eq_none (Nat.not_lt.mp hlt)

/-- Reading a message: what is held under the identifier, from `offset` on,
goes through the descriptor; the mailbox does not change. -/
theorem Inv.read (h : mq.Inv) (msgId offset : UInt32) (msg : MsgDesc) :
    mq.read msgId offset msg =
      match mq.mailbox.look msgId.toNat with
      | none => (errInvalidArgs, [])
      | some m =>
          if m.length < offset.toNat then (errInvalidArgs, [])
          else copyOut (m.drop offset.toNat) msg := by
  by_cases hlt : msgId.toNat < mq.numItems
  · rw [h.look hlt]
    by_cases hst : (mq.items msgId.toNat).state = .read
    · have hnum : (mq.items msgId.toNat).numHandles = 0 :=
        h.numHandles _ (List.mem_append_right _ ((h.mem_listOf (k := .read) hlt).mpr hst))
      have hdrop : (mq.content msgId.toNat).drop offset.toNat =
          Ipc.bytesAt mq.buf (mq.getBuf msgId.toNat + offset.toNat)
            ((mq.items msgId.toNat).len - offset.toNat) := by
        refine List.ext_getElem (by simp [content]) fun k _ _ => ?_
        simp [content, Ipc.bytesAt, Nat.add_assoc]
      have hlen : (mq.content msgId.toNat).length = (mq.items msgId.toNat).len := length_bytesAt ..
      simp only [MsgQueue.read, getItem, hlt, if_true, hst, ne_eq, not_true, if_false, hnum, hdrop,
        hlen]
    · simp [MsgQueue.read, getItem, hlt, hst]
  · rw [h.look_eq_none (Nat.not_lt.mp hlt)]
    simp [MsgQueue.read, getItem, hlt]

end MsgQueue

end TX2SecureUart.Ipc
