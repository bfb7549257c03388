/-
# `Tipc.Endpoints` — the endpoints of the device, whatever its threads do

Two threads share the table of endpoints, the cookies of the channels and the list of handles.
The RX thread binds a channel to a slot while it holds the lock; it sets the cookie and lists the
channel after that.  The TX thread takes a channel from the list, and by the time that it hangs
up, the RX thread may have dropped it.  The reset stops the RX thread and drops all channels.

In between the IPC layer does what it does for other threads.  It makes channels, and gives none
of them the number of an older one.
-/
import TX2SecureUart.Ipc.Pending
import TX2SecureUart.Lib.Machine
import TX2SecureUart.Tipc.RxMsg
import TX2SecureUart.Tipc.TxMsg

namespace TX2SecureUart.Tipc

open Prog Ipc

variable (w : World)

/-! ## The functions -/

/-- `handle_conn_req`, up to the release of the lock: the result of the connect, and the address
and the channel if it is still open. -/
def startConnReq (remote : UInt32) (off : Nat) : TipcM (Int × UInt32 × Option ChanId) := do
  let name ← strncpy w off sizeofTipcConnReqBody
  let s ← get
  let r ← Tipc.onReg (ipcPortConnectAsync w.env s.dev.guest s.dev.uuid name sizeofTipcConnReqBody 0)
  let b ← bindChan remote (if r.1 = noError then r.2 else none)
  pure (r.1, b)

theorem handleConnReq_eq (remote : UInt32) (off : Nat) :
    handleConnReq w remote off = (do
      let r ← startConnReq w remote off
      finishConnReq w remote r.2.1 r.1 r.2.2) := by
  simp only [startConnReq, bind_assoc, pure_bind]
  rfl

/-- `handle_set_cookie(chan, lookup_ept(dev, local))` in `handle_conn_req` -/
def nameChan (c : ChanId) (localAddr : UInt32) : TipcM Unit := do
  let s ← get
  handleSetCookie c (s.dev.lookupEpt localAddr)

theorem finishConnReq_some (remote localAddr : UInt32) (err : Int) (c : ChanId) :
    finishConnReq w remote localAddr err (some c) = (do
      nameChan c localAddr
      handleListAdd c
      pure noError) := by
  simp only [nameChan, bind_assoc]
  rfl

/-- `sizeof(msg)` in `send_disc_req` -/
def sizeofDiscReq : Nat := 12

/-- `send_disc_req`; the remote address is in the message. -/
def sendDiscReq (localAddr : UInt32) : TipcM Int :=
  tipcSendBuf w localAddr tipcCtrlAddr (UInt16.ofNat sizeofDiscReq) true

/-- The channel of an endpoint is closed, and its address freed. -/
def closeEpt (slot : Nat) : Option ChanId → TipcM Unit
  | none => pure ()
  | some c => do
      dropChan (some c)
      freeLocalAddr (slotToAddr slot)

/-- The part of `handle_hup` that holds the lock: the address that was given back. -/
def hangUp (c : ChanId) : TipcM (Option UInt32) := do
  let ept ← handleGetCookie c
  match ept with
  | none => pure none
  | some slot => do
      closeEpt slot (some c)
      pure (some (slotToAddr slot))

def sendDisc : Option UInt32 → TipcM Unit
  | none => pure ()
  | some localAddr => do
      let _ ← sendDiscReq w localAddr

/-- `handle_hup` -/
def handleHup (c : ChanId) : TipcM Unit := do
  let localAddr ← hangUp c
  sendDisc w localAddr

/-- `handle_ready` -/
def handleReady (c : ChanId) : TipcM Unit := do
  let ept ← handleGetCookie c
  match ept with
  | none => pure ()
  | some slot => do
      let s ← get
      let _ ← sendConnRsp w (slotToAddr slot) (s.dev.epts slot).remote 0

/-- A pass of the loop of `tipc_dev_reset` -/
def resetSlot (slot : Nat) : TipcM Unit := do
  let s ← get
  if s.dev.inuse slot = false then pure ()
  else closeEpt slot (s.dev.epts slot).chan

/-- The part of `tipc_dev_reset` that closes all channels -/
def closeAll : TipcM Unit := (List.range tipcAddrMaxNum).forM resetSlot

/-! ## The table -/

/-- A channel that the RX thread is about to list. -/
structure Half where
  chan : ChanId
  localAddr : UInt32
  /-- Its cookie is set. -/
  named : Bool
deriving DecidableEq

/-- Slots, cookies and the list agree: a slot is in use when it has a channel, no channel has two
slots, the cookie of a channel leads to its slot, and all of them are listed, but for the one
that the RX thread is at. -/
structure Table (dev : TipcDev) (cookie : ChanId → Option Nat) (next : Nat)
    (half : Option Half) : Prop where
  below : ∀ slot, dev.inuse slot = true → slot < tipcAddrMaxNum
  inuse : ∀ slot, dev.inuse slot = true ↔ ∃ c, (dev.epts slot).chan = some c
  one : ∀ i j c, (dev.epts i).chan = some c → (dev.epts j).chan = some c → i = j
  cookies : ∀ c slot, cookie c = some slot ↔
    (dev.epts slot).chan = some c ∧ ∀ h, half = some h → h.chan = c → h.named = true
  listed : ∀ c, c ∈ dev.handleList ↔
    ∃ slot, (dev.epts slot).chan = some c ∧ ∀ h, half = some h → h.chan ≠ c
  bound : ∀ h, half = some h → ∃ slot, h.localAddr = slotToAddr slot ∧
    (dev.epts slot).chan = some h.chan
  nodup : dev.handleList.Nodup
  young : ∀ slot c, (dev.epts slot).chan = some c → c < next

variable {w} {s t : TipcState} {dev : TipcDev} {k : ChanId → Option Nat} {next slot : Nat}
  {half : Option Half} {c : ChanId} {remote localAddr : UInt32}

theorem Table.mono (h : Table dev k next half) {later : Nat} (hle : next ≤ later) :
    Table dev k later half :=
  { h with young := fun slot c hc => Nat.lt_of_lt_of_le (h.young slot c hc) hle }

theorem addrToSlot_slotToAddr (hslot : slot < tipcAddrMaxNum) :
    (addrToSlot (slotToAddr slot)).toNat = slot := by
  rw [addrToSlot, slotToAddr, UInt32.add_sub_cancel]
  exact UInt32.toNat_ofNat_of_lt' (Nat.lt_trans hslot (by decide))

/-- No slot has the address that stands for none. -/
theorem slotToAddr_ne_zero (hslot : slot < tipcAddrMaxNum) : slotToAddr slot ≠ 0 := by
  intro h
  have hadd : slot + 1000 < 2 ^ 32 := Nat.lt_trans (Nat.add_lt_add_right hslot 1000) (by decide)
  have hnat := congrArg UInt32.toNat h
  rw [slotToAddr, UInt32.toNat_add, UInt32.toNat_ofNat_of_lt' (Nat.lt_trans hslot (by decide))] at hnat
  change (slot + 1000) % 2 ^ 32 = 0 at hnat
  rw [Nat.mod_eq_of_lt hadd] at hnat
  cases hnat

theorem bitmapFfz_some {inuse : Nat → Bool} (h : bitmapFfz inuse = some slot) :
    slot < tipcAddrMaxNum ∧ inuse slot = false := by
  have hfree := List.find?_some h
  exact ⟨List.mem_range.mp (List.mem_of_find?_eq_some h), by simpa using hfree⟩

/-! ## Steps of the table -/

/-- A slot that is given to a new channel. -/
def TipcDev.bind (dev : TipcDev) (slot : Nat) (remote : UInt32) (c : ChanId) : TipcDev :=
  { dev with
    inuse := Function.update dev.inuse slot true
    epts := Function.update dev.epts slot ⟨remote, some c⟩ }

/-- A slot that is given back. -/
def TipcDev.free (dev : TipcDev) (slot : Nat) : TipcDev :=
  { dev with
    inuse := Function.update dev.inuse slot false
    epts := Function.update dev.epts slot ⟨0, none⟩ }

def TipcDev.setList (dev : TipcDev) (l : List ChanId) : TipcDev :=
  { dev with handleList := l }

theorem chan_bind (i : Nat) : ((dev.bind slot remote c).epts i).chan =
    if i = slot then some c else (dev.epts i).chan := by
  show (Function.update dev.epts slot ⟨remote, some c⟩ i).chan = _
  rw [Function.update_apply]
  split <;> rfl

theorem chan_free (i : Nat) : ((dev.free slot).epts i).chan =
    if i = slot then none else (dev.epts i).chan := by
  show (Function.update dev.epts slot ⟨0, none⟩ i).chan = _
  rw [Function.update_apply]
  split <;> rfl

theorem inuse_bind (i : Nat) : (dev.bind slot remote c).inuse i =
    if i = slot then true else dev.inuse i :=
  Function.update_apply dev.inuse slot true i

theorem inuse_free (i : Nat) : (dev.free slot).inuse i =
    if i = slot then false else dev.inuse i :=
  Function.update_apply dev.inuse slot false i

variable (remote) in
/-- A new channel is bound to a free slot. -/
theorem Table.bind (h : Table dev k next none) (hslot : slot < tipcAddrMaxNum)
    (hfree : dev.inuse slot = false) {later : Nat} (hnew : next ≤ c) (hlater : c < later) :
    Table (dev.bind slot remote c) k later (some ⟨c, slotToAddr slot, false⟩) := by
  have hnone : ∀ d, (dev.epts slot).chan ≠ some d := by
    intro d hd
    have huse := (h.inuse slot).mpr ⟨d, hd⟩
    rw [hfree] at huse
    cases huse
  have hold : ∀ i, (dev.epts i).chan ≠ some c := fun i hi =>
    absurd (h.young i c hi) (Nat.not_lt.mpr hnew)
  have hchan : ∀ i d, ((dev.bind slot remote c).epts i).chan = some d ↔
      i = slot ∧ d = c ∨ d ≠ c ∧ (dev.epts i).chan = some d := by
    intro i d
    rw [chan_bind]
    split
    · next hi =>
        constructor
        · intro hd
          exact Or.inl ⟨hi, (Option.some.inj hd).symm⟩
        · rintro (⟨-, hd⟩ | ⟨-, hd⟩)
          · rw [hd]
          · exact absurd (hi ▸ hd) (hnone d)
    · next hi =>
        constructor
        · intro hd
          exact Or.inr ⟨fun hdc => hold i (hdc ▸ hd), hd⟩
        · rintro (⟨his, -⟩ | ⟨-, hd⟩)
          · exact absurd his hi
          · exact hd
  refine
    { below := fun i hi => ?_
      inuse := fun i => ?_
      one := fun i j d hi hj => ?_
      cookies := fun d i => ?_
      listed := fun d => ?_
      bound := fun x hx => ?_
      nodup := h.nodup
      young := fun i d hd => ?_ }
  · rw [inuse_bind] at hi
    split at hi
    · next his => exact his ▸ hslot
    · exact h.below i hi
  · rw [inuse_bind, chan_bind]
    split
    · exact iff_of_true rfl ⟨c, rfl⟩
    · exact h.inuse i
  · rcases (hchan i d).mp hi with ⟨rfl, rfl⟩ | ⟨hne, hi⟩
    · rcases (hchan j d).mp hj with ⟨rfl, -⟩ | ⟨hne, -⟩
      · rfl
      · exact absurd rfl hne
    · rcases (hchan j d).mp hj with ⟨-, hd⟩ | ⟨-, hj⟩
      · exact absurd hd hne
      · exact h.one i j d hi hj
  · rw [h.cookies d i, hchan i d]
    constructor
    · rintro ⟨hd, -⟩
      have hne : d ≠ c := fun hdc => hold i (hdc ▸ hd)
      refine ⟨Or.inr ⟨hne, hd⟩, ?_⟩
      intro x hx hxd
      obtain rfl := Option.some.inj hx
      exact absurd hxd.symm hne
    · rintro ⟨hd, hnamed⟩
      rcases hd with ⟨-, rfl⟩ | ⟨-, hd⟩
      · cases hnamed _ rfl rfl
      · exact ⟨hd, fun x hx => by cases hx⟩
  · rw [show (dev.bind slot remote c).handleList = dev.handleList from rfl, h.listed d]
    constructor
    · rintro ⟨i, hd, -⟩
      have hne : d ≠ c := fun hdc => hold i (hdc ▸ hd)
      refine ⟨i, (hchan i d).mpr (Or.inr ⟨hne, hd⟩), ?_⟩
      intro x hx hxd
      obtain rfl := Option.some.inj hx
      exact hne hxd.symm
    · rintro ⟨i, hd, hhalf⟩
      rcases (hchan i d).mp hd with ⟨-, rfl⟩ | ⟨-, hd⟩
      · exact absurd rfl (hhalf _ rfl)
      · exact ⟨i, hd, fun x hx => by cases hx⟩
  · obtain rfl := Option.some.inj hx
    exact ⟨slot, rfl, (hchan slot c).mpr (Or.inl ⟨rfl, rfl⟩)⟩
  · rcases (hchan i d).mp hd with ⟨-, rfl⟩ | ⟨-, hd⟩
    · exact hlater
    · exact Nat.lt_trans (Nat.lt_of_lt_of_le (h.young i d hd) hnew) hlater

/-- The cookie of the new channel is set. -/
theorem Table.name (h : Table dev k next (some ⟨c, localAddr, false⟩)) :
    Table dev (Function.update k c (dev.lookupEpt localAddr)) next (some ⟨c, localAddr, true⟩) := by
  obtain ⟨slot, haddr, hchan⟩ := h.bound _ rfl
  have huse : dev.inuse slot = true := (h.inuse slot).mpr ⟨c, hchan⟩
  have hlook : dev.lookupEpt localAddr = some slot := by
    rw [TipcDev.lookupEpt, show localAddr = slotToAddr slot from haddr,
      addrToSlot_slotToAddr (h.below slot huse)]
    exact if_pos ⟨h.below slot huse, huse⟩
  refine
    { below := h.below, inuse := h.inuse, one := h.one, nodup := h.nodup, young := h.young
      cookies := fun d i => ?_
      listed := fun d => ?_
      bound := fun x hx => ?_ }
  · rw [hlook, Function.update_apply]
    split
    · next hd =>
        constructor
        · intro hi
          obtain rfl := Option.some.inj hi
          refine ⟨hd ▸ hchan, ?_⟩
          rintro x hx -
          exact Option.some.inj hx ▸ rfl
        · rintro ⟨hi, -⟩
          exact congrArg some (h.one slot i c hchan (hd ▸ hi))
    · next hd =>
        rw [h.cookies d i]
        refine and_congr_right fun _ => ?_
        constructor
        · intro _ x hx hxd
          exact Option.some.inj hx ▸ rfl
        · intro _ x hx hxd
          obtain rfl := Option.some.inj hx
          exact absurd hxd.symm hd
  · rw [h.listed d]
    refine exists_congr fun i => and_congr_right fun _ => ?_
    constructor
    · intro hne x hx
      have hcd : c ≠ d := hne ⟨c, localAddr, false⟩ rfl
      exact Option.some.inj hx ▸ hcd
    · intro hne x hx
      have hcd : c ≠ d := hne ⟨c, localAddr, true⟩ rfl
      exact Option.some.inj hx ▸ hcd
  · obtain rfl := Option.some.inj hx
    exact ⟨slot, haddr, hchan⟩

/-- The new channel is not listed yet. -/
theorem Table.unlisted (h : Table dev k next (some ⟨c, localAddr, true⟩)) : c ∉ dev.handleList := by
  intro hc
  obtain ⟨-, -, hne⟩ := (h.listed c).mp hc
  exact hne _ rfl rfl

/-- The new channel is listed. -/
theorem Table.list (h : Table dev k next (some ⟨c, localAddr, true⟩)) :
    Table (dev.setList (dev.handleList ++ [c])) k next none := by
  obtain ⟨slot, -, hchan⟩ := h.bound _ rfl
  refine
    { below := h.below, inuse := h.inuse, one := h.one, young := h.young
      cookies := fun d i => ?_
      listed := fun d => ?_
      bound := fun x hx => by cases hx
      nodup := ?_ }
  · refine (h.cookies d i).trans (and_congr_right fun _ => ?_)
    constructor
    · intro _ x hx
      cases hx
    · intro _ x hx _
      exact Option.some.inj hx ▸ rfl
  · show d ∈ dev.handleList ++ [c] ↔ _
    rw [List.mem_append, List.mem_singleton, h.listed d]
    constructor
    · rintro (⟨i, hi, -⟩ | rfl)
      · exact ⟨i, hi, fun x hx => by cases hx⟩
      · exact ⟨slot, hchan, fun x hx => by cases hx⟩
    · rintro ⟨i, hi, -⟩
      by_cases hd : d = c
      · exact Or.inr hd
      · refine Or.inl ⟨i, hi, ?_⟩
        intro x hx hxd
        obtain rfl := Option.some.inj hx
        exact hd hxd.symm
  · exact List.nodup_append.mpr ⟨h.nodup, List.nodup_singleton _, fun a ha b hb hab =>
      h.unlisted (by rw [← List.mem_singleton.mp hb, ← hab]; exact ha)⟩

/-- A listed channel is taken out of the table. -/
theorem Table.drop (h : Table dev k next half) (hchan : (dev.epts slot).chan = some c)
    (hhalf : ∀ x, half = some x → x.chan ≠ c) :
    Table ((dev.setList (dev.handleList.erase c)).free slot) (Function.update k c none) next half := by
  have hother : ∀ i d, (((dev.setList (dev.handleList.erase c)).free slot).epts i).chan = some d ↔
      d ≠ c ∧ (dev.epts i).chan = some d := by
    intro i d
    rw [chan_free]
    split
    · next hi =>
        constructor
        · intro hd
          cases hd
        · rintro ⟨hne, hd⟩
          exact absurd (Option.some.inj ((hi ▸ hd).symm.trans hchan)) hne
    · next hi =>
        constructor
        · intro hd
          exact ⟨fun hdc => hi (h.one i slot c (hdc ▸ hd) hchan), hd⟩
        · exact fun hd => hd.2
  refine
    { below := fun i hi => ?_
      inuse := fun i => ?_
      one := fun i j d hi hj => h.one i j d ((hother i d).mp hi).2 ((hother j d).mp hj).2
      cookies := fun d i => ?_
      listed := fun d => ?_
      bound := fun x hx => ?_
      nodup := h.nodup.erase c
      young := fun i d hd => h.young i d ((hother i d).mp hd).2 }
  · rw [inuse_free] at hi
    split at hi
    · cases hi
    · exact h.below i hi
  · rw [inuse_free, chan_free]
    split
    · refine iff_of_false (fun hf => by cases hf) ?_
      rintro ⟨d, hd⟩
      cases hd
    · exact h.inuse i
  · rw [Function.update_apply, hother i d]
    split
    · next hd =>
        constructor
        · intro hi
          cases hi
        · rintro ⟨⟨hne, -⟩, -⟩
          exact absurd hd hne
    · next hd =>
        rw [h.cookies d i]
        exact ⟨fun hi => ⟨⟨hd, hi.1⟩, hi.2⟩, fun hi => ⟨hi.1.2, hi.2⟩⟩
  · show d ∈ dev.handleList.erase c ↔ _
    rw [h.nodup.mem_erase_iff, h.listed d]
    constructor
    · rintro ⟨hne, i, hi, hx⟩
      exact ⟨i, (hother i d).mpr ⟨hne, hi⟩, hx⟩
    · rintro ⟨i, hi, hx⟩
      exact ⟨((hother i d).mp hi).1, i, ((hother i d).mp hi).2, hx⟩
  · obtain ⟨i, haddr, hi⟩ := h.bound x hx
    exact ⟨i, haddr, (hother i x.chan).mpr ⟨hhalf x hx, hi⟩⟩

/-! ## Programs that leave the table alone -/

/-- The device, the cookies, and a bound below the numbers that are left for channels. -/
structure Frame (dev : TipcDev) (k : ChanId → Option Nat) (next : Nat) (t : TipcState) : Prop where
  device : t.dev = dev
  cookie : t.cookie = k
  next : next ≤ t.reg.nextChan

/-- A stop of which the list of handles is not the reason. -/
def offList : Stop → TipcState → Prop := fun e _ => e ≠ .nullDeref

/-- The program has no part in the table. -/
def Leaves {α : Type} (m : TipcM α) : Prop :=
  ∀ dev k next s, Frame dev k next s → wp m (fun _ => Frame dev k next) offList s

section

variable {α β : Type} {m : TipcM α} {f : α → TipcM β}

theorem leaves_pure (a : α) : Leaves (pure a : TipcM α) := fun _ _ _ _ hs => hs

theorem leaves_throw {e : Stop} (he : e ≠ .nullDeref) : Leaves (throw e : TipcM α) :=
  fun _ _ _ _ _ => he

theorem Leaves.bind (hm : Leaves m) (hf : ∀ a, Leaves (f a)) : Leaves (m >>= f) := by
  intro dev k next s hs
  exact wp_seq (hm dev k next s hs) fun a t ht => hf a dev k next t ht

theorem leaves_get {g : TipcState → TipcM β} (hg : ∀ s, Leaves (g s)) : Leaves (get >>= g) := by
  intro dev k next s hs
  rw [wp_bind, wp_get]
  exact hg s dev k next s hs

theorem leaves_ite {p : Prop} [Decidable p] {n : TipcM α} (hm : Leaves m) (hn : Leaves n) :
    Leaves (if p then m else n) := by
  split
  · exact hm
  · exact hn

/-- A change of what is neither of the device nor of the channels. -/
theorem leaves_modify {g : TipcState → TipcState}
    (hg : ∀ s, (g s).dev = s.dev ∧ (g s).cookie = s.cookie ∧ (g s).reg = s.reg) :
    Leaves (modify g : TipcM PUnit) := by
  intro dev k next s hs
  obtain ⟨hdev, hcookie, hreg⟩ := hg s
  exact ⟨hdev.trans hs.device, hcookie.trans hs.cookie, hreg ▸ hs.next⟩

theorem leaves_onReg {m : IpcM α} (hm : ∀ r, Preserves (PendingSince r) m) :
    Leaves (Tipc.onReg m) := by
  intro dev k next s hs
  rw [Tipc.onReg, wp_embed]
  refine wp_mono (hm s.reg s.reg (.refl _)) ?_ ?_
  · intro a reg hreg
    exact ⟨hs.device, hs.cookie, Nat.le_trans hs.next hreg.next⟩
  · intro e reg _ he
    cases he

end

theorem leaves_record (e : TipcEvent) : Leaves (record e) := leaves_modify fun _ => ⟨rfl, rfl, rfl⟩

theorem leaves_setRegions (regions : List Region) : Leaves (setRegions regions) :=
  leaves_modify fun _ => ⟨rfl, rfl, rfl⟩

theorem leaves_fetchBytes (off len : Nat) : Leaves (fetchBytes w off len) := by
  intro dev k next s hs
  rw [fetchBytes, wp_bind, wp_get, wp_bind, wp_set]
  exact ⟨hs.device, hs.cookie, hs.next⟩

theorem leaves_fetch (off len : Nat) : Leaves (fetch w off len) :=
  (leaves_fetchBytes off len).bind fun _ => leaves_pure _

theorem leaves_strncpy (off n : Nat) : Leaves (strncpy w off n) := by
  induction n generalizing off with
  | zero => exact leaves_pure _
  | succ n ih =>
      refine (leaves_fetch off 1).bind fun b => leaves_ite (leaves_pure _) ?_
      exact (ih (off + 1)).bind fun _ => leaves_pure _

theorem leaves_getTxBuf (wait : Bool) (avail : List Avail) : Leaves (getTxBuf wait avail) := by
  induction avail with
  | nil => exact leaves_throw (by decide)
  | cons a rest ih =>
      cases a with
      | buf b => exact leaves_pure _
      | err ret txStop =>
          rw [getTxBuf]
          exact leaves_ite (leaves_pure _) (leaves_ite (leaves_pure _) ih)

theorem leaves_tipcSendData {src dst : UInt32} {cb : Nat → TipcM Int} {dataLen : UInt16}
    {wait : Bool} (hcb : ∀ n, Leaves (cb n)) : Leaves (tipcSendData w src dst cb dataLen wait) := by
  have hinto : ∀ sw b, Leaves (sendInto sw src dst dataLen cb b) := by
    intro sw b
    refine leaves_get fun s => (leaves_setRegions _).bind fun _ => leaves_ite (leaves_pure _) ?_
    refine Leaves.bind ?_ fun ret => leaves_get fun t => (leaves_setRegions _).bind fun _ => leaves_pure _
    exact (leaves_record _).bind fun _ => (hcb _).bind fun _ => leaves_pure _
  have hbuf : ∀ sw b, Leaves (sendBuf sw src dst dataLen cb b) := by
    intro sw b
    refine leaves_ite (leaves_pure _) (leaves_ite (leaves_pure _) ?_)
    exact (hinto sw b).bind fun _ => leaves_pure _
  intro dev k next s hs
  rw [tipcSendData, wp_bind, wp_get, wp_bind, wp_set, wp_bind]
  refine wp_conseq (leaves_getTxBuf wait _ dev k next _ ⟨hs.device, hs.cookie, hs.next⟩) ?_
  intro r t ht
  cases r with
  | error ret => exact ht
  | ok b => exact hbuf _ b dev k next t ht

theorem leaves_sendConnRsp (src dst : UInt32) (status : Int) :
    Leaves (sendConnRsp w src dst status) :=
  (leaves_record _).bind fun _ => leaves_tipcSendData fun _ => leaves_pure _

theorem leaves_sendDisc (o : Option UInt32) : Leaves (sendDisc w o) := by
  cases o with
  | none => exact leaves_pure _
  | some localAddr => exact (leaves_tipcSendData fun _ => leaves_pure _).bind fun _ => leaves_pure _

theorem leaves_handleGetCookie (c : ChanId) : Leaves (handleGetCookie c) :=
  (leaves_onReg fun _ => pending_getChan).bind fun _ => leaves_get fun _ => leaves_pure _

theorem leaves_handleReady (c : ChanId) : Leaves (handleReady w c) := by
  refine (leaves_handleGetCookie c).bind fun ept => ?_
  cases ept with
  | none => exact leaves_pure _
  | some slot => exact leaves_get fun _ => (leaves_sendConnRsp _ _ _).bind fun _ => leaves_pure _

theorem leaves_handleClose (c : ChanId) : Leaves (handleClose c) :=
  (leaves_onReg fun _ => pending_chanShutdownLocked).bind fun _ => leaves_onReg fun _ => pending_handleDecref

theorem pending_ipcSendMsg {r : Registry} {x : Option HandlePtr} (msg : Option MsgDesc) :
    Preserves (PendingSince r) (ipcSendMsg x msg) := by
  cases msg with
  | none => exact Preserves.pure _
  | some msg => exact pending_sendMsgLocked

theorem pending_ipcReadMsg {r : Registry} {x : Option HandlePtr} {msgId offset : UInt32}
    (msg : Option MsgDesc) : Preserves (PendingSince r) (ipcReadMsg x msgId offset msg) := by
  cases msg with
  | none => exact Preserves.pure _
  | some msg => exact pending_readMsgLocked

theorem leaves_handleChanMsg (localAddr : UInt32) (off len : Nat) :
    Leaves (handleChanMsg w remote localAddr off len) := by
  refine leaves_get fun s => ?_
  cases s.dev.chanOf localAddr remote with
  | none => exact leaves_pure _
  | some c =>
      refine (leaves_record _).bind fun _ => (leaves_fetchBytes off len).bind fun _ => ?_
      exact leaves_onReg fun _ => pending_ipcSendMsg _

/-- `ipc_get_msg` that succeeds has a message. -/
theorem wp_ipcGetMsg_some (x : Option HandlePtr) (s : Registry) :
    wp (ipcGetMsg x) (fun r _ => r.1 = noError → ∃ info, r.2 = some info) anyStop s := by
  unfold ipcGetMsg sysGetMsg
  cases checkChannelLocked x with
  | none => exact fun h => by cases h
  | some c =>
      refine wp_seq (wp_any (getQueue c) s) fun mq t _ => ?_
      cases mq.peekNextFilled with
      | none => exact fun h => by cases h
      | some info =>
          cases mq.getFilled with
          | none => trivial
          | some mq => exact wp_seq (wp_any _ t) fun _ _ _ _ => ⟨info, rfl⟩

theorem leaves_txDataCb (c : ChanId) (id : UInt32) (sz : Nat) : Leaves (txDataCb c id sz) := by
  refine (leaves_onReg fun _ => pending_ipcReadMsg _).bind fun r => ?_
  refine (leaves_onReg fun _ => pending_ipcPutMsg).bind fun ret => ?_
  exact (leaves_ite (leaves_record _) (leaves_pure _)).bind fun _ => leaves_pure _

theorem leaves_peerSends (c : ChanId) (r : Registry) (l : List MsgDesc) :
    Preserves (PendingSince r) (l.forM (peerSends c)) := by
  induction l with
  | nil => exact Preserves.pure _
  | cons msg rest ih =>
      refine Preserves.bind (Preserves.bind pending_getChan fun C => ?_) fun _ => ih
      cases C.peer with
      | none => exact Preserves.pure _
      | some d => exact Preserves.bind (pending_ipcSendMsg _) fun _ => Preserves.pure _

theorem leaves_txLoop (c : ChanId) (remote : UInt32) (fuel : Nat) :
    Leaves (txLoop w c remote fuel) := by
  induction fuel with
  | zero => exact leaves_throw (by decide)
  | succ fuel ih =>
      refine (leaves_get fun s => leaves_onReg fun r => leaves_peerSends c r _).bind fun _ => ?_
      intro dev k next s hs
      have hget := leaves_onReg (m := ipcGetMsg (some (.chan c))) (fun _ => pending_sysGetMsg) dev k next s hs
      have hsome : wp (Tipc.onReg (ipcGetMsg (some (.chan c))))
          (fun r _ => r.1 = noError → ∃ info, r.2 = some info) anyStop s := by
        rw [Tipc.onReg, wp_embed]
        exact wp_ipcGetMsg_some _ s.reg
      refine wp_seq (wp_mono (wp_and hget hsome) (fun _ _ h => h) fun _ _ h => h.1) ?_
      rintro r t ⟨ht, hr⟩
      refine leaves_ite (leaves_pure _) ?_ dev k next t ht
      by_cases hok : r.1 = noError
      · rw [if_neg (not_not.mpr hok)]
        obtain ⟨info, hinfo⟩ := hr hok
        rw [hinfo]
        refine (leaves_record _).bind fun _ => Leaves.bind ?_ fun _ => ih
        exact leaves_tipcSendData fun sz => leaves_txDataCb c info.id sz
      · rw [if_pos hok]
        exact leaves_throw (by decide)

theorem leaves_handleTxMsg (c : ChanId) (fuel : Nat) : Leaves (handleTxMsg w c fuel) := by
  refine (leaves_handleGetCookie c).bind fun ept => ?_
  cases ept with
  | none => exact leaves_pure _
  | some slot => exact leaves_get fun s => leaves_txLoop c _ fuel

/-! ## Programs that change the table -/

/-- The table in a state of the device. -/
def TipcState.Tabled (s : TipcState) (half : Option Half) : Prop :=
  Table s.dev s.cookie s.reg.nextChan half

theorem Frame.tabled (h : Frame dev k next t) (ht : Table dev k next half) : t.Tabled half := by
  rw [TipcState.Tabled, h.device, h.cookie]
  exact ht.mono h.next

theorem TipcState.frame (s : TipcState) : Frame s.dev s.cookie s.reg.nextChan s :=
  ⟨rfl, rfl, Nat.le_refl _⟩

/-- What has no part in the table keeps it. -/
theorem Leaves.tabled {α : Type} {m : TipcM α} (hm : Leaves m) (hs : s.Tabled half) :
    wp m (fun _ t => t.Tabled half ∧ s.reg.nextChan ≤ t.reg.nextChan) offList s :=
  wp_conseq (hm _ _ _ s s.frame) fun _ _ ht => ⟨ht.tabled hs, ht.next⟩

theorem Frame.wp_handleSetCookie (h : Frame dev k next s) (v : Option Nat) :
    wp (handleSetCookie c v) (fun _ => Frame dev (Function.update k c v) next) offList s := by
  refine wp_seq (leaves_onReg (fun _ => pending_getChan) dev k next s h) ?_
  intro _ t ht
  exact ⟨ht.device, by rw [← ht.cookie], ht.next⟩

theorem Frame.wp_handleListAdd (h : Frame dev k next s) (hc : c ∉ dev.handleList) :
    wp (handleListAdd c) (fun _ => Frame (dev.setList (dev.handleList ++ [c])) k next) offList s := by
  refine wp_seq (leaves_onReg (fun _ => pending_handleIncref) dev k next s h) ?_
  intro _ t ht
  rw [wp_bind, wp_get, ht.device, if_neg hc]
  exact ⟨by rw [← ht.device]; rfl, ht.cookie, ht.next⟩

/-- The handle is in the list from which it is deleted. -/
theorem Frame.wp_handleListDel (h : Frame dev k next s) (hc : c ∈ dev.handleList) :
    wp (handleListDel c) (fun _ => Frame (dev.setList (dev.handleList.erase c)) k next) offList s := by
  rw [handleListDel, wp_bind, wp_get, h.device, if_neg (not_not.mpr hc), wp_bind]
  exact leaves_onReg (fun _ => pending_handleDecref) _ k next _
    ⟨by rw [← h.device]; rfl, h.cookie, h.next⟩

theorem Frame.wp_freeLocalAddr (h : Frame dev k next s) (hslot : slot < tipcAddrMaxNum) :
    wp (freeLocalAddr (slotToAddr slot)) (fun _ => Frame (dev.free slot) k next) offList s := by
  rw [freeLocalAddr, wp_modify]
  dsimp only
  rw [addrToSlot_slotToAddr hslot, if_pos hslot]
  exact ⟨by rw [← h.device]; rfl, h.cookie, h.next⟩

theorem Frame.wp_dropChan (h : Frame dev k next s) (hc : c ∈ dev.handleList) :
    wp (dropChan (some c)) (fun _ => Frame (dev.setList (dev.handleList.erase c))
      (Function.update k c none) next) offList s := by
  refine wp_seq (h.wp_handleListDel hc) fun _ t hfr => ?_
  refine wp_seq (hfr.wp_handleSetCookie none) fun _ u hfr => ?_
  exact leaves_handleClose c _ _ next u hfr

/-- A listed channel and its slot are given up together. -/
theorem wp_closeEpt (ht : Table dev k next half) (h : Frame dev k next s)
    (hchan : (dev.epts slot).chan = some c) (hhalf : ∀ x, half = some x → x.chan ≠ c) :
    wp (closeEpt slot (some c)) (fun _ t => t.Tabled half ∧ next ≤ t.reg.nextChan)
      offList s := by
  have hc : c ∈ dev.handleList := (ht.listed c).mpr ⟨slot, hchan, hhalf⟩
  have hslot := ht.below slot ((ht.inuse slot).mpr ⟨c, hchan⟩)
  refine wp_seq (h.wp_dropChan hc) fun _ t hfr => ?_
  refine wp_conseq (hfr.wp_freeLocalAddr hslot) fun _ u hfr => ?_
  exact ⟨hfr.tabled (ht.drop hchan hhalf), hfr.next⟩

/-- A channel that hangs up may be gone by now; if it is not, it is listed. -/
theorem wp_hangUp (hs : s.Tabled half) (hhalf : ∀ x, half = some x → x.chan ≠ c) :
    wp (hangUp c) (fun _ t => t.Tabled half ∧ s.reg.nextChan ≤ t.reg.nextChan) offList s := by
  have hget : wp (handleGetCookie c) (fun ept t => ept = s.cookie c ∧
      Frame s.dev s.cookie s.reg.nextChan t) offList s := by
    refine wp_seq (leaves_onReg (fun _ => pending_getChan) _ _ _ s s.frame) fun _ t ht => ?_
    rw [wp_bind, wp_get]
    exact ⟨by rw [ht.cookie], ht⟩
  refine wp_seq hget ?_
  rintro ept t ⟨rfl, ht⟩
  cases hept : s.cookie c with
  | none => exact ⟨ht.tabled hs, ht.next⟩
  | some slot =>
      have hchan := ((hs.cookies c slot).mp hept).1
      refine wp_seq (wp_closeEpt hs ht hchan hhalf) ?_
      intro _ u hu
      exact hu

/-- A disconnect request drops the endpoint that it finds. -/
theorem wp_handleDiscReq (hs : s.Tabled none) (off : Nat) :
    wp (handleDiscReq w remote off) (fun _ t => t.Tabled none ∧ s.reg.nextChan ≤ t.reg.nextChan)
      offList s := by
  refine wp_seq (leaves_fetch off sizeofTipcDiscReqBody _ _ _ s s.frame) ?_
  intro target t ht
  rw [wp_bind, wp_get]
  cases hfind : t.dev.findEpt (UInt32.ofNat target) remote with
  | none => exact ⟨ht.tabled hs, ht.next⟩
  | some slot =>
      have huse : s.dev.inuse slot = true := by
        rw [ht.device] at hfind
        have hlook : ∀ {slot}, s.dev.lookupEpt (UInt32.ofNat target) = some slot →
            s.dev.inuse slot = true := by
          intro slot h
          rw [TipcDev.lookupEpt] at h
          split at h
          · next hin => exact Option.some.inj h ▸ hin.2
          · cases h
        have hsearch : ∀ {slot}, ((List.range tipcAddrMaxNum).find? fun slot =>
            s.dev.inuse slot && decide ((s.dev.epts slot).remote = remote)) = some slot →
            s.dev.inuse slot = true := by
          intro slot h
          exact (Bool.and_eq_true _ _ ▸ List.find?_some h : _ ∧ _).1
        rw [TipcDev.findEpt] at hfind
        cases hl : s.dev.lookupEpt (UInt32.ofNat target) with
        | none =>
            rw [hl] at hfind
            exact hsearch hfind
        | some i =>
            rw [hl] at hfind
            dsimp only at hfind
            split at hfind
            · exact Option.some.inj hfind ▸ hlook hl
            · exact hsearch hfind
      obtain ⟨c, hchan⟩ := (hs.inuse slot).mp huse
      have hdrop : wp (dropEpt (some slot))
          (fun _ u => u.Tabled none ∧ s.reg.nextChan ≤ u.reg.nextChan) offList t := by
        rw [dropEpt, wp_bind, wp_get, ht.device, hchan]
        exact wp_closeEpt hs ht hchan fun x hx => by cases hx
      exact wp_seq hdrop fun _ _ hu => hu

/-- The reset drops all. -/
theorem wp_closeAll (hs : s.Tabled none) :
    wp closeAll (fun _ t => t.Tabled none ∧ s.reg.nextChan ≤ t.reg.nextChan) offList s := by
  refine wp_forM (I := fun _ (t : TipcState) => t.Tabled none ∧ s.reg.nextChan ≤ t.reg.nextChan) ?_ _
    ⟨hs, Nat.le_refl _⟩
  rintro slot - t ⟨ht, hle⟩
  rw [resetSlot, wp_bind, wp_get]
  by_cases huse : t.dev.inuse slot = false
  · rw [if_pos huse]
    exact ⟨ht, hle⟩
  · rw [if_neg huse]
    obtain ⟨c, hchan⟩ := (ht.inuse slot).mp (by simpa using huse)
    rw [hchan]
    refine wp_conseq (wp_closeEpt ht t.frame hchan fun x hx => by cases hx) ?_
    intro _ u hu
    exact ⟨hu.1, Nat.le_trans hle hu.2⟩

/-! ## Connecting -/

/-- The channel of a connect is a new one. -/
theorem wp_ipcPortConnectAsync_new {env : Env} {guest : UInt32} {cid : Option Uuid} {path : Path}
    {maxPath : Nat} {flags : UInt32} (r : Registry) :
    wp (ipcPortConnectAsync env guest cid path maxPath flags)
      (fun o t => r.nextChan ≤ t.nextChan ∧
        ∀ c, o.2 = some c → r.nextChan ≤ c ∧ c < t.nextChan) anyStop r := by
  have hnone : r.nextChan ≤ r.nextChan ∧
      ∀ c, (none : Option ChanId) = some c → r.nextChan ≤ c ∧ c < r.nextChan :=
    ⟨Nat.le_refl _, fun c hc => by cases hc⟩
  simp only [ipcPortConnectAsync, wp_ite, wp_pure, wp_bind]
  split
  · exact hnone
  split
  · exact hnone
  simp only [chanAlloc, wp_ite, wp_pure, wp_bind, wp_get, wp_set]
  split
  · exact hnone
  generalize ht : Registry.setChan { r with nextChan := r.nextChan + 1 } r.nextChan
    (newChan 0 cid) = t
  have hnext : t.nextChan = r.nextChan + 1 := by
    rw [← ht]
    rfl
  have hguest : Preserves (PendingSince t) (modifyChan r.nextChan fun C =>
      { C with handle := { C.handle with guestId := guest } }) :=
    pending_modifyChan_same fun _ => rfl
  have hlt : ∀ u, PendingSince t u → r.nextChan < u.nextChan := fun u hu =>
    Nat.lt_of_lt_of_le (hnext ▸ Nat.lt_succ_self _) hu.next
  refine wp_conseq (pending_attachOrWait t (.refl t)) ?_
  intro ret u hu
  split
  · refine wp_seq (pending_chanDelRef u hu) fun _ v hv => ?_
    exact ⟨Nat.le_of_lt (hlt v hv), fun c hc => by cases hc⟩
  · refine wp_seq (pending_chanHandleInit u hu) fun _ v hv => ?_
    refine wp_seq (hguest v hv) fun _ w hw => ?_
    refine wp_seq (pending_chanDelRef w hw) fun _ z hz => ?_
    refine ⟨Nat.le_of_lt (hlt z hz), ?_⟩
    intro c hc
    obtain rfl := Option.some.inj hc
    exact ⟨Nat.le_refl _, hlt z hz⟩

/-- The channel of a request, if it stays open. -/
def newHalf (localAddr : UInt32) (o : Option ChanId) : Option Half :=
  o.map fun c => ⟨c, localAddr, false⟩

theorem wp_allocLocalAddr (remote : UInt32) (c : ChanId) (s : TipcState) :
    wp (allocLocalAddr remote c) (fun a t => a = 0 ∧ t = s ∨ ∃ slot, slot < tipcAddrMaxNum ∧
      s.dev.inuse slot = false ∧ a = slotToAddr slot ∧
        t = { s with dev := s.dev.bind slot remote c }) offList s := by
  rw [allocLocalAddr, wp_bind, wp_get]
  cases hffz : bitmapFfz s.dev.inuse with
  | none => exact Or.inl ⟨rfl, rfl⟩
  | some slot =>
      obtain ⟨hslot, hfree⟩ := bitmapFfz_some hffz
      exact Or.inr ⟨slot, hslot, hfree, rfl, rfl⟩

/-- What `alloc_local_addr` does to the table, for a channel that is new. -/
theorem wp_bindChan {o : Option ChanId} (hs : Table dev k next none) (h : Frame dev k next s)
    (ho : ∀ c, o = some c → next ≤ c ∧ c < s.reg.nextChan) :
    wp (bindChan remote o) (fun b t => t.Tabled (newHalf b.1 b.2) ∧ next ≤ t.reg.nextChan ∧
      ∀ c, b.2 = some c → next ≤ c) offList s := by
  cases o with
  | none => exact ⟨h.tabled hs, h.next, fun c hc => by cases hc⟩
  | some c =>
      obtain ⟨hnew, hlt⟩ := ho c rfl
      refine wp_seq (wp_allocLocalAddr remote c s) ?_
      rintro a t (⟨rfl, rfl⟩ | ⟨slot, hslot, hfree, rfl, rfl⟩)
      · -- The channel is closed again, and nobody has seen it.
        rw [if_pos rfl]
        refine wp_seq (leaves_handleClose c dev k next _ h) ?_
        intro _ t ht
        exact ⟨ht.tabled hs, ht.next, fun c hc => by cases hc⟩
      · rw [if_neg (slotToAddr_ne_zero hslot)]
        rw [h.device] at hfree
        refine ⟨?_, h.next, fun d hd => Option.some.inj hd ▸ hnew⟩
        have ht := Table.bind remote hs hslot hfree hnew hlt
        rw [← h.device, ← h.cookie] at ht
        exact ht

theorem wp_startConnReq (hs : s.Tabled none) (off : Nat) :
    wp (startConnReq w remote off) (fun r t => t.Tabled (newHalf r.2.1 r.2.2) ∧
      s.reg.nextChan ≤ t.reg.nextChan ∧ ∀ c, r.2.2 = some c → s.reg.nextChan ≤ c) offList s := by
  refine wp_seq (leaves_strncpy off sizeofTipcConnReqBody _ _ _ s s.frame) ?_
  intro name t ht
  rw [wp_bind, wp_get]
  have hconn : wp (Tipc.onReg (ipcPortConnectAsync w.env t.dev.guest t.dev.uuid name
      sizeofTipcConnReqBody 0)) (fun r u => Frame s.dev s.cookie s.reg.nextChan u ∧
        ∀ c, r.2 = some c → s.reg.nextChan ≤ c ∧ c < u.reg.nextChan) offList t := by
    rw [Tipc.onReg, wp_embed]
    refine wp_mono (wp_ipcPortConnectAsync_new t.reg) ?_ (fun e _ _ he => by cases he)
    rintro r reg ⟨hle, hnew⟩
    refine ⟨⟨ht.device, ht.cookie, Nat.le_trans ht.next hle⟩, ?_⟩
    intro c hc
    exact ⟨Nat.le_trans ht.next (hnew c hc).1, (hnew c hc).2⟩
  refine wp_seq hconn ?_
  rintro r u ⟨hu, hnew⟩
  have hbind : wp (bindChan remote (if r.1 = noError then r.2 else none)) (fun b t =>
      t.Tabled (newHalf b.1 b.2) ∧ s.reg.nextChan ≤ t.reg.nextChan ∧
      ∀ c, b.2 = some c → s.reg.nextChan ≤ c) offList u := by
    refine wp_bindChan hs hu ?_
    intro c hc
    split at hc
    · exact hnew c hc
    · cases hc
  exact wp_seq hbind fun _ _ h => h

theorem wp_nameChan (hs : s.Tabled (some ⟨c, localAddr, false⟩)) :
    wp (nameChan c localAddr) (fun _ t => t.Tabled (some ⟨c, localAddr, true⟩) ∧
      s.reg.nextChan ≤ t.reg.nextChan) offList s := by
  rw [nameChan, wp_bind, wp_get]
  refine wp_conseq (s.frame.wp_handleSetCookie _) ?_
  intro _ t ht
  exact ⟨ht.tabled (Table.name hs), ht.next⟩

theorem wp_listChan (hs : s.Tabled (some ⟨c, localAddr, true⟩)) :
    wp (handleListAdd c) (fun _ t => t.Tabled none ∧ s.reg.nextChan ≤ t.reg.nextChan) offList s := by
  refine wp_conseq (s.frame.wp_handleListAdd (Table.unlisted hs)) ?_
  intro _ t ht
  exact ⟨ht.tabled (Table.list hs), ht.next⟩

/-! ## The threads -/

/-- The device, the channel that the RX thread is about to list, and the one that the TX thread
has from the list. -/
structure Threads where
  state : TipcState
  half : Option Half
  tx : Option ChanId

inductive DevAction where
  /-- The RX thread: `handle_conn_req` until the release of the lock, the two calls after it, and
  what else the thread does. -/
  | connect (remote : UInt32) (off : Nat)
  | name (c : ChanId) (localAddr : UInt32)
  | list (c : ChanId) (localAddr : UInt32)
  | refuse (dst : UInt32) (status : Int)
  | disc (remote : UInt32) (off : Nat)
  | chanMsg (remote localAddr : UInt32) (off len : Nat)
  /-- The TX thread: a handle that `handle_list_wait` returns, what the thread does with it, and
  the end of the pass. -/
  | take (c : ChanId)
  | ready (c : ChanId)
  | txMsg (c : ChanId) (fuel : Nat)
  | hup (c : ChanId)
  | sayHup (localAddr : UInt32)
  | leave (c : ChanId)
  /-- `tipc_dev_reset`, when the RX thread has come to its end -/
  | reset
  /-- The IPC layer, for another thread -/
  | ipc (reg : Registry)

abbrev ThreadsM := EStateM Stop Threads

def onState {α : Type} (m : TipcM α) : ThreadsM α :=
  zoom Threads.state (fun s d => { d with state := s }) m

def setHalf (half : Option Half) : ThreadsM Unit := modify fun d => { d with half := half }

def setTx (tx : Option ChanId) : ThreadsM Unit := modify fun d => { d with tx := tx }

/-- A program whose result is not used. -/
def quiet {α : Type} (m : TipcM α) : ThreadsM Unit := do
  let _ ← onState m

variable (w) in
def DevAction.run : DevAction → ThreadsM Unit
  | .connect remote off => do
      let r ← onState (startConnReq w remote off)
      setHalf (newHalf r.2.1 r.2.2)
  | .name c localAddr => do
      onState (nameChan c localAddr)
      setHalf (some ⟨c, localAddr, true⟩)
  | .list c _ => do
      onState (handleListAdd c)
      setHalf none
  | .refuse dst status => quiet (sendConnRsp w 0 dst status)
  | .disc remote off => quiet (handleDiscReq w remote off)
  | .chanMsg remote localAddr off len => quiet (handleChanMsg w remote localAddr off len)
  | .take c => do
      onState (Tipc.onReg (handleIncref (.chan c)))
      setTx (some c)
  | .ready c => onState (handleReady w c)
  | .txMsg c fuel => onState (handleTxMsg w c fuel)
  | .hup c => quiet (hangUp c)
  | .sayHup localAddr => onState (sendDisc w (some localAddr))
  | .leave c => do
      onState (Tipc.onReg (handleDecref (.chan c)))
      setTx none
  | .reset => onState closeAll
  | .ipc reg => onState (modify fun s => { s with reg := reg })

def DevAction.Enabled (d : Threads) : DevAction → Prop
  | .connect _ _ | .refuse _ _ | .disc _ _ | .chanMsg _ _ _ _ | .reset => d.half = none
  | .name c localAddr => d.half = some ⟨c, localAddr, false⟩
  | .list c localAddr => d.half = some ⟨c, localAddr, true⟩
  | .take c => d.tx = none ∧ c ∈ d.state.dev.handleList
  | .ready c | .txMsg c _ | .hup c | .leave c => d.tx = some c
  | .sayHup _ => True
  | .ipc reg => d.state.reg.nextChan ≤ reg.nextChan

variable (w) in
/-- The device from a state on, with its threads idle. -/
def threads (s : TipcState) : Machine Stop Threads DevAction where
  init := ⟨s, none, none⟩
  run := DevAction.run w
  Enabled := DevAction.Enabled

/-- A device without channels. -/
structure Fresh (s : TipcState) : Prop where
  list : s.dev.handleList = []
  inuse : ∀ slot, s.dev.inuse slot = false
  chan : ∀ slot, (s.dev.epts slot).chan = none
  cookie : ∀ c, s.cookie c = none

theorem Fresh.tabled (h : Fresh s) : s.Tabled none where
  below := fun slot hslot => by
    rw [h.inuse slot] at hslot
    cases hslot
  inuse := fun slot => by
    rw [h.inuse slot, h.chan slot]
    refine iff_of_false (fun hf => by cases hf) ?_
    rintro ⟨c, hc⟩
    cases hc
  one := fun i j c hi _ => by
    rw [h.chan i] at hi
    cases hi
  cookies := fun c slot => by
    rw [h.cookie c, h.chan slot]
    refine iff_of_false (fun hf => by cases hf) ?_
    rintro ⟨hc, -⟩
    cases hc
  listed := fun c => by
    rw [h.list]
    refine iff_of_false List.not_mem_nil ?_
    rintro ⟨slot, hc, -⟩
    rw [h.chan slot] at hc
    cases hc
  bound := fun x hx => by cases hx
  nodup := by
    rw [h.list]
    exact List.nodup_nil
  young := fun slot c hc => by
    rw [h.chan slot] at hc
    cases hc

/-- The table is as it should be, and the TX thread has a channel that was listed. -/
structure Threads.Good (d : Threads) : Prop where
  table : d.state.Tabled d.half
  tx : ∀ c, d.tx = some c → c < d.state.reg.nextChan ∧ ∀ x, d.half = some x → x.chan ≠ c

theorem wp_onState {α : Type} {m : TipcM α} {d : Threads} {P : α → TipcState → Prop}
    (h : wp m P offList d.state) :
    wp (onState m) (fun a d' => P a d'.state ∧ d'.half = d.half ∧ d'.tx = d.tx)
      (fun e _ => e ≠ .nullDeref) d := by
  rw [onState, wp_zoom]
  exact wp_mono h (fun _ _ hP => ⟨hP, rfl, rfl⟩) fun _ _ he => he

/-- What keeps the table keeps the rest. -/
theorem Threads.Good.keep {α : Type} {m : TipcM α} {d : Threads} (hd : d.Good)
    (h : wp m (fun _ t => t.Tabled d.half ∧ d.state.reg.nextChan ≤ t.reg.nextChan) offList d.state) :
    wp (onState m) (fun _ => Threads.Good) (fun e _ => e ≠ .nullDeref) d := by
  refine wp_conseq (wp_onState h) ?_
  rintro _ d' ⟨⟨ht, hle⟩, hhalf, htx⟩
  refine ⟨hhalf ▸ ht, ?_⟩
  intro c hc
  obtain ⟨hlt, hne⟩ := hd.tx c (htx ▸ hc)
  exact ⟨Nat.lt_of_lt_of_le hlt hle, fun x hx => hne x (hhalf ▸ hx)⟩

theorem Threads.Good.quiet {α : Type} {m : TipcM α} {d : Threads} (hd : d.Good)
    (h : wp m (fun _ t => t.Tabled d.half ∧ d.state.reg.nextChan ≤ t.reg.nextChan) offList d.state) :
    wp (quiet m) (fun _ => Threads.Good) (fun e _ => e ≠ .nullDeref) d :=
  wp_seq (hd.keep h) fun _ _ hd' => hd'

theorem Threads.Good.step {d : Threads} (hd : d.Good) (a : DevAction) (hen : a.Enabled d) :
    wp (a.run w) (fun _ => Threads.Good) (fun e _ => e ≠ .nullDeref) d := by
  have htable := hd.table
  cases a with
  | connect remote off =>
      have hhalf : d.half = none := hen
      rw [hhalf] at htable
      refine wp_seq (wp_onState (wp_startConnReq htable off)) ?_
      rintro r d' ⟨⟨ht, hle, hnew⟩, -, htx⟩
      refine ⟨ht, ?_⟩
      intro c hc
      have hlt := (hd.tx c (htx ▸ hc)).1
      refine ⟨Nat.lt_of_lt_of_le hlt hle, ?_⟩
      intro x hx
      obtain ⟨e, he, rfl⟩ := Option.map_eq_some_iff.mp hx
      exact Nat.ne_of_gt (Nat.lt_of_lt_of_le hlt (hnew e he))
  | name c localAddr =>
      have hhalf : d.half = some ⟨c, localAddr, false⟩ := hen
      rw [hhalf] at htable
      refine wp_seq (wp_onState (wp_nameChan htable)) ?_
      rintro _ d' ⟨⟨ht, hle⟩, -, htx⟩
      refine ⟨ht, ?_⟩
      intro e he
      obtain ⟨hlt, hne⟩ := hd.tx e (htx ▸ he)
      refine ⟨Nat.lt_of_lt_of_le hlt hle, ?_⟩
      intro x hx
      have hce : c ≠ e := hne _ hhalf
      exact Option.some.inj hx ▸ hce
  | list c localAddr =>
      have hhalf : d.half = some ⟨c, localAddr, true⟩ := hen
      rw [hhalf] at htable
      refine wp_seq (wp_onState (wp_listChan htable)) ?_
      rintro _ d' ⟨⟨ht, hle⟩, -, htx⟩
      refine ⟨ht, ?_⟩
      intro e he
      exact ⟨Nat.lt_of_lt_of_le (hd.tx e (htx ▸ he)).1 hle, fun x hx => by cases hx⟩
  | refuse dst status => exact hd.quiet ((leaves_sendConnRsp 0 dst status).tabled htable)
  | disc remote off =>
      refine hd.quiet ?_
      have hhalf : d.half = none := hen
      rw [hhalf] at htable ⊢
      exact wp_handleDiscReq htable off
  | chanMsg remote localAddr off len =>
      exact hd.quiet ((leaves_handleChanMsg localAddr off len).tabled htable)
  | take c =>
      obtain ⟨-, hc⟩ := hen
      obtain ⟨slot, hchan, hne⟩ := (htable.listed c).mp hc
      refine wp_seq (wp_onState ((leaves_onReg fun _ => pending_handleIncref).tabled htable)) ?_
      rintro _ d' ⟨⟨ht, hle⟩, hhalf, -⟩
      refine ⟨hhalf ▸ ht, ?_⟩
      intro e he
      obtain rfl := Option.some.inj he
      exact ⟨Nat.lt_of_lt_of_le (htable.young slot c hchan) hle, fun x hx => hne x (hhalf ▸ hx)⟩
  | ready c => exact hd.keep ((leaves_handleReady c).tabled htable)
  | txMsg c fuel => exact hd.keep ((leaves_handleTxMsg c fuel).tabled htable)
  | hup c => exact hd.quiet (wp_hangUp htable (hd.tx c hen).2)
  | sayHup localAddr => exact hd.keep ((leaves_sendDisc (some localAddr)).tabled htable)
  | leave c =>
      refine wp_seq (wp_onState ((leaves_onReg fun _ => pending_handleDecref).tabled htable)) ?_
      rintro _ d' ⟨⟨ht, hle⟩, hhalf, -⟩
      exact ⟨hhalf ▸ ht, fun e he => by cases he⟩
  | reset =>
      refine hd.keep ?_
      have hhalf : d.half = none := hen
      rw [hhalf] at htable ⊢
      exact wp_closeAll htable
  | ipc reg => exact hd.keep ⟨htable.mono hen, hen⟩

/-- However the two threads, the reset and the rest of the system interleave: slots, cookies and
the list of handles agree in every state, and no handle is deleted that is not listed. -/
theorem run_table (w : World) {s : TipcState} (hs : Fresh s) {d : Threads}
    (h : (threads w s).Reachable (fun _ _ => True) d) :
    d.state.Tabled d.half ∧ ∀ (a : DevAction) d', a.Enabled d → a.run w d ≠ .error .nullDeref d' := by
  have hgood : d.Good := by
    refine Machine.invariant (E := fun _ _ e _ => e ≠ .nullDeref) ⟨hs.tabled, ?_⟩ ?_ h
    · exact fun c hc => by cases hc
    · exact fun d a hd hen _ => hd.step a hen
  refine ⟨hgood.table, ?_⟩
  intro a d' hen hrun
  exact wp_error (hgood.step a hen) hrun rfl

/-- All that is allocated is there, and the name of the service is in the buffer. -/
def asksForPort : World where
  env := ⟨fun _ _ _ => 0, true, true, true, fun _ => true, fun _ => true, fun _ => true, fun _ _ => 0⟩
  ns := fun n _ => if n = 0 then 0x70 else 0
  map := ⟨fun _ => noError, fun _ => none⟩
  send := fun _ => withBuffer onePage
  arrive := fun _ => []

/-- The device next to a port for the non-secure world. -/
def nextToPort : TipcState where
  dev := ⟨0, some .zeroUuid, [], fun _ => ⟨0, none⟩, fun _ => false⟩
  reg := stateOf ((do
    let _ ← ipcPortCreate asksForPort.env (some (.app 0)) [0x70] 1 4096 ipcPortAllowNsConnect
    ipcPortPublish asksForPort.env 0) .empty)
  cookie := fun _ => none
  regions := []
  fetches := 0
  sent := 0
  log := []

/-- The state after some actions, as far as they return. -/
def after (d : Threads) : List DevAction → Threads
  | [] => d
  | a :: rest => after (stateOf (a.run asksForPort d)) rest

def hangsUp : List DevAction :=
  [.connect 5 24, .name 0 1000, .list 0 1000, .take 0, .hup 0]

theorem reachable_step {d : Threads}
    (h : (threads asksForPort nextToPort).Reachable (fun _ _ => True) d) (a : DevAction)
    (hen : a.Enabled d) (hret : returns (a.run asksForPort d) = true) :
    (threads asksForPort nextToPort).Reachable (fun _ _ => True) (stateOf (a.run asksForPort d)) :=
  Machine.Reachable.step h hen trivial hret

/-- The channel is bound, named, listed, taken and hung up. -/
theorem run_table_hangsUp :
    (after ⟨nextToPort, none, none⟩ (hangsUp.take 4)).state.cookie 0 = some 0 ∧
      (after ⟨nextToPort, none, none⟩ hangsUp).state.Tabled none ∧
      (after ⟨nextToPort, none, none⟩ hangsUp).state.dev.handleList = [] := by
  have h1 := reachable_step Machine.Reachable.init (.connect 5 24) rfl (by decide +kernel)
  have hhalf : (after ⟨nextToPort, none, none⟩ (hangsUp.take 1)).half = some ⟨0, 1000, false⟩ := by
    decide +kernel
  have h2 := reachable_step h1 (.name 0 1000) hhalf (by decide +kernel)
  have h3 := reachable_step h2 (.list 0 1000) rfl (by decide +kernel)
  have h4 := reachable_step h3 (.take 0) ⟨by decide +kernel, by decide +kernel⟩ (by decide +kernel)
  have h5 := reachable_step h4 (.hup 0) rfl (by decide +kernel)
  have hfresh : Fresh nextToPort := ⟨rfl, fun _ => rfl, fun _ => rfl, fun _ => rfl⟩
  exact ⟨by decide +kernel, (run_table asksForPort hfresh h5).1, by decide +kernel⟩

end TX2SecureUart.Tipc
