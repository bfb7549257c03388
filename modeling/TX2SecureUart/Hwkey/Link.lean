/-
# `Hwkey.Link` — a channel with one buffer each way, and its contents

The queue of each end is one item: free, filled with a message, or holding the
message that was obtained.  `Link` says what the two items hold and how the
flags of the service's end stand.  A client that does not close its handle moves
them as `ClientMove` says, whatever calls it makes.
-/
import TX2SecureUart.Hwkey.Serving

namespace TX2SecureUart.Hwkey

open Prog Ipc Service

/-! ## One item -/

inductive Item where
  | free
  | filled (m : List UInt8)
  | read (m : List UInt8)

def Item.box : Item → Box
  | .free => ⟨msgNum, [], []⟩
  | .filled m => ⟨msgNum, [m], []⟩
  | .read m => ⟨msgNum, [], [(0, m)]⟩

/-- `c` is the service's end of a channel and `d` the client's; `own` is the item
for requests and `reply` the one for replies. -/
structure Link (c d : ChanId) (s : Registry) (own reply : Item) (aux : AuxState) : Prop where
  pair : ∃ mq mq', Pair s msgNum maxPortBufSize c d mq mq' ∧ mq.mailbox = own.box ∧
    mq'.mailbox = reply.box
  aux : auxOf s c = some aux

section

variable {s : Registry} {c d : ChanId} {mq mq' : MsgQueue} {own own' reply reply' it : Item}
  {aux : AuxState} {m : List UInt8} {i : Nat} {lens : List Nat} {bytes : List UInt8}

/-- A queue of one item. -/
theorem exists_item (hinv : mq.Inv) (hnum : mq.numItems = msgNum)
    (hsz : mq.itemSz = maxPortBufSize) : ∃ it : Item, mq.mailbox = it.box := by
  have hone : OneBuffer mq (mq.items 0).state := ⟨hinv, hnum, hsz, rfl⟩
  have hslot := hone.mailbox
  have hcap : mq.mailbox.capacity = msgNum := hnum
  have hbox : ∀ w h, mq.mailbox.waiting = w → mq.mailbox.held = h →
      mq.mailbox = ⟨msgNum, w, h⟩ := by
    rintro w h rfl rfl
    rw [← hcap]
  cases hst : (mq.items 0).state with
  | free =>
      rw [hst] at hslot
      exact ⟨.free, hbox _ _ hslot.1 hslot.2⟩
  | filled =>
      rw [hst] at hslot
      obtain ⟨⟨m, hm⟩, hh⟩ := hslot
      exact ⟨.filled m, hbox _ _ hm hh⟩
  | read =>
      rw [hst] at hslot
      obtain ⟨hw, m, hm⟩ := hslot
      exact ⟨.read m, hbox _ _ hw hm⟩

theorem eq_filled_of_waiting {rest : List (List UInt8)} (h : it.box.waiting = m :: rest) :
    it = .filled m ∧ rest = [] := by
  cases it with
  | free => cases h
  | filled m' =>
      cases h
      exact ⟨rfl, rfl⟩
  | read m' => cases h

theorem eq_free_of_room (h : it.box.unretired < it.box.capacity) : it = .free := by
  cases it with
  | free => rfl
  | filled m => exact absurd h (by simp [Item.box, Mailbox.unretired, msgNum])
  | read m => exact absurd h (by simp [Item.box, Mailbox.unretired, msgNum])

theorem eq_read_of_look (h : (it.box.look i).isSome) : ∃ m, it = .read m ∧ i = 0 := by
  cases it with
  | free => cases h
  | filled m => cases h
  | read m =>
      refine ⟨m, rfl, ?_⟩
      by_contra hi
      have hb : (i == 0) = false := beq_eq_false_iff_ne.mpr hi
      simp [Item.box, Mailbox.look, List.lookup_cons, hb] at h

/-- There is no free item exactly in a queue that holds a message. -/
theorem freeList_eq_nil_iff (hinv : mq.Inv) (hbox : mq.mailbox = it.box) :
    mq.freeList = [] ↔ it ≠ .free := by
  have hroom := hinv.unretired
  rw [hbox] at hroom
  rw [← List.length_eq_zero_iff]
  cases it with
  | free =>
      have hlen : 0 + mq.freeList.length = 1 := hroom
      exact iff_of_false (by omega) (not_not.mpr rfl)
  | filled m =>
      have hlen : 1 + mq.freeList.length = 1 := hroom
      exact iff_of_true (by omega) (by intro h; cases h)
  | read m =>
      have hlen : 1 + mq.freeList.length = 1 := hroom
      exact iff_of_true (by omega) (by intro h; cases h)

/-! ## The moves of a queue -/

theorem box_send (hrun : Mailbox.Run mq.mailbox [.send m] mq'.mailbox)
    (hbox : mq.mailbox = Item.free.box) : mq'.mailbox = (Item.filled m).box := by
  rw [hbox] at hrun
  cases hrun with
  | cons hstep hrest =>
      rw [hrest.nil_eq]
      cases hstep
      rfl

theorem box_get (hrun : Mailbox.Run mq.mailbox [.get i m] mq'.mailbox) (hinv : mq'.Inv)
    (hnum : mq'.numItems = msgNum) (hsz : mq'.itemSz = maxPortBufSize)
    (hbox : mq.mailbox = (Item.filled m).box) : i = 0 ∧ mq'.mailbox = (Item.read m).box := by
  obtain ⟨it, hit⟩ := exists_item hinv hnum hsz
  have hheld := hrun.step.held_get
  rw [hbox, hit] at hheld
  cases it with
  | free => cases hheld
  | filled m' => cases hheld
  | read m' =>
      cases hheld
      exact ⟨rfl, hit⟩

theorem box_put (hrun : Mailbox.Run mq.mailbox [.put 0] mq'.mailbox)
    (hbox : mq.mailbox = (Item.read m).box) : mq'.mailbox = Item.free.box := by
  rw [hrun.step.eq_put, hbox]
  rfl

/-! ## The client's calls -/

/-- What one call of the client can do: it is recorded if a request was sent. -/
inductive ClientMove : Item → Item → AuxState → List Entry → Item → Item → AuxState → Prop
  | stay {own reply : Item} {aux : AuxState} : ClientMove own reply aux [] own reply aux
  | send {reply : Item} {aux : AuxState} (m : List UInt8) :
      ClientMove .free reply aux [.request m] (.filled m) reply aux
  | get {own : Item} {aux : AuxState} (m : List UInt8) :
      ClientMove own (.filled m) aux [] own (.read m) aux
  | put {own : Item} {aux : AuxState} (m : List UInt8) :
      ClientMove own (.read m) aux [] own .free (unblockSend aux)

theorem accepted_of_not_sends {call : MsgCall} {r : MsgResult} (h : call.sends = none) :
    accepted call r = [] := by
  simp only [accepted, h]

theorem sends_eq_none {call : MsgCall} (h : call.gets = true) : call.sends = none := by
  cases call with
  | ipcGet => rfl
  | sysGet => rfl
  | _ => cases h

theorem reads_sends {call : MsgCall} {p : UInt32 × UInt32 × Option MsgDesc}
    (h : call.reads = some p) : call.sends = none := by
  cases call with
  | ipcRead => rfl
  | sysRead => rfl
  | _ => cases h

theorem retires_of_not_put {call : MsgCall} {r : MsgResult} (h : ∀ msgId, call ≠ .put msgId) :
    retires call r = false := by
  cases call with
  | put msgId => exact absurd rfl (h msgId)
  | _ => rfl

/-- Any call of the client. -/
theorem Link.wp_clientCall (h : Link c d s own reply aux) (call : MsgCall)
    (hfits : ∀ msg, call.sends = some (some msg) → (payload msg).length ≤ maxPortBufSize) :
    wp (call.run (some (.chan d))) (fun r t => ∃ own' reply' aux',
      ClientMove own reply aux (accepted call r) own' reply' aux' ∧ Link c d t own' reply' aux')
      (fun _ _ => False) s := by
  obtain ⟨⟨mq, mq', hpair, hown, hreply⟩, haux⟩ := h
  refine wp_mono (wp_and (wp_msgCall hpair.symm (by decide) call)
    (wp_msgCall_aux hpair.symm call)) ?_ ?_
  · rintro r t ⟨⟨nq', nq, ls', ls, hpair', hcall, hrun', hrun⟩, hflags⟩
    have hauxt := hflags.2
    rw [haux, Option.map_some] at hauxt
    have hlink : ∀ {own' reply' : Item}, nq.mailbox = own'.box → nq'.mailbox = reply'.box →
        Link c d t own' reply' ((if retires call r then unblockSend else id) aux) :=
      fun h h' => ⟨⟨nq, nq', hpair'.symm, h, h'⟩, hauxt⟩
    -- the calls that retire nothing
    have hstay : retires call r = false → ls = [] → ls' = [] → accepted call r = [] →
        ∃ own' reply' aux', ClientMove own reply aux (accepted call r) own' reply' aux' ∧
          Link c d t own' reply' aux' := by
      rintro hret rfl rfl hacc
      have hl := hlink (hrun.nil_eq.trans hown) (hrun'.nil_eq.trans hreply)
      rw [hret] at hl
      rw [hacc]
      exact ⟨own, reply, aux, .stay, hl⟩
    cases hcall with
    | @sent _ msg hsends hroom =>
        have hret : retires call (.ret ((payload msg).take maxPortBufSize).length) = false :=
          retires_of_not_put fun msgId heq => by
            rw [heq] at hsends
            cases hsends
        rw [hown] at hroom
        obtain rfl := eq_free_of_room hroom
        rw [List.take_of_length_le (hfits msg hsends)] at hrun hret ⊢
        have hacc : accepted call (.ret (payload msg).length) = [.request (payload msg)] := by
          simp only [accepted, hsends]
          exact if_pos (Int.natCast_nonneg _)
        have hl := hlink (box_send hrun hown) (hrun'.nil_eq.trans hreply)
        rw [List.take_of_length_le (hfits msg hsends), hret] at hl
        rw [hacc]
        exact ⟨.filled (payload msg), reply, aux, .send _, hl⟩
    | @notSent _ msg r hsends hneg =>
        refine hstay (retires_of_not_put fun msgId heq => ?_) rfl rfl ?_
        · rw [heq] at hsends
          cases hsends
        · cases msg with
          | none => simp only [accepted, hsends]
          | some msg =>
              simp only [accepted, hsends]
              exact if_neg (Int.not_le.mpr hneg)
    | @got _ info m rest hgets hwait hlen =>
        have hsends := sends_eq_none hgets
        rw [hreply] at hwait
        obtain ⟨rfl, _⟩ := eq_filled_of_waiting hwait
        obtain ⟨hid, hbox⟩ := box_get hrun' hpair'.inv hpair'.numItems hpair'.itemSz hreply
        have hret : retires call (.info 0 (some info)) = false :=
          retires_of_not_put fun msgId heq => by
            rw [heq] at hgets
            cases hgets
        have hl := hlink (hrun.nil_eq.trans hown) hbox
        rw [hret] at hl
        rw [accepted_of_not_sends hsends]
        exact ⟨own, .read m, aux, .get m, hl⟩
    | noMsg hgets _ =>
        refine hstay (retires_of_not_put fun msgId heq => ?_) rfl rfl
          (accepted_of_not_sends (sends_eq_none hgets))
        rw [heq] at hgets
        cases hgets
    | infoFault => exact hstay rfl rfl rfl rfl
    | read hreads _ _ =>
        refine hstay (retires_of_not_put fun msgId heq => ?_) rfl rfl
          (accepted_of_not_sends (reads_sends hreads))
        rw [heq] at hreads
        cases hreads
    | notRead hreads _ _ =>
        refine hstay (retires_of_not_put fun msgId heq => ?_) rfl rfl
          (accepted_of_not_sends (reads_sends hreads))
        rw [heq] at hreads
        cases hreads
    | @retired msgId hlook =>
        rw [hreply] at hlook
        obtain ⟨m, rfl, hid⟩ := eq_read_of_look hlook
        rw [hid] at hrun'
        exact ⟨own, .free, _, .put m, hlink (hrun.nil_eq.trans hown) (box_put hrun' hreply)⟩
    | notRetired _ => exact hstay rfl rfl rfl rfl
  · intro e t he
    exact he.1

/-! ## The service's calls -/

theorem length_take_of_sum {n : Nat} (h : bytes.length = (n :: lens).sum) :
    (bytes.take n).length = n ∧ (bytes.drop n).length = lens.sum := by
  rw [List.sum_cons] at h
  rw [List.length_take, List.length_drop]
  omega

theorem userPayload_iovOf (h : bytes.length = lens.sum) : userPayload (iovOf lens bytes) = bytes := by
  induction lens generalizing bytes with
  | nil =>
      rw [List.length_eq_zero_iff.mp h]
      rfl
  | cons n lens ih =>
      obtain ⟨hhead, htail⟩ := length_take_of_sum h
      rw [iovOf, userPayload, ih htail, List.take_take, Nat.min_self, List.take_append_drop]

theorem userLoop_iovOf {buf : Nat → UInt8} {pos len copied : Nat} (h : bytes.length = lens.sum) :
    0 ≤ (userLoop buf pos len copied (iovOf lens bytes)).1 := by
  induction lens generalizing bytes buf pos len copied with
  | nil => exact Int.natCast_nonneg _
  | cons n lens ih =>
      obtain ⟨hhead, htail⟩ := length_take_of_sum h
      have hshort : ¬(bytes.take n).length < min len n := by omega
      simp only [iovOf, userLoop, hshort, if_false]
      split
      · exact Int.natCast_nonneg _
      · exact ih htail

theorem copyIn_iovOf (h : bytes.length = lens.sum) (buf : Nat → UInt8) (pos len : Nat) :
    0 ≤ (copyIn buf pos len (.user (iovOf lens bytes) 0)).1 := by
  simp only [copyIn, userIovecToMembuf, ne_eq, not_true, if_false]
  split
  · exact Int.le_refl 0
  · exact userLoop_iovOf h

theorem toUserLoop_iovOf {copied : Nat} (h : bytes.length = lens.sum) :
    0 ≤ (toUserLoop m copied (iovOf lens bytes)).1 ∧
      (toUserLoop m copied (iovOf lens bytes)).2 = m.take lens.sum := by
  induction lens generalizing bytes m copied with
  | nil => exact ⟨Int.natCast_nonneg _, by simp [iovOf, toUserLoop]⟩
  | cons n lens ih =>
      obtain ⟨hhead, htail⟩ := length_take_of_sum h
      have hshort : ¬(bytes.take n).length < min m.length n := by omega
      simp only [iovOf, toUserLoop, hshort, if_false]
      by_cases hall : m.length - min m.length n = 0
      · rw [if_pos hall]
        refine ⟨Int.natCast_nonneg _, ?_⟩
        rw [List.sum_cons, List.take_of_length_le (by omega), List.take_of_length_le (by omega)]
      · have hmin : min m.length n = n := by omega
        rw [if_neg hall, hmin]
        obtain ⟨hret, hstored⟩ := @ih (m.drop n) (bytes.drop n) (copied + n) htail
        refine ⟨hret, ?_⟩
        show m.take n ++ _ = _
        rw [hstored, List.sum_cons, List.take_add]

theorem copyOut_iovOf (h : bytes.length = lens.sum) :
    0 ≤ (copyOut m (.user (iovOf lens bytes) 0)).1 ∧
      (copyOut m (.user (iovOf lens bytes) 0)).2 = m.take lens.sum := by
  simp only [copyOut, membufToUserIovec, ne_eq, not_true, if_false]
  split
  · rename_i hnone
    refine ⟨Int.le_refl 0, ?_⟩
    rcases hnone with hlens | hm
    · cases lens with
      | nil => simp
      | cons => cases hlens
    · rw [List.length_eq_zero_iff.mp hm]
      simp
  · exact toUserLoop_iovOf h

theorem isEmpty_iff (hbox : mq.mailbox = it.box) : mq.isEmpty = false ↔ ∃ m, it = .filled m := by
  have hwait : mq.filledList.map mq.content = it.box.waiting := by
    rw [← hbox]
    rfl
  rw [MsgQueue.isEmpty]
  cases it with
  | free =>
      rw [List.map_eq_nil_iff.mp hwait]
      simp
  | filled m =>
      cases hf : mq.filledList with
      | nil =>
          rw [hf] at hwait
          cases hwait
      | cons i l => simp
  | read m =>
      rw [List.map_eq_nil_iff.mp hwait]
      simp

/-- What the service sees when it polls. -/
theorem Link.wp_chanPoll (h : Link c d s own reply aux) (hready : aux.connected = false) :
    wp (chanPoll c) (fun event t => t = s ∧ polled event ipcHandlePollError = false ∧
      polled event ipcHandlePollHup = false ∧
      (polled event ipcHandlePollMsg = true ↔ ∃ m, own = .filled m) ∧
      polled event ipcHandlePollSendUnblocked = aux.sendUnblocked ∧
      (event = 0 ↔ (∀ m, own ≠ .filled m) ∧ aux.sendUnblocked = false)) (fun _ _ => False) s := by
  obtain ⟨⟨mq, mq', hpair, hown, _⟩, haux⟩ := h
  obtain ⟨C, hC⟩ := hpair.own
  have hauxC : C.auxState = aux := Option.some.inj ((auxOf_eq hC.live).symm.trans haux)
  have hany : C.msgQueue.any (fun mq => !mq.isEmpty) = true ↔ ∃ m, own = .filled m := by
    rw [hC.queue, ← isEmpty_iff hown]
    simp
  obtain ⟨herr, hhup, _, hmsg, hunblocked⟩ := polled_pollEvents hC.state
  rw [Service.wp_chanPoll hC.live]
  refine ⟨rfl, herr, hhup, ?_, ?_, ?_⟩
  · rw [hmsg, hany]
  · rw [hunblocked, hauxC]
  · have hnone : C.msgQueue.any (fun mq => !mq.isEmpty) = false ↔ ∀ m, own ≠ .filled m := by
      rw [← Bool.not_eq_true, hany, not_exists]
    rw [pollEvents_eq_zero hC.state, hauxC, hnone]
    exact and_iff_right hready

/-- The service ends a wait. -/
theorem Link.wp_finalize (h : Link c d s own reply aux) (event : UInt32) :
    wp (Ql.chanFinalizeEvent c event) (fun _ t => Link c d t own reply (finalizeAux aux event))
      (fun _ _ => False) s := by
  obtain ⟨⟨mq, mq', hpair, hown, hreply⟩, haux⟩ := h
  obtain ⟨C, hC⟩ := hpair.own
  have hauxC : C.auxState = aux := Option.some.inj ((auxOf_eq hC.live).symm.trans haux)
  refine wp_conseq (wp_finalize_aux hC.live) ?_
  rintro _ t rfl
  refine ⟨⟨mq, mq', hpair.setAux hC.live _, hown, hreply⟩, ?_⟩
  rw [auxOf_setChan_self, hauxC]

/-- The client ends a wait. -/
theorem Link.wp_clientFinalize (h : Link c d s own reply aux) (event : UInt32) :
    wp (Ql.chanFinalizeEvent d event) (fun _ t => Link c d t own reply aux)
      (fun _ _ => False) s := by
  obtain ⟨⟨mq, mq', hpair, hown, hreply⟩, haux⟩ := h
  obtain ⟨D, hD⟩ := hpair.other
  refine wp_conseq (wp_finalize_aux hD.live) ?_
  rintro _ t rfl
  refine ⟨⟨mq, mq', (hpair.symm.setAux hD.live _).symm, hown, hreply⟩, ?_⟩
  rw [auxOf_setChan_ne hpair.ne, haux]

/-- The service obtains the request. -/
theorem Link.wp_getMsg (h : Link c d s (.filled m) reply aux) :
    wp (sysGetMsg (some (.chan c)) true) (fun r t => ∃ info, r = (0, some info) ∧ info.id = 0 ∧
      Link c d t (.read m) reply aux) (fun _ _ => False) s := by
  obtain ⟨⟨mq, mq', hpair, hown, hreply⟩, haux⟩ := h
  have hcall : (MsgCall.sysGet true).gets = true := rfl
  refine wp_mono (wp_and (wp_sysGetMsg hpair (by decide) hcall (by intro h; cases h))
    (wp_sysGetMsg_aux hpair true)) ?_ ?_
  · rintro ⟨rc, info⟩ t ⟨⟨nq, nq', ls, ls', hpair', hspec, hrun, hrun'⟩, hauxt, _⟩
    have hwait : mq.mailbox.waiting = [m] := by
      rw [hown]
      rfl
    generalize hres : MsgResult.info rc info = res at hspec
    cases hspec with
    | @got _ info' m' rest _ hw _ =>
        cases hres
        rw [hwait] at hw
        cases hw
        obtain ⟨hid, hbox⟩ := box_get hrun hpair'.inv hpair'.numItems hpair'.itemSz hown
        exact ⟨info', rfl, UInt32.toNat_inj.mp hid, ⟨nq, nq', hpair', hbox,
          hrun'.nil_eq.trans hreply⟩, hauxt.trans haux⟩
    | noMsg _ hw =>
        rw [hwait] at hw
        cases hw
    | sent hs _ => cases hs
    | notSent hs _ => cases hs
    | read hr _ _ => cases hr
    | notRead hr _ _ => cases hr
  · intro e t he
    exact he.1

/-- The service reads the request. -/
theorem Link.wp_readMsg (h : Link c d s (.read m) reply aux) (hlen : bytes.length = lens.sum) :
    wp (sysReadMsg (some (.chan c)) 0 0 (some (.user (iovOf lens bytes) 0)))
      (fun r t => 0 ≤ r.1 ∧ r.2 = m.take lens.sum ∧ t = s) (fun _ _ => False) s := by
  obtain ⟨⟨mq, mq', hpair, hown, hreply⟩, haux⟩ := h
  obtain ⟨C, hC⟩ := hpair.own
  have hlook : mq.mailbox.look (0 : UInt32).toNat = some m := by
    rw [hown]
    rfl
  simp only [sysReadMsg, readMsgLocked, checkChannelLocked, getQueue, wp_bind, wp_getChan, hC.live,
    hC.queue, Option.elim_some, wp_pure, hpair.inv.read, hlook]
  have hoff : ¬m.length < (0 : UInt32).toNat := Nat.not_lt_zero _
  rw [if_neg hoff]
  obtain ⟨hret, hstored⟩ := @copyOut_iovOf (m.drop (0 : UInt32).toNat) lens bytes hlen
  exact ⟨hret, hstored, trivial⟩

/-- The service sends the reply, or is blocked. -/
theorem Link.wp_sendMsg (h : Link c d s own reply aux) (hlen : bytes.length = lens.sum)
    (hsum : lens.sum ≤ maxPortBufSize) :
    wp (sysSendMsg (some (.chan c)) (some (.user (iovOf lens bytes) 0)))
      (fun r t => (reply = .free → 0 ≤ r ∧ Link c d t own (.filled bytes) aux) ∧
        (reply ≠ .free → r = errNotEnoughBuffer ∧ Link c d t own reply (blockSend aux)))
      (fun _ _ => False) s := by
  obtain ⟨⟨mq, mq', hpair, hown, hreply⟩, haux⟩ := h
  have hcall : (MsgCall.sysSend (some (.user (iovOf lens bytes) 0))).sends = _ := rfl
  have hpayload : (payload (.user (iovOf lens bytes) 0)).take maxPortBufSize = bytes := by
    rw [payload, userPayload_iovOf hlen, List.take_of_length_le (by omega)]
  refine wp_mono (wp_and (wp_and (wp_sendMsgLocked hpair hcall)
    (wp_sendMsg_ret hpair (copyIn_iovOf hlen))) (wp_sendMsgLocked_aux hpair _)) ?_ ?_
  · rintro r t ⟨⟨⟨nq, nq', ls, ls', hpair', hspec, hrun, hrun'⟩, hfull, hroom⟩, hauxt, _⟩
    rw [freeList_eq_nil_iff hpair.inv' hreply] at hfull
    rw [ne_eq, freeList_eq_nil_iff hpair.inv' hreply, not_not] at hroom
    rw [haux, Option.map_some] at hauxt
    generalize hres : MsgResult.ret r = res at hspec
    cases hspec with
    | @sent _ msg hs _ =>
        cases hs
        cases hres
        rw [hpayload] at hrun' hfull
        have hcode : errNotEnoughBuffer < 0 := by decide
        have hfree : reply = .free := by
          by_contra hne
          rw [← hfull hne] at hcode
          exact absurd hcode (Int.not_lt.mpr (Int.natCast_nonneg _))
        subst hfree
        rw [if_neg (fun hf => (freeList_eq_nil_iff hpair.inv' hreply).mp (List.isEmpty_iff.mp hf)
          rfl)] at hauxt
        refine ⟨fun _ => ⟨Int.natCast_nonneg _, ⟨nq, nq', hpair', hrun.nil_eq.trans hown,
          box_send hrun' hreply⟩, hauxt⟩, fun hne => absurd rfl hne⟩
    | notSent _ hneg =>
        cases hres
        have hne : reply ≠ .free := by
          intro hfree
          have := hroom hfree
          omega
        rw [if_pos (List.isEmpty_iff.mpr ((freeList_eq_nil_iff hpair.inv' hreply).mpr hne))] at hauxt
        exact ⟨fun hfree => absurd hfree hne, fun _ => ⟨hfull hne, ⟨nq, nq', hpair',
          hrun.nil_eq.trans hown, hrun'.nil_eq.trans hreply⟩, hauxt⟩⟩
    | got hg _ _ => cases hg
    | noMsg hg _ => cases hg
    | read hr _ _ => cases hr
    | notRead hr _ _ => cases hr
  · intro e t he
    exact he.2

/-- The service retires the request. -/
theorem Link.wp_putMsg (h : Link c d s (.read m) reply aux) :
    wp (ipcPutMsg (some (.chan c)) 0) (fun r t => r = noError ∧ Link c d t .free reply aux)
      (fun _ _ => False) s := by
  obtain ⟨⟨mq, mq', hpair, hown, hreply⟩, haux⟩ := h
  refine wp_mono (wp_and (wp_ipcPutMsg hpair 0) (wp_ipcPutMsg_aux hpair 0)) ?_ ?_
  · rintro r t ⟨⟨nq, nq', ls, ls', hpair', hspec, hrun, hrun'⟩, hauxt, _⟩
    generalize hres : MsgResult.ret r = res at hspec
    cases hspec with
    | retired _ =>
        cases hres
        exact ⟨rfl, ⟨nq, nq', hpair', box_put hrun hown, hrun'.nil_eq.trans hreply⟩,
          hauxt.trans haux⟩
    | notRetired hlook =>
        rw [hown] at hlook
        cases hlook
    | sent hs _ => cases hs
    | notSent hs _ => cases hs
    | got hg _ _ => cases hg
    | noMsg hg _ => cases hg
    | read hr _ _ => cases hr
    | notRead hr _ _ => cases hr
  · intro e t he
    exact he.1

end

end TX2SecureUart.Hwkey
