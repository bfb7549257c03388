/-
# `Ipc.MsgRefine` — a connected pair is a pair of mailboxes

Every message call made on either end of a connected pair, with any
arguments, failing or not, is a move of two bounded mailboxes, one for each
direction: `CallSpec` says which, and what the call returns.  The queues are
the ones `port_attach_client` creates, and the run is any list of calls from
both ends (`msgCalls_refine`).
-/
import TX2SecureUart.Ipc.Msg

namespace TX2SecureUart.Ipc

open Prog Mailbox

/-! ## The specification of a call -/

abbrev Box := Mailbox Nat (List UInt8)
abbrev BoxLabel := Mailbox.Label Nat (List UInt8)

/-- The descriptor of a sending call. -/
def MsgCall.sends : MsgCall → Option (Option MsgDesc)
  | .ipcSend msg | .sysSend msg => some msg
  | _ => none

/-- The arguments of a reading call. -/
def MsgCall.reads : MsgCall → Option (UInt32 × UInt32 × Option MsgDesc)
  | .ipcRead msgId offset msg | .sysRead msgId offset msg => some (msgId, offset, msg)
  | _ => none

/-- Whether a call obtains messages. -/
def MsgCall.gets : MsgCall → Bool
  | .ipcGet | .sysGet _ => true
  | _ => false

/-- A call on one end: its result, and what happens to the caller's own
mailbox and to the peer's, when items hold `sz` bytes. -/
inductive CallSpec (sz : Nat) (own peer : Box) :
    MsgCall → MsgResult → List BoxLabel → List BoxLabel → Prop
  /-- a message is sent, cut off at `sz` bytes -/
  | sent {call : MsgCall} {msg : MsgDesc} :
      call.sends = some (some msg) → peer.unretired < peer.capacity →
      CallSpec sz own peer call (.ret ((payload msg).take sz).length) []
        [.send ((payload msg).take sz)]
  /-- a send fails: nothing is sent -/
  | notSent {call : MsgCall} {msg : Option MsgDesc} {r : Int} :
      call.sends = some msg → r < 0 → CallSpec sz own peer call (.ret r) [] []
  /-- the oldest message is obtained -/
  | got {call : MsgCall} {info : MsgInfo} {m : List UInt8} {rest : List (List UInt8)} :
      call.gets = true → own.waiting = m :: rest → info.len.toNat = m.length →
      CallSpec sz own peer call (.info 0 (some info)) [.get info.id.toNat m] []
  /-- no message waits -/
  | noMsg {call : MsgCall} :
      call.gets = true → own.waiting = [] →
      CallSpec sz own peer call (.info errNoMsg none) [] []
  /-- the message information cannot be copied to user space -/
  | infoFault : CallSpec sz own peer (.sysGet false) (.info errFault none) [] []
  /-- a held message is copied out, from the offset on -/
  | read {call : MsgCall} {msgId offset : UInt32} {msg : MsgDesc} {m : List UInt8} :
      call.reads = some (msgId, offset, some msg) → own.look msgId.toNat = some m →
      offset.toNat ≤ m.length →
      CallSpec sz own peer call
        (.bytes (copyOut (m.drop offset.toNat) msg).1 (copyOut (m.drop offset.toNat) msg).2) [] []
  /-- a read fails before anything is copied: the identifier is not held, the
  offset is behind the message, or there is no descriptor -/
  | notRead {call : MsgCall} {msgId offset : UInt32} {msg : Option MsgDesc} {r : Int} :
      call.reads = some (msgId, offset, msg) →
      (∀ m d, own.look msgId.toNat = some m → msg = some d → m.length < offset.toNat) → r < 0 →
      CallSpec sz own peer call (.bytes r []) [] []
  /-- an identifier is retired -/
  | retired {msgId : UInt32} : (own.look msgId.toNat).isSome →
      CallSpec sz own peer (.put msgId) (.ret 0) [.put msgId.toNat] []
  /-- an identifier is not held -/
  | notRetired {msgId : UInt32} : own.look msgId.toNat = none →
      CallSpec sz own peer (.put msgId) (.ret errInvalidArgs) [] []

/-! ## A connected pair -/

/-- Channel `c` is connected to `d` and has the queue `mq`. -/
structure Connected (s : Registry) (c d : ChanId) (mq : MsgQueue) (C : Chan) : Prop where
  live : s.chans c = some C
  state : C.state = .connected
  peer : C.peer = some d
  queue : C.msgQueue = some mq

/-- `c` and `d` are connected to each other; the queues satisfy their
invariant, with `num` items of `sz` bytes. -/
structure Pair (s : Registry) (num sz : Nat) (c d : ChanId) (mq mq' : MsgQueue) : Prop where
  ne : c ≠ d
  own : ∃ C, Connected s c d mq C
  other : ∃ D, Connected s d c mq' D
  inv : mq.Inv
  inv' : mq'.Inv
  numItems : mq.numItems = num
  numItems' : mq'.numItems = num
  itemSz : mq.itemSz = sz
  itemSz' : mq'.itemSz = sz

variable {s : Registry} {num sz : Nat} {c d : ChanId} {mq mq' : MsgQueue}

theorem Pair.symm (h : Pair s num sz c d mq mq') : Pair s num sz d c mq' mq :=
  ⟨h.ne.symm, h.other, h.own, h.inv', h.inv, h.numItems', h.numItems, h.itemSz', h.itemSz⟩

/-- What a call on `c` leaves behind. -/
def CallPost (num sz : Nat) (c d : ChanId) (mq mq' : MsgQueue) (call : MsgCall) (r : MsgResult)
    (s : Registry) : Prop :=
  ∃ nq nq' ls ls', Pair s num sz c d nq nq' ∧ CallSpec sz mq.mailbox mq'.mailbox call r ls ls' ∧
    Run mq.mailbox ls nq.mailbox ∧ Run mq'.mailbox ls' nq'.mailbox

/-- The auxiliary state is no part of it. -/
theorem Pair.setAux (h : Pair s num sz c d mq mq') {C : Chan} (hC : s.chans c = some C)
    (aux : AuxState) : Pair (s.setChan c { C with auxState := aux }) num sz c d mq mq' := by
  obtain ⟨C', hC'⟩ := h.own
  obtain ⟨D, hD⟩ := h.other
  obtain rfl : C = C' := Option.some.inj (hC.symm.trans hC'.live)
  refine { h with own := ⟨{ C with auxState := aux }, by simp, hC'.state, hC'.peer, hC'.queue⟩,
                  other := ⟨D, ?_, ?_, ?_, ?_⟩ }
  · simp [h.ne.symm, hD.live]
  · exact hD.state
  · exact hD.peer
  · exact hD.queue

/-- The queue of `c` is replaced. -/
theorem Pair.setQueue (h : Pair s num sz c d mq mq') {C : Chan} (hC : s.chans c = some C)
    {nq : MsgQueue} (hinv : nq.Inv) (hnum : nq.numItems = num) (hsz : nq.itemSz = sz) :
    Pair (s.setChan c { C with msgQueue := some nq }) num sz c d nq mq' := by
  obtain ⟨C', hC'⟩ := h.own
  obtain ⟨D, hD⟩ := h.other
  obtain rfl : C = C' := Option.some.inj (hC.symm.trans hC'.live)
  refine { h with own := ⟨{ C with msgQueue := some nq }, by simp, hC'.state, hC'.peer, rfl⟩,
                  other := ⟨D, ?_, ?_, ?_, ?_⟩, inv := hinv, numItems := hnum, itemSz := hsz }
  · simp [h.ne.symm, hD.live]
  · exact hD.state
  · exact hD.peer
  · exact hD.queue

/-! ## Each call -/

theorem MsgQueue.fill_size (mq : MsgQueue) (i : Nat) (msg : MsgDesc) :
    (mq.fill i msg).2.numItems = mq.numItems ∧ (mq.fill i msg).2.itemSz = mq.itemSz := by
  simp only [MsgQueue.fill]
  split <;> exact ⟨rfl, rfl⟩

theorem MsgQueue.getFilled_size {mq mq' : MsgQueue} (h : mq.getFilled = some mq') :
    mq'.numItems = mq.numItems ∧ mq'.itemSz = mq.itemSz := by
  cases hf : mq.filledList with
  | nil => simp [MsgQueue.getFilled, hf] at h
  | cons i rest =>
      simp only [MsgQueue.getFilled, hf, Option.some.injEq] at h
      subst h
      exact ⟨rfl, rfl⟩

theorem MsgQueue.putRead_size {mq mq' : MsgQueue} {msgId : UInt32}
    (h : mq.putRead msgId = some mq') :
    mq'.numItems = mq.numItems ∧ mq'.itemSz = mq.itemSz := by
  cases hi : mq.getItem msgId with
  | none => simp [MsgQueue.putRead, hi] at h
  | some i =>
      simp only [MsgQueue.putRead, hi] at h
      split at h
      · cases h
      · cases h
        exact ⟨rfl, rfl⟩

theorem wp_sendMsgLocked (h : Pair s num sz c d mq mq') {call : MsgCall} {msg : MsgDesc}
    (hcall : call.sends = some (some msg)) :
    wp (sendMsgLocked (some (.chan c)) msg) (fun r => CallPost num sz c d mq mq' call (.ret r))
      (fun _ _ => False) s := by
  obtain ⟨C, hC⟩ := h.own
  obtain ⟨D, hD⟩ := h.other
  simp only [sendMsgLocked, checkChannelLocked, msgWriteLocked, getQueue, wp_bind, wp_getChan,
    hC.live, hC.state, hC.peer, hD.live, hD.queue, Option.elim_some, wp_pure]
  cases hfree : mq'.freeList with
  | nil =>
      simp only [wp_bind, wp_modifyChan, hC.live, Option.elim_some, wp_pure]
      exact ⟨mq, mq', [], [], h.setAux hC.live _, .notSent hcall (by decide), .nil _, .nil _⟩
  | cons item rest =>
      obtain ⟨hinv, hspec⟩ := h.inv'.fill hfree msg
      obtain ⟨hnum, hsz⟩ := MsgQueue.fill_size mq' item msg
      have hpair := (h.symm.setQueue hD.live hinv (hnum.trans h.numItems')
        (hsz.trans h.itemSz')).symm
      have hne : c ≠ d := h.ne
      simp only [setQueue, wp_bind, wp_modifyChan, hD.live, Option.elim_some, wp_pure, wp_ite,
        wp_getChan, Registry.setChan_chans, hne, if_false, hC.live, hC.peer,
        wp_handleNotify_chan, if_true, ite_self]
      rcases hspec with ⟨hneg, hbox⟩ | ⟨hret, hbox⟩
      · refine ⟨mq, _, [], [], hpair, .notSent hcall hneg, .nil _, ?_⟩
        rw [hbox]
        exact .nil _
      · rw [hret]
        have hroom : mq'.mailbox.unretired < mq'.mailbox.capacity := by
          have := h.inv'.unretired
          rw [hfree, List.length_cons] at this
          omega
        refine ⟨mq, _, [], [.send ((payload msg).take sz)], hpair, ?_, .nil _, ?_⟩
        · rw [h.itemSz']
          exact .sent hcall hroom
        · rw [hbox, h.itemSz']
          exact .cons (.send hroom) (.nil _)

theorem wp_sysGetMsg (h : Pair s num sz c d mq mq') (hsz : sz ≤ ipcChanMaxBufSize)
    {call : MsgCall} {copied : Bool} (hcall : call.gets = true)
    (hcopied : copied = false → call = .sysGet false) :
    wp (sysGetMsg (some (.chan c)) copied)
      (fun r => CallPost num sz c d mq mq' call (.info r.1 r.2)) (fun _ _ => False) s := by
  obtain ⟨C, hC⟩ := h.own
  have hsz' : mq.itemSz < 2 ^ 32 := by
    rw [h.itemSz]
    exact Nat.lt_of_le_of_lt hsz (by decide)
  have hspec := h.inv.getFilled hsz'
  simp only [sysGetMsg, checkChannelLocked, getQueue, wp_bind, wp_getChan, hC.live, hC.queue,
    Option.elim_some, wp_pure]
  cases hpeek : mq.peekNextFilled with
  | none =>
      cases hget : mq.getFilled with
      | some nq => simp [hpeek, hget] at hspec
      | none =>
          simp only [hpeek, hget] at hspec
          exact ⟨mq, mq', [], [], h, .noMsg hcall hspec, .nil _, .nil _⟩
  | some info =>
      cases copied with
      | false =>
          rw [hcopied rfl]
          exact ⟨mq, mq', [], [], h, .infoFault, .nil _, .nil _⟩
      | true =>
          cases hget : mq.getFilled with
          | none => simp [hpeek, hget] at hspec
          | some nq =>
              simp only [hpeek, hget] at hspec
              obtain ⟨hinv, m, rest, hw, hlen, hlook, hbox⟩ := hspec
              obtain ⟨hnum, hsize⟩ := MsgQueue.getFilled_size hget
              have hpair := h.setQueue hC.live hinv (hnum.trans h.numItems) (hsize.trans h.itemSz)
              simp only [Bool.not_true, Bool.false_eq_true, if_false, setQueue, wp_bind,
                wp_modifyChan, hC.live, Option.elim_some, wp_pure]
              refine ⟨nq, mq', [.get info.id.toNat m], [], hpair, .got hcall hw hlen, ?_, .nil _⟩
              rw [hbox]
              exact .cons (.get hw hlook) (.nil _)

theorem wp_readMsgLocked (h : Pair s num sz c d mq mq') {call : MsgCall} {msgId offset : UInt32}
    {msg : MsgDesc} (hcall : call.reads = some (msgId, offset, some msg)) :
    wp (readMsgLocked (some (.chan c)) msgId offset msg)
      (fun r => CallPost num sz c d mq mq' call (.bytes r.1 r.2)) (fun _ _ => False) s := by
  obtain ⟨C, hC⟩ := h.own
  simp only [readMsgLocked, checkChannelLocked, getQueue, wp_bind, wp_getChan, hC.live, hC.queue,
    Option.elim_some, wp_pure]
  refine ⟨mq, mq', [], [], h, ?_, .nil _, .nil _⟩
  rw [h.inv.read]
  cases hlook : mq.mailbox.look msgId.toNat with
  | none =>
      exact .notRead hcall (fun m _ hm => by simp [hlook] at hm) (show errInvalidArgs < 0 by decide)
  | some m =>
      by_cases hoff : m.length < offset.toNat
      · simp only [hoff, if_true]
        refine .notRead hcall (fun m' _ hm _ => ?_) (by decide)
        obtain rfl : m = m' := Option.some.inj (hlook.symm.trans hm)
        exact hoff
      · simp only [hoff, if_false]
        exact .read hcall hlook (Nat.not_lt.mp hoff)

theorem wp_ipcPutMsg (h : Pair s num sz c d mq mq') (msgId : UInt32) :
    wp (ipcPutMsg (some (.chan c)) msgId)
      (fun r => CallPost num sz c d mq mq' (.put msgId) (.ret r)) (fun _ _ => False) s := by
  obtain ⟨C, hC⟩ := h.own
  obtain ⟨D, hD⟩ := h.other
  have hspec := h.inv.putRead msgId
  simp only [ipcPutMsg, checkChannelLocked, getQueue, wp_bind, wp_getChan, hC.live, hC.queue,
    Option.elim_some, wp_pure]
  cases hput : mq.putRead msgId with
  | none =>
      simp only [hput] at hspec
      exact ⟨mq, mq', [], [], h, .notRetired hspec, .nil _, .nil _⟩
  | some nq =>
      simp only [hput] at hspec
      obtain ⟨hinv, hheld, hbox⟩ := hspec
      obtain ⟨hnum, hsize⟩ := MsgQueue.putRead_size hput
      have hpair := h.setQueue hC.live hinv (hnum.trans h.numItems) (hsize.trans h.itemSz)
      have hrun : Run mq.mailbox [.put msgId.toNat] nq.mailbox := by
        rw [hbox]
        exact .cons (.put hheld) (.nil _)
      have hdc : d ≠ c := h.ne.symm
      have hD' : (s.setChan c { C with peer := some d, msgQueue := some nq }).chans d = some D := by
        simp [hdc, hD.live]
      simp only [setQueue, wp_bind, wp_modifyChan, hC.live, Option.elim_some, wp_getChan,
        Registry.setChan_chans, if_true, hC.peer, hdc, if_false, hD.live, wp_ite,
        wp_handleNotify_chan, wp_pure]
      rw [hC.peer] at hpair
      split
      · exact ⟨nq, mq', _, [], (hpair.symm.setAux hD' _).symm, .retired hheld, hrun, .nil _⟩
      · exact ⟨nq, mq', _, [], hpair, .retired hheld, hrun, .nil _⟩

/-- A call on one end of a connected pair returns, and does what `CallSpec`
says. -/
theorem wp_msgCall (h : Pair s num sz c d mq mq') (hsz : sz ≤ ipcChanMaxBufSize) (call : MsgCall) :
    wp (call.run (some (.chan c))) (CallPost num sz c d mq mq' call) (fun _ _ => False) s := by
  have hunchanged : ∀ r, CallSpec sz mq.mailbox mq'.mailbox call r [] [] →
      CallPost num sz c d mq mq' call r s := fun r hr =>
    ⟨mq, mq', [], [], h, hr, .nil _, .nil _⟩
  cases call with
  | ipcSend msg =>
      cases msg with
      | none => exact hunchanged _ (.notSent rfl (by decide))
      | some msg => exact (wp_map _ _).mpr (wp_sendMsgLocked h rfl)
  | sysSend msg =>
      cases msg with
      | none => exact hunchanged _ (.notSent rfl (by decide))
      | some msg => exact (wp_map _ _).mpr (wp_sendMsgLocked h rfl)
  | ipcGet => exact (wp_map _ _).mpr (wp_sysGetMsg h hsz rfl nofun)
  | sysGet copied => exact (wp_map _ _).mpr (wp_sysGetMsg h hsz rfl fun hc => hc ▸ rfl)
  | ipcRead msgId offset msg =>
      cases msg with
      | none => exact hunchanged _ (.notRead rfl (fun _ _ _ h => nomatch h) (by decide))
      | some msg => exact (wp_map _ _).mpr (wp_readMsgLocked h rfl)
  | sysRead msgId offset msg =>
      cases msg with
      | none => exact hunchanged _ (.notRead rfl (fun _ _ _ h => nomatch h) (by decide))
      | some msg => exact (wp_map _ _).mpr (wp_readMsgLocked h rfl)
  | put msgId => exact (wp_map _ _).mpr (wp_ipcPutMsg h msgId)

/-! ## Runs -/

/-- An end of the pair. -/
inductive Side where
  | one
  | other
deriving DecidableEq

def Side.chan (c d : ChanId) : Side → ChanId
  | .one => c
  | .other => d

/-- Calls made on the two ends of the pair, one after the other. -/
def runCalls (c d : ChanId) : List (Side × MsgCall) → IpcM (List MsgResult)
  | [] => return []
  | (side, call) :: rest => do
      let r ← call.run (some (.chan (side.chan c d)))
      let rs ← runCalls c d rest
      return r :: rs

/-- A run of calls on two mailboxes, the one of `.one` first. -/
inductive RunSpec (sz : Nat) : Box → Box → List (Side × MsgCall) → List MsgResult →
    List BoxLabel → List BoxLabel → Box → Box → Prop
  | nil (b b' : Box) : RunSpec sz b b' [] [] [] [] b b'
  | one {b b₁ b₂ b' b₁' b₂' : Box} {call : MsgCall} {r : MsgResult} {calls : List (Side × MsgCall)}
      {rs : List MsgResult} {l l' ls ls' : List BoxLabel} :
      CallSpec sz b b' call r l l' → Run b l b₁ → Run b' l' b₁' →
      RunSpec sz b₁ b₁' calls rs ls ls' b₂ b₂' →
      RunSpec sz b b' ((.one, call) :: calls) (r :: rs) (l ++ ls) (l' ++ ls') b₂ b₂'
  | other {b b₁ b₂ b' b₁' b₂' : Box} {call : MsgCall} {r : MsgResult}
      {calls : List (Side × MsgCall)} {rs : List MsgResult} {l l' ls ls' : List BoxLabel} :
      CallSpec sz b' b call r l' l → Run b l b₁ → Run b' l' b₁' →
      RunSpec sz b₁ b₁' calls rs ls ls' b₂ b₂' →
      RunSpec sz b b' ((.other, call) :: calls) (r :: rs) (l ++ ls) (l' ++ ls') b₂ b₂'

/-- The bytes that the successful sends of one end stored, in order. -/
def sentBy (side : Side) (sz : Nat) : List (Side × MsgCall) → List MsgResult → List (List UInt8)
  | (side', call) :: calls, r :: rs =>
      match call.sends, r with
      | some (some msg), .ret n =>
          if side' = side ∧ 0 ≤ n then (payload msg).take sz :: sentBy side sz calls rs
          else sentBy side sz calls rs
      | _, _ => sentBy side sz calls rs
  | _, _ => []

theorem CallSpec.sends_own {own peer : Box} {call : MsgCall} {r : MsgResult}
    {l l' : List BoxLabel} (h : CallSpec sz own peer call r l l') : Mailbox.sent l = [] := by
  cases h <;> rfl

theorem CallSpec.sends_peer {own peer : Box} {call : MsgCall} {r : MsgResult}
    {l l' : List BoxLabel} (h : CallSpec sz own peer call r l l') (side : Side)
    (calls : List (Side × MsgCall)) (rs : List MsgResult) :
    sentBy side sz ((side, call) :: calls) (r :: rs) = Mailbox.sent l' ++ sentBy side sz calls rs := by
  have hnot : ∀ call : MsgCall, call.gets = true ∨ (∃ x, call.reads = some x) ∨ (∃ i, call = .put i) →
      call.sends = none := by
    intro call hcall
    cases call <;> simp_all [MsgCall.gets, MsgCall.reads, MsgCall.sends]
  cases h with
  | sent hs _ => simp [sentBy, hs, Mailbox.sent]
  | @notSent call msg r hs hr =>
      cases msg with
      | none => simp [sentBy, hs, Mailbox.sent]
      | some msg => simp [sentBy, hs, Mailbox.sent, Int.not_le.mpr hr]
  | got hg _ _ => simp [sentBy, hnot _ (Or.inl hg), Mailbox.sent]
  | noMsg hg _ => simp [sentBy, hnot _ (Or.inl hg), Mailbox.sent]
  | infoFault => rfl
  | read hr _ _ => simp [sentBy, hnot _ (Or.inr (Or.inl ⟨_, hr⟩)), Mailbox.sent]
  | notRead hr _ _ => simp [sentBy, hnot _ (Or.inr (Or.inl ⟨_, hr⟩)), Mailbox.sent]
  | retired _ => rfl
  | notRetired _ => rfl

theorem sentBy_cons_ne {side side' : Side} (h : side' ≠ side) (call : MsgCall) (r : MsgResult)
    (calls : List (Side × MsgCall)) (rs : List MsgResult) :
    sentBy side sz ((side', call) :: calls) (r :: rs) = sentBy side sz calls rs := by
  simp only [sentBy, h, false_and, if_false]
  split <;> rfl

variable {b b' e e' : Box} {calls : List (Side × MsgCall)} {rs : List MsgResult}
  {ls ls' : List BoxLabel}

/-- Each direction of a run is a run of its mailbox, and what was sent there is
what the other end sent. -/
theorem RunSpec.directions (h : RunSpec sz b b' calls rs ls ls' e e') :
    Run b ls e ∧ Run b' ls' e' ∧
      sent ls = sentBy .other sz calls rs ∧ sent ls' = sentBy .one sz calls rs := by
  induction h with
  | nil b b' => exact ⟨.nil b, .nil b', rfl, rfl⟩
  | one hcall hown hpeer _ ih =>
      obtain ⟨hrun, hrun', hsent, hsent'⟩ := ih
      refine ⟨hown.append hrun, hpeer.append hrun', ?_, ?_⟩
      · rw [sent_append, hcall.sends_own, hsent, sentBy_cons_ne (by decide)]
        rfl
      · rw [sent_append, hsent', hcall.sends_peer]
  | other hcall hown hpeer _ ih =>
      obtain ⟨hrun, hrun', hsent, hsent'⟩ := ih
      refine ⟨hown.append hrun, hpeer.append hrun', ?_, ?_⟩
      · rw [sent_append, hsent, hcall.sends_peer]
      · rw [sent_append, hcall.sends_own, hsent', sentBy_cons_ne (by decide)]
        rfl

/-- One direction of a run, from the queue that was created for it. -/
structure DirectionRefines (num : Nat) (mq : MsgQueue) (ls : List BoxLabel) : Prop where
  /-- each item is in one list, with the matching state field -/
  inv : mq.Inv
  run : Run (Mailbox.empty num) ls mq.mailbox
  /-- messages are obtained in the order they were sent, each once -/
  fifo : sent ls = obtained ls ++ mq.mailbox.waiting
  /-- a message is held unchanged until its identifier is retired -/
  stable : ∀ ls₁ ls₂ b, ls = ls₁ ++ ls₂ → Run (Mailbox.empty num) ls₁ b →
    ∀ i m, b.look i = some m → Label.put i ∉ ls₂ → mq.mailbox.look i = some m
  room : mq.mailbox.unretired ≤ num

theorem DirectionRefines.mk_of_run {num : Nat} {mq : MsgQueue} (hinv : mq.Inv)
    (hrun : Run (Mailbox.empty num) ls mq.mailbox) : DirectionRefines num mq ls := by
  have hroom := hrun.room (Nat.zero_le _)
  have hcap : mq.mailbox.capacity = num := hrun.capacity
  refine ⟨hinv, hrun, by simpa [Mailbox.empty] using hrun.fifo, ?_, hcap ▸ hroom⟩
  rintro ls₁ ls₂ b rfl hrun₁ i m hi hput
  exact (hrun₁.drop hrun).look_eq hi hput

/-- The run lemma: from any connected pair. -/
theorem wp_runCalls (hsz : sz ≤ ipcChanMaxBufSize) :
    ∀ {calls : List (Side × MsgCall)} {s : Registry} {mq mq' : MsgQueue},
      Pair s num sz c d mq mq' →
      wp (runCalls c d calls) (fun rs t => ∃ nq nq' ls ls', Pair t num sz c d nq nq' ∧
        RunSpec sz mq.mailbox mq'.mailbox calls rs ls ls' nq.mailbox nq'.mailbox)
        (fun _ _ => False) s
  | [], s, mq, mq', h => ⟨mq, mq', [], [], h, .nil _ _⟩
  | (side, call) :: calls, s, mq, mq', h => by
      simp only [runCalls, wp_bind]
      cases side with
      | one =>
          refine wp_conseq (wp_msgCall h hsz call) fun r t hr => ?_
          obtain ⟨nq, nq', l, l', hpair, hcall, hown, hpeer⟩ := hr
          simp only [wp_bind]
          refine wp_conseq (wp_runCalls hsz hpair) fun rs t' hrs => ?_
          obtain ⟨eq, eq', ls, ls', hpair', hrun⟩ := hrs
          exact ⟨eq, eq', _, _, hpair', .one hcall hown hpeer hrun⟩
      | other =>
          refine wp_conseq (wp_msgCall h.symm hsz call) fun r t hr => ?_
          obtain ⟨nq', nq, l', l, hpair, hcall, hown, hpeer⟩ := hr
          simp only [wp_bind]
          refine wp_conseq (wp_runCalls hsz hpair.symm) fun rs t' hrs => ?_
          obtain ⟨eq, eq', ls, ls', hpair', hrun⟩ := hrs
          exact ⟨eq, eq', _, _, hpair', .other hcall hpeer hown hrun⟩

/-- Any calls on the two ends of a newly connected pair: they all return, each
call does what `CallSpec` says, and each direction is a run of a bounded
first-in first-out mailbox, into which went what the other end sent. -/
theorem msgCalls_refine {buf buf' : Nat → UInt8} {C D : Chan} (hnum : num ≤ ipcChanMaxBufs)
    (hsz : sz ≤ ipcChanMaxBufSize) (hne : c ≠ d)
    (hc : Connected s c d (MsgQueue.create num sz buf) C)
    (hd : Connected s d c (MsgQueue.create num sz buf') D) (calls : List (Side × MsgCall)) :
    ∃ rs t, runCalls c d calls s = .ok rs t ∧
      ∃ mq mq' ls ls', (∃ C, Connected t c d mq C) ∧ (∃ D, Connected t d c mq' D) ∧
        RunSpec sz (Mailbox.empty num) (Mailbox.empty num) calls rs ls ls' mq.mailbox mq'.mailbox ∧
        DirectionRefines num mq ls ∧ DirectionRefines num mq' ls' ∧
        sent ls = sentBy .other sz calls rs ∧ sent ls' = sentBy .one sz calls rs := by
  have hnum' : num ≤ 256 := Nat.le_trans hnum (by decide)
  obtain ⟨-, -, -, hnumC, hszC, -⟩ := MsgQueue.create_lists num sz buf num
  obtain ⟨-, -, -, hnumD, hszD, -⟩ := MsgQueue.create_lists num sz buf' num
  have hpair : Pair s num sz c d (MsgQueue.create num sz buf) (MsgQueue.create num sz buf') :=
    ⟨hne, ⟨C, hc⟩, ⟨D, hd⟩, MsgQueue.inv_create hnum' sz buf, MsgQueue.inv_create hnum' sz buf',
      hnumC, hnumD, hszC, hszD⟩
  obtain ⟨rs, t, hrun, mq, mq', ls, ls', hpair', hspec⟩ :=
    wp_total (@wp_runCalls _ _ _ _ hsz calls _ _ _ hpair)
  rw [MsgQueue.mailbox_create, MsgQueue.mailbox_create] at hspec
  obtain ⟨hdir, hdir', hsent, hsent'⟩ := hspec.directions
  exact ⟨rs, t, hrun, mq, mq', ls, ls', hpair'.own, hpair'.other, hspec,
    .mk_of_run hpair'.inv hdir, .mk_of_run hpair'.inv' hdir', hsent, hsent'⟩

/-- A channel connected to `peer`, with one item of 4096 bytes. -/
def connectedChan (peer : ChanId) (flags : UInt32) : Chan where
  refobj := {.handle, .peer peer}
  peer := some peer
  uuid := some (.app 0)
  state := .connected
  flags := flags
  auxState := ⟨false, false, false⟩
  handle := .init
  node := none
  msgQueue := some (MsgQueue.create 1 4096 fun _ => 0)
  path := none

/-- A client `0` connected to a server `1`. -/
def connectedPair : Registry :=
  ({ Registry.empty with nextChan := 2 }.setChan 0 (connectedChan 1 0)).setChan 1
    (connectedChan 0 ipcChanFlagServer)

/-- The client sends two messages to one buffer; the server obtains one. -/
def exchange : List (Side × MsgCall) :=
  [(.one, .sysSend (some (.user [.mapped 2 [0x56, 0x00]] 0))),
    (.one, .ipcSend (some (.kern false [.mem [0x11]] 0))), (.other, .sysGet true)]

theorem msgCalls_refine_exchange :
    ∃ rs t, runCalls 0 1 exchange connectedPair = .ok rs t ∧
      ∃ mq mq' ls ls', (∃ C, Connected t 0 1 mq C) ∧ (∃ D, Connected t 1 0 mq' D) ∧
        RunSpec 4096 (Mailbox.empty 1) (Mailbox.empty 1) exchange rs ls ls' mq.mailbox mq'.mailbox ∧
        DirectionRefines 1 mq ls ∧ DirectionRefines 1 mq' ls' ∧
        sent ls = sentBy .other 4096 exchange rs ∧ sent ls' = sentBy .one 4096 exchange rs :=
  msgCalls_refine (C := connectedChan 1 0) (D := connectedChan 0 ipcChanFlagServer)
    (by decide) (by decide) (by decide) ⟨rfl, rfl, rfl, rfl⟩ ⟨rfl, rfl, rfl, rfl⟩ exchange

end TX2SecureUart.Ipc
