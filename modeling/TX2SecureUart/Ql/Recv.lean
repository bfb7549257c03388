/-
# `Ql.Recv` — what RECV delivers

An application sends on its end of a channel, the non-secure world receives
through the device.  A message is taken from the queue before its size is
compared with the room in the shared buffer, and it is retired in any case: a
message that does not fit is lost.
-/
import TX2SecureUart.Ql.Runs
import TX2SecureUart.Ipc.MsgRefine

namespace TX2SecureUart.Ql

open Prog Ipc

/-! ## Actions on a channel -/

/-- The bytes of the shared buffer that a message has. -/
def QlTipcDev.room (dev : QlTipcDev) : Nat := dev.nsSz.toNat - sizeofTipcCmdHdr

/-- What the queue of a channel stands for. -/
def boxOf (reg : Registry) (c : ChanId) : Option Box :=
  ((reg.chans c).bind (·.msgQueue)).map MsgQueue.mailbox

/-- The application calls on its end, and the device sends and receives. -/
inductive ChanAction where
  | app (call : MsgCall)
  | send (payloadLen : UInt32)
  | recv

inductive Outcome where
  | app (r : MsgResult)
  | dev (rc : Int)
deriving DecidableEq

/-- One action, at the address `addr` of the device or on the other end `d`. -/
def ChanAction.run (addr : UInt32) (d : ChanId) : ChanAction → QlM Outcome
  | .app call => .app <$> onReg (call.run (some (.chan d)))
  | .send payloadLen => .dev <$> devSend payloadLen addr
  | .recv => .dev <$> devRecv addr

/-- What the application sent, as much as an item holds. -/
def ChanAction.sent (sz : Nat) : ChanAction → Outcome → List (List UInt8)
  | .app call, .app r => sentBy .other sz [(.other, call)] [r]
  | _, _ => []

/-- What a RECV that reports no error has put into the buffer. -/
def ChanAction.delivered (mem : Nat → UInt8) : ChanAction → Outcome → List (List UInt8)
  | .recv, .dev rc => if 0 ≤ rc then [bytesAt mem sizeofTipcCmdHdr rc.toNat] else []
  | _, _ => []

/-- One action after the other: what was sent, and what was delivered. -/
def runActions (addr : UInt32) (d : ChanId) (sz : Nat) :
    List ChanAction → QlM (List (List UInt8) × List (List UInt8))
  | [] => return ([], [])
  | a :: rest => do
      let o ← a.run addr d
      let mem := (← get).mem
      let r ← runActions addr d sz rest
      return (a.sent sz o ++ r.1, a.delivered mem o ++ r.2)

/-- Each action of a run, in the state it is taken in. -/
def AllSteps (addr : UInt32) (d : ChanId) (P : ChanAction → QlState → Prop) :
    QlState → List ChanAction → Prop
  | _, [] => True
  | s, a :: rest => P a s ∧ ∀ o t, a.run addr d s = .ok o t → AllSteps addr d P t rest

/-- Nothing is lost, repeated or reordered in one action, and a RECV that
reports an error leaves the queue alone. -/
def StepDelivers (addr : UInt32) (c d : ChanId) (sz : Nat) (a : ChanAction) (s : QlState) : Prop :=
  ∀ o t b b', a.run addr d s = .ok o t → boxOf s.reg c = some b → boxOf t.reg c = some b' →
    b.waiting ++ a.sent sz o = a.delivered t.mem o ++ b'.waiting ∧
      (a = .recv → (∃ rc, o = .dev rc ∧ rc < 0) → b' = b)

/-- A RECV finds no message, or one that fits. -/
def RecvFits (c : ChanId) (a : ChanAction) (s : QlState) : Prop :=
  a = .recv → ∀ b m rest, boxOf s.reg c = some b → b.waiting = m :: rest →
    m.length ≤ s.dev.room

/-! ## One action -/

/-- What a RECV does to the queue. -/
inductive Received (room : Nat) (b : Box) (rc : Int) (mem : Nat → UInt8) (b' : Box) : Prop
  | noMsg : b.waiting = [] → rc = errNoMsg → b' = b → Received room b rc mem b'
  | whole {m : List UInt8} {rest : List (List UInt8)} :
      b.waiting = m :: rest → m.length ≤ room → b' = { b with waiting := rest } →
      rc = m.length → bytesAt mem sizeofTipcCmdHdr m.length = m → Received room b rc mem b'
  | lost {m : List UInt8} {rest : List (List UInt8)} :
      b.waiting = m :: rest → room < m.length → b' = { b with waiting := rest } →
      rc = errBadLen → Received room b rc mem b'

/-- The device has the channel at `addr`, and it is connected to `d`. -/
structure Serves (addr : UInt32) (c d : ChanId) (num sz : Nat) (b : Box) (s : QlState) : Prop where
  target : ∃ slot, s.dev.target addr = some (slot, c)
  pair : ∃ mq mq', Pair s.reg num sz c d mq mq' ∧ mq.mailbox = b

section

variable {addr : UInt32} {c d : ChanId} {num sz : Nat} {b : Box} {s t : QlState}
  {mq mq' : MsgQueue} {bytes : List UInt8}

theorem boxOf_pair {reg : Registry} (h : Pair reg num sz c d mq mq') :
    boxOf reg c = some mq.mailbox := by
  obtain ⟨C, hC⟩ := h.own
  rw [boxOf, hC.live, Option.bind_some, hC.queue, Option.map_some]

theorem Serves.boxOf (h : Serves addr c d num sz b s) : boxOf s.reg c = some b := by
  obtain ⟨mq, mq', hpair, hbox⟩ := h.pair
  rw [boxOf_pair hpair, hbox]

/-- Behind the header, a message that was stored is found again. -/
theorem bytesAt_store (mem : Nat → UInt8) (m : List UInt8) {a₀ a₄ a₁₂ : List UInt8}
    (h₀ : a₀.length = 2) (h₄ : a₄.length = 4) (h₁₂ : a₁₂.length = 4) :
    bytesAt (Ipc.write (Ipc.write (Ipc.write (Ipc.write mem sizeofTipcCmdHdr m) 4 a₄) 12 a₁₂) 0 a₀)
      sizeofTipcCmdHdr m.length = m := by
  rw [bytesAt_write_of_disjoint, bytesAt_write_of_disjoint, bytesAt_write_of_disjoint,
    bytesAt_write]
  · exact .inr (by rw [h₄, sizeofTipcCmdHdr]; decide)
  · exact .inr (by rw [h₁₂, sizeofTipcCmdHdr])
  · exact .inr (by rw [h₀, sizeofTipcCmdHdr]; decide)

/-- A message is copied to one entry as far as it fits. -/
theorem copyOut_one (m room : List UInt8) (hroom : room ≠ []) :
    copyOut m (.kern false [.mem room] 0) =
      (((min m.length room.length : Nat) : Int), m.take (min m.length room.length)) := by
  have hpos : 0 < room.length := List.length_pos_of_ne_nil hroom
  simp only [copyOut, membufToKernIovec, toKernLoop, List.length_singleton]
  by_cases hm : m.length = 0
  · rw [if_neg (by decide), if_pos (.inr hm), List.length_eq_zero_iff.mp hm]
    simp
  · have hne : min m.length room.length ≠ 0 := by omega
    rw [if_neg (by decide), if_neg (by omega), if_neg (by decide), if_neg hne]
    split
    · simp
    · simp

/-- An identifier that is retired as soon as it is obtained. -/
theorem held_put {held : List (Nat × List UInt8)} {i : Nat} {m : List UInt8}
    (h : held.lookup i = none) : (held ++ [(i, m)]).filter (fun x => x.1 != i) = held := by
  rw [List.filter_append]
  have hold : held.filter (fun x => x.1 != i) = held := by
    apply List.filter_eq_self.mpr
    intro x hx
    rw [bne_comm]
    exact List.lookup_eq_none_iff.mp h x hx
  rw [hold]
  simp

/-- A message that is held is what is read. -/
theorem read_held {own peer : Box} {id : UInt32} {msg : MsgDesc} {m stored : List UInt8} {rc : Int}
    {ls ls' : List BoxLabel} (hlook : own.look id.toNat = some m)
    (h : CallSpec sz own peer (.ipcRead id 0 (some msg)) (.bytes rc stored) ls ls') :
    (rc, stored) = copyOut m msg ∧ ls = [] := by
  cases h with
  | read hcall hlook' _ =>
      cases hcall
      obtain rfl := Option.some.inj (hlook.symm.trans hlook')
      exact ⟨rfl, rfl⟩
  | notRead hcall hnot _ =>
      cases hcall
      exact absurd (hnot m msg hlook rfl) (Nat.not_lt_zero _)

/-- An identifier that is held is retired. -/
theorem retired_held {own peer : Box} {id : UInt32} {rc : Int} {ls ls' : List BoxLabel}
    (hlook : (own.look id.toNat).isSome) (h : CallSpec sz own peer (.put id) (.ret rc) ls ls') :
    ls = [.put id.toNat] := by
  cases h with
  | sent hcall _ => cases hcall
  | notSent hcall _ => cases hcall
  | retired _ => rfl
  | notRetired hnone =>
      rw [hnone] at hlook
      cases hlook

/-- A send takes nothing out of the sender's own queue. -/
theorem send_own {own peer : Box} {call : MsgCall} {msg : Option MsgDesc} {r : MsgResult}
    {ls ls' : List BoxLabel} (hcall : call.sends = some msg)
    (h : CallSpec sz own peer call r ls ls') : ls = [] := by
  cases h with
  | got hgets _ _ =>
      cases call with
      | ipcGet => cases hcall
      | sysGet _ => cases hcall
      | _ => cases hgets
  | retired _ => cases hcall
  | _ => rfl

/-- A call obtains nothing from the other end's queue. -/
theorem app_obtains {own peer : Box} {call : MsgCall} {r : MsgResult} {ls ls' : List BoxLabel}
    (h : CallSpec sz own peer call r ls ls') : Mailbox.obtained ls' = [] := by
  cases h with
  | sent _ _ => rfl
  | _ => rfl

theorem toInt_toInt32 {x : UInt32} (h : x.toNat < 2 ^ 31) : x.toInt32.toInt = x.toNat := by
  have hlt : 2 * x.toBitVec.toNat < 2 ^ 32 := by
    have hx : x.toBitVec.toNat = x.toNat := rfl
    omega
  exact BitVec.toInt_eq_toNat_of_lt hlt

/-- No message is longer than an item. -/
theorem length_waiting_le {reg : Registry} (h : Pair reg num sz c d mq mq') {m : List UInt8}
    (hm : m ∈ mq.mailbox.waiting) : m.length ≤ sz := by
  obtain ⟨i, hi, rfl⟩ := List.mem_map.mp hm
  rw [MsgQueue.content, length_bytesAt, ← h.itemSz]
  exact h.inv.len i (List.mem_append_left _ hi)

/-- A call into the IPC layer changes nothing else. -/
theorem wp_onReg_call {α : Type} {m : IpcM α} {Q : α → Registry → Prop}
    (h : wp m Q (fun _ _ => False) s.reg) :
    wp (onReg m) (fun r t => ∃ reg, t = { s with reg := reg } ∧ Q r reg) (fun _ _ => False) s :=
  wp_onReg.mpr (wp_conseq h fun _ reg hr => ⟨reg, rfl, hr⟩)

/-- What is returned, and what stands in the buffer. -/
theorem wp_setStatus_bytes (cmd : UInt16) (rc : Int) (field len : Nat)
    (h : bytesAt s.mem sizeofTipcCmdHdr len = bytes) :
    wp (setStatus cmd rc field) (fun r t => r = rc ∧ t.dev = s.dev ∧ t.reg = s.reg ∧
      bytesAt t.mem sizeofTipcCmdHdr len = bytes) (fun _ _ => False) s := by
  rw [setStatus, wp_bind, wp_store, wp_bind, wp_store, wp_bind, wp_store, wp_pure]
  refine ⟨rfl, rfl, rfl, ?_⟩
  rw [← h, bytesAt_write_of_disjoint, bytesAt_write_of_disjoint, bytesAt_write_of_disjoint]
  · exact .inr (by rw [length_leBytes]; decide)
  · exact .inr (by rw [length_leBytes]; decide)
  · exact .inr (by rw [length_leBytes]; decide)

theorem wp_devRecv (hsz : sz ≤ ipcChanMaxBufSize) (h : Serves addr c d num sz b s) :
    wp (devRecv addr) (fun rc t => t.dev = s.dev ∧ ∃ b', Serves addr c d num sz b' t ∧
      Received s.dev.room b rc t.mem b') (fun _ _ => False) s := by
  obtain ⟨slot, htarget⟩ := h.target
  obtain ⟨mq, mq', hpair, rfl⟩ := h.pair
  rw [devRecv, wp_bind, wp_get, htarget]
  dsimp only
  have hget := @wp_sysGetMsg _ _ _ _ _ _ _ hpair hsz .ipcGet true rfl (fun h => by cases h)
  refine wp_seq (wp_onReg_call hget) ?_
  rintro ⟨rc, info⟩ _ ⟨reg, rfl, nq, nq', ls, ls', hpair₁, hspec, hrun, -⟩
  rw [wp_ite]
  cases hspec with
  | noMsg _ hwait =>
      rw [if_pos (by decide)]
      refine wp_conseq (wp_setStatus_bytes _ _ _ 0 rfl) ?_
      rintro _ t ⟨rfl, hdev, hreg, -⟩
      refine ⟨hdev, nq.mailbox, ⟨⟨slot, by rw [hdev]; exact htarget⟩, nq, nq', ?_, rfl⟩,
        .noMsg hwait rfl hrun.nil_eq⟩
      rw [hreg]
      exact hpair₁
  | @got _ mi m rest _ hwait hlen =>
      dsimp only
      rw [if_neg (show ¬Int.ofNat 0 < 0 by decide)]
      obtain ⟨rest', hwait', hlook, hbox⟩ := hrun.step.eq_get
      obtain rfl : rest = rest' := (List.cons.inj (hwait.symm.trans hwait')).2
      have hheld : nq.mailbox.look mi.id.toNat = some m := by
        rw [hbox, Mailbox.look_append, hlook, if_pos rfl]
        rfl
      rw [wp_bind, wp_get]
      dsimp only
      refine wp_seq (wp_onReg_call (@wp_readMsgLocked _ _ _ _ _ _ _ hpair₁ (.ipcRead mi.id 0
        (some _)) _ _ _ rfl)) ?_
      rintro ⟨rc, stored⟩ _ ⟨reg₂, rfl, nq₂, nq₂', ls₂, ls₂', hpair₂, hspec₂, hrun₂, -⟩
      obtain ⟨hcopy, rfl⟩ := read_held hheld hspec₂
      have hbox₂ := hrun₂.nil_eq
      have hroom : bytesAt s.mem sizeofTipcCmdHdr (s.dev.nsSz.toNat - sizeofTipcCmdHdr) ≠ [] := by
        apply List.ne_nil_of_length_pos
        have hpage := s.dev.page_le
        rw [length_bytesAt]
        rw [pageSize] at hpage
        rw [sizeofTipcCmdHdr]
        omega
      rw [copyOut_one _ _ hroom, length_bytesAt, Prod.mk.injEq] at hcopy
      obtain ⟨rfl, rfl⟩ := hcopy
      rw [wp_bind, wp_store]
      refine wp_seq (wp_onReg_call (wp_ipcPutMsg hpair₂ mi.id)) ?_
      rintro rc _ ⟨reg₃, rfl, nq₃, nq₃', ls₃, ls₃', hpair₃, hspec₃, hrun₃, -⟩
      obtain rfl := retired_held (by rw [hbox₂, hheld]; rfl) hspec₃
      -- the message is gone, whatever has been copied
      have hbox₃ : nq₃.mailbox = { mq.mailbox with waiting := rest } := by
        rw [hrun₃.step.eq_put, hbox₂, hbox, held_put hlook]
      have hserves : ∀ t : QlState, t.dev = s.dev → t.reg = reg₃ →
          Serves addr c d num sz { mq.mailbox with waiting := rest } t := by
        intro t hdev hreg
        refine ⟨⟨slot, by rw [hdev]; exact htarget⟩, nq₃, nq₃', ?_, hbox₃⟩
        rw [hreg]
        exact hpair₃
      have hshort : mi.len.toInt32.toInt = m.length := by
        rw [← hlen]
        apply toInt_toInt32
        rw [hlen]
        have hm := length_waiting_le hpair (by rw [hwait]; exact List.mem_cons_self ..)
        exact Nat.lt_of_le_of_lt (hm.trans hsz) (by decide)
      rw [wp_ite, wp_ite, if_neg (Int.not_lt.mpr (Int.natCast_nonneg _)), hshort]
      by_cases hfits : m.length ≤ s.dev.nsSz.toNat - sizeofTipcCmdHdr
      · rw [Nat.min_eq_left hfits, if_neg (Int.lt_irrefl _), List.take_length, hlen]
        refine wp_conseq (wp_setStatus_bytes _ _ _ m.length (bytesAt_write _ _ m)) ?_
        rintro _ t ⟨rfl, hdev, hreg, hmem⟩
        exact ⟨hdev, _, hserves t hdev hreg, .whole hwait hfits rfl rfl hmem⟩
      · have hlost : s.dev.nsSz.toNat - sizeofTipcCmdHdr < m.length := Nat.lt_of_not_le hfits
        rw [Nat.min_eq_right (Nat.le_of_lt hlost), if_pos (Int.ofNat_lt.mpr hlost)]
        refine wp_conseq (wp_setStatus_bytes _ _ _ 0 rfl) ?_
        rintro _ t ⟨rfl, hdev, hreg, -⟩
        exact ⟨hdev, _, hserves t hdev hreg, .lost hwait hlost rfl rfl⟩

/-- The device sends to the other end. -/
theorem wp_devSend (h : Serves addr c d num sz b s) (payloadLen : UInt32) :
    wp (devSend payloadLen addr) (fun _ t => t.dev = s.dev ∧ Serves addr c d num sz b t)
      (fun _ _ => False) s := by
  obtain ⟨slot, htarget⟩ := h.target
  obtain ⟨mq, mq', hpair, rfl⟩ := h.pair
  rw [devSend, wp_bind, wp_get, htarget]
  dsimp only
  rw [wp_bind, wp_get, wp_bind, wp_load]
  refine wp_seq (wp_onReg_call (@wp_sendMsgLocked _ _ _ _ _ _ _ hpair (.ipcSend (some _)) _ rfl)) ?_
  rintro rc _ ⟨reg, rfl, nq, nq', ls, ls', hpair₁, hspec, hrun, -⟩
  obtain rfl := send_own rfl hspec
  refine wp_conseq (wp_setStatus_bytes _ _ _ 0 rfl) ?_
  rintro _ t ⟨rfl, hdev, hreg, -⟩
  refine ⟨hdev, ⟨⟨slot, by rw [hdev]; exact htarget⟩, nq, nq', ?_, hrun.nil_eq⟩⟩
  rw [hreg]
  exact hpair₁

/-- What an action does to the queue of the device's end. -/
def Moves (room sz : Nat) (b : Box) (a : ChanAction) (o : Outcome) (mem : Nat → UInt8)
    (b' : Box) : Prop :=
  match a, o with
  | .recv, .dev rc => Received room b rc mem b'
  | .send _, .dev _ => b' = b
  | .app call, .app r => b'.waiting = b.waiting ++ (ChanAction.app call).sent sz (.app r)
  | _, _ => False

/-- An action returns, and keeps the channel at its address. -/
theorem wp_action (hsz : sz ≤ ipcChanMaxBufSize) (h : Serves addr c d num sz b s)
    (a : ChanAction) :
    wp (a.run addr d) (fun o t => t.dev = s.dev ∧ ∃ b', Serves addr c d num sz b' t ∧
      Moves s.dev.room sz b a o t.mem b') (fun _ _ => False) s := by
  cases a with
  | recv => exact (wp_map _ _).mpr (wp_devRecv hsz h)
  | send payloadLen =>
      refine (wp_map _ _).mpr (wp_conseq (wp_devSend h payloadLen) ?_)
      rintro rc t ⟨hdev, hserves⟩
      exact ⟨hdev, b, hserves, rfl⟩
  | app call =>
      obtain ⟨slot, htarget⟩ := h.target
      obtain ⟨mq, mq', hpair, rfl⟩ := h.pair
      refine (wp_map _ _).mpr (wp_conseq (wp_onReg_call (wp_msgCall hpair.symm hsz call)) ?_)
      rintro r _ ⟨reg, rfl, nq', nq, ls, ls', hpair₁, hspec, -, hrun⟩
      refine ⟨rfl, nq.mailbox, ⟨⟨slot, htarget⟩, nq, nq', hpair₁.symm, rfl⟩, ?_⟩
      have hsent := hspec.sends_peer .other [] []
      have hfifo := hrun.fifo
      rw [app_obtains hspec, List.nil_append] at hfifo
      show nq.mailbox.waiting = mq.mailbox.waiting ++ sentBy .other sz [(.other, call)] [r]
      rw [hsent, ← hfifo]
      exact congrArg _ (List.append_nil _).symm

theorem run_action (hsz : sz ≤ ipcChanMaxBufSize) (h : Serves addr c d num sz b s)
    (a : ChanAction) :
    ∃ o t, a.run addr d s = .ok o t ∧ t.dev = s.dev ∧ ∃ b', Serves addr c d num sz b' t ∧
      Moves s.dev.room sz b a o t.mem b' :=
  wp_total (wp_action hsz h a)

/-- An action delivers what it should exactly when no message that does not
fit comes next. -/
theorem stepDelivers_iff (hsz : sz ≤ ipcChanMaxBufSize) (h : Serves addr c d num sz b s)
    (a : ChanAction) : StepDelivers addr c d sz a s ↔ RecvFits c a s := by
  obtain ⟨o, t, hrun, hdev, b', hserves, hmoves⟩ := run_action hsz h a
  have honly : StepDelivers addr c d sz a s ↔
      b.waiting ++ a.sent sz o = a.delivered t.mem o ++ b'.waiting ∧
        (a = .recv → (∃ rc, o = .dev rc ∧ rc < 0) → b' = b) := by
    constructor
    · intro hstep
      exact hstep o t b b' hrun h.boxOf hserves.boxOf
    · intro hboth o₁ t₁ b₁ b₁' hrun₁ hb hb'
      rw [hrun] at hrun₁
      cases hrun₁
      obtain rfl := Option.some.inj (h.boxOf.symm.trans hb)
      obtain rfl := Option.some.inj (hserves.boxOf.symm.trans hb')
      exact hboth
  rw [honly]
  cases a with
  | app call =>
      cases o with
      | dev rc => exact hmoves.elim
      | app r =>
          constructor
          · intro _ hrecv
            cases hrecv
          · intro _
            refine ⟨Eq.symm hmoves, ?_⟩
            intro hrecv
            cases hrecv
  | send payloadLen =>
      cases o with
      | app r => exact hmoves.elim
      | dev rc =>
          constructor
          · intro _ hrecv
            cases hrecv
          · intro _
            refine ⟨?_, ?_⟩
            · rw [show b' = b from hmoves]
              exact List.append_nil _
            · intro hrecv
              cases hrecv
  | recv =>
      cases o with
      | app r => exact hmoves.elim
      | dev rc =>
          have hreceived : Received s.dev.room b rc t.mem b' := hmoves
          have hsent : ChanAction.recv.sent sz (.dev rc) = [] := rfl
          rw [hsent, List.append_nil, ChanAction.delivered]
          cases hreceived with
          | noMsg hwait hrc hbox =>
              subst hrc hbox
              constructor
              · intro _ _ b₁ m rest hb hm
                obtain rfl := Option.some.inj (h.boxOf.symm.trans hb)
                rw [hwait] at hm
                cases hm
              · intro _
                rw [if_neg (by decide)]
                exact ⟨rfl, fun _ _ => rfl⟩
          | @whole m rest hwait hfits hbox hrc hmem =>
              subst hrc hbox
              rw [if_pos (Int.natCast_nonneg _), Int.toNat_natCast, hmem, hwait]
              constructor
              · intro _ _ b₁ m₁ rest₁ hb hm
                obtain rfl := Option.some.inj (h.boxOf.symm.trans hb)
                rw [hwait] at hm
                rw [← (List.cons.inj hm).1]
                exact hfits
              · intro _
                refine ⟨rfl, ?_⟩
                rintro _ ⟨rc, hrc, hneg⟩
                cases hrc
                exact absurd hneg (Int.not_lt.mpr (Int.natCast_nonneg _))
          | @lost m rest hwait hlong hbox hrc =>
              subst hrc hbox
              rw [if_neg (by decide), hwait]
              constructor
              · intro hboth
                exact absurd hboth.1 (List.cons_ne_self _ _)
              · intro hfits
                exact absurd (hfits rfl b m rest h.boxOf hwait) (Nat.not_le.mpr hlong)

/-! ## Runs -/

theorem allSteps_iff (hsz : sz ≤ ipcChanMaxBufSize) {actions : List ChanAction}
    (h : Serves addr c d num sz b s) :
    AllSteps addr d (StepDelivers addr c d sz) s actions ↔ AllSteps addr d (RecvFits c) s actions := by
  induction actions generalizing s b with
  | nil => exact Iff.rfl
  | cons a rest ih =>
      obtain ⟨o, t, hrun, _, b', hserves, _⟩ := run_action hsz h a
      have hrest : ∀ P, (∀ o₁ t₁, a.run addr d s = .ok o₁ t₁ → AllSteps addr d P t₁ rest) ↔
          AllSteps addr d P t rest := by
        intro P
        constructor
        · intro hall
          exact hall o t hrun
        · intro hall o₁ t₁ hrun₁
          rw [hrun] at hrun₁
          cases hrun₁
          exact hall
      rw [AllSteps, AllSteps, hrest, hrest, stepDelivers_iff hsz h, ih hserves]

/-- In a run in which every message fits, they are delivered as they were sent. -/
theorem wp_runActions (hsz : sz ≤ ipcChanMaxBufSize) {actions : List ChanAction}
    (h : Serves addr c d num sz b s) (hfits : AllSteps addr d (RecvFits c) s actions) :
    wp (runActions addr d sz actions) (fun r t => ∃ b', Serves addr c d num sz b' t ∧
      b.waiting ++ r.1 = r.2 ++ b'.waiting) (fun _ _ => False) s := by
  induction actions generalizing s b with
  | nil => exact ⟨b, h, List.append_nil _⟩
  | cons a rest ih =>
      obtain ⟨o, t, hrun, _, b', hserves, _⟩ := run_action hsz h a
      obtain ⟨hfit, hnext⟩ := hfits
      have hstep := ((stepDelivers_iff hsz h a).mpr hfit o t b b' hrun h.boxOf hserves.boxOf).1
      rw [runActions, wp_bind, wp, hrun]
      dsimp only
      rw [wp_bind, wp_get]
      refine wp_seq (ih hserves (hnext o t hrun)) ?_
      rintro r t₁ ⟨b₁, hserves₁, hrest⟩
      refine ⟨b₁, hserves₁, ?_⟩
      rw [← List.append_assoc, hstep, List.append_assoc, hrest, List.append_assoc]

end

/-- In a run on a connected channel, each action delivers what it should exactly
when every RECV finds a message that fits or none; and then the messages
delivered and those still waiting are the ones that were sent, in order. -/
theorem recv_delivers_iff {addr : UInt32} {slot : Nat} {c d : ChanId} {num sz : Nat} {s : QlState}
    {mq mq' : MsgQueue} (hsz : sz ≤ ipcChanMaxBufSize)
    (htarget : s.dev.target addr = some (slot, c)) (hpair : Pair s.reg num sz c d mq mq')
    (actions : List ChanAction) :
    (AllSteps addr d (StepDelivers addr c d sz) s actions ↔
        AllSteps addr d (RecvFits c) s actions) ∧
      (AllSteps addr d (RecvFits c) s actions → ∃ sent delivered t b,
        runActions addr d sz actions s = .ok (sent, delivered) t ∧ boxOf t.reg c = some b ∧
          mq.mailbox.waiting ++ sent = delivered ++ b.waiting) := by
  have hserves : Serves addr c d num sz mq.mailbox s := ⟨⟨slot, htarget⟩, mq, mq', hpair, rfl⟩
  refine ⟨allSteps_iff hsz hserves, ?_⟩
  intro hfits
  obtain ⟨⟨sent, delivered⟩, t, hrun, b, hserves', heq⟩ :=
    wp_total (wp_runActions hsz hserves hfits)
  exact ⟨sent, delivered, t, b, hrun, hserves'.boxOf, heq⟩

/-- A device with one page and one channel, which is connected. -/
def oneConnected : QlState where
  dev := { pageDev with
    inuse := fun slot => slot == 0, epts := fun _ => ⟨some 0, 5⟩, handleList := [0] }
  reg := connectedPair
  cookie := fun _ => some 0
  waitEvent := fun _ => false
  mem := fun _ => 0
  log := []

theorem connectedPair_pair : Pair connectedPair 1 4096 0 1 (MsgQueue.create 1 4096 fun _ => 0)
    (MsgQueue.create 1 4096 fun _ => 0) where
  ne := by decide
  own := ⟨connectedChan 1 0, rfl, rfl, rfl, rfl⟩
  other := ⟨connectedChan 0 ipcChanFlagServer, rfl, rfl, rfl, rfl⟩
  inv := MsgQueue.inv_create (by decide) _ _
  inv' := MsgQueue.inv_create (by decide) _ _
  numItems := rfl
  numItems' := rfl
  itemSz := rfl
  itemSz' := rfl

/-- Two bytes are sent, received, and nothing is left to receive. -/
def twoBytes : List ChanAction :=
  [.app (.sysSend (some (.user [.mapped 2 [0x56, 0x57]] 0))), .recv, .recv]

theorem recv_delivers_iff_twoBytes :
    AllSteps 32 1 (StepDelivers 32 0 1 4096) oneConnected twoBytes ↔
      AllSteps 32 1 (RecvFits 0) oneConnected twoBytes :=
  (@recv_delivers_iff 32 0 0 1 1 4096 oneConnected _ _ (by decide) (by decide +kernel)
    connectedPair_pair twoBytes).1

/-- A message that fills its item. -/
def wholeItem : ChanAction := .app (.sysSend (some (.user [.mapped 4096 (List.replicate 4096 0)] 0)))

/-- On a buffer of one page there is no room for it. -/
theorem wholeItem_lost :
    ¬∀ (addr : UInt32) (c d : ChanId) (num sz slot : Nat) (s : QlState) (mq mq' : MsgQueue),
      sz ≤ ipcChanMaxBufSize → s.dev.target addr = some (slot, c) →
      Pair s.reg num sz c d mq mq' → ∀ actions,
      AllSteps addr d (StepDelivers addr c d sz) s actions := by
  intro h
  have htarget : oneConnected.dev.target 32 = some (0, 0) := by decide +kernel
  have hall := h 32 0 1 1 4096 0 oneConnected _ _ (by decide) htarget connectedPair_pair
    [wholeItem, .recv]
  have hserves : Serves 32 0 1 1 4096 _ oneConnected :=
    ⟨⟨0, htarget⟩, _, _, connectedPair_pair, rfl⟩
  rw [allSteps_iff (by decide) hserves] at hall
  have hret : valueOf (wholeItem.run 32 1 oneConnected) = some (.app (.ret 4096)) := by
    decide +kernel
  obtain ⟨o, t, hrun, hdev, b, hserves', hmoves⟩ := run_action (by decide) hserves wholeItem
  rw [hrun] at hret
  obtain rfl := Option.some.inj hret
  have hsent : ∀ bytes : List UInt8, bytes.length = 4096 →
      (ChanAction.app (.sysSend (some (.user [.mapped 4096 bytes] 0)))).sent 4096
        (.app (.ret 4096)) = [bytes] := by
    intro bytes hlen
    have htake : bytes.take 4096 = bytes := List.take_of_length_le (by omega)
    simp [ChanAction.sent, sentBy, MsgCall.sends, payload, userPayload, htake]
  have hwait : b.waiting = [List.replicate 4096 0] := by
    have hmoved : b.waiting = _ ++ wholeItem.sent 4096 (.app (.ret 4096)) := hmoves
    rw [hmoved, MsgQueue.mailbox_create, wholeItem, hsent _ List.length_replicate]
    rfl
  have hfits := (hall.2 _ t hrun).1 rfl b _ [] hserves'.boxOf hwait
  rw [hdev, List.length_replicate] at hfits
  exact absurd hfits (by decide)

end TX2SecureUart.Ql
