/-
# `Ipc.PortCreate` — creating a port, as a system call

`sys_port_create` creates a port, installs its handle and publishes it, and
undoes the first two steps if publishing fails.  But publishing reports the
answer the hook gave for the last waiting client as its own result, after the
port was listed, and nothing takes the port off the list again.
-/
import TX2SecureUart.Ipc.Runs
import TX2SecureUart.Ipc.Uctx
import Mathlib

namespace TX2SecureUart.Ipc

open Prog

/-! ## The system call -/

/-- `(int)` of the length of a string -/
def intOfLen (len : Nat) : Int := (len : Int).bmod (2 ^ 32)

/-- `strncpy_from_user(tmp_path, path, sizeof(tmp_path))`, and the two tests of
its result.  `path` is what is found at the address, up to the terminator;
`none` if it cannot be read. -/
def copyPath : Option Path → Except Int Path
  | none => .error errFault
  | some path =>
      let ret := intOfLen path.length
      if ret < 0 then .error ret
      else if ipcPortPathMax ≤ ret then .error errInvalidArgs
      else .ok (path.take (ipcPortPathMax - 1))

/-- The second half of `sys_port_create`. -/
def installAndPublish (env : Env) (p : PortId) : SysM Int := do
  let (ret, id) ← uctxHandleInstall (.port p)
  if ret ≠ noError then
    inRegistry (handleDecref (.port p))
    return ret
  match id with
  | none => throw .nullDeref
  | some id =>
      let ret ← inRegistry (ipcPortPublish env p)
      if ret ≠ noError then
        let removed ← uctxHandleRemove id
        inRegistry (handleDecref (removed.2.getD (.port p)))
        return ret
      return id.val

/-- `sys_port_create` -/
def sysPortCreate (env : Env) (uuid : Uuid) (path : Option Path) (numRecvBufs recvBufSize : Nat)
    (flags : UInt32) : SysM Int := do
  match copyPath path with
  | .error ret => return ret
  | .ok tmpPath =>
      let (ret, port) ← inRegistry
        (ipcPortCreate env (some uuid) tmpPath numRecvBufs recvBufSize flags)
      if ret ≠ noError then return ret
      match port with
      | none => throw .nullDeref
      | some p => installAndPublish env p

/-! ## All or nothing -/

/-- An error leaves the handle table as it was and no port of this call in the
list; an identifier is new in the table and belongs to the port of this call,
which is listed and listening. -/
structure AllOrNothing (s : Task) (r : Int) (t : Task) : Prop where
  error : r < 0 → t.ctx = s.ctx ∧ s.reg.nextPort ∉ t.reg.ipcPortList
  id : 0 ≤ r → s.reg.nextPort ∈ t.reg.ipcPortList ∧
    (∃ P, t.reg.ports s.reg.nextPort = some P ∧ P.state = .listening) ∧
    ∃ id : HandleId, r = id.val ∧ s.ctx.handles id = none ∧
      t.ctx.handles id = some (.port s.reg.nextPort)

/-- The port gets as far as being listed. -/
structure Lists (env : Env) (s : Task) (uuid : Uuid) (tmpPath : Path)
    (numRecvBufs recvBufSize : Nat) : Prop where
  creates : Creates env (some uuid) tmpPath numRecvBufs recvBufSize
  slot : ∃ id, s.ctx.inuse id = false
  name : s.reg.findPort tmpPath = none

/-- What the hook says about the last client that waits for the port;
`NO_ERROR` if there is none. -/
def lastAnswer (env : Env) (reg : Registry) (P : Port) : Int :=
  ((reg.clientsOf P).map (reg.answer env P)).getLastD noError

section

variable {O T : ChanId → Prop} {env : Env} {s t : Task} {uuid : Uuid} {path : Option Path}
  {tmpPath : Path} {numRecvBufs recvBufSize : Nat} {flags : UInt32} {p : PortId} {P : Port}
  {reg : Registry} {r : Int} {id : HandleId}

theorem copyPath_error (h : copyPath path = .error r) : r < 0 := by
  cases path with
  | none =>
      obtain rfl : errFault = r := Except.error.inj h
      decide
  | some path =>
      simp only [copyPath] at h
      generalize intOfLen path.length = ret at h
      by_cases hneg : ret < 0
      · rw [if_pos hneg] at h
        simp only [Except.error.injEq] at h
        omega
      · rw [if_neg hneg] at h
        split at h
        · obtain rfl : errInvalidArgs = r := Except.error.inj h
          decide
        · cases h

/-- Dropping a reference to a port never changes the list. -/
theorem wp_handleDecref_list :
    wp (handleDecref (.port p)) (fun _ t => t.ipcPortList = reg.ipcPortList) (fun _ _ => True)
      reg := by
  rw [wp_handleDecref_port]
  cases hP : reg.ports p with
  | none => trivial
  | some P =>
      simp only [Option.elim_some]
      split <;> rfl

/-- A name not yet given to a port is in no list. -/
theorem Inv.nextPort_not_listed (h : Inv T O reg) : reg.nextPort ∉ reg.ipcPortList := fun hmem => by
  obtain ⟨P, hP, -⟩ := (h.lists.listed _).mp hmem
  rw [h.lists.freshPort (Nat.le_refl _)] at hP
  exact nomatch hP

/-- A call that fails and leaves the table and the list as they were. -/
theorem Inv.allOrNothing_error (h : Inv T O s.reg) (hr : r < 0) (hctx : t.ctx = s.ctx)
    (hlist : t.reg.ipcPortList = s.reg.ipcPortList) : AllOrNothing s r t :=
  ⟨fun _ => ⟨hctx, hlist ▸ h.nextPort_not_listed⟩, fun hpos => by omega⟩

/-! ## The second half -/

/-- The registry with the port created. -/
def Registry.withPort (reg : Registry) (P : Port) : Registry :=
  Registry.setPort { reg with nextPort := reg.nextPort + 1 } reg.nextPort P

theorem Registry.withPort_port : (reg.withPort P).ports reg.nextPort = some P := by
  simp [withPort]

theorem Inv.findPort_withPort (h : Inv T O reg) (tmpPath : Path) :
    (reg.withPort P).findPort tmpPath = reg.findPort tmpPath := by
  refine List.find?_congr fun q hq => ?_
  have hne : q ≠ reg.nextPort := fun he => h.nextPort_not_listed (he ▸ hq)
  simp [Registry.withPort, hne]

/-- A second reference to the port, for the table. -/
theorem Inv.wp_handleIncref_withPort {E : Fault → Registry → Prop}
    (h : Inv T O (reg.withPort P)) (hheld : P.ownRefs < P.handle.refcnt) :
    wp (handleIncref (.port reg.nextPort)) (fun _ u => Inv T O u ∧ u = reg.withPort { P with
      handle := { P.handle with refcnt := P.handle.refcnt + 1 } }) E (reg.withPort P) := by
  have hspec : wp (handleIncref (.port reg.nextPort)) (fun _ u => u = reg.withPort { P with
      handle := { P.handle with refcnt := P.handle.refcnt + 1 } }) E (reg.withPort P) := by
    simp only [handleIncref, wp_modifyPort, Registry.withPort_port, Option.elim_some]
    simp [Registry.withPort]
  refine wp_mono (wp_and (h.wp_handleIncref ⟨P, Registry.withPort_port, hheld⟩) hspec)
    (fun _ _ hu => hu) fun _ _ he => he.1

/-- The handle of the port is taken out of the table, and both references to
the port are dropped. -/
theorem wp_undo {Q : Int → Task → Prop} (hid : t.ctx.handles id = some (.port p))
    (hQ : ∀ u : Task, u.ctx = t.ctx.set id none → u.reg.ipcPortList = t.reg.ipcPortList → Q r u) :
    wp (do
      let removed ← uctxHandleRemove id
      inRegistry (handleDecref (removed.2.getD (.port p)))
      return r) Q (fun _ _ => True) t := by
  simp only [wp_bind, wp_uctxHandleRemove, hid, wp_inRegistry, wp_pure, Option.getD_some]
  refine wp_mono wp_handleDecref_list (fun _ u hu => ?_) fun _ _ _ => trivial
  refine wp_mono wp_handleDecref_list (fun _ v hv => ?_) fun _ _ _ => trivial
  exact hQ ⟨v, _⟩ rfl (hv.trans hu)

theorem Inv.wp_installAndPublish (h : Inv nobody (fun _ => True) s.reg)
    (h' : Inv nobody (fun _ => True) (s.reg.withPort P)) (hheld : P.ownRefs < P.handle.refcnt) :
    wp (installAndPublish env s.reg.nextPort)
      (fun r t => AllOrNothing s r t ↔ ((∃ id, s.ctx.inuse id = false) →
        s.reg.findPort P.path = none → lastAnswer env s.reg P = noError))
      (fun _ _ => True) ⟨s.reg.withPort P, s.ctx⟩ := by
  simp only [installAndPublish, wp_bind, wp_uctxHandleInstall]
  cases hslot : Uctx.bitmapFfz s.ctx.inuse with
  | none =>
      -- the table is full
      have hfull := Uctx.bitmapFfz_none.mp hslot
      simp only [wp_ite, wp_bind, wp_inRegistry, wp_pure]
      rw [if_pos (by decide)]
      refine wp_mono wp_handleDecref_list (fun _ u hu => ?_) fun _ _ _ => trivial
      refine iff_of_true (h.allOrNothing_error (by decide) rfl hu) fun hex => ?_
      exact absurd hex.choose_spec (by simp [hfull])
  | some id =>
      have hfree := Uctx.bitmapFfz_some hslot
      refine wp_conseq (h'.wp_handleIncref_withPort hheld) ?_
      rintro - _ ⟨hinv, rfl⟩
      simp only [wp_ite, wp_bind, wp_inRegistry]
      rw [if_neg (by decide)]
      refine wp_mono (hinv.wp_ipcPortPublish Registry.withPort_port fun _ _ _ _ => trivial)
        (fun r u hu => ?_) fun _ _ _ => trivial
      obtain ⟨-, hu⟩ := hu
      rw [h.findPort_withPort] at hu
      have hundo : (s.ctx.set id (some (.port s.reg.nextPort))).set id none = s.ctx :=
        Uctx.set_set_none hfree
      cases hname : s.reg.findPort P.path with
      | some q =>
          -- the name is taken
          simp only [hname] at hu
          obtain ⟨rfl, rfl⟩ := hu
          rw [if_pos (by decide)]
          refine (wp_bind _ _).mp (wp_undo ?_ fun v hctx hlist => ?_)
          · exact Uctx.set_self _ _ _
          refine iff_of_true (h.allOrNothing_error (by decide) (hctx.trans hundo) hlist) fun _ hn => ?_
          cases hn
      | none =>
          simp only [hname] at hu
          obtain ⟨hr, hlist, pending, refcnt, hport⟩ := hu
          have hlisted : s.reg.nextPort ∈ u.ipcPortList := hlist ▸ by simp
          have hlast : r = lastAnswer env s.reg P := hr
          by_cases hzero : r = noError
          · -- published
            rw [if_neg (not_not.mpr hzero)]
            refine iff_of_true ⟨fun hneg => absurd hneg (by simp), fun _ => ⟨hlisted,
              ⟨_, hport, rfl⟩, id, rfl, hfree, by simp⟩⟩ fun _ _ => hlast ▸ hzero
          · -- the last client was refused: the port stays in the list
            rw [if_pos hzero]
            refine (wp_bind _ _).mp (wp_undo ?_ fun v hctx hlist' => ?_)
            · exact Uctx.set_self _ _ _
            refine iff_of_false (fun hall => ?_) fun hans =>
              hzero (hlast.trans (hans ⟨id, (Uctx.handles_eq_none _ _).mp hfree⟩ rfl))
            rcases lt_or_ge r 0 with hneg | hpos
            · exact (hall.error hneg).2 (hlist' ▸ hlisted)
            · obtain ⟨-, -, id', -, hnone, hsome⟩ := hall.id hpos
              rw [hctx.trans hundo, hnone] at hsome
              cases hsome

/-! ## The whole call -/

/-- A call that returns is all or nothing, unless the port gets as far as being
listed and the last client that waits for it is refused. -/
theorem Inv.wp_sysPortCreate (h : Inv nobody (fun _ => True) s.reg) (env : Env) (uuid : Uuid)
    (path : Option Path) (numRecvBufs recvBufSize : Nat) (flags : UInt32) :
    wp (sysPortCreate env uuid path numRecvBufs recvBufSize flags)
      (fun r t => AllOrNothing s r t ↔ ∀ tmpPath, copyPath path = .ok tmpPath →
        Lists env s uuid tmpPath numRecvBufs recvBufSize →
        lastAnswer env s.reg (newPort (some uuid) tmpPath numRecvBufs recvBufSize flags) = noError)
      (fun _ _ => True) s := by
  unfold sysPortCreate
  cases hcopy : copyPath path with
  | error e =>
      exact iff_of_true (h.allOrNothing_error (copyPath_error hcopy) rfl rfl)
        fun _ hc => nomatch hc
  | ok tmpPath =>
      simp only [wp_bind, wp_inRegistry]
      refine wp_conseq (h.wp_ipcPortCreate env (some uuid) tmpPath numRecvBufs recvBufSize flags)
        fun r u hu => ?_
      obtain ⟨h₁, ⟨hnot, hneg, rfl⟩ | ⟨hcreates, rfl, rfl⟩⟩ := hu
      · -- nothing was created
        rw [if_pos (ne_of_lt hneg)]
        refine iff_of_true (h.allOrNothing_error hneg rfl rfl) fun p hp hl => ?_
        obtain rfl := Except.ok.inj hp
        exact absurd hl.creates hnot
      · rw [if_neg (not_not.mpr rfl)]
        refine wp_conseq (h.wp_installAndPublish h₁ (Int.zero_lt_one)) fun r t ht => ht.trans ?_
        refine ⟨fun hans p hp hl => ?_, fun hans hslot hname =>
          hans tmpPath rfl ⟨hcreates, hslot, hname⟩⟩
        obtain rfl := Except.ok.inj hp
        exact hans hl.slot hl.name

/-- In every state of the registry, whatever the hook answers and whatever the
allocator does. -/
theorem sysPortCreate_allOrNothing_iff (h : ipc.Reachable anyStep s.reg)
    (hrun : sysPortCreate env uuid path numRecvBufs recvBufSize flags s = .ok r t) :
    AllOrNothing s r t ↔ ∀ tmpPath, copyPath path = .ok tmpPath →
      Lists env s uuid tmpPath numRecvBufs recvBufSize →
      lastAnswer env s.reg (newPort (some uuid) tmpPath numRecvBufs recvBufSize flags) =
        noError := by
  have hret := wp_ok ((inv_of_reachable h).wp_sysPortCreate env uuid path numRecvBufs recvBufSize
    flags) hrun
  exact hret

end

/-! ## A client that waits -/

/-- An application without handles, while a client waits for the port `p`. -/
def beforeCreate : Task := ⟨afterWait, .empty⟩

/-- The application creates the port `p`, while the hook answers `answer`. -/
def createP (answer : Int) : EStateM.Result Fault Task Int :=
  sysPortCreate (answering answer) (.app 1) (some [0x70]) 1 4096 0x3 beforeCreate

/-- The client is let in, and the port is created. -/
theorem sysPortCreate_allOrNothing_iff_accepted :
    createP 0 = .ok 0 (stateOf (createP 0)) ∧
      (AllOrNothing beforeCreate 0 (stateOf (createP 0)) ↔
        ∀ tmpPath, copyPath (some [0x70]) = .ok tmpPath →
          Lists (answering 0) beforeCreate (.app 1) tmpPath 1 4096 →
          lastAnswer (answering 0) beforeCreate.reg (newPort (some (.app 1)) tmpPath 1 4096 0x3) =
            noError) := by
  have hrun : createP 0 = .ok 0 (stateOf (createP 0)) :=
    eq_ok_of_valueOf (by decide +kernel)
  exact ⟨hrun, sysPortCreate_allOrNothing_iff (reachable_afterWait trivial) hrun⟩

/-- The client is refused: the call returns the refusal, and takes back the
handle, but the port stays in the list and keeps the name. -/
theorem sysPortCreate_listed :
    ipc.Reachable anyStep beforeCreate.reg ∧
      createP errAccessDenied = .ok errAccessDenied (stateOf (createP errAccessDenied)) ∧
      beforeCreate.reg.nextPort ∈ (stateOf (createP errAccessDenied)).reg.ipcPortList ∧
      (stateOf (createP errAccessDenied)).reg.findPort [0x70] = some 0 ∧
      ¬ AllOrNothing beforeCreate errAccessDenied (stateOf (createP errAccessDenied)) := by
  have hlisted : beforeCreate.reg.nextPort ∈ (stateOf (createP errAccessDenied)).reg.ipcPortList := by
    decide +kernel
  exact ⟨reachable_afterWait trivial, eq_ok_of_valueOf (by decide +kernel), hlisted,
    by decide +kernel, fun hall => (hall.error (by decide)).2 hlisted⟩

end TX2SecureUart.Ipc
