/-
# `Ipc.Uctx` — the handle table of an application

`uctx.c`: a table of `IPC_MAX_HANDLES` slots and a bitmap of the slots in use.
A slot is in use exactly while it holds a handle; the code asserts both
directions, and here a table in which they fail cannot be built.
-/
import TX2SecureUart.Ipc.Port
import Mathlib

namespace TX2SecureUart.Ipc

open Prog

/-- `IPC_MAX_HANDLES` -/
def ipcMaxHandles : Nat := 128

instance : NeZero ipcMaxHandles := ⟨by decide⟩

abbrev HandleId := Fin ipcMaxHandles

/-- `struct uctx`, without its private data. -/
@[ext]
structure Uctx where
  inuse : HandleId → Bool
  handles : HandleId → Option HandlePtr
  inuse_iff : ∀ id, inuse id = (handles id).isSome

namespace Uctx

/-- `uctx_create` -/
def empty : Uctx where
  inuse := fun _ => false
  handles := fun _ => none
  inuse_iff := fun _ => rfl

/-- A slot and its bit are written. -/
def set (ctx : Uctx) (id : HandleId) (h : Option HandlePtr) : Uctx where
  inuse := Function.update ctx.inuse id h.isSome
  handles := Function.update ctx.handles id h
  inuse_iff := fun i => by
    by_cases hi : i = id
    · subst hi
      simp
    · simp [hi, ctx.inuse_iff]

/-- `bitmap_ffz(ctx->inuse, IPC_MAX_HANDLES)`; `none` is -1. -/
def bitmapFfz (inuse : HandleId → Bool) : Option HandleId :=
  (List.finRange ipcMaxHandles).find? fun id => !inuse id

/-- `_check_handle_id`, and the slot if it returns `NO_ERROR`. -/
def checkHandleId (ctx : Uctx) (id : UInt32) : Except ErrCode HandleId :=
  if h : id.toNat < ipcMaxHandles then
    if ctx.inuse ⟨id.toNat, h⟩ then .ok ⟨id.toNat, h⟩
    else .error ⟨errNotFound, by decide⟩
  else .error ⟨errBadHandle, by decide⟩

variable {ctx : Uctx} {id : HandleId} {h : HandlePtr}

@[simp] theorem set_handles (o : Option HandlePtr) (i : HandleId) :
    (ctx.set id o).handles i = if i = id then o else ctx.handles i := by
  simp [set, Function.update_apply]

theorem set_self (ctx : Uctx) (id : HandleId) (o : Option HandlePtr) :
    (ctx.set id o).handles id = o := by
  simp

theorem handles_eq_none (ctx : Uctx) (id : HandleId) :
    ctx.handles id = none ↔ ctx.inuse id = false := by
  rw [ctx.inuse_iff]
  cases ctx.handles id <;> simp

/-- A handle identifier as applications see it. -/
theorem toNat_ofInt (id : HandleId) : (UInt32.ofInt id.val).toNat = id.val := by
  have := id.isLt
  have hmax : ipcMaxHandles = 128 := rfl
  simp [UInt32.ofInt]
  omega

theorem checkHandleId_ofInt (ctx : Uctx) (id : HandleId) :
    ctx.checkHandleId (UInt32.ofInt id.val) =
      if ctx.inuse id then .ok id else .error ⟨errNotFound, by decide⟩ := by
  simp [checkHandleId, toNat_ofInt]

theorem checkHandleId_error {i : UInt32} {e : ErrCode} (he : ctx.checkHandleId i = .error e) :
    e.val = errNotFound ∨ e.val = errBadHandle := by
  unfold checkHandleId at he
  split at he
  · split at he
    · exact nomatch he
    · exact Or.inl (Except.error.inj he ▸ rfl)
  · exact Or.inr (Except.error.inj he ▸ rfl)

/-- The slot found is free. -/
theorem bitmapFfz_some (hid : bitmapFfz ctx.inuse = some id) : ctx.handles id = none := by
  have := List.find?_some hid
  rw [handles_eq_none]
  simpa using this

/-- No slot is found only if all are in use. -/
theorem bitmapFfz_none : bitmapFfz ctx.inuse = none ↔ ∀ id, ctx.inuse id = true := by
  simp [bitmapFfz, List.find?_eq_none]

/-- Emptying a slot undoes filling it. -/
theorem set_set_none (hid : ctx.handles id = none) : (ctx.set id (some h)).set id none = ctx := by
  have hin := (handles_eq_none ctx id).mp hid
  refine Uctx.ext ?_ ?_
  · funext i
    by_cases hi : i = id
    · subst hi
      simp [set, hin]
    · simp [set, hi]
  · funext i
    by_cases hi : i = id
    · subst hi
      simp [hid]
    · simp [hi]

end Uctx

/-- What a system call of an application works on. -/
structure Task where
  reg : Registry
  ctx : Uctx

abbrev SysM := EStateM Fault Task

/-- An operation on the registry. -/
def inRegistry {α : Type} (m : IpcM α) : SysM α :=
  zoom Task.reg (fun reg t => { t with reg := reg }) m

/-- `uctx_handle_install`, storing the identifier if it returns `NO_ERROR`.  The
reference of `handle_list_add` comes on top of the caller's. -/
def uctxHandleInstall (h : HandlePtr) : SysM (Int × Option HandleId) := do
  match Uctx.bitmapFfz (← get).ctx.inuse with
  | none => return (errNoResources, none)
  | some id =>
      modify fun t => { t with ctx := t.ctx.set id (some h) }
      inRegistry (handleIncref h)
      return (noError, some id)

/-- `uctx_handle_remove`, storing the handle if it returns `NO_ERROR`; the
reference of the list is dropped by `handle_list_del`. -/
def uctxHandleRemove (id : HandleId) : SysM (Int × Option HandlePtr) := do
  match (← get).ctx.handles id with
  | none => return (errNotFound, none)
  | some h =>
      modify fun t => { t with ctx := t.ctx.set id none }
      inRegistry (handleDecref h)
      return (noError, some h)

section

variable {E : Fault → Task → Prop} {s : Task} {h : HandlePtr} {id : HandleId}

@[simp] theorem wp_inRegistry {α : Type} {m : IpcM α} {Q : α → Task → Prop} :
    wp (inRegistry m) Q E s ↔
      wp m (fun a reg => Q a ⟨reg, s.ctx⟩) (fun e reg => E e ⟨reg, s.ctx⟩) s.reg := wp_zoom

theorem wp_uctxHandleInstall {Q : Int × Option HandleId → Task → Prop} :
    wp (uctxHandleInstall h) Q E s ↔
      match Uctx.bitmapFfz s.ctx.inuse with
      | none => Q (errNoResources, none) s
      | some id => wp (handleIncref h)
          (fun _ reg => Q (noError, some id) ⟨reg, s.ctx.set id (some h)⟩)
          (fun e reg => E e ⟨reg, s.ctx.set id (some h)⟩) s.reg := by
  simp only [uctxHandleInstall, wp_bind, wp_get]
  cases Uctx.bitmapFfz s.ctx.inuse <;> simp

theorem wp_uctxHandleRemove {Q : Int × Option HandlePtr → Task → Prop} :
    wp (uctxHandleRemove id) Q E s ↔
      match s.ctx.handles id with
      | none => Q (errNotFound, none) s
      | some h => wp (handleDecref h)
          (fun _ reg => Q (noError, some h) ⟨reg, s.ctx.set id none⟩)
          (fun e reg => E e ⟨reg, s.ctx.set id none⟩) s.reg := by
  simp only [uctxHandleRemove, wp_bind, wp_get]
  cases s.ctx.handles id <;> simp

end

end TX2SecureUart.Ipc
