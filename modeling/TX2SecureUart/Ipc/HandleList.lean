/-
# `Ipc.HandleList` — waiting on a list of handles

`handle_list_wait` polls the handles of a list from its head on and returns the
first that has an event.  It then moves the list head behind that handle, so that
the others come before it in the next call.

`World` is what the calls find: the result of every poll and of every wait for the
event, in the order in which they are made.  Between two calls other threads may
begin and end their own waits on single handles.
-/
import TX2SecureUart.Err
import TX2SecureUart.Lib.Prog
import TX2SecureUart.Lib.ListNode

namespace TX2SecureUart.HandleList

open Prog ListNode

variable {ι : Type}

/-- The list nodes: that of `handle_list_t` and the `hlist_node` of each handle. -/
inductive Node (ι : Type) where
  | head
  | handle (h : ι)
deriving DecidableEq

/-- Who an event of a handle belongs to. -/
inductive Waiter where
  | list
  | other
deriving DecidableEq

inductive Stop where
  | assertion
  | nullDeref
  /-- The call has not come to its end. -/
  | running
deriving DecidableEq

structure State (ι : Type) where
  links : Links (Node ι)
  /-- `handle->wait_event` -/
  waitEvent : ι → Option Waiter
  /-- `hlist->wait_event` is set. -/
  listWaitEvent : Bool
  refcnt : ι → Nat
  /-- The calls of `finalize_event`. -/
  finalized : List (ι × UInt32)
  polls : Nat
  waits : Nat

structure World (ι : Type) where
  poll : Nat → ι → UInt32
  doWait : Nat → Int
  /-- The handle has a `finalize_event`. -/
  finalizes : ι → Bool

abbrev ListM (ι α : Type) := EStateM Stop (State ι) α

/-! ## The operations -/

variable [DecidableEq ι] (W : World ι)

/-- `_prepare_wait_handle` -/
def prepareWaitHandle (h : ι) : ListM ι Int := do
  let s ← get
  if (s.waitEvent h).isSome = true then pure errAlreadyStarted
  else do
    set { s with waitEvent := Function.update s.waitEvent h (some .list) }
    pure 0

/-- `_finish_wait_handle` -/
def finishWaitHandle (h : ι) : ListM ι Unit :=
  modify fun s => { s with waitEvent := Function.update s.waitEvent h none }

def poll (h : ι) : ListM ι UInt32 := do
  let s ← get
  set { s with polls := s.polls + 1 }
  pure (W.poll s.polls h)

/-- `__do_wait` -/
def doWait : ListM ι Int := do
  let s ← get
  set { s with waits := s.waits + 1 }
  pure (W.doWait s.waits)

/-- `_hlist_finish_wait_locked`, from a node on. -/
def finishWaitFrom (last : Option ι) : Nat → Option (Node ι) → ListM ι Unit
  | 0, _ => throw .running
  | _ + 1, none => throw .nullDeref
  | _ + 1, some .head => pure ()
  | fuel + 1, some (.handle h) => do
      finishWaitHandle h
      let s ← get
      if some h = last then pure () else finishWaitFrom last fuel (s.links.next (.handle h))

/-- `_hlist_finish_wait_locked` -/
def hlistFinishWaitLocked (last : Option ι) (fuel : Nat) : ListM ι Unit := do
  let s ← get
  finishWaitFrom last fuel (s.links.next .head)

/-- What a round of polls ends with: `ret`, the handle and its event, `last_prep`. -/
structure Polled (ι : Type) where
  ret : Int
  found : Option (ι × UInt32)
  lastPrep : Option ι

def prepareIf (prepare : Bool) (h : ι) : ListM ι Int :=
  if prepare = true then prepareWaitHandle h else pure 0

/-- The loop of `_hlist_do_poll_locked`, from a node on. -/
def pollFrom (prepare : Bool) : Nat → Option (Node ι) → Option ι → ListM ι (Polled ι)
  | 0, _, _ => throw .running
  | _ + 1, none, _ => throw .nullDeref
  | _ + 1, some .head, lastPrep => pure ⟨0, none, lastPrep⟩
  | fuel + 1, some (.handle h), lastPrep => do
      let ret ← prepareIf prepare h
      if ret ≠ 0 then pure ⟨ret, none, lastPrep⟩
      else do
        let lastPrep := if prepare = true then some h else lastPrep
        let event ← poll W h
        let s ← get
        if event ≠ 0 then pure ⟨1, some (h, event), lastPrep⟩
        else pollFrom prepare fuel (s.links.next (.handle h)) lastPrep

/-- Undo the preparation when a handle was found or could not be prepared. -/
def undoPrepare (prepare : Bool) (p : Polled ι) (fuel : Nat) : ListM ι Unit :=
  if p.ret ≠ 0 ∧ prepare = true ∧ p.lastPrep.isSome = true then
    hlistFinishWaitLocked p.lastPrep fuel
  else pure ()

/-- `_hlist_do_poll_locked` -/
def hlistDoPollLocked (prepare : Bool) (fuel : Nat) : ListM ι (Int × Option (ι × UInt32)) := do
  let s ← get
  if s.listWaitEvent = false then throw .assertion
  else if s.links.next .head = some .head then pure (errNotFound, none)
  else do
    let p ← pollFrom W prepare fuel (s.links.next .head) none
    undoPrepare prepare p fuel
    pure (p.ret, p.found)

/-- The wait for the event and the poll after it, until a handle is found. -/
def waitLoop (size : Nat) : Nat → ListM ι (Int × Option (ι × UInt32))
  | 0 => throw .running
  | fuel + 1 => do
      let ret ← doWait W
      if ret < 0 then pure (ret, none)
      else do
        let r ← hlistDoPollLocked W false size
        if r.1 = 0 then waitLoop size fuel else pure r

/-- The part after a first round of polls that found nothing. -/
def waitIfNone (fuel : Nat) (r : Int × Option (ι × UInt32)) :
    ListM ι (Int × Option (ι × UInt32)) :=
  if r.1 = 0 then do
    let r ← waitLoop W fuel fuel
    hlistFinishWaitLocked none fuel
    pure r
  else pure r

/-- Move the list head behind a handle. -/
def moveHead (h : ι) : ListM ι Unit := do
  let s ← get
  match s.links.listDelete .head >>= fun links => links.listAddHead (.handle h) .head with
  | none => throw .nullDeref
  | some links => set { s with links := links }

/-- The handle that was found is finalised and referenced, and comes last. -/
def finishFound (h : ι) (event : UInt32) : ListM ι Unit := do
  modify fun s => { s with
    finalized := if W.finalizes h = true then s.finalized ++ [(h, event)] else s.finalized
    refcnt := Function.update s.refcnt h (s.refcnt h + 1) }
  moveHead h

/-- What follows when the polls have ended with `ret`. -/
def takeHandle (r : Int × Option (ι × UInt32)) : ListM ι (Int × Option (ι × UInt32)) :=
  if r.1 = 1 then
    match r.2 with
    | none => throw .nullDeref
    | some (h, event) => do
        finishFound W h event
        pure (noError, r.2)
  else pure r

/-- `handle_list_wait` -/
def handleListWait (fuel : Nat) : ListM ι (Int × Option (ι × UInt32)) := do
  let s ← get
  if s.listWaitEvent = true then throw .assertion
  else do
    set { s with listWaitEvent := true }
    let r ← hlistDoPollLocked W true fuel
    let r ← waitIfNone W fuel r
    let r ← takeHandle W r
    modify fun s => { s with listWaitEvent := false }
    pure r

/-! ## Calls one after the other -/

/-- A call: on which handles other threads wait when it begins, and the steps that
its loops are given. -/
structure Call (ι : Type) where
  others : ι → Bool
  fuel : Nat

def Call.run (c : Call ι) : ListM ι (Int × Option (ι × UInt32)) := do
  modify fun s => { s with waitEvent := fun h => if c.others h = true then some .other else none }
  handleListWait W c.fuel

/-- The handle of a successful call. -/
def returned (r : Int × Option (ι × UInt32)) : List ι :=
  if r.1 = noError then (r.2.map Prod.fst).toList else []

/-- The handles that the successful ones of these calls return. -/
def runCalls : List (Call ι) → ListM ι (List ι)
  | [] => pure []
  | c :: cs => do
      let r ← c.run W
      let found ← runCalls cs
      pure (returned r ++ found)

end TX2SecureUart.HandleList
