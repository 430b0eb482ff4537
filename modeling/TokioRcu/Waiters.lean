import TokioRcu.Notify

/-!
# The waiters list

`rcu_core/notify.rs` once more, one operation after the other, with the links
of its intrusive list and with wakers that panic. A slot lives in its future,
so a pointer to it is good until the future is dropped; following any other is
a `Fault`. The guard of the lock is dropped on every way out of an operation.
-/

namespace TokioRcu

inductive Fault
  /-- The caller has no such future, which safe code cannot express. -/
  | misuse
  /-- A pointer to the slot of a dropped future is followed. -/
  | dangling
  /-- A debug assertion fails. -/
  | assertion
  /-- The loop of `notify` has not come to its end after so many iterations. -/
  | unfinished
  deriving DecidableEq, Repr

namespace Waiters

structure Slot where
  /-- The future whose `next` this is a pointer to; `none` in the head. -/
  pprev : Option FutureId
  next : Option FutureId
  waker : Option Waker
  isInList : Bool
  deriving DecidableEq, Repr

def Slot.new : Slot where
  pprev := none
  next := none
  waker := none
  isInList := false

structure Notified where
  slot : Slot
  /-- Counts without wrapping, like `numWakeups`. -/
  numWakeupsSnapshot : Nat
  wasRegisteredIntoList : Bool
  deriving DecidableEq, Repr

/-- The waker of a poll, and what its methods do in it: `none` is a panic. -/
structure Context where
  waker : Waker
  willWake : Option Bool
  clonePanics : Bool
  deriving DecidableEq, Repr

inductive Output
  | returned
  | ready
  | pending
  | panicked
  deriving DecidableEq, Repr

end Waiters

open Waiters (Slot Context Output)

/-- A `Notify`, and the futures that have not been dropped. -/
structure Waiters where
  /-- Counts without wrapping; the code compares it modulo `2 ^ usizeBits`. -/
  numWakeups : Nat
  waitersListHead : Option FutureId
  numActiveWaiters : Nat
  futures : FutureId → Option Waiters.Notified
  /-- The wakers that have been woken, the latest first. Nothing reads it. -/
  woken : List Waker

namespace Waiters

variable (cfg : Config)

/-- `Notify::new`. -/
def initial : Waiters where
  numWakeups := 0
  waitersListHead := none
  numActiveWaiters := 0
  futures := fun _ => none
  woken := []

def deref (s : Waiters) (f : FutureId) : Except Fault Notified :=
  match s.futures f with
  | some x => .ok x
  | none => .error .dangling

def writeSlot (s : Waiters) (f : FutureId) (write : Slot → Slot) : Except Fault Waiters := do
  let x ← s.deref f
  return { s with futures := Function.update s.futures f (some { x with slot := write x.slot }) }

def writeNext (s : Waiters) (f : FutureId) (next : Option FutureId) : Except Fault Waiters :=
  s.writeSlot f fun slot => { slot with next := next }

def writePprev (s : Waiters) (f : FutureId) (pprev : Option FutureId) : Except Fault Waiters :=
  s.writeSlot f fun slot => { slot with pprev := pprev }

def writePprevOpt (s : Waiters) (slotOpt pprev : Option FutureId) : Except Fault Waiters :=
  match slotOpt with
  | some slot => s.writePprev slot pprev
  | none => .ok s

def decNumActiveWaiters (s : Waiters) : Except Fault Waiters :=
  if s.numActiveWaiters = 0 then .error .assertion
  else .ok { s with numActiveWaiters := s.numActiveWaiters - 1 }

/-- `new_num_wakeups != self.num_wakeups_snapshot`. -/
def wakeupsChanged (s : Waiters) (x : Notified) : Bool :=
  s.numWakeups % 2 ^ cfg.usizeBits != x.numWakeupsSnapshot % 2 ^ cfg.usizeBits

-- ---------------------------------------------------------------------------
-- Notify::notify
-- ---------------------------------------------------------------------------

/-- An iteration of the loop begins: the head leaves the list. -/
def unlinkHead (s : Waiters) (curSlotPtr : FutureId) : Except Fault Waiters := do
  let curSlot := (← s.deref curSlotPtr).slot
  let s := { s with waitersListHead := curSlot.next }
  match curSlot.next with
  | some nextSlotPtr =>
    let s ← s.writePprev curSlotPtr none
    s.writePprev nextSlotPtr curSlot.pprev
  | none => return s

/-- The slot is told that it has left, and gives its waker away. -/
def releaseSlot (s : Waiters) (curSlotPtr : FutureId) :
    Except Fault (Waiters × Option Waker) := do
  let s ← s.writeSlot curSlotPtr fun slot => { slot with isInList := false }
  let s ← s.decNumActiveWaiters
  let wakerOpt := (← s.deref curSlotPtr).slot.waker
  let s ← s.writeSlot curSlotPtr fun slot => { slot with waker := none }
  return (s, wakerOpt)

/-- An iteration, up to the call of `wake`. -/
def takeHead (s : Waiters) (curSlotPtr : FutureId) : Except Fault (Waiters × Option Waker) := do
  let s ← s.unlinkHead curSlotPtr
  s.releaseSlot curSlotPtr

/-- The loop: `panics i` tells if the `i`-th call of `wake` panics. -/
def drain (panics : Nat → Bool) :
    (iterations : Nat) → (i : Nat) → Waiters → Except Fault (Waiters × Output)
  | iterations, i, s =>
    match s.waitersListHead with
    | none => .ok (s, .returned)
    | some curSlotPtr =>
      match iterations with
      | 0 => .error .unfinished
      | iterations + 1 => do
        let (s, wakerOpt) ← s.takeHead curSlotPtr
        match wakerOpt with
        | none => drain panics iterations i s
        | some waker =>
          let s := { s with woken := waker :: s.woken }
          if panics i then return (s, .panicked) else drain panics iterations (i + 1) s

/-- `notify` behind its early return. -/
def notifySlow (s : Waiters) (panics : Nat → Bool) (iterations : Nat) :
    Except Fault (Waiters × Output) :=
  drain panics iterations 0 { s with numWakeups := s.numWakeups + 1 }

def notify (s : Waiters) (panics : Nat → Bool) (iterations : Nat) :
    Except Fault (Waiters × Output) :=
  if s.numActiveWaiters = 0 then .ok (s, .returned) else s.notifySlow panics iterations

-- ---------------------------------------------------------------------------
-- Notified::new
-- ---------------------------------------------------------------------------

def notified (s : Waiters) (f : FutureId) : Waiters :=
  { s with
    numActiveWaiters := s.numActiveWaiters + 1
    futures := Function.update s.futures f (some {
      slot := .new, numWakeupsSnapshot := s.numWakeups, wasRegisteredIntoList := false }) }

-- ---------------------------------------------------------------------------
-- Notified::poll
-- ---------------------------------------------------------------------------

/-- The check of `num_wakeups` after the lock section. -/
def recheck (s : Waiters) (f : FutureId) : Except Fault (Waiters × Output) := do
  let x ← s.deref f
  return (s, if s.wakeupsChanged cfg x then .ready else .pending)

/-- Puts the future in the list. -/
def register (s : Waiters) (f : FutureId) (waker : Waker) : Except Fault Waiters := do
  let s ← s.writeSlot f fun slot => { slot with waker := some waker }
  let s ← s.writeSlot f fun slot => { slot with isInList := true }
  let headOpt := s.waitersListHead
  let s ← s.writeNext f headOpt
  let s ← s.writePprev f none
  let s ← s.writePprevOpt headOpt (some f)
  let s := { s with waitersListHead := some f }
  let x ← s.deref f
  return { s with
    futures := Function.update s.futures f (some { x with wasRegisteredIntoList := true }) }

/-- Already in the list: the waker is kept, or replaced by a clone of the new one. -/
def pollInList (s : Waiters) (f : FutureId) (existingWaker : Option Waker) (cx : Context) :
    Except Fault (Waiters × Output) :=
  match existingWaker, cx.willWake with
  | some _, none => .ok (s, .panicked)
  | some _, some true => s.recheck cfg f
  | _, _ =>
    if cx.clonePanics then .ok (s, .panicked)
    else do
      let s ← s.writeSlot f fun slot => { slot with waker := some cx.waker }
      s.recheck cfg f

/-- Not in the list: woken, or polled for the first time. -/
def pollNotInList (s : Waiters) (f : FutureId) (wasRegisteredIntoList : Bool) (cx : Context) :
    Except Fault (Waiters × Output) :=
  if wasRegisteredIntoList then .ok (s, .ready)
  else if cx.clonePanics then .ok (s, .panicked)
  else do
    let s ← s.register f cx.waker
    s.recheck cfg f

def poll (s : Waiters) (f : FutureId) (cx : Context) : Except Fault (Waiters × Output) := do
  let x ← s.deref f
  if s.wakeupsChanged cfg x then .ok (s, .ready)
  else if x.slot.isInList then s.pollInList cfg f x.slot.waker cx
  else s.pollNotInList cfg f x.wasRegisteredIntoList cx

-- ---------------------------------------------------------------------------
-- Drop for Notified
-- ---------------------------------------------------------------------------

/-- What led to the future leads to what comes after it. -/
def writePrevNext (s : Waiters) (f : FutureId) (pprevOpt nextOpt : Option FutureId) :
    Except Fault Waiters :=
  match pprevOpt with
  | some pprev => s.writeNext pprev nextOpt
  | none =>
    if s.waitersListHead = some f then .ok { s with waitersListHead := nextOpt }
    else .error .assertion

/-- Takes the future out of the list. -/
def unlink (s : Waiters) (f : FutureId) : Except Fault Waiters := do
  let pprevOpt := (← s.deref f).slot.pprev
  let s ← s.writePprev f none
  let nextOpt := (← s.deref f).slot.next
  let s ← s.writePrevNext f pprevOpt nextOpt
  let s ← s.writePprevOpt nextOpt pprevOpt
  s.decNumActiveWaiters

def dropWasRegisteredIntoList (s : Waiters) (f : FutureId) : Except Fault Waiters := do
  let x ← s.deref f
  if x.slot.isInList then s.unlink f else return s

def dropNeverRegisteredIntoList (s : Waiters) : Except Fault Waiters := s.decNumActiveWaiters

def drop (s : Waiters) (f : FutureId) : Except Fault Waiters := do
  let x ← s.deref f
  if x.wasRegisteredIntoList then s.dropWasRegisteredIntoList f
  else s.dropNeverRegisteredIntoList

/-- A future is dropped, and its slot is gone. -/
def dropNotified (s : Waiters) (f : FutureId) : Except Fault Waiters := do
  let s ← s.drop f
  return { s with futures := Function.update s.futures f none }

end Waiters

-- ---------------------------------------------------------------------------
-- Sequences of operations
-- ---------------------------------------------------------------------------

inductive WaitersOp
  | notified (f : FutureId)
  | poll (f : FutureId) (cx : Context)
  | notify (panics : Nat → Bool) (iterations : Nat)
  | drop (f : FutureId)

def WaitersOp.isNotify : WaitersOp → Bool
  | .notify _ _ => true
  | _ => false

namespace Waiters

variable (cfg : Config)

/-- An operation, with `notify` as given. -/
def execWith (notify : Waiters → (Nat → Bool) → Nat → Except Fault (Waiters × Output))
    (s : Waiters) : WaitersOp → Except Fault (Waiters × Output)
  | .notified f => if (s.futures f).isSome then .error .misuse else .ok (s.notified f, .returned)
  | .poll f cx => if (s.futures f).isSome then s.poll cfg f cx else .error .misuse
  | .notify panics iterations => notify s panics iterations
  | .drop f =>
    if (s.futures f).isSome then (s.dropNotified f).map fun s => (s, .returned) else .error .misuse

def exec : Waiters → WaitersOp → Except Fault (Waiters × Output) := execWith cfg notify

/-- As if `notify` had no early return. -/
def execSlow : Waiters → WaitersOp → Except Fault (Waiters × Output) := execWith cfg notifySlow

/-- The outputs of a sequence of operations, and the wakers woken in it. -/
def observe (exec : Waiters → WaitersOp → Except Fault (Waiters × Output)) :
    Waiters → List WaitersOp → Except Fault (List Output × List Waker)
  | s, [] => .ok ([], s.woken)
  | s, op :: ops => do
    let (s, out) ← exec s op
    let (outs, woken) ← observe exec s ops
    return (out :: outs, woken)

end Waiters

def waitersMachine (cfg : Config) : Lib.Machine Waiters WaitersOp where
  init s := s = .initial
  step s op := (s.exec cfg op).toOption.map Prod.fst

end TokioRcu
