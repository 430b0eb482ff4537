import TokioRcu.Epoch
import TokioRcu.Lib.Machine
import Mathlib.Logic.Function.Basic

/-!
# Notify

`rcu_core/notify.rs`: any number of `Notified` futures and of calls of
`notify`. A step is one atomic access or one lock section. Only the lock
section of `notify` takes several steps, since it calls wakers on its way; the
waiters list is the list of the futures in it, and nobody sees its links
without the lock.
-/

namespace TokioRcu

abbrev FutureId := Nat
abbrev NotifierId := Nat

/-- Where a `Notified` stands; `w` is the waker of its latest poll. -/
inductive NotifiedPc
  | absent
  -- Notified::new
  | incActive
  | loadSnapshot
  | fresh
  -- poll
  | check (w : Waker)
  | register (w : Waker)
  | recheck (w : Waker)
  | pending (w : Waker)
  | ready
  -- drop
  | unregister
  | decActive
  | dropped
  deriving DecidableEq, Repr

structure Notified where
  pc : NotifiedPc
  /-- Counts without wrapping, like `numWakeups`. -/
  numWakeupsSnapshot : Nat
  isInList : Bool
  waker : Option Waker
  wasRegisteredIntoList : Bool
  -- the rest is history, nothing reads it
  /-- When `notified` returned, when the latest poll began, and when the future
  was put in the list. -/
  createdAt : Nat
  pollAt : Nat
  registeredAt : Nat
  /-- What the poll that put the future in the list has found `numWakeups` to
  be, at its first and at its second check. -/
  checked : Nat
  rechecked : Option Nat
  /-- The wakers taken from its slot and woken, since its latest poll began. -/
  woken : List Waker

def Notified.absent : Notified where
  pc := .absent
  numWakeupsSnapshot := 0
  isInList := false
  waker := none
  wasRegisteredIntoList := false
  createdAt := 0
  pollAt := 0
  registeredAt := 0
  checked := 0
  rechecked := none
  woken := []

/-- Where a call of `notify` stands. -/
inductive NotifierPc
  | new
  | loadActive
  | incWakeups
  | lock
  | pop
  | wake (f : FutureId) (w : Waker)
  | unlock
  | done
  deriving DecidableEq, Repr

/-- `waker_opt`, and the next iteration. -/
def NotifierPc.afterPop (f : FutureId) : Option Waker → NotifierPc
  | some w => .wake f w
  | none => .pop

structure Notifier where
  pc : NotifierPc
  -- the rest is history, nothing reads it
  startedAt : Nat
  /-- When it found the list empty, unless it has returned early. -/
  drainedAt : Option Nat
  returnedAt : Nat

def Notifier.new : Notifier where
  pc := .new
  startedAt := 0
  drainedAt := none
  returnedAt := 0

structure Notify where
  /-- Counts without wrapping; the code compares it modulo `2 ^ usizeBits`. -/
  numWakeups : Nat
  /-- There are never `usize::MAX` futures, as `inc_num_active_waiters` asserts. -/
  numActiveWaiters : Nat
  /-- The call of `notify` that holds the lock between two of its steps. -/
  lock : Option NotifierId
  waitersList : List FutureId
  futures : FutureId → Notified
  notifiers : NotifierId → Notifier
  clock : Nat

def Notify.initial : Notify where
  numWakeups := 0
  numActiveWaiters := 0
  lock := none
  waitersList := []
  futures := fun _ => .absent
  notifiers := fun _ => .new
  clock := 0

inductive NotifyAct
  /-- A call of `notified`, of `poll`, and the drop of a future. -/
  | create (f : FutureId)
  | poll (f : FutureId) (w : Waker)
  | drop (f : FutureId)
  /-- The next access of a future. -/
  | future (f : FutureId)
  /-- A call of `notify`, and its next access. -/
  | start (n : NotifierId)
  | notifier (n : NotifierId)
  deriving DecidableEq, Repr

namespace Notify

variable (cfg : Config)

def setFuture (s : Notify) (f : FutureId) (x : Notified) : Notify :=
  { s with futures := Function.update s.futures f x }

def setNotifier (s : Notify) (n : NotifierId) (y : Notifier) : Notify :=
  { s with notifiers := Function.update s.notifiers n y }

/-- `new_num_wakeups != self.num_wakeups_snapshot`. -/
def wakeupsChanged (s : Notify) (x : Notified) : Bool :=
  s.numWakeups % 2 ^ cfg.usizeBits != x.numWakeupsSnapshot % 2 ^ cfg.usizeBits

/-- The lock section of a poll that has put the future in the list, or found it there. -/
def registered (s : Notify) (f : FutureId) (w : Waker) : Notify :=
  let x := s.futures f
  if x.isInList then
    s.setFuture f { x with
      pc := .recheck w
      waker := if x.waker.any fun existing => cfg.willWake existing w then x.waker else some w }
  else
    { s with waitersList := f :: s.waitersList }.setFuture f { x with
      pc := .recheck w
      isInList := true
      waker := some w
      wasRegisteredIntoList := true
      registeredAt := s.clock }

/-- The next access of future `f`. -/
def futureStep (s : Notify) (f : FutureId) : Option Notify :=
  let x := s.futures f
  match x.pc with
  | .incActive =>
    some ({ s with numActiveWaiters := s.numActiveWaiters + 1 }.setFuture f
      { x with pc := .loadSnapshot })
  | .loadSnapshot =>
    some (s.setFuture f { x with
      pc := .fresh, numWakeupsSnapshot := s.numWakeups, createdAt := s.clock })
  | .check w =>
    some (s.setFuture f (if s.wakeupsChanged cfg x then { x with pc := .ready }
      else { x with
        pc := .register w
        checked := if x.wasRegisteredIntoList then x.checked else s.numWakeups }))
  | .register w =>
    if s.lock = none then
      some (if !x.isInList && x.wasRegisteredIntoList then s.setFuture f { x with pc := .ready }
        else s.registered cfg f w)
    else none
  | .recheck w =>
    some (s.setFuture f (if s.wakeupsChanged cfg x then { x with pc := .ready }
      else { x with pc := .pending w, rechecked := some (x.rechecked.getD s.numWakeups) }))
  | .unregister =>
    if s.lock = none then
      some (if x.isInList then
        { s with
          waitersList := s.waitersList.erase f
          numActiveWaiters := s.numActiveWaiters - 1 }.setFuture f
            { x with pc := .dropped, isInList := false }
        else s.setFuture f { x with pc := .dropped })
    else none
  | .decActive =>
    some ({ s with numActiveWaiters := s.numActiveWaiters - 1 }.setFuture f
      { x with pc := .dropped })
  | .absent | .fresh | .pending _ | .ready | .dropped => none

/-- The next access of the call `n` of `notify`. -/
def notifierStep (s : Notify) (n : NotifierId) : Option Notify :=
  let y := s.notifiers n
  match y.pc with
  | .loadActive =>
    some (s.setNotifier n (if s.numActiveWaiters = 0 then
      { y with pc := .done, returnedAt := s.clock } else { y with pc := .incWakeups }))
  | .incWakeups =>
    some ({ s with numWakeups := s.numWakeups + 1 }.setNotifier n { y with pc := .lock })
  | .lock =>
    if s.lock = none then some ({ s with lock := some n }.setNotifier n { y with pc := .pop })
    else none
  | .pop =>
    some (match s.waitersList with
      | [] => s.setNotifier n { y with pc := .unlock, drainedAt := some s.clock }
      | f :: rest =>
        ({ s with waitersList := rest, numActiveWaiters := s.numActiveWaiters - 1 }.setFuture f
          { s.futures f with isInList := false, waker := none }).setNotifier n
            { y with pc := .afterPop f (s.futures f).waker })
  | .wake f w =>
    some ((s.setFuture f { s.futures f with woken := w :: (s.futures f).woken }).setNotifier n
      { y with pc := .pop })
  | .unlock =>
    some ({ s with lock := none }.setNotifier n { y with pc := .done, returnedAt := s.clock })
  | .new | .done => none

def act (s : Notify) : NotifyAct → Option Notify
  | .create f =>
    match (s.futures f).pc with
    | .absent => some (s.setFuture f { s.futures f with pc := .incActive })
    | _ => none
  | .poll f w =>
    match (s.futures f).pc with
    | .fresh | .pending _ =>
      some (s.setFuture f { s.futures f with pc := .check w, pollAt := s.clock, woken := [] })
    | _ => none
  | .drop f =>
    match (s.futures f).pc with
    | .fresh | .pending _ | .ready =>
      some (s.setFuture f { s.futures f with
        pc := if (s.futures f).wasRegisteredIntoList then .unregister else .decActive })
    | _ => none
  | .future f => s.futureStep cfg f
  | .start n =>
    match (s.notifiers n).pc with
    | .new => some (s.setNotifier n { s.notifiers n with pc := .loadActive, startedAt := s.clock })
    | _ => none
  | .notifier n => s.notifierStep n

def tick (s : Notify) : Notify := { s with clock := s.clock + 1 }

def step (s : Notify) (a : NotifyAct) : Option Notify := (s.act cfg a).map tick

end Notify

def notifyMachine (cfg : Config) : Lib.Machine Notify NotifyAct where
  init s := s = .initial
  step := Notify.step cfg

end TokioRcu
