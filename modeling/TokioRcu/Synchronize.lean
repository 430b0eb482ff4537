import TokioRcu.Epoch
import TokioRcu.Lib.Machine
import TokioRcu.Lib.RwLock
import Mathlib.Logic.Function.Basic

/-!
# Calls of synchronize_rcu

The body of `synchronize_rcu` around `synchronize_rcu_serialized`: the two
counters, the reset of the counters, and the mutex. Any number of calls are
under way; every step is one access of one call, and a call may be dropped
wherever it can be suspended. A lock is handed to a waiter before the waiter is
polled again, so the first access behind an await is such a place too.
-/

namespace TokioRcu

abbrev CallId := Nat

inductive Outcome
  | ready | dropped
  deriving DecidableEq, Repr

/-- How far a `Notified` is: not polled yet, in the list, or taken out of it by a notifier. -/
inductive Listener
  | unpolled | listed | woken
  deriving DecidableEq, Repr

/-- Where a call stands; every program counter names the next access. -/
inductive SyncPc
  | new
  | awaitRead
  -- the try_update of GP_STARTED_COUNTER
  | load
  | compareExchange (prev : Nat)
  -- the leader of a reset
  | leaderUnlock
  | awaitWrite
  | resetStarted
  | resetFinished
  | unlockWrite
  | notify
  -- a follower; `snapshot` is that of its `Notified`
  | listen
  | followerUnlock (snapshot : Nat)
  | awaitReset (snapshot : Nat) (l : Listener)
  -- with a gp id, and with the sampled GP_STARTED_COUNTER
  | awaitMutex (id : Nat)
  | loadFinished (id : Nat)
  | loadStarted (id : Nat)
  | enter (id started : Nat)
  | serialized (id started since : Nat)
  | publish (id started : Nat)
  | unlockMutex (o : Outcome)
  | unlockRead (o : Outcome)
  -- dropped with the guard for writing
  | dropWrite
  | ended (o : Outcome)
  deriving DecidableEq, Repr

structure Call where
  pc : SyncPc
  /-- When the call was first polled, and when it made the increment that gave
  it its gp id; nothing reads them. -/
  polledAt : Nat
  countedAt : Nat

def Call.fresh : Call := { pc := .new, polledAt := 0, countedAt := 0 }

/-- A notifier takes a listener out of the list. -/
def SyncPc.notified : SyncPc → SyncPc
  | .awaitReset snapshot .listed => .awaitReset snapshot .woken
  | pc => pc

def Call.notified (x : Call) : Call := { x with pc := x.pc.notified }

structure Sync where
  startedCounter : Nat
  finishedCounter : Nat
  resetSyncLock : Lib.RwLock CallId
  mutex : Option CallId
  /-- Counts without wrapping; the code compares it modulo `2 ^ usizeBits`. -/
  numWakeups : Nat
  calls : CallId → Call
  -- the rest is history, nothing reads it
  /-- Who made the increment to each gp id, and when, since the last reset. -/
  ledger : Nat → CallId × Nat
  /-- When the executions of `synchronize_rcu_serialized` that ran to completion began. -/
  completed : List Nat
  /-- When a counter was last reset. -/
  resetAt : Nat
  clock : Nat

def Sync.initial : Sync where
  startedCounter := 0
  finishedCounter := 0
  resetSyncLock := .unlocked
  mutex := none
  numWakeups := 0
  calls := fun _ => .fresh
  ledger := fun _ => (0, 0)
  completed := []
  resetAt := 0
  clock := 0

inductive SyncAct
  /-- The next access of a call. -/
  | call (c : CallId)
  /-- Its compare-and-exchange fails for no reason. -/
  | spurious (c : CallId)
  | drop (c : CallId)
  /-- A step of code that touches none of this. -/
  | other
  deriving DecidableEq, Repr

namespace Sync

variable (cfg : Config)

def setCall (s : Sync) (c : CallId) (x : Call) : Sync :=
  { s with calls := Function.update s.calls c x }

def goto (s : Sync) (c : CallId) (pc : SyncPc) : Sync :=
  s.setCall c { s.calls c with pc := pc }

/-- `try_update` with the value it has read: `v.checked_add(1)`. -/
def tryUpdate (v : Nat) : SyncPc := if v = cfg.gpIdMax then .listen else .compareExchange v

/-- The increment from `prev`, by a call that then has a gp id or leads a reset. -/
def increment (s : Sync) (c : CallId) (prev : Nat) : Sync :=
  { s with
    startedCounter := prev + 1
    ledger := Function.update s.ledger (prev + 1) (c, s.clock) }.setCall c
      { s.calls c with
        pc := if prev + 1 = cfg.gpIdMax then .leaderUnlock else .awaitMutex (prev + 1)
        countedAt := s.clock }

/-- `GP_COUNTERS_RESET_DONE.notify()`. It returns early when nobody listens,
and then nobody sees the counter. -/
def notifyAll (s : Sync) : Sync :=
  { s with numWakeups := s.numWakeups + 1, calls := fun c => (s.calls c).notified }

/-- The poll of a `Notified` finds that the counter has changed. -/
def wakeupsChanged (s : Sync) (snapshot : Nat) : Bool :=
  s.numWakeups % 2 ^ cfg.usizeBits != snapshot % 2 ^ cfg.usizeBits

/-- The next access of call `c`. -/
def callStep (s : Sync) (c : CallId) : Option Sync :=
  match (s.calls c).pc with
  | .new => some (s.setCall c { s.calls c with pc := .awaitRead, polledAt := s.clock })
  | .awaitRead =>
    (s.resetSyncLock.read c).map fun l => { s with resetSyncLock := l }.goto c .load
  | .load => some (s.goto c (tryUpdate cfg s.startedCounter))
  | .compareExchange prev =>
    some (if s.startedCounter = prev then s.increment cfg c prev
      else s.goto c (tryUpdate cfg s.startedCounter))
  | .leaderUnlock =>
    some ({ s with resetSyncLock := s.resetSyncLock.dropRead c }.goto c .awaitWrite)
  | .awaitWrite =>
    (s.resetSyncLock.write c).map fun l => { s with resetSyncLock := l }.goto c .resetStarted
  | .resetStarted =>
    some ({ s with startedCounter := 0, resetAt := s.clock }.goto c .resetFinished)
  | .resetFinished =>
    some ({ s with finishedCounter := 0, resetAt := s.clock }.goto c .unlockWrite)
  | .unlockWrite =>
    some ({ s with resetSyncLock := s.resetSyncLock.dropWrite }.goto c .notify)
  | .notify => some (s.notifyAll.goto c .awaitRead)
  | .listen => some (s.goto c (.followerUnlock s.numWakeups))
  | .followerUnlock n =>
    some ({ s with resetSyncLock := s.resetSyncLock.dropRead c }.goto c (.awaitReset n .unpolled))
  | .awaitReset n l =>
    if s.wakeupsChanged cfg n then some (s.goto c .awaitRead)
    else match l with
      | .unpolled => some (s.goto c (.awaitReset n .listed))
      | .listed => none
      | .woken => some (s.goto c .awaitRead)
  | .awaitMutex id =>
    if s.mutex = none then some ({ s with mutex := some c }.goto c (.loadFinished id)) else none
  | .loadFinished id =>
    some (s.goto c (if id ≤ s.finishedCounter then .unlockMutex .ready else .loadStarted id))
  | .loadStarted id => some (s.goto c (.enter id s.startedCounter))
  | .enter id n => some (s.goto c (.serialized id n s.clock))
  | .serialized id n since =>
    some ({ s with completed := since :: s.completed }.goto c (.publish id n))
  | .publish _ n => some ({ s with finishedCounter := n }.goto c (.unlockMutex .ready))
  | .unlockMutex o => some ({ s with mutex := none }.goto c (.unlockRead o))
  | .unlockRead o =>
    some ({ s with resetSyncLock := s.resetSyncLock.dropRead c }.goto c (.ended o))
  | .dropWrite =>
    some ({ s with resetSyncLock := s.resetSyncLock.dropWrite }.goto c (.ended .dropped))
  | .ended _ => none

def spuriousStep (s : Sync) (c : CallId) : Option Sync :=
  match (s.calls c).pc with
  | .compareExchange _ => some (s.goto c (tryUpdate cfg s.startedCounter))
  | _ => none

/-- The future of call `c` is dropped, or unwound out of `synchronize_rcu_serialized`. -/
def dropStep (s : Sync) (c : CallId) : Option Sync :=
  match (s.calls c).pc with
  | .new | .awaitRead | .awaitWrite | .awaitReset _ _ => some (s.goto c (.ended .dropped))
  | .load | .awaitMutex _ => some (s.goto c (.unlockRead .dropped))
  | .resetStarted => some (s.goto c .dropWrite)
  | .loadFinished _ | .serialized _ _ _ => some (s.goto c (.unlockMutex .dropped))
  | _ => none

def tick (s : Sync) : Sync := { s with clock := s.clock + 1 }

def act (s : Sync) : SyncAct → Option Sync
  | .call c => s.callStep cfg c
  | .spurious c => s.spuriousStep cfg c
  | .drop c => s.dropStep c
  | .other => some s

def step (s : Sync) (a : SyncAct) : Option Sync := (s.act cfg a).map tick

end Sync

def syncMachine (cfg : Config) : Lib.Machine Sync SyncAct where
  init s := s = .initial
  step := Sync.step cfg

end TokioRcu
