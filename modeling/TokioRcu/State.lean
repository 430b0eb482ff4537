import TokioRcu.Epoch
import Mathlib.Logic.Function.Basic

/-!
# The shared state and the threads

The statics of `rcu_core` (the epoch id, the storage slots, the epoch id
notifications), what each thread has in its thread locals, and where each
thread and the grace period performer stand in their code. Every program
counter below names the next atomic access, fence or lock section.
-/

namespace TokioRcu

inductive Hook
  | stop | park | unpark | beforePoll | afterPoll
  deriving DecidableEq, Repr

/-- The two hooks that make a thread busy. -/
inductive Entry
  | unpark | beforePoll
  deriving DecidableEq, Repr

def Entry.hook : Entry → Hook
  | .unpark => .unpark
  | .beforePoll => .beforePoll

inductive Pc
  -- outside of the hooks
  | idle
  | parked
  | polling
  | panicked
  -- on_thread_stop, on_thread_park
  | dealloc
  | clearBusy
  -- on_thread_unpark, on_before_task_poll
  | markBusy
  | alloc
  | entryFence (w : Entry)
  | seeEpoch (w : Entry)
  | publish (w : Entry) (newSeen : Nat)
  -- on_after_task_poll
  | seeNewEpoch
  | loadPrev (newSeen : Nat)
  | storeSeen (newSeen prev : Nat)
  -- the fence before thread_epoch_updated_notify, and thread_epoch_updated_notify_inner
  | notifyFence (h : Hook)
  | loadHasSubscriber (h : Hook)
  | incNotifications (h : Hook)
  | readInfo (h : Hook)
  | takeInfo (h : Hook)
  | clearHasSubscriber (h : Hook)
  deriving DecidableEq, Repr

/-- Where a hook returns to. -/
def Hook.ret : Hook → Pc
  | .stop | .unpark | .afterPoll => .idle
  | .park => .parked
  | .beforePoll => .polling

/-- `on_thread_park` notifies with `thread_epoch_updated_notify_except_cur_thread`. -/
def Hook.skipsCurThread : Hook → Bool
  | .park => true
  | _ => false

structure Thread where
  /-- The thread local `THREAD_STORAGE_SLOT`. -/
  slot : Option SlotId
  pc : Pc
  /-- The open read sections, innermost first, named by when they were opened. -/
  sections : List Nat

def Thread.fresh : Thread := { slot := none, pc := .idle, sections := [] }

structure SubscriberInfo where
  waker : Waker
  threadId : Tid
  deriving DecidableEq, Repr

/-- The three waits of `synchronize_rcu_serialized`, each with the epoch id it waits for. -/
inductive Wait
  | next (newEpochId : Nat)
  | reset
  | leave
  deriving DecidableEq, Repr

/-- An `EpochIdNotificationsSubscriber`. -/
structure Subscriber where
  snapshot : Nat
  hadAlreadyRegistered : Bool
  consumed : Bool
  deriving DecidableEq, Repr

/-- Why a subscriber is dropped: its wait is over and the loop goes round, the
scan passed and the loop is left, or the future is abandoned. -/
inductive Drop
  | again | passed | abandoned
  deriving DecidableEq, Repr

/-- Where `synchronize_rcu_serialized` stands. `self` is the slot of the thread
that ran the scan, `len` the length the scan saw. -/
inductive GpPc
  | loadEpoch
  | storeNext (orig : Nat)
  | storeReset
  | storeLeave
  | subscribe (w : Wait)
  | loadSnapshot (w : Wait)
  | scanFence (w : Wait) (sub : Subscriber)
  | beginScan (w : Wait) (sub : Subscriber)
  | scan (w : Wait) (sub : Subscriber) (self : SlotId) (len i : Nat)
  | check (w : Wait) (sub : Subscriber) (self : SlotId)
  | register (w : Wait) (sub : Subscriber) (self : SlotId)
  | readRegistered (w : Wait) (sub : Subscriber) (self : SlotId)
  | updateRegistered (w : Wait) (sub : Subscriber) (self : SlotId) (tidGood wakerGood : Bool)
  | recheck (w : Wait) (sub : Subscriber) (self : SlotId) (firstPoll : Bool)
  | suspended (w : Wait) (sub : Subscriber) (self : SlotId)
  | dropFlag (w : Wait) (sub : Subscriber) (d : Drop)
  | dropInfo (w : Wait) (sub : Subscriber) (d : Drop)
  | finished
  | aborted
  deriving DecidableEq, Repr

structure Gp where
  pc : GpPc
  /-- The thread that is polling the performer, if any. -/
  runner : Option Tid
  /-- The waker of the latest poll, and the wakers woken since that poll began. -/
  waker : Waker
  woken : List Waker
  /-- When `synchronize_rcu_serialized` was entered; nothing reads it. -/
  since : Nat

structure Core where
  curEpochId : Nat
  hasSubscriber : Bool
  /-- Counts without wrapping; the code compares it modulo `2 ^ usizeBits`. -/
  numNotifications : Nat
  subscriberInfo : Option SubscriberInfo
  /-- The notifier that holds `SUBSCRIBER_INFO` for writing between its two accesses. -/
  infoWriter : Option Tid
  slots : SlotId → Nat
  len : Nat
  freeSlots : List SlotId
  threads : Tid → Thread
  gp : Option Gp
  /-- The number of steps so far; it only names events. -/
  clock : Nat

/-- No thread has run a hook yet and no slot is allocated. -/
def Core.initial (epoch : Nat) : Core where
  curEpochId := epoch
  hasSubscriber := false
  numNotifications := 0
  subscriberInfo := none
  infoWriter := none
  slots := fun _ => ThreadState.noneEncodedValue
  len := 0
  freeSlots := []
  threads := fun _ => .fresh
  gp := none
  clock := 0

namespace Core

def setThread (s : Core) (t : Tid) (th : Thread) : Core :=
  { s with threads := Function.update s.threads t th }

def goto (s : Core) (t : Tid) (pc : Pc) : Core := s.setThread t { s.threads t with pc := pc }

def storeState (s : Core) (i : SlotId) (v : Nat) : Core :=
  { s with slots := Function.update s.slots i v }

def setGp (s : Core) (g : Gp) : Core := { s with gp := some g }

def gotoGp (s : Core) (g : Gp) (pc : GpPc) : Core := s.setGp { g with pc := pc }

/-- The thread's storage slot, or the panic of `this_thread_get_storage_slot_id`. -/
def withSlot (s : Core) (t : Tid) (f : SlotId → Core) : Core :=
  match (s.threads t).slot with
  | some i => f i
  | none => s.goto t .panicked

section
variable (s : Core) (t : Tid) (th : Thread) (pc : Pc) (i : SlotId) (v : Nat) (g : Gp) (p : GpPc)

@[simp] theorem setThread_self : (s.setThread t th).threads t = th := by simp [setThread]
theorem setThread_ne {u : Tid} (h : u ≠ t) : (s.setThread t th).threads u = s.threads u := by
  simp [setThread, h]
@[simp] theorem setThread_slots : (s.setThread t th).slots = s.slots := rfl
@[simp] theorem setThread_gp : (s.setThread t th).gp = s.gp := rfl
@[simp] theorem setThread_curEpochId : (s.setThread t th).curEpochId = s.curEpochId := rfl
@[simp] theorem setThread_len : (s.setThread t th).len = s.len := rfl
@[simp] theorem setThread_numNotifications :
    (s.setThread t th).numNotifications = s.numNotifications := rfl

@[simp] theorem goto_pc : ((s.goto t pc).threads t).pc = pc := by simp [goto]
@[simp] theorem goto_slot : ((s.goto t pc).threads t).slot = (s.threads t).slot := by simp [goto]
@[simp] theorem goto_sections : ((s.goto t pc).threads t).sections = (s.threads t).sections := by
  simp [goto]
theorem goto_ne {u : Tid} (h : u ≠ t) : (s.goto t pc).threads u = s.threads u :=
  setThread_ne s t _ h
@[simp] theorem goto_slots : (s.goto t pc).slots = s.slots := rfl
@[simp] theorem goto_gp : (s.goto t pc).gp = s.gp := rfl
@[simp] theorem goto_curEpochId : (s.goto t pc).curEpochId = s.curEpochId := rfl
@[simp] theorem goto_len : (s.goto t pc).len = s.len := rfl
@[simp] theorem goto_numNotifications : (s.goto t pc).numNotifications = s.numNotifications := rfl
@[simp] theorem goto_subscriberInfo : (s.goto t pc).subscriberInfo = s.subscriberInfo := rfl

@[simp] theorem storeState_self : (s.storeState i v).slots i = v := by simp [storeState]
theorem storeState_ne {j : SlotId} (h : j ≠ i) : (s.storeState i v).slots j = s.slots j := by
  simp [storeState, h]
@[simp] theorem storeState_threads : (s.storeState i v).threads = s.threads := rfl
@[simp] theorem storeState_gp : (s.storeState i v).gp = s.gp := rfl

@[simp] theorem setGp_gp : (s.setGp g).gp = some g := rfl
@[simp] theorem setGp_threads : (s.setGp g).threads = s.threads := rfl
@[simp] theorem setGp_slots : (s.setGp g).slots = s.slots := rfl
@[simp] theorem gotoGp_gp : (s.gotoGp g p).gp = some { g with pc := p } := rfl
@[simp] theorem gotoGp_threads : (s.gotoGp g p).threads = s.threads := rfl
@[simp] theorem gotoGp_slots : (s.gotoGp g p).slots = s.slots := rfl
@[simp] theorem gotoGp_curEpochId : (s.gotoGp g p).curEpochId = s.curEpochId := rfl
@[simp] theorem setGp_curEpochId : (s.setGp g).curEpochId = s.curEpochId := rfl

end
end Core
end TokioRcu
