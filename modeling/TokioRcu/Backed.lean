import TokioRcu.SlotContent
import TokioRcu.System

/-!
# Threads and grace periods over the slot table

The machine of `TokioRcu.System` with `thread_storage_slots.rs` in the place of
its slots: a hook takes a read guard, finds its slot through it and drops it
again, the performer scans the slice that its guard gives, and a thread
allocates and frees its slot access by access, under the locks of the table.
An allocation that is going to panic stands still.
-/

namespace TokioRcu

/-- The guard of a hook, and that of the performer. -/
def hookGuard (t : Tid) : GuardId := t + 1

def scanGuard : GuardId := 0

/-- The next access is made to the thread's own slot through a guard. -/
def Pc.throughGuard : Pc → Bool
  | .clearBusy | .markBusy | .publish _ _ | .loadPrev _ | .storeSeen _ _ => true
  | _ => false

/-- Where a hook that has a guard still needs it: `on_thread_unpark` keeps the
reference to its slot, and the guard with it, to its end. -/
def Pc.keepsGuard : Pc → Bool
  | .entryFence .unpark | .seeEpoch .unpark | .publish .unpark _ | .notifyFence .unpark
  | .loadHasSubscriber .unpark | .incNotifications .unpark | .readInfo .unpark
  | .takeInfo .unpark | .clearHasSubscriber .unpark | .storeSeen _ _ => true
  | _ => false

structure Backed where
  /-- Its own slots, length and free slots are not used. -/
  core : Core
  slots : Slots

namespace Backed

variable (cfg : Config) (tcfg : TableConfig)

def withCore (s : Backed) (core : Core) : Backed := { s with core := core }

/-- An access of the table that the rest does not notice. -/
def tableStep (s : Backed) (a : SlotsAct) : Option Backed :=
  (s.slots.step tcfg a).map fun slots => { s with slots := slots }

/-- A store of thread `t` to its slot, through its guard, and where it goes on. -/
def storeStep (s : Backed) (t : Tid) (i : SlotId) (v : Nat) (pc : Pc) : Option Backed :=
  (s.slots.step tcfg (.store (hookGuard t) i v)).map fun slots =>
    { core := s.core.goto t pc, slots := slots }

/-- The access to slot `i` that a hook makes through its guard. -/
def access (s : Backed) (t : Tid) (i : SlotId) : Option Backed :=
  match (s.core.threads t).pc with
  -- the fetch_and
  | .clearBusy => (s.slots.guardLoad (hookGuard t) i).bind fun v =>
      s.storeStep tcfg t i (TokioRcu.clearBusy v) (.notifyFence .park)
  | .markBusy => s.storeStep tcfg t i busyFetching (.entryFence .unpark)
  | .publish w e => s.storeStep tcfg t i (busyAt e) (.notifyFence w.hook)
  | .loadPrev e => (s.slots.guardLoad (hookGuard t) i).map fun v =>
      s.withCore (s.core.goto t (.storeSeen e v))
  | .storeSeen e prev => s.storeStep tcfg t i (busyAt e)
      (match ThreadState.decode prev with
      | some ⟨seen, true⟩ => if seen = e then .idle else .notifyFence .afterPoll
      | _ => .panicked)
  | _ => none

/-- `&thread_storage_slot_get_all()[slot_id]` up to the access. -/
def guarded (s : Backed) (t : Tid) (i : SlotId) : Option Backed :=
  if hookGuard t ∉ s.slots.curDataLock.readers then s.tableStep tcfg (.read (hookGuard t))
  else if s.slots.views (hookGuard t) = none then s.tableStep tcfg (.deref (hookGuard t))
  else s.access tcfg t i

/-- The next access of the call of `alloc` or `dealloc` that thread `t` is in.
Only the thread reads its `THREAD_STORAGE_SLOT`, which it writes when the call returns. -/
def callStep (s : Backed) (t : Tid) : Option Backed :=
  (s.slots.callStep tcfg t).map fun slots =>
    { slots := slots
      core := match s.slots.calls t with
        | .storeFree _ i =>
          s.core.setThread t { s.core.threads t with slot := some i, pc := .entryFence .beforePoll }
        | .storeLen _ n | .setLen _ n _ => s.core.setThread t
          { s.core.threads t with slot := some (n - 1), pc := .entryFence .beforePoll }
        | .storeNone _ =>
          s.core.setThread t { s.core.threads t with slot := none, pc := .notifyFence .stop }
        | _ => s.core }

/-- The next access of the hook that thread `t` is in. -/
def hookStep (s : Backed) (t : Tid) : Option Backed :=
  if s.slots.calls t ≠ .idle then s.callStep tcfg t
  else if (s.core.threads t).pc = .alloc then s.tableStep tcfg (.alloc t busyFetching)
  else match (s.core.threads t).slot with
    | some i =>
      if (s.core.threads t).pc = .dealloc then s.tableStep tcfg (.dealloc t i)
      else if (s.core.threads t).pc.throughGuard then s.guarded tcfg t i
      else if hookGuard t ∈ s.slots.curDataLock.readers ∧ ¬ (s.core.threads t).pc.keepsGuard then
        s.tableStep tcfg (.drop (hookGuard t))
      else (s.core.hookStep t).map s.withCore
    | none => (s.core.hookStep t).map s.withCore

/-- The next access of the performer. The guard of the scan is a temporary of
the condition that the scan is. -/
def gpStep (s : Backed) (g : Gp) : Option Backed :=
  match g.pc with
  | .beginScan w sub =>
    match g.runner.bind fun t => (s.core.threads t).slot with
    | some self =>
      if scanGuard ∉ s.slots.curDataLock.readers then s.tableStep tcfg (.read scanGuard)
      else (s.slots.step tcfg (.deref scanGuard)).map fun slots =>
        { core := s.core.gotoGp g (.scan w sub self s.slots.table.len 0), slots := slots }
    | none => (s.core.gpStep cfg g).map s.withCore
  | .scan w sub self len i =>
    if i < len then (s.slots.guardLoad scanGuard i).map fun v =>
      s.withCore (s.core.gotoGp g (if w.passes self i v then .scan w sub self len (i + 1)
        else .check w sub self))
    else (s.core.gpStep cfg g).map s.withCore
  | _ =>
    if scanGuard ∈ s.slots.curDataLock.readers then s.tableStep tcfg (.drop scanGuard)
    else (s.core.gpStep cfg g).map s.withCore

/-- Thread `t` is in no hook: it has returned from the table and has dropped its guard. -/
def outside (s : Backed) (t : Tid) : Bool :=
  s.slots.calls t == .idle && decide (hookGuard t ∉ s.slots.curDataLock.readers)

def act (s : Backed) : Act → Option Backed
  | .hook t => s.hookStep tcfg t
  | .gp => s.core.gp.bind (s.gpStep cfg tcfg)
  | .call t h => if s.outside t then (s.core.act cfg (.call t h)).map s.withCore else none
  | .openSection t => if s.outside t then (s.core.act cfg (.openSection t)).map s.withCore else none
  | .closeSection t =>
    if s.outside t then (s.core.act cfg (.closeSection t)).map s.withCore else none
  | .begin t w => if s.outside t then (s.core.act cfg (.begin t w)).map s.withCore else none
  | .poll t w => if s.outside t then (s.core.act cfg (.poll t w)).map s.withCore else none
  | .abandon => (s.core.act cfg .abandon).map s.withCore
  | .other => (s.core.act cfg .other).map s.withCore

def tick (s : Backed) : Backed := s.withCore s.core.tick

def step (s : Backed) (a : Act) : Option Backed := (s.act cfg tcfg a).map tick

/-- The states of the threads, as `TokioRcu.System` has them. -/
def abs (s : Backed) : Core :=
  { s.core with
    slots := fun i => (s.slots.content[i]?).getD ThreadState.noneEncodedValue
    len := s.slots.table.len
    freeSlots := s.slots.vacant }

end Backed

def backedMachine (cfg : Config) (tcfg : TableConfig) : Lib.Machine Backed Act where
  init s := s.core.Initial cfg ∧ s.slots = .new
  step := Backed.step cfg tcfg

end TokioRcu
