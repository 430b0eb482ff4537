import TokioRcu.Lib.Machine
import TokioRcu.Lib.StoreBuffer
import TokioRcu.GracePeriod

/-!
# Hooks and grace periods with delayed stores

The hooks of any number of threads and the grace period performer, as in
`Hooks` and `GracePeriod`, over a memory with store buffers. The plain atomic
stores (of the epoch id, of the storage slots and their number, of the flag
`epoch_id_update_notifications_has_subscriber`) wait in the queue of their
thread. A fence, a read-modify-write, and the taking and releasing of a lock
need that queue empty, and so does the handing over of a task to another
thread; the queues are emptied by `drain`, at any time.

`NUM_NOTIFICATIONS` is only written by `fetch_add`, and what a lock protects is
only accessed under it; these are plain fields. The read guards of the slots'
buffer would empty the queue too and keep a writer that reallocates out. The
model does neither, which only adds runs.
-/

namespace TokioRcu

/-- The locations that plain atomic stores go to. -/
inductive Loc
  | epoch
  | hasSubscriber
  | len
  | slot (i : SlotId)
  deriving DecidableEq

/-- Where a thread stands. A lock that guards a buffered store is released in an
access of its own: `write_guard` in `alloc` and `dealloc`, and the write guard
of `SUBSCRIBER_INFO` at the end of a notification. -/
inductive Place
  | run (pc : Pc)
  | unlockTable (next : Pc)
  | unlockInfo (h : Hook)
  deriving DecidableEq

structure Performer where
  pc : GpPc
  /-- The thread that polls the performer, or the last to have polled it. -/
  runner : Tid
  waker : Waker

/-- A store to a slot, as a subscription or a notifier under it came to know of it. -/
structure Sight where
  sub : Nat
  slot : SlotId
  no : Nat
  deriving DecidableEq, Repr

structure Delayed where
  mem : Lib.Memory Tid Loc Nat
  numNotifications : Nat
  subscriberInfo : Option SubscriberInfo
  /-- Who holds `SUBSCRIBER_INFO` for writing, and who holds the `write_lock` of the slots. -/
  infoWriter : Option Tid
  tableWriter : Option Tid
  freeSlots : List SlotId
  slot : Tid → Option SlotId
  place : Tid → Place
  gp : Option Performer
  -- history, which no step reads
  /-- The number of the epoch store that the thread's latest entry hook loaded,
  while the thread is busy since. -/
  seen : Tid → Option Nat
  /-- The store to a slot that the thread's latest hook made. -/
  wrote : Tid → Option (SlotId × Nat)
  /-- How many subscriptions have begun, and whether the latest was consumed. -/
  subs : Nat
  taken : Bool
  /-- The number of the epoch store before the latest scan that found the slot
  vacant, not busy or not there. -/
  seenIdle : SlotId → Nat
  /-- What the scans read. -/
  reads : List Sight
  /-- The stores after which a hook found no subscriber, although there was one. -/
  missed : List Sight

/-- The subscription has begun and its drop has not. -/
def GpPc.subscribed : GpPc → Bool
  | .loadSnapshot .. | .scanFence .. | .beginScan .. | .scan .. | .check .. | .register ..
  | .readRegistered .. | .updateRegistered .. | .recheck .. | .suspended .. | .dropFlag .. => true
  | _ => false

def GpPc.isSuspended : GpPc → Bool
  | .suspended .. => true
  | _ => false

/-- An encoded state that a scan has to look at. -/
def busyValue (encoded : Nat) : Bool := (ThreadState.decode encoded).any (·.isBusy)

namespace Delayed

def initial (epoch : Nat) : Delayed where
  mem := .initial fun
    | .epoch => epoch
    | _ => 0
  numNotifications := 0
  subscriberInfo := none
  infoWriter := none
  tableWriter := none
  freeSlots := []
  slot _ := none
  place _ := .run .idle
  gp := none
  seen _ := none
  wrote _ := none
  subs := 0
  taken := false
  seenIdle _ := 0
  reads := []
  missed := []

def goto (s : Delayed) (t : Tid) (pc : Pc) : Delayed :=
  { s with place := Function.update s.place t (.run pc) }

def fenced (s : Delayed) (t : Tid) : Prop := s.mem.queue t = []

instance (s : Delayed) (t : Tid) : Decidable (s.fenced t) :=
  inferInstanceAs (Decidable (s.mem.queue t = []))

/-- `storage_slot.state.store` -/
def storeState (s : Delayed) (t : Tid) (i : SlotId) (v : Nat) : Delayed :=
  { s with
    mem := s.mem.store t (.slot i) v
    wrote := Function.update s.wrote t (some (i, s.mem.stores (.slot i) + 1)) }

/-- The thread's storage slot, or the panic of `this_thread_get_storage_slot_id`. -/
def withSlot (s : Delayed) (t : Tid) (f : SlotId → Option Delayed) : Option Delayed :=
  match s.slot t with
  | some i => f i
  | none => some (s.goto t .panicked)

/-- `ThreadStorageSlots::alloc`, from the taking of the write lock to its release. -/
def allocSlot (s : Delayed) (t : Tid) (v : Nat) (next : Pc) : Delayed :=
  let (i, s) := match s.freeSlots with
    | i :: rest => (i, { s with freeSlots := rest }.storeState t i v)
    | [] =>
      let len := (s.mem.load t .len).value
      let s := s.storeState t len v
      (len, { s with mem := s.mem.store t .len (len + 1) })
  { s with
    tableWriter := some t
    slot := Function.update s.slot t (some i)
    place := Function.update s.place t (.unlockTable next)
    seen := Function.update s.seen t none }

def deallocSlot (s : Delayed) (t : Tid) (i : SlotId) (next : Pc) : Delayed :=
  { { s with freeSlots := i :: s.freeSlots }.storeState t i ThreadState.noneEncodedValue with
    tableWriter := some t
    slot := Function.update s.slot t none
    place := Function.update s.place t (.unlockTable next)
    seen := Function.update s.seen t none }

/-- There is a subscriber that nobody has consumed and that is not being dropped. -/
def subscribed (s : Delayed) : Bool := (s.gp.any fun g => g.pc.subscribed) && !s.taken

/-- The hook that thread `t` is in finds no subscriber. -/
def miss (s : Delayed) (t : Tid) : Delayed :=
  match s.wrote t with
  | some (i, no) =>
    if s.subscribed then { s with missed := { sub := s.subs, slot := i, no } :: s.missed } else s
  | none => s

/-- `None`, or a subscriber that the notifier skips as its own thread's. -/
def nothingToWake (s : Delayed) (t : Tid) (h : Hook) : Bool :=
  match s.subscriberInfo with
  | none => true
  | some info => h.skipsCurThread && info.threadId == t

def callHook (s : Delayed) (t : Tid) : Hook → Delayed
  | .stop => s.goto t (if (s.slot t).isSome then .dealloc else .idle)
  | .park => s.goto t (if (s.slot t).isSome then .clearBusy else .parked)
  | .unpark => s.goto t (if (s.slot t).isSome then .markBusy else .idle)
  | .beforePoll => s.goto t (if (s.slot t).isSome then .polling else .alloc)
  | .afterPoll => s.goto t .seeNewEpoch

/-- The next access of the hook that thread `t` is in, at `pc`. -/
def pcStep (s : Delayed) (t : Tid) : Pc → Option Delayed
  | .idle | .parked | .polling | .panicked => none
  | .dealloc => s.withSlot t fun i =>
      if s.fenced t ∧ s.tableWriter = none then
        some (s.deallocSlot t i (.notifyFence .stop))
      else none
  | .clearBusy => s.withSlot t fun i =>
      if s.fenced t then
        some ({ s with
          mem := s.mem.write (.slot i) (TokioRcu.clearBusy (s.mem.shared (.slot i)).value)
          wrote := Function.update s.wrote t (some (i, s.mem.stores (.slot i) + 1))
          seen := Function.update s.seen t none }.goto t (.notifyFence .park))
      else none
  | .markBusy => s.withSlot t fun i =>
      some ({ s.storeState t i busyFetching with seen := Function.update s.seen t none }.goto t
        (.entryFence .unpark))
  | .alloc =>
    if s.fenced t ∧ s.tableWriter = none then
      some (s.allocSlot t busyFetching (.entryFence .beforePoll))
    else none
  | .entryFence w => if s.fenced t then some (s.goto t (.seeEpoch w)) else none
  | .seeEpoch w =>
    some ({ s with seen := Function.update s.seen t (some (s.mem.load t .epoch).no) }.goto t
      (.publish w (s.mem.load t .epoch).value))
  | .publish w e => s.withSlot t fun i =>
      some ((s.storeState t i (busyAt e)).goto t (.notifyFence w.hook))
  | .seeNewEpoch => s.withSlot t fun _ =>
      some (s.goto t (.loadPrev (s.mem.load t .epoch).value))
  | .loadPrev e => s.withSlot t fun i =>
      some (s.goto t (.storeSeen e (s.mem.load t (.slot i)).value))
  | .storeSeen e prev => s.withSlot t fun i =>
      some ((s.storeState t i (busyAt e)).goto t
        (match ThreadState.decode prev with
        | some ⟨seen, true⟩ => if seen = e then .idle else .notifyFence .afterPoll
        | _ => .panicked))
  | .notifyFence h => if s.fenced t then some (s.goto t (.loadHasSubscriber h)) else none
  | .loadHasSubscriber h =>
    some (if (s.mem.load t .hasSubscriber).value ≠ 0 then s.goto t (.incNotifications h)
      else (s.miss t).goto t h.ret)
  | .incNotifications h =>
    if s.fenced t then
      some ({ s with numNotifications := s.numNotifications + 1 }.goto t (.readInfo h))
    else none
  | .readInfo h =>
    if s.fenced t ∧ s.infoWriter = none then
      some (s.goto t (if s.nothingToWake t h then h.ret else .takeInfo h))
    else none
  | .takeInfo h =>
    if s.fenced t ∧ s.infoWriter = none then
      some (if s.nothingToWake t h then s.goto t h.ret
        else { s with subscriberInfo := none, infoWriter := some t, taken := true }.goto t
          (.clearHasSubscriber h))
    else none
  | .clearHasSubscriber h =>
    some { s with
      mem := s.mem.store t .hasSubscriber 0
      place := Function.update s.place t (.unlockInfo h) }

def hookStep (s : Delayed) (t : Tid) : Option Delayed :=
  match s.place t with
  | .run pc => s.pcStep t pc
  | .unlockTable next =>
    if s.fenced t then some ({ s with tableWriter := none }.goto t next) else none
  | .unlockInfo h =>
    if s.fenced t then some ({ s with infoWriter := none }.goto t h.ret) else none

-- ---------------------------------------------------------------------------
-- The performer
-- ---------------------------------------------------------------------------

variable (cfg : Config)

def gotoGp (s : Delayed) (g : Performer) (pc : GpPc) : Delayed :=
  { s with gp := some { g with pc := pc } }

def storeEpoch (s : Delayed) (g : Performer) (e : Nat) : Delayed :=
  { s with mem := s.mem.store g.runner .epoch e }

/-- The scan loads the state in slot `i`. -/
def look (s : Delayed) (i : SlotId) (c : Lib.Cell Nat) : Delayed :=
  { s with
    reads := { sub := s.subs, slot := i, no := c.no } :: s.reads
    seenIdle := if busyValue c.value then s.seenIdle
      else Function.update s.seenIdle i (s.mem.stores .epoch) }

def notificationsChanged (s : Delayed) (sub : Subscriber) : Bool :=
  s.numNotifications % 2 ^ cfg.usizeBits != sub.snapshot % 2 ^ cfg.usizeBits

/-- The next access of the performer. -/
def gpStep (s : Delayed) (g : Performer) : Option Delayed :=
  match g.pc with
  | .loadEpoch =>
    let e := (s.mem.load g.runner .epoch).value
    some (s.gotoGp g (if e = cfg.epochIdMax then .storeReset else .storeNext e))
  | .storeNext orig =>
    some ((s.storeEpoch g (cfg.nextEpochId orig)).gotoGp g (.subscribe (.next (cfg.nextEpochId orig))))
  | .storeReset => some ((s.storeEpoch g epochIdMin).gotoGp g (.subscribe .reset))
  | .storeLeave => some ((s.storeEpoch g (epochIdMin + 2)).gotoGp g (.subscribe .leave))
  | .subscribe w =>
    some ({ s with
      mem := s.mem.store g.runner .hasSubscriber 1
      subs := s.subs + 1
      taken := false }.gotoGp g (.loadSnapshot w))
  | .loadSnapshot w =>
    some (s.gotoGp g (.scanFence w
      { snapshot := s.numNotifications, hadAlreadyRegistered := false, consumed := false }))
  | .scanFence w sub =>
    if s.fenced g.runner then some (s.gotoGp g (.beginScan w sub)) else none
  | .beginScan w sub =>
    match s.slot g.runner with
    | some self =>
      let len := (s.mem.load g.runner .len).value
      some ({ s with
        seenIdle := fun i => if i < len then s.seenIdle i else s.mem.stores .epoch }.gotoGp g
          (.scan w sub self len 0))
    | none => some (s.gotoGp g (.dropFlag w sub .abandoned))
  | .scan w sub self len i =>
    if i < len then
      let c := s.mem.load g.runner (.slot i)
      some ((if !w.includeCallingThread && i == self then s else s.look i c).gotoGp g
        (if w.passes self i c.value then .scan w sub self len (i + 1) else .check w sub self))
    else some (s.gotoGp g (.dropFlag w sub .passed))
  | .check w sub self =>
    some (s.gotoGp g (if s.notificationsChanged cfg sub then .dropFlag w sub .again
      else if sub.hadAlreadyRegistered then .readRegistered w sub self
      else .register w sub self))
  | .register w sub self =>
    if s.fenced g.runner ∧ s.infoWriter = none then
      some ({ s with subscriberInfo := some { waker := g.waker, threadId := g.runner } }.gotoGp g
        (.recheck w { sub with hadAlreadyRegistered := true } self true))
    else none
  | .readRegistered w sub self =>
    if s.fenced g.runner ∧ s.infoWriter = none then
      match s.subscriberInfo with
      | some info =>
        let tidGood := info.threadId == g.runner
        let wakerGood := cfg.willWake info.waker g.waker
        some (s.gotoGp g (if tidGood && wakerGood then .recheck w sub self false
          else .updateRegistered w sub self tidGood wakerGood))
      | none => some (s.gotoGp g (.dropFlag w { sub with consumed := true } .again))
    else none
  | .updateRegistered w sub self tidGood wakerGood =>
    if s.fenced g.runner ∧ s.infoWriter = none then
      match s.subscriberInfo with
      | some info =>
        let info := { threadId := if tidGood then info.threadId else g.runner
                      waker := if wakerGood then info.waker else g.waker }
        some ({ s with subscriberInfo := some info }.gotoGp g (.recheck w sub self false))
      | none => some (s.gotoGp g (.dropFlag w { sub with consumed := true } .again))
    else none
  | .recheck w sub self _ =>
    some (s.gotoGp g (if s.notificationsChanged cfg sub then .dropFlag w sub .again
      else .suspended w sub self))
  | .suspended .. => none
  | .dropFlag w sub d =>
    some ((if sub.consumed then s
      else { s with mem := s.mem.store g.runner .hasSubscriber 0 }).gotoGp g (.dropInfo w sub d))
  | .dropInfo w sub d =>
    if sub.hadAlreadyRegistered = true ∧ ¬ (s.fenced g.runner ∧ s.infoWriter = none) then none
    else
      let s := if sub.hadAlreadyRegistered then { s with subscriberInfo := none } else s
      some (s.gotoGp g (match d, w with
        | .again, w => .subscribe w
        | .passed, .reset => .storeLeave
        | .passed, _ => .finished
        | .abandoned, _ => .aborted))
  | .finished | .aborted => if s.fenced g.runner then some { s with gp := none } else none

/-- Thread `t` is inside a poll of the performer, or inside its drop. -/
def running (s : Delayed) (t : Tid) : Bool :=
  s.gp.any fun g => g.runner == t && !g.pc.isSuspended

/-- Thread `t` is free to run user code, or to call a hook. -/
def free (s : Delayed) (t : Tid) : Bool :=
  (match s.place t with
    | .run pc => pc.atUser
    | _ => false) && !s.running t

/-- A task goes to thread `t`; the queue of the thread it comes from is empty. -/
def handOver (s : Delayed) (g : Performer) (t : Tid) : Prop := g.runner = t ∨ s.fenced g.runner

instance (s : Delayed) (g : Performer) (t : Tid) : Decidable (s.handOver g t) :=
  inferInstanceAs (Decidable (_ ∨ _))

def beginGp (s : Delayed) (t : Tid) (w : Waker) : Option Delayed :=
  match s.gp with
  | none =>
    if s.fenced t then some { s with gp := some { pc := .loadEpoch, runner := t, waker := w } }
    else none
  | some _ => none

def pollGp (s : Delayed) (t : Tid) (w : Waker) : Option Delayed := do
  let g ← s.gp
  match g.pc with
  | .suspended wait sub self =>
    if s.handOver g t then
      some { s with gp := some { pc := .check wait sub self, runner := t, waker := w } }
    else none
  | _ => none

def abandonGp (s : Delayed) (t : Tid) : Option Delayed := do
  let g ← s.gp
  match g.pc with
  | .suspended wait sub _ =>
    if s.handOver g t then
      some { s with gp := some { pc := .dropFlag wait sub .abandoned, runner := t, waker := g.waker } }
    else none
  | _ => none

inductive Act
  | call (t : Tid) (h : Hook)
  | hook (t : Tid)
  | begin (t : Tid) (waker : Waker)
  | poll (t : Tid) (waker : Waker)
  | abandon (t : Tid)
  | gp
  /-- The oldest store in the queue of `t` reaches the shared memory. -/
  | drain (t : Tid)
  deriving DecidableEq

def step (s : Delayed) : Act → Option Delayed
  | .call t h => if s.free t then some (s.callHook t h) else none
  | .hook t => s.hookStep t
  | .begin t w => if s.free t then s.beginGp t w else none
  | .poll t w => if s.free t then s.pollGp t w else none
  | .abandon t => if s.free t then s.abandonGp t else none
  | .gp => s.gp.bind (s.gpStep cfg)
  | .drain t => (s.mem.drain t).map fun mem => { s with mem }

end Delayed

/-- The initial global epoch may be any. -/
def delayedMachine (cfg : Config) : Lib.Machine Delayed Delayed.Act where
  init s := ∃ epoch, s = .initial epoch
  step := Delayed.step cfg

end TokioRcu
