import TokioRcu.State

/-!
# The runtime hooks

`on_thread_stop`, `on_thread_park`, `on_thread_unpark`, `on_before_task_poll`
and `on_after_task_poll` of `rcu_core/mod.rs`, with
`thread_epoch_updated_notify_inner`. `callHook` runs a hook up to its first
access to shared memory, which may be never; `hookStep` makes that access and
runs up to the next one.
-/

namespace TokioRcu

/-- The points between hooks, where the runtime or user code runs. -/
def Pc.atUser : Pc → Bool
  | .idle | .parked | .polling => true
  | _ => false

namespace Core

/-- `is_rcu_tracked_thread`. -/
def tracked (s : Core) (t : Tid) : Bool := (s.threads t).slot.isSome

/-- The free slots are a stack; its top is the head of the list. -/
def allocSlot (s : Core) (t : Tid) (v : Nat) (pc : Pc) : Core :=
  match s.freeSlots with
  | i :: rest =>
    ({ s with freeSlots := rest }.storeState i v).setThread t
      { s.threads t with slot := some i, pc := pc }
  | [] =>
    ({ s with len := s.len + 1 }.storeState s.len v).setThread t
      { s.threads t with slot := some s.len, pc := pc }

def deallocSlot (s : Core) (t : Tid) (i : SlotId) (pc : Pc) : Core :=
  ({ s with freeSlots := i :: s.freeSlots }.storeState i ThreadState.noneEncodedValue).setThread t
    { s.threads t with slot := none, pc := pc }

/-- A hook up to its first access. Only `on_after_task_poll` reads shared
memory before it looks at the thread's slot. -/
def callHook (s : Core) (t : Tid) : Hook → Core
  | .stop => s.goto t (if s.tracked t then .dealloc else .idle)
  | .park => s.goto t (if s.tracked t then .clearBusy else .parked)
  | .unpark => s.goto t (if s.tracked t then .markBusy else .idle)
  | .beforePoll => s.goto t (if s.tracked t then .polling else .alloc)
  | .afterPoll => s.goto t .seeNewEpoch

/-- `subscriber_info.waker.wake()`. -/
def wake (s : Core) (w : Waker) : Core :=
  { s with gp := s.gp.map fun g => { g with woken := w :: g.woken } }

/-- `None`, or a subscriber that the notifier skips as its own thread's. -/
def nothingToWake (s : Core) (t : Tid) (h : Hook) : Bool :=
  match s.subscriberInfo with
  | none => true
  | some info => h.skipsCurThread && info.threadId == t

/-- The next access of the hook that thread `t` is in. -/
def hookStep (s : Core) (t : Tid) : Option Core :=
  match (s.threads t).pc with
  | .idle | .parked | .polling | .panicked => none
  | .dealloc => some (s.withSlot t fun i => s.deallocSlot t i (.notifyFence .stop))
  | .clearBusy => some (s.withSlot t fun i =>
      (s.storeState i (TokioRcu.clearBusy (s.slots i))).goto t (.notifyFence .park))
  | .markBusy => some (s.withSlot t fun i =>
      (s.storeState i busyFetching).goto t (.entryFence .unpark))
  | .alloc => some (s.allocSlot t busyFetching (.entryFence .beforePoll))
  | .entryFence w => some (s.goto t (.seeEpoch w))
  | .seeEpoch w => some (s.goto t (.publish w s.curEpochId))
  | .publish w e => some (s.withSlot t fun i =>
      (s.storeState i (busyAt e)).goto t (.notifyFence w.hook))
  | .seeNewEpoch => some (s.withSlot t fun _ => s.goto t (.loadPrev s.curEpochId))
  | .loadPrev e => some (s.withSlot t fun i => s.goto t (.storeSeen e (s.slots i)))
  | .storeSeen e prev => some (s.withSlot t fun i =>
      (s.storeState i (busyAt e)).goto t
        (match ThreadState.decode prev with
        | some ⟨seen, true⟩ => if seen = e then .idle else .notifyFence .afterPoll
        -- the `unwrap` of the decoded state, and `debug_assert!(prev_state.is_busy)`
        | _ => .panicked))
  | .notifyFence h => some (s.goto t (.loadHasSubscriber h))
  | .loadHasSubscriber h =>
    some (s.goto t (if s.hasSubscriber then .incNotifications h else h.ret))
  | .incNotifications h =>
    some ({ s with numNotifications := s.numNotifications + 1 }.goto t (.readInfo h))
  | .readInfo h =>
    if s.infoWriter = none then
      some (s.goto t (if s.nothingToWake t h then h.ret else .takeInfo h))
    else none
  | .takeInfo h =>
    if s.infoWriter = none then
      match s.subscriberInfo with
      | some info =>
        if s.nothingToWake t h then some (s.goto t h.ret)
        else some (({ s with subscriberInfo := none, infoWriter := some t }.wake info.waker).goto t
          (.clearHasSubscriber h))
      | none => some (s.goto t h.ret)
    else none
  | .clearHasSubscriber h =>
    some ({ s with hasSubscriber := false, infoWriter := none }.goto t h.ret)

end Core
end TokioRcu
