import TokioRcu.Lib.Machine
import TokioRcu.Notifications

/-!
# The registry of the one subscriber

`epoch_id_update_notifications.rs` by itself: subscribers one after the other,
as `GP_SERIALIZATION_MUTEX` has them, each polled and dropped as its owner
likes, and any number of calls of `thread_epoch_updated_notify_inner`, all of
it one access at a time.
-/

namespace TokioRcu

abbrev NotifyId := Nat

inductive PollResult
  | ready | pending
  deriving DecidableEq, Repr

/-- Where the subscriber stands, from its store of the flag to the end of its drop. -/
inductive SubscriberPc
  | loadSnapshot
  /-- Between polls, with what the latest of them returned. -/
  | returned (last : Option PollResult)
  -- poll
  | check
  | register
  | readRegistered
  | updateRegistered (tidGood wakerGood : Bool)
  | recheck
  -- drop
  | dropFlag
  | dropInfo
  deriving DecidableEq, Repr

def SubscriberPc.dropping : SubscriberPc → Bool
  | .dropFlag | .dropInfo => true
  | _ => false

structure EpochSubscriber where
  sub : Subscriber
  pc : SubscriberPc
  /-- The thread and the waker of the latest poll. -/
  runner : Tid
  waker : Waker
  -- the rest is history, nothing reads it
  /-- The wakers woken since the latest poll began. -/
  woken : List Waker
  subscribedAt : Nat
  pollAt : Nat
  /-- The call that has consumed the registration. -/
  takenBy : Option NotifyId

/-- What `subscribe_to_epoch_id_notifications` is about to build. -/
def EpochSubscriber.new : EpochSubscriber where
  sub := { snapshot := 0, hadAlreadyRegistered := false, consumed := false }
  pc := .loadSnapshot
  runner := 0
  waker := 0
  woken := []
  subscribedAt := 0
  pollAt := 0
  takenBy := none

inductive NotifyCallPc
  | new
  | loadHasSubscriber
  | incNotifications
  | readInfo
  | takeInfo
  | wake (w : Waker)
  | clearHasSubscriber
  | done
  deriving DecidableEq, Repr

/-- The call holds `SUBSCRIBER_INFO` for writing. -/
def NotifyCallPc.writes : NotifyCallPc → Bool
  | .wake _ | .clearHasSubscriber => true
  | _ => false

/-- A call of `thread_epoch_updated_notify_inner`. -/
structure NotifyCall where
  pc : NotifyCallPc
  thread : Tid
  skipsCurThread : Bool
  -- the rest is history, nothing reads it
  startedAt : Nat
  returnedAt : Nat
  /-- It returned because the subscriber is its own thread's. -/
  skipped : Bool

def NotifyCall.new : NotifyCall where
  pc := .new
  thread := 0
  skipsCurThread := false
  startedAt := 0
  returnedAt := 0
  skipped := false

structure Registry where
  hasSubscriber : Bool
  /-- Counts without wrapping; the code compares it modulo `2 ^ usizeBits`. -/
  numNotifications : Nat
  subscriberInfo : Option SubscriberInfo
  infoWriter : Option NotifyId
  sub : Option EpochSubscriber
  calls : NotifyId → NotifyCall
  clock : Nat

def Registry.new : Registry where
  hasSubscriber := false
  numNotifications := 0
  subscriberInfo := none
  infoWriter := none
  sub := none
  calls := fun _ => .new
  clock := 0

inductive RegistryAct
  | subscribe
  | poll (t : Tid) (w : Waker)
  | drop
  /-- The next access of the subscriber. -/
  | sub
  | notify (n : NotifyId) (t : Tid) (skipsCurThread : Bool)
  /-- The next access of a call. -/
  | call (n : NotifyId)
  deriving DecidableEq, Repr

namespace Registry

variable (cfg : Config)

def setSub (x : Registry) (l : EpochSubscriber) : Registry := { x with sub := some l }

def setCall (x : Registry) (n : NotifyId) (c : NotifyCall) : Registry :=
  { x with calls := Function.update x.calls n c }

def goto (x : Registry) (n : NotifyId) (pc : NotifyCallPc) : Registry :=
  x.setCall n { x.calls n with pc }

/-- The call returns. -/
def ret (x : Registry) (n : NotifyId) (skipped : Bool) : Registry :=
  x.setCall n { x.calls n with pc := .done, returnedAt := x.clock, skipped }

/-- `did_num_notifications_change_since_snapshot`. -/
def numChanged (x : Registry) (sub : Subscriber) : Bool :=
  x.numNotifications % 2 ^ cfg.usizeBits != sub.snapshot % 2 ^ cfg.usizeBits

/-- The next access of the subscriber, in `subscribe_to_epoch_id_notifications`,
`poll` or `drop`. -/
def subStep (x : Registry) (l : EpochSubscriber) : Option Registry :=
  match l.pc with
  | .loadSnapshot =>
    some (x.setSub { l with
      sub := { l.sub with snapshot := x.numNotifications }
      pc := .returned none
      subscribedAt := x.clock })
  | .returned _ => none
  | .check =>
    some (x.setSub { l with
      pc := if x.numChanged cfg l.sub then .returned (some .ready)
        else if l.sub.hadAlreadyRegistered then .readRegistered else .register })
  | .register =>
    if x.infoWriter = none then
      some ({ x with subscriberInfo := some { waker := l.waker, threadId := l.runner } }.setSub
        { l with sub := { l.sub with hadAlreadyRegistered := true }, pc := .recheck })
    else none
  | .readRegistered =>
    if x.infoWriter = none then
      match x.subscriberInfo with
      | some info =>
        let tidGood := info.threadId == l.runner
        let wakerGood := cfg.willWake info.waker l.waker
        some (x.setSub { l with
          pc := if tidGood && wakerGood then .recheck else .updateRegistered tidGood wakerGood })
      | none =>
        some (x.setSub { l with
          sub := { l.sub with consumed := true }
          pc := .returned (some .ready) })
    else none
  | .updateRegistered tidGood wakerGood =>
    if x.infoWriter = none then
      match x.subscriberInfo with
      | some info =>
        let info := { threadId := if tidGood then info.threadId else l.runner
                      waker := if wakerGood then info.waker else l.waker }
        some ({ x with subscriberInfo := some info }.setSub { l with pc := .recheck })
      | none =>
        some (x.setSub { l with
          sub := { l.sub with consumed := true }
          pc := .returned (some .ready) })
    else none
  | .recheck =>
    some (x.setSub { l with
      pc := .returned (some (if x.numChanged cfg l.sub then .ready else .pending)) })
  | .dropFlag =>
    some ((if l.sub.consumed then x else { x with hasSubscriber := false }).setSub
      { l with pc := .dropInfo })
  | .dropInfo =>
    if l.sub.hadAlreadyRegistered = true ∧ x.infoWriter ≠ none then none
    else
      let x := if l.sub.hadAlreadyRegistered then { x with subscriberInfo := none } else x
      some { x with sub := none }

/-- `None`, or a subscriber that the call skips as its own thread's. -/
def nothingToWake (x : Registry) (c : NotifyCall) : Bool :=
  match x.subscriberInfo with
  | none => true
  | some info => c.skipsCurThread && info.threadId == c.thread

/-- `subscriber_info_opt.take()`, with the lock kept. -/
def take (x : Registry) (n : NotifyId) : Registry :=
  { x with
    subscriberInfo := none
    infoWriter := some n
    sub := x.sub.map fun l => { l with takenBy := some n } }

/-- `subscriber_info_owned.waker.wake()`. -/
def wake (x : Registry) (w : Waker) : Registry :=
  { x with sub := x.sub.map fun l => { l with woken := w :: l.woken } }

/-- The next access of a call of `thread_epoch_updated_notify_inner`. -/
def callStep (x : Registry) (n : NotifyId) : Option Registry :=
  match (x.calls n).pc with
  | .new | .done => none
  | .loadHasSubscriber =>
    some (if x.hasSubscriber then x.goto n .incNotifications else x.ret n false)
  | .incNotifications =>
    some ({ x with numNotifications := x.numNotifications + 1 }.goto n .readInfo)
  | .readInfo =>
    if x.infoWriter = none then
      some (if x.nothingToWake (x.calls n) then x.ret n x.subscriberInfo.isSome
        else x.goto n .takeInfo)
    else none
  | .takeInfo =>
    if x.infoWriter = none then
      match x.subscriberInfo with
      | some info =>
        if x.nothingToWake (x.calls n) then some (x.ret n true)
        else some ((x.take n).goto n (.wake info.waker))
      | none => some (x.ret n false)
    else none
  | .wake w => some ((x.wake w).goto n .clearHasSubscriber)
  | .clearHasSubscriber =>
    some ({ x with hasSubscriber := false, infoWriter := none }.ret n false)

/-- A poll, or the drop, of a subscriber that is not in a poll. -/
def own (x : Registry) (f : EpochSubscriber → EpochSubscriber) : Option Registry :=
  match x.sub with
  | some l =>
    match l.pc with
    | .returned _ => some (x.setSub (f l))
    | _ => none
  | none => none

def act (x : Registry) : RegistryAct → Option Registry
  | .subscribe =>
    match x.sub with
    | none => some ({ x with hasSubscriber := true }.setSub .new)
    | some _ => none
  | .poll t w =>
    x.own fun l => { l with pc := .check, runner := t, waker := w, woken := [], pollAt := x.clock }
  | .drop => x.own fun l => { l with pc := .dropFlag }
  | .sub => x.sub.bind (x.subStep cfg)
  | .notify n t skipsCurThread =>
    if (x.calls n).pc = .new then
      some (x.setCall n { x.calls n with
        pc := .loadHasSubscriber, thread := t, skipsCurThread, startedAt := x.clock })
    else none
  | .call n => x.callStep n

def tick (x : Registry) : Registry := { x with clock := x.clock + 1 }

def step (x : Registry) (a : RegistryAct) : Option Registry := (x.act cfg a).map tick

end Registry

def registryMachine (cfg : Config) : Lib.Machine Registry RegistryAct where
  init x := x = .new
  step := Registry.step cfg

-- ---------------------------------------------------------------------------
-- What the registry promises
-- ---------------------------------------------------------------------------

/-- Call `c` has returned, and it started after `subscribe_to_epoch_id_notifications` had. -/
structure EpochSubscriber.Told (l : EpochSubscriber) (c : NotifyCall) : Prop where
  subscribed : l.pc ≠ .loadSnapshot
  startedAt : l.subscribedAt < c.startedAt
  done : c.pc = .done

namespace Registry

variable (cfg : Config)

/-- Fewer than `2 ^ usizeBits` notifications since the subscriber's snapshot. -/
def Few (x : Registry) (l : EpochSubscriber) : Prop :=
  x.numNotifications < l.sub.snapshot + 2 ^ cfg.usizeBits

/-- The poll that the subscriber is in returns `Ready`, without waiting for anybody. -/
def PollReturns (x : Registry) : Prop :=
  ∃ k x' l', (registryMachine cfg).run x (List.replicate k .sub) = some x' ∧ x'.sub = some l' ∧
    l'.pc = .returned (some .ready)

structure NoMixUp (x : Registry) : Prop where
  /-- Registered information is that of the current subscriber. -/
  info_own : x.subscriberInfo.isSome = true →
    ∃ l, x.sub = some l ∧ l.sub.hadAlreadyRegistered = true
  info_latest : ∀ l, x.sub = some l → l.pc = .returned (some .pending) → l.takenBy = none →
    ∃ info, x.subscriberInfo = some info ∧ info.threadId = l.runner ∧
      Notes.Wakes cfg info.waker l.waker
  flag_up : ∀ l, x.sub = some l → l.pc.dropping = false → l.takenBy = none →
    x.hasSubscriber = true
  /-- A call clears the flag only of the subscriber that it has consumed. -/
  clears_own : ∀ n, (x.calls n).pc = .clearHasSubscriber →
    ∃ l, x.sub = some l ∧ l.takenBy = some n
  /-- A poll that began after such a call had returned never returns `Pending`. -/
  not_pending : ∀ l n, x.sub = some l → l.Told (x.calls n) → x.Few cfg l →
    (x.calls n).returnedAt < l.pollAt → l.pc ≠ .returned (some .pending)
  /-- Neither does it wait. -/
  next_ready : ∀ l n t w, x.sub = some l → l.Told (x.calls n) → x.Few cfg l →
    (∃ last, l.pc = .returned last) →
      ∃ x', (registryMachine cfg).step x (.poll t w) = some x' ∧ x'.PollReturns cfg
  /-- The subscriber that sleeps has been woken, unless the call spared its own thread. -/
  woken : ∀ l n, x.sub = some l → l.Told (x.calls n) → x.Few cfg l →
    l.pc = .returned (some .pending) → (x.calls n).skipped = false →
      ∃ wk ∈ l.woken, Notes.Wakes cfg wk l.waker

end Registry
end TokioRcu
