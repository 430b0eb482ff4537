import TokioRcu.Hooks

/-!
# The grace period performer

`synchronize_rcu_serialized`, its two variants,
`wait_for_running_threads_to_see_epoch_id` of `rcu_core/mod.rs`, and
`EpochIdNotificationsSubscriber`. At most one task is in this code, the one
that holds `GP_SERIALIZATION_MUTEX`.
-/

namespace TokioRcu

def Wait.includeCallingThread : Wait → Bool
  | .next _ | .leave => true
  | .reset => false

def Wait.predicate : Wait → Nat → Bool
  | .next newEpochId, lastSeen => newEpochId ≤ lastSeen
  | .reset, lastSeen => lastSeen == epochIdMin
  | .leave, lastSeen => lastSeen == epochIdMin + 2

/-- The test that the scan makes of one slot: the closure given to `all`. -/
def Wait.passes (w : Wait) (self i : SlotId) (encoded : Nat) : Bool :=
  if !w.includeCallingThread && i == self then true
  else match ThreadState.decode encoded with
    | none => true
    | some state => if !state.isBusy then true else w.predicate state.lastSeenEpochId

namespace Core

variable (cfg : Config)

/-- `did_num_notifications_change_since_snapshot`. -/
def notificationsChanged (s : Core) (sub : Subscriber) : Bool :=
  s.numNotifications % 2 ^ cfg.usizeBits != sub.snapshot % 2 ^ cfg.usizeBits

/-- The next access of the performer. -/
def gpStep (s : Core) (g : Gp) : Option Core :=
  match g.pc with
  | .loadEpoch =>
    some (s.gotoGp g (if s.curEpochId = cfg.epochIdMax then .storeReset
      else .storeNext s.curEpochId))
  | .storeNext orig =>
    some ({ s with curEpochId := cfg.nextEpochId orig }.gotoGp g
      (.subscribe (.next (cfg.nextEpochId orig))))
  | .storeReset => some ({ s with curEpochId := epochIdMin }.gotoGp g (.subscribe .reset))
  | .storeLeave => some ({ s with curEpochId := epochIdMin + 2 }.gotoGp g (.subscribe .leave))
  -- subscribe_to_epoch_id_notifications
  | .subscribe w => some ({ s with hasSubscriber := true }.gotoGp g (.loadSnapshot w))
  | .loadSnapshot w =>
    some (s.gotoGp g (.scanFence w
      { snapshot := s.numNotifications, hadAlreadyRegistered := false, consumed := false }))
  | .scanFence w sub => some (s.gotoGp g (.beginScan w sub))
  | .beginScan w sub => do
    let t ← g.runner
    match (s.threads t).slot with
    | some self => some (s.gotoGp g (.scan w sub self s.len 0))
    -- the `unwrap` of this_thread_get_storage_slot_id unwinds through the future
    | none => some (s.gotoGp g (.dropFlag w sub .abandoned))
  | .scan w sub self len i =>
    if i < len then
      some (s.gotoGp g (if w.passes self i (s.slots i) then .scan w sub self len (i + 1)
        else .check w sub self))
    else some (s.gotoGp g (.dropFlag w sub .passed))
  -- EpochIdNotificationsSubscriber::poll
  | .check w sub self =>
    some (s.gotoGp g (if s.notificationsChanged cfg sub then .dropFlag w sub .again
      else if sub.hadAlreadyRegistered then .readRegistered w sub self
      else .register w sub self))
  | .register w sub self => do
    let t ← g.runner
    if s.infoWriter = none then
      some ({ s with subscriberInfo := some { waker := g.waker, threadId := t } }.gotoGp g
        (.recheck w { sub with hadAlreadyRegistered := true } self true))
    else none
  | .readRegistered w sub self => do
    let t ← g.runner
    if s.infoWriter = none then
      match s.subscriberInfo with
      | some info =>
        let tidGood := info.threadId == t
        let wakerGood := cfg.willWake info.waker g.waker
        some (s.gotoGp g (if tidGood && wakerGood then .recheck w sub self false
          else .updateRegistered w sub self tidGood wakerGood))
      | none => some (s.gotoGp g (.dropFlag w { sub with consumed := true } .again))
    else none
  | .updateRegistered w sub self tidGood wakerGood => do
    let t ← g.runner
    if s.infoWriter = none then
      match s.subscriberInfo with
      | some info =>
        let info := { threadId := if tidGood then info.threadId else t
                      waker := if wakerGood then info.waker else g.waker }
        some ({ s with subscriberInfo := some info }.gotoGp g (.recheck w sub self false))
      | none => some (s.gotoGp g (.dropFlag w { sub with consumed := true } .again))
    else none
  | .recheck w sub self _ =>
    some (if s.notificationsChanged cfg sub then s.gotoGp g (.dropFlag w sub .again)
      else s.setGp { g with pc := .suspended w sub self, runner := none })
  | .suspended .. => none
  -- the drop of the subscriber
  | .dropFlag w sub d =>
    some ((if sub.consumed then s else { s with hasSubscriber := false }).gotoGp g
      (.dropInfo w sub d))
  | .dropInfo w sub d =>
    if sub.hadAlreadyRegistered = true ∧ s.infoWriter ≠ none then none
    else
      let s := if sub.hadAlreadyRegistered then { s with subscriberInfo := none } else s
      some (s.gotoGp g (match d, w with
        | .again, w => .subscribe w
        | .passed, .reset => .storeLeave
        | .passed, _ => .finished
        | .abandoned, _ => .aborted))
  | .finished | .aborted => some { s with gp := none }

end Core
end TokioRcu
