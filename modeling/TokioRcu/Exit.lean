import TokioRcu.Wakeups

/-!
# The two ways out of the book-keeping

A thread leaves through `on_thread_stop`, or, when it dies without that hook,
through the destructor of its thread local `OwnedThreadStorageSlot`. Both
give the slot back; only the hook tells the waiters.
-/

namespace TokioRcu

namespace Core

/-- `OwnedThreadStorageSlot::drop`, which is its `dealloc`. -/
def exitDrop (s : Core) (t : Tid) : Core :=
  match (s.threads t).slot with
  | some i => s.deallocSlot t i .idle
  | none => s

/-- Thread `t` goes on with its hook, for at most `n` accesses. -/
def settle (s : Core) (t : Tid) : Nat → Core
  | 0 => s
  | n + 1 =>
    match s.hookStep t with
    | some s' => s'.settle t n
    | none => s

/-- `on_thread_stop`: the slot, the fence and at most five accesses of the notify call. -/
def exitStop (s : Core) (t : Tid) : Core := (s.callHook t .stop).settle t 7

def woken (s : Core) : Option (List Waker) := s.gp.map Gp.woken

/-- The effects on the book-keeping of the two exits. -/
structure SameExit (s : Core) (t : Tid) : Prop where
  slots : (s.exitDrop t).slots = (s.exitStop t).slots
  len : (s.exitDrop t).len = (s.exitStop t).len
  freeSlots : (s.exitDrop t).freeSlots = (s.exitStop t).freeSlots
  numNotifications : (s.exitDrop t).numNotifications = (s.exitStop t).numNotifications
  subscriberInfo : (s.exitDrop t).subscriberInfo = (s.exitStop t).subscriberInfo
  hasSubscriber : (s.exitDrop t).hasSubscriber = (s.exitStop t).hasSubscriber
  woken : (s.exitDrop t).woken = (s.exitStop t).woken

variable {s s' : Core} {t : Tid} {i : SlotId}

theorem settle_some {n : Nat} (h : s.hookStep t = some s') : s.settle t (n + 1) = s'.settle t n := by
  simp only [settle, h]

theorem settle_none {n : Nat} (h : s.hookStep t = none) : s.settle t n = s := by
  cases n with
  | zero => rfl
  | succ n => simp only [settle, h]

/-- After the slot and the fence, what is left is to look at the flag. -/
theorem exitStop_eq (hi : (s.threads t).slot = some i) :
    s.exitStop t = (s.deallocSlot t i (.loadHasSubscriber .stop)).settle t 5 := by
  have hstart : s.callHook t .stop = s.goto t .dealloc := by simp [callHook, tracked, hi]
  have hdealloc : (s.goto t .dealloc).hookStep t =
      some ((s.goto t .dealloc).deallocSlot t i (.notifyFence .stop)) := by
    simp [hookStep, withSlot, hi]
  have hfence : ((s.goto t .dealloc).deallocSlot t i (.notifyFence .stop)).hookStep t =
      some (s.deallocSlot t i (.loadHasSubscriber .stop)) := by
    simp [hookStep, deallocSlot, goto, setThread, storeState]
  rw [exitStop, hstart, settle_some hdealloc, settle_some hfence]

/-- A hook only counts notifications up. -/
theorem numNotifications_le_settle (s : Core) (t : Tid) (n : Nat) :
    s.numNotifications ≤ (s.settle t n).numNotifications := by
  induction n generalizing s with
  | zero => exact Nat.le_refl _
  | succ n ih =>
    cases hs : s.hookStep t with
    | none => rw [settle_none hs]
    | some s' =>
      rw [settle_some hs]
      exact Nat.le_trans (hook_info hs (hookStep_move hs)).2 (ih s')

/-- Without a subscriber the notify call is over at the flag. -/
theorem exitStop_unwatched (hi : (s.threads t).slot = some i) (hf : s.hasSubscriber = false) :
    s.exitStop t = s.exitDrop t := by
  have hload : (s.deallocSlot t i (.loadHasSubscriber .stop)).hookStep t =
      some (s.deallocSlot t i .idle) := by
    simp [hookStep, deallocSlot, goto, setThread, storeState, hf, Hook.ret]
  have hidle : (s.deallocSlot t i .idle).hookStep t = none := by simp [hookStep, deallocSlot]
  rw [exitStop_eq hi, settle_some hload, settle_none hidle, exitDrop, hi]

/-- With a subscriber it counts a notification. -/
theorem exitStop_watched (hi : (s.threads t).slot = some i) (hf : s.hasSubscriber = true) :
    s.numNotifications < (s.exitStop t).numNotifications := by
  have hload : (s.deallocSlot t i (.loadHasSubscriber .stop)).hookStep t =
      some (s.deallocSlot t i (.incNotifications .stop)) := by
    simp [hookStep, deallocSlot, goto, setThread, storeState, hf]
  have hinc : (s.deallocSlot t i (.incNotifications .stop)).hookStep t =
      some ({ s with numNotifications := s.numNotifications + 1 }.deallocSlot t i
        (.readInfo .stop)) := by
    simp [hookStep, deallocSlot, goto, setThread, storeState]
  have hle := numNotifications_le_settle ({ s with numNotifications := s.numNotifications + 1 }.deallocSlot
    t i (.readInfo .stop)) t 3
  rw [exitStop_eq hi, settle_some hload, settle_some hinc]
  exact Nat.lt_of_lt_of_le (Nat.lt_succ_self _) hle

/-- The destructor does what the hook does as long as nobody has subscribed. -/
theorem same_exit_iff (s : Core) (t : Tid) (i : SlotId) (hi : (s.threads t).slot = some i) :
    s.SameExit t ↔ s.hasSubscriber = false := by
  constructor
  · intro h
    by_contra hf
    have hlt := exitStop_watched hi (Bool.eq_true_of_not_eq_false hf)
    have hdrop : (s.exitDrop t).numNotifications = s.numNotifications := by
      simp [exitDrop, hi, deallocSlot, storeState]
    rw [← h.numNotifications, hdrop] at hlt
    exact Nat.lt_irrefl _ hlt
  · intro hf
    have heq := exitStop_unwatched hi hf
    constructor <;> rw [heq]

end Core

/-- A thread that has been polled, while no grace period runs. -/
theorem same_exit_iff_polled : ∃ s : Core, (machine Config.testMode).Reach TokioOrder s ∧
    (s.SameExit 0 ↔ s.hasSubscriber = false) ∧ s.hasSubscriber = false := by
  have hinit : (machine Config.testMode).init (Core.initial 4) := ⟨by decide, by decide, rfl⟩
  obtain ⟨s, hs, hp⟩ := Lib.Machine.exists_of_runIf TokioOrder (Act.firstPoll 0)
    (fun s => (s.threads 0).slot == some 0 && s.hasSubscriber == false) hinit (by decide)
  simp only [Bool.and_eq_true, beq_iff_eq] at hp
  exact ⟨s, hs, Core.same_exit_iff s 0 0 hp.1, hp.2⟩

-- ---------------------------------------------------------------------------
-- A waiter that the destructor leaves asleep
-- ---------------------------------------------------------------------------

namespace Core

/-- The performer is suspended, thread `t` fails its test and every other slot passes. -/
def waitsOnlyFor (s : Core) (t : Tid) : Bool :=
  match s.gp.map Gp.pc, (s.threads t).slot with
  | some (.suspended w _ self), some i =>
    (List.range s.len).all fun j => w.passes self j (s.slots j) == (j != i)
  | _, _ => false

end Core

/-- Thread 1 is busy in its first poll; thread 0 polls a grace period twice,
because its own quiescent state wakes it after the first, and parks. -/
def Act.waitForOther : List Act :=
  Act.firstPoll 1 ++ Act.firstPoll 0 ++ .begin 0 7 :: List.replicate 10 .gp ++
    .call 0 .afterPoll :: List.replicate 9 (.hook 0) ++
    .call 0 .beforePoll :: .poll 0 7 :: List.replicate 11 .gp ++
    .call 0 .afterPoll :: List.replicate 3 (.hook 0) ++
    .call 0 .park :: List.replicate 5 (.hook 0)

/-- Only the hook wakes the performer, although it waits for nobody else. -/
theorem drop_leaves_waiter_asleep : ∃ s : Core, (machine Config.testMode).Reach TokioOrder s ∧
    (s.threads 1).slot = some 0 ∧ s.waitsOnlyFor 1 = true ∧ ¬ s.SameExit 1 ∧
    (s.exitDrop 1).woken = some [] ∧ (s.exitStop 1).woken = some [7] := by
  have hinit : (machine Config.testMode).init (Core.initial 4) := ⟨by decide, by decide, rfl⟩
  obtain ⟨s, hs, hp⟩ := Lib.Machine.exists_of_runIf TokioOrder Act.waitForOther
    (fun s => (s.threads 1).slot == some 0 && s.waitsOnlyFor 1 &&
      (s.exitDrop 1).woken == some [] && (s.exitStop 1).woken == some [7]) hinit (by decide +kernel)
  simp only [Bool.and_eq_true, beq_iff_eq] at hp
  obtain ⟨⟨⟨hslot, hwait⟩, hdrop⟩, hstop⟩ := hp
  refine ⟨s, hs, hslot, hwait, ?_, hdrop, hstop⟩
  intro h
  have hw := h.woken
  rw [hdrop, hstop] at hw
  cases hw

end TokioRcu
