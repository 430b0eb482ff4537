import TokioRcu.Lib.Machine
import TokioRcu.GracePeriod

/-!
# Threads and grace periods together

The machine whose steps interleave the hooks of any number of threads with the
grace period performer, one access at a time. `TokioOrder` is what the runtime
promises about the order of the hooks; the code of the hooks is the same
without it.
-/

namespace TokioRcu

inductive Act
  /-- The runtime, or `RcuRootFuture`, calls a hook. -/
  | call (t : Tid) (h : Hook)
  | hook (t : Tid)
  /-- `rcu_read_lock` enters and leaves its closure. -/
  | openSection (t : Tid)
  | closeSection (t : Tid)
  /-- A task enters `synchronize_rcu_serialized` during a poll on `t`, or is polled in it again. -/
  | begin (t : Tid) (waker : Waker)
  | poll (t : Tid) (waker : Waker)
  | gp
  /-- The suspended performer is dropped. -/
  | abandon
  /-- A step of code that touches none of this. -/
  | other
  deriving DecidableEq, Repr

namespace Core

variable (cfg : Config)

/-- Thread `t` is inside a poll of the performer. -/
def running (s : Core) (t : Tid) : Bool := s.gp.any fun g => g.runner == some t

/-- Thread `t` is free to run user code, or to call a hook. -/
def free (s : Core) (t : Tid) : Bool := (s.threads t).pc.atUser && !s.running t

def tick (s : Core) : Core := { s with clock := s.clock + 1 }

/-- `assert!(is_rcu_tracked_thread())`, then the closure is entered. -/
def enterSection (s : Core) (t : Tid) : Option Core :=
  if s.tracked t then
    some (s.setThread t { s.threads t with sections := s.clock :: (s.threads t).sections })
  else none

def exitSection (s : Core) (t : Tid) : Option Core :=
  match (s.threads t).sections with
  | _ :: rest => some (s.setThread t { s.threads t with sections := rest })
  | [] => none

def beginGp (s : Core) (t : Tid) (w : Waker) : Option Core :=
  match s.gp with
  | none => some (s.setGp
      { pc := .loadEpoch, runner := some t, waker := w, woken := [], since := s.clock })
  | some _ => none

def pollGp (s : Core) (t : Tid) (w : Waker) : Option Core :=
  match s.gp with
  | some { pc := .suspended wait sub self, runner := none, waker := _, woken := _, since } =>
    some (s.setGp { pc := .check wait sub self, runner := some t, waker := w, woken := [], since })
  | _ => none

def abandonGp (s : Core) : Option Core :=
  match s.gp with
  | some { pc := .suspended wait sub _, runner := none, waker, woken, since } =>
    some (s.setGp { pc := .dropFlag wait sub .abandoned, runner := none, waker, woken, since })
  | _ => none

def act (s : Core) : Act → Option Core
  | .call t h => if s.free t then some (s.callHook t h) else none
  | .hook t => s.hookStep t
  | .openSection t => if s.free t then s.enterSection t else none
  | .closeSection t => if s.free t then s.exitSection t else none
  | .begin t w => if s.free t then s.beginGp t w else none
  | .poll t w => if s.free t then s.pollGp t w else none
  | .gp => s.gp.bind (s.gpStep cfg)
  | .abandon => s.abandonGp
  | .other => some s

def step (s : Core) (a : Act) : Option Core := (s.act cfg a).map tick

@[simp] theorem tick_threads (s : Core) : s.tick.threads = s.threads := rfl
@[simp] theorem tick_slots (s : Core) : s.tick.slots = s.slots := rfl
@[simp] theorem tick_curEpochId (s : Core) : s.tick.curEpochId = s.curEpochId := rfl
@[simp] theorem tick_gp (s : Core) : s.tick.gp = s.gp := rfl
@[simp] theorem tick_clock (s : Core) : s.tick.clock = s.clock + 1 := rfl

end Core

/-- The initial global epoch may be any that a grace period can leave behind. -/
structure Core.Initial (cfg : Config) (s : Core) : Prop where
  valid : cfg.ValidEpochId s.curEpochId
  not_min : s.curEpochId ≠ epochIdMin
  eq : s = .initial s.curEpochId

def machine (cfg : Config) : Lib.Machine Core Act where
  init := Core.Initial cfg
  step := Core.step cfg

/-- What tokio promises: a worker parks, polls and stops only between these,
hooks bracket every poll and every park, and a poll ends with no read section
open. User code polls a future inside a task poll, or on a thread that the
runtime does not know. -/
def TokioOrder (s : Core) : Act → Prop
  | .call t .stop | .call t .park | .call t .beforePoll => (s.threads t).pc = .idle
  | .call t .unpark => (s.threads t).pc = .parked
  | .call t .afterPoll => (s.threads t).pc = .polling ∧ (s.threads t).sections = []
  | .openSection t | .closeSection t => (s.threads t).pc = .polling
  | .begin t _ | .poll t _ =>
    (s.threads t).pc = .polling ∨ ((s.threads t).pc = .idle ∧ (s.threads t).slot = none)
  | .hook _ | .gp | .abandon | .other => True

instance (s : Core) : (a : Act) → Decidable (TokioOrder s a)
  | .call t .stop | .call t .park | .call t .beforePoll =>
    inferInstanceAs (Decidable ((s.threads t).pc = .idle))
  | .call t .unpark => inferInstanceAs (Decidable ((s.threads t).pc = .parked))
  | .call t .afterPoll =>
    inferInstanceAs (Decidable ((s.threads t).pc = .polling ∧ (s.threads t).sections = []))
  | .openSection t | .closeSection t => inferInstanceAs (Decidable ((s.threads t).pc = .polling))
  | .begin t _ | .poll t _ => inferInstanceAs (Decidable ((s.threads t).pc = .polling ∨
      ((s.threads t).pc = .idle ∧ (s.threads t).slot = none)))
  | .hook _ | .gp | .abandon | .other => .isTrue True.intro

/-- The step drops the performer, or makes it panic for want of a storage slot. -/
def Core.aborts (s : Core) : Act → Bool
  | .abandon => true
  | .gp =>
    match s.gp with
    | some { pc := .beginScan _ _, runner := some t, waker := _, woken := _, since := _ } =>
      !s.tracked t
    | _ => false
  | _ => false

def NoAbandon (s : Core) (a : Act) : Prop := s.aborts a = false

instance (s : Core) (a : Act) : Decidable (NoAbandon s a) :=
  inferInstanceAs (Decidable (s.aborts a = false))

/-- The acts of a thread that starts with a poll. -/
def Act.firstPoll (t : Tid) : List Act := .call t .beforePoll :: List.replicate 6 (.hook t)

end TokioRcu
