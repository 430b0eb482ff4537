import TokioRcu.Cancellation
import TokioRcu.RcuBoxOwnership

/-!
# The library

Boxes, readers and grace periods together. A reader dereferences a box under
its read lock guard, and may use the reference until the guard is gone. A wait
polls a call of `synchronize_rcu` of its own, and turns its old values into
boxes once that call has returned.
-/

namespace TokioRcu

/-- What `RcuBox::read` has returned. `guard` is the read section that bounds
the lifetime of the reference, by when it was opened. -/
structure Ref where
  guard : Nat
  box : BoxId
  ptr : Ptr
  deriving DecidableEq, Repr

structure Library where
  program : Program
  boxes : RcuBoxes
  /-- The future of `synchronize_rcu` in each of the waits. -/
  calls : List CallId
  /-- The references that each thread may still use. -/
  refs : Tid → List Ref

inductive LibraryAct
  /-- A hook, a read section, or a step of a call of `synchronize_rcu`. -/
  | program (a : ProgramAct)
  /-- Boxes and old values change hands. -/
  | boxes (a : RcuBoxAct)
  /-- Thread `t` reads box `b` under the guard of an open section. -/
  | read (t : Tid) (b : BoxId) (guard : Nat)
  /-- `RcuWaitable::wait`; the future of `synchronize_rcu` is a new one. -/
  | wait (h : Nat) (c : CallId)
  | poll (f : Nat)

/-- What a poll of the future returns in its last step. -/
def SyncPc.outcome : SyncPc → SyncPoll
  | .ended .ready => .ready
  | .ended .dropped => .panics
  | _ => .pending

namespace Library

variable (cfg : Config)

/-- A reference does not outlive its guard. -/
def expire (core : Core) (refs : Tid → List Ref) : Tid → List Ref :=
  fun t => (refs t).filter fun r => r.guard ∈ (core.threads t).sections

/-- `RcuBox::read` -/
def read (l : Library) (t : Tid) (b : BoxId) (guard : Nat) : Option Library :=
  match l.boxes.boxes[b]? with
  | some (some p) =>
    if l.program.core.free t = true ∧ guard ∈ (l.program.core.threads t).sections then
      some { l with refs := Function.update l.refs t (⟨guard, b, p⟩ :: l.refs t) }
    else none
  | _ => none

def step (l : Library) : LibraryAct → Option Library
  | .program a =>
    (l.program.step cfg a).map fun p => { l with program := p, refs := expire p.core l.refs }
  | .boxes (.wait _) | .boxes (.poll _ _) => none
  | .boxes a => (l.boxes.step a).map fun x => { l with boxes := x }
  | .read t b guard => l.read t b guard
  | .wait h c =>
    if (l.program.sync.calls c).pc = .new ∧ c ∉ l.calls then
      (l.boxes.step (.wait h)).map fun x => { l with boxes := x, calls := l.calls ++ [c] }
    else none
  | .poll f =>
    match l.calls[f]? with
    | some c =>
      (l.boxes.step (.poll f (l.program.sync.calls c).pc.outcome)).map fun x => { l with boxes := x }
    | none => none

structure Initial (l : Library) : Prop where
  program : Program.Initial cfg l.program
  boxes : l.boxes = .new
  calls : l.calls = []
  refs : ∀ t, l.refs t = []

/-- The calls are dropped with care, and a box is dropped only when nobody has
borrowed it, as the borrow checker sees to. -/
def Careful (l : Library) : LibraryAct → Prop
  | .program a => l.program.Careful a
  | .boxes (.dropBox b) => ∀ t, ∀ r ∈ l.refs t, r.box ≠ b
  | _ => True

end Library

def library (cfg : Config) : Lib.Machine Library LibraryAct where
  init := Library.Initial cfg
  step := Library.step cfg

end TokioRcu
