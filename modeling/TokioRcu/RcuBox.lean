import TokioRcu.Lib.Machine
import TokioRcu.Lib.Places
import TokioRcu.Lib.Tup
import Mathlib.Logic.Function.Basic

/-!
# RCU boxes and what is waited for

`primitives/rcu_box.rs` and `primitives/rcu_waitable.rs`: any number of boxes,
of old values that tasks hold, alone or in nested tuples, and of futures that
wait for them. The memory behind the raw pointers is part of the state, so
that a pointer which is freed twice shows.
-/

namespace TokioRcu

abbrev Addr := Nat
abbrev ValueId := Nat
abbrev BoxId := Nat

/-- A `*mut T`. `value` numbers the call of `Box::into_raw` that made it; nothing reads it. -/
structure Ptr where
  addr : Addr
  value : ValueId
  deriving DecidableEq, Repr

structure RcuBoxOldData where
  oldDataPtr : Ptr
  deriving DecidableEq, Repr

/-- The types that implement `RcuWaitable`. -/
abbrev Waitable := Lib.Tup RcuBoxOldData

/-- Their `Output`s: a `Box` for each of the old values. -/
abbrev WaitOutput := Lib.Tup Ptr

-- ---------------------------------------------------------------------------
-- into_output and drop
-- ---------------------------------------------------------------------------

/-- `Box::from_raw`; the destructor does not run, it is forgotten. -/
def RcuBoxOldData.intoOutput (d : RcuBoxOldData) : Ptr := d.oldDataPtr

/-- `impl_rcu_waitable_for_tuple`: component by component. -/
def Waitable.intoOutput (w : Waitable) : WaitOutput := w.map RcuBoxOldData.intoOutput

/-- A thread that is dropping things. -/
structure Dropping where
  panicking : Bool
  /-- The pointers it has given up, without freeing what they point to. -/
  leaked : List Ptr

/-- `Drop for RcuBoxOldData`. The pointer is given up on either branch. -/
def RcuBoxOldData.drop (th : Dropping) (d : RcuBoxOldData) : Dropping :=
  if !th.panicking then
    -- panic!("{} can't be dropped since concurrent readers may be using it...")
    { panicking := true, leaked := d.oldDataPtr :: th.leaked }
  else
    -- don't panic again, since this will cause the process to abort
    { th with leaked := d.oldDataPtr :: th.leaked }

/-- The fields of a tuple are dropped in order, also while one of them unwinds. -/
def Waitable.drop (th : Dropping) (w : Waitable) : Dropping :=
  w.items.foldl RcuBoxOldData.drop th

-- ---------------------------------------------------------------------------
-- The state
-- ---------------------------------------------------------------------------

/-- A poll of the future of `synchronize_rcu`. -/
inductive SyncPoll
  | pending | ready | panics
  deriving DecidableEq, Repr

structure RcuWaitableWait where
  srcValue : Option Waitable
  /-- How often its `synchronize_rcu` has returned `Ready`. -/
  completed : Nat
  dropped : Bool
  -- the rest is history, nothing reads it
  /-- What `wait` was called on. -/
  src : Waitable
  output : Option WaitOutput

/-- `src_value` is dropped first, and nothing is left to do for `synchronize_rcu`. -/
def RcuWaitableWait.drop (th : Dropping) (y : RcuWaitableWait) : Dropping :=
  match y.srcValue with
  | some w => Waitable.drop th w
  | none => th

structure RcuBoxes where
  /-- The addresses of the live allocations. -/
  heap : List Addr
  /-- The `Box<T>`s that tasks own. -/
  owned : List (Option Addr)
  /-- `value_ptr` of each `RcuBox`, until it is dropped. -/
  boxes : List (Option Ptr)
  /-- The waitable values that tasks hold. -/
  held : List (Option Waitable)
  waits : List RcuWaitableWait
  -- the rest is history, nothing reads it
  nextValue : ValueId
  /-- What `new` and the swaps of a box have installed, and what the swaps have
  handed out, the latest first. -/
  installed : BoxId → List ValueId
  handedOut : BoxId → List ValueId
  freed : List Ptr
  leaked : List Ptr
  /-- The latest action panicked. -/
  panicked : Bool
  /-- An address was freed that was not allocated. -/
  invalidFree : Bool

def RcuBoxes.new : RcuBoxes where
  heap := []
  owned := []
  boxes := []
  held := []
  waits := []
  nextValue := 0
  installed := fun _ => []
  handedOut := fun _ => []
  freed := []
  leaked := []
  panicked := false
  invalidFree := false

inductive RcuBoxAct
  /-- A task allocates a box, or drops the `i`th. -/
  | alloc (a : Addr)
  | free (i : Nat)
  /-- `RcuBox::new` and `RcuBox::swap`, with the task's `i`th box. -/
  | new (i : Nat)
  | swap (b : BoxId) (i : Nat)
  /-- Waitable values are put into a tuple, or taken out of it. -/
  | tuple (hs : List Nat)
  | fields (h : Nat)
  | wait (h : Nat)
  | poll (f : Nat) (r : SyncPoll)
  | dropHeld (h : Nat) (panicking : Bool)
  | dropWait (f : Nat) (panicking : Bool)
  | dropBox (b : BoxId)
  deriving Repr

namespace RcuBoxes

/-- The allocation behind `a` is given back. -/
def dealloc (x : RcuBoxes) (a : Addr) : RcuBoxes :=
  if a ∈ x.heap then { x with heap := x.heap.erase a } else { x with invalidFree := true }

/-- `Box::into_raw` of the task's `i`th box. -/
def intoRaw (x : RcuBoxes) (i : Nat) : Option (Ptr × RcuBoxes) :=
  match x.owned[i]? with
  | some (some a) =>
    some (⟨a, x.nextValue⟩, { x with owned := x.owned.set i none, nextValue := x.nextValue + 1 })
  | _ => none

/-- A task takes what it holds at each of `hs`. -/
def takeHeld (held : List (Option Waitable)) : List Nat → Option (List Waitable × List (Option Waitable))
  | [] => some ([], held)
  | h :: hs =>
    match held[h]? with
    | some (some w) => (takeHeld (held.set h none) hs).map fun r => (w :: r.1, r.2)
    | _ => none

/-- What a drop that began on thread `th` leaves behind. -/
def unwind (x : RcuBoxes) (panicking : Bool) (th : Dropping) : RcuBoxes :=
  { x with leaked := th.leaked, panicked := !panicking && th.panicking }

/-- `RcuWaitableWait::poll`, when the poll of `synchronize_rcu` comes out as `r`.
An `async fn` that has returned panics when it is polled again. -/
def pollWait (x : RcuBoxes) (f : Nat) (y : RcuWaitableWait) (r : SyncPoll) : RcuBoxes :=
  if 0 < y.completed then { x with panicked := true }
  else match r with
    | .pending => { x with panicked := false }
    | .panics => { x with panicked := true }
    | .ready =>
      match y.srcValue with
      | some w =>
        { x with
          waits := x.waits.set f { y with
            srcValue := none, completed := y.completed + 1, output := some (Waitable.intoOutput w) }
          owned := x.owned ++ (Waitable.intoOutput w).items.map fun p => some p.addr
          panicked := false }
      -- expect("future polled after completion")
      | none =>
        { x with
          waits := x.waits.set f { y with completed := y.completed + 1 }
          panicked := true }

def step (x : RcuBoxes) : RcuBoxAct → Option RcuBoxes
  | .alloc a =>
    if a ∈ x.heap then none
    else some { x with heap := a :: x.heap, owned := x.owned ++ [some a], panicked := false }
  | .free i =>
    match x.owned[i]? with
    | some (some a) => some { x.dealloc a with owned := x.owned.set i none, panicked := false }
    | _ => none
  | .new i =>
    (x.intoRaw i).map fun (p, x) => { x with
      boxes := x.boxes ++ [some p]
      installed := Function.update x.installed x.boxes.length [p.value]
      panicked := false }
  | .swap b i =>
    match x.boxes[b]? with
    | some (some old) =>
      (x.intoRaw i).map fun (p, x) => { x with
        boxes := x.boxes.set b (some p)
        held := x.held ++ [some (.item ⟨old⟩)]
        installed := Function.update x.installed b (p.value :: x.installed b)
        handedOut := Function.update x.handedOut b (old.value :: x.handedOut b)
        panicked := false }
    | _ => none
  | .tuple hs =>
    if hs.length ≤ 12 then
      (takeHeld x.held hs).bind fun (ws, held) =>
        (Lib.Tup.ofList ws).map fun w => { x with held := held ++ [some w], panicked := false }
    else none
  | .fields h =>
    match x.held[h]? with
    | some (some w) =>
      w.fields.map fun ws =>
        { x with held := x.held.set h none ++ ws.map some, panicked := false }
    | _ => none
  | .wait h =>
    match x.held[h]? with
    | some (some w) =>
      some { x with
        held := x.held.set h none
        waits := x.waits ++ [⟨some w, 0, false, w, none⟩]
        panicked := false }
    | _ => none
  | .poll f r =>
    match x.waits[f]? with
    | some y => if y.dropped then none else some (x.pollWait f y r)
    | none => none
  | .dropHeld h panicking =>
    match x.held[h]? with
    | some (some w) =>
      some ({ x with held := x.held.set h none }.unwind panicking
        (Waitable.drop ⟨panicking, x.leaked⟩ w))
    | _ => none
  | .dropWait f panicking =>
    match x.waits[f]? with
    | some y =>
      if y.dropped then none
      else
        some ({ x with waits := x.waits.set f { y with srcValue := none, dropped := true } }.unwind
          panicking (y.drop ⟨panicking, x.leaked⟩))
    | none => none
  | .dropBox b =>
    match x.boxes[b]? with
    | some (some p) =>
      some { x.dealloc p.addr with
        boxes := x.boxes.set b none, freed := p :: x.freed, panicked := false }
    | _ => none

end RcuBoxes

def rcuBoxMachine : Lib.Machine RcuBoxes RcuBoxAct where
  init x := x = .new
  step := RcuBoxes.step

-- ---------------------------------------------------------------------------
-- The places
-- ---------------------------------------------------------------------------

namespace RcuBoxes

/-- The current values of the boxes. -/
def current (x : RcuBoxes) : List Ptr := x.boxes.flatMap Option.toList

/-- The pointers of a slot that may hold a waitable value. -/
def Waitable.ptrs (w : Option Waitable) : List Ptr :=
  w.toList.flatMap fun w => w.items.map RcuBoxOldData.oldDataPtr

/-- In an `RcuBoxOldData`, which a task or a wait future has. -/
def inOldData (x : RcuBoxes) : List Ptr :=
  x.held.flatMap Waitable.ptrs ++ x.waits.flatMap fun y => Waitable.ptrs y.srcValue

def returned (x : RcuBoxes) : List Ptr :=
  x.waits.flatMap fun y => y.output.toList.flatMap Lib.Tup.items

/-- Every value's place. -/
def places (x : RcuBoxes) : List Ptr :=
  x.current ++ x.inOldData ++ x.returned ++ x.freed ++ x.leaked

structure OwnedOnce (x : RcuBoxes) : Prop where
  /-- Each installed value is in one of the five places, once. -/
  placed : Lib.Placed (x.places.map Ptr.value) x.nextValue
  /-- A value's memory is not freed before the value is freed or returned. -/
  allocated : ∀ p ∈ x.current ++ x.inOldData ++ x.leaked, p.addr ∈ x.heap
  no_invalid_free : x.invalidFree = false
  /-- Values that are returned, freed or leaked stay so, however the run goes on. -/
  stays : ∀ as x', rcuBoxMachine.run x as = some x' →
    x.returned ⊆ x'.returned ∧ x.freed ⊆ x'.freed ∧ x.leaked ⊆ x'.leaked
  /-- Each swap handed out what the one before it had installed. -/
  swaps : ∀ b < x.boxes.length, ∃ v, x.installed b = v :: x.handedOut b ∧
    ∀ p, x.boxes[b]? = some (some p) → p.value = v
  /-- A wait is finished if its `synchronize_rcu` has completed, and has then
  returned every old value at its own position. -/
  finished : ∀ y ∈ x.waits,
    (y.completed = 0 ∧ y.output = none ∨ y.completed = 1 ∧ y.srcValue = none ∧
      ∃ out, y.output = some out ∧ ∀ path, out.at path = (y.src.at path).map RcuBoxOldData.oldDataPtr)
  finishes : ∀ f y, x.waits[f]? = some y → y.dropped = false → y.completed = 0 →
    ∃ x', x.step (.poll f .ready) = some x' ∧ x'.panicked = false ∧
      x'.waits[f]? = some { y with
        srcValue := none, completed := 1, output := some (Waitable.intoOutput y.src) }
  /-- An abandoned value is leaked, with a panic unless there is one already. -/
  abandoned : ∀ h w panicking, x.held[h]? = some (some w) →
    ∃ x', x.step (.dropHeld h panicking) = some x' ∧ x'.panicked = !panicking ∧
      ∀ d ∈ w.items, d.oldDataPtr ∈ x'.leaked
  /-- So are those of an unfinished wait; a finished wait has none. -/
  abandoned_wait : ∀ f y panicking, x.waits[f]? = some y → y.dropped = false →
    ∃ x', x.step (.dropWait f panicking) = some x' ∧
      (if y.completed = 0 then x'.panicked = (!panicking) ∧ ∀ d ∈ y.src.items, d.oldDataPtr ∈ x'.leaked
      else x'.panicked = false ∧ x'.leaked = x.leaked)

end RcuBoxes
end TokioRcu
