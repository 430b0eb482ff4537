import TokioRcu.Lib.Machine
import TokioRcu.Epoch

/-!
# The slot table

`thread_storage_slots.rs`: the raw parts of the buffer, the free slots and the
write lock. A buffer is named by its allocation, so that a pointer to freed
memory can be told from one to the buffer that took its place. A call either
returns or panics; a panic leaves a table behind as well.
-/

namespace TokioRcu

abbrev BufId := Nat

/-- What the machine and the libraries fix: the number of processors, how many
slots a `ThreadStorageSlotId` can index, and the capacities that a vector takes. -/
structure TableConfig where
  numCpus : Nat
  maxSlots : Nat
  /-- The capacity of `TypedVec::with_capacity`. -/
  withCapacity : Nat → Nat
  /-- The capacity after a push that re-allocates. -/
  grow : Nat → Nat
  maxSlots_pos : 0 < maxSlots
  le_withCapacity : ∀ n, n ≤ withCapacity n
  lt_grow : ∀ n, n < grow n

/-- The ids are `NonZeroU16`; a full vector doubles. -/
def TableConfig.of (numCpus : Nat) : TableConfig where
  numCpus := numCpus
  maxSlots := 2 ^ 16 - 1
  withCapacity := id
  grow n := max (2 * n) 4
  maxSlots_pos := by decide
  le_withCapacity n := Nat.le_refl n
  lt_grow n := by omega

inductive Panic
  /-- `write_lock.lock().unwrap()` after a panic under the lock. -/
  | poisoned
  /-- "too many concurrent threads" -/
  | tooManyThreads
  /-- `TypedVec::push` with all ids in use. -/
  | pushOverflow
  | indexOutOfBounds
  /-- No panic: the buffer has been freed, and the behaviour is undefined. -/
  | useAfterFree
  deriving DecidableEq, Repr

structure Table where
  /-- The allocated buffers, each with the slots that have been written. -/
  buffers : BufId → Option (List Nat)
  nextBuf : BufId
  -- cur_data
  ptr : BufId
  len : Nat
  capacity : Nat
  /-- A stack; its top is the head of the list. -/
  freeSlots : List SlotId
  /-- The write lock is poisoned. -/
  poisoned : Bool

/-- `ThreadStorageSlots::new`; the pointer dangles. -/
def Table.new : Table where
  buffers := fun _ => none
  nextBuf := 1
  ptr := 0
  len := 0
  capacity := 0
  freeSlots := []
  poisoned := false

namespace Table

/-- What a call leaves behind when it panics. -/
abbrev Call (α : Type) := Except (Panic × Table) (α × Table)

/-- `cur_data[i].state.store`. -/
def storeSlot (s : Table) (i : SlotId) (v : Nat) : Call Unit :=
  if i < s.len then
    match s.buffers s.ptr with
    | some slots =>
      .ok ((), { s with buffers := Function.update s.buffers s.ptr (some (slots.set i v)) })
    | none => .error (.useAfterFree, s)
  else .error (.indexOutOfBounds, s)

/-- What a reader finds in a slot. -/
def load (s : Table) (i : SlotId) : Option Nat :=
  if i < s.len then (s.buffers s.ptr).bind (·[i]?) else none

/-- A fresh allocation. -/
def allocBuffer (s : Table) (slots : List Nat) : Table :=
  { s with buffers := Function.update s.buffers s.nextBuf (some slots), nextBuf := s.nextBuf + 1 }

def freeBuffer (s : Table) (b : BufId) : Table :=
  { s with buffers := Function.update s.buffers b none }

/-- The body of a call, under the write lock: a panic in it poisons the lock. -/
def locked {α : Type} (s : Table) (body : Table → Call α) : Call α :=
  if s.poisoned then .error (.poisoned, s)
  else match body s with
    | .ok r => .ok r
    | .error (p, s') => .error (p, { s' with poisoned := true })

def allocFromFreeSlot (s : Table) (v : Nat) (i : SlotId) : Call SlotId :=
  match s.storeSlot i v with
  | .ok ((), s') => .ok (i, s')
  | .error e => .error e

variable (cfg : TableConfig)

/-- `alloc_no_cur_data`: there is room for one slot at least. -/
def allocNoCurData (s : Table) (v : Nat) : Call SlotId :=
  .ok (0, { s.allocBuffer [v] with
    ptr := s.nextBuf, len := 1, capacity := cfg.withCapacity (cfg.numCpus + 1) })

/-- `alloc_no_free_slots_grow_cur_data`. The vector that is re-created from the
raw parts owns the buffer, and a panic in its push drops it. -/
def allocGrowCurData (s : Table) (v : Nat) : Call SlotId :=
  match s.buffers s.ptr with
  | none => .error (.useAfterFree, s)
  | some slots =>
    if s.len < s.capacity then
      if s.len < cfg.maxSlots then
        .ok (s.len, { s with
          buffers := Function.update s.buffers s.ptr (some (slots.take s.len ++ [v]))
          len := s.len + 1 })
      else .error (.tooManyThreads, s.freeBuffer s.ptr)
    else
      if s.len < cfg.maxSlots then
        .ok (s.len, { (s.freeBuffer s.ptr).allocBuffer (slots.take s.len ++ [v]) with
          ptr := s.nextBuf, len := s.len + 1, capacity := cfg.grow s.capacity })
      else .error (.pushOverflow, s.freeBuffer s.ptr)

def allocNoFreeSlots (s : Table) (v : Nat) : Call SlotId :=
  if s.capacity = 0 then s.allocNoCurData cfg v else s.allocGrowCurData cfg v

/-- `ThreadStorageSlots::alloc`, given the encoded initial state. -/
def alloc (s : Table) (v : Nat) : Call SlotId :=
  s.locked fun s =>
    match s.freeSlots with
    | i :: rest => { s with freeSlots := rest }.allocFromFreeSlot v i
    | [] => s.allocNoFreeSlots cfg v

/-- `ThreadStorageSlots::dealloc`. -/
def dealloc (s : Table) (i : SlotId) : Call Unit :=
  s.locked fun s =>
    match s.storeSlot i ThreadState.noneEncodedValue with
    | .ok ((), s') => .ok ((), { s' with freeSlots := i :: s'.freeSlots })
    | .error e => .error e

end Table

-- ---------------------------------------------------------------------------
-- Calls one after the other
-- ---------------------------------------------------------------------------

inductive TableOp
  | alloc (v : Nat)
  | dealloc (i : SlotId)
  /-- The owner of a slot stores a state, through a read guard. -/
  | store (i : SlotId) (v : Nat)
  deriving DecidableEq, Repr

def TableOp.exec (cfg : TableConfig) (s : Table) : TableOp → Option Table
  | .alloc v => (s.alloc cfg v).toOption.map Prod.snd
  | .dealloc i => (s.dealloc i).toOption.map Prod.snd
  | .store i v => (s.storeSlot i v).toOption.map Prod.snd

/-- The ids that have been handed out, the state that the owner of each stored
last, and how many there have been at a time. No call reads it. -/
structure Ledger where
  live : List SlotId
  state : SlotId → Nat
  most : Nat

def Ledger.new : Ledger where
  live := []
  state := fun _ => ThreadState.noneEncodedValue
  most := 0

def Ledger.add (g : Ledger) (i : SlotId) (v : Nat) : Ledger where
  live := i :: g.live
  state := Function.update g.state i v
  most := max g.most (g.live.length + 1)

/-- What a call adds to the ledger. -/
def Ledger.next (cfg : TableConfig) (g : Ledger) (s : Table) : TableOp → Ledger
  | .alloc v =>
    match s.alloc cfg v with
    | .ok (i, _) => g.add i v
    | .error _ => g
  | .dealloc i => { g with live := g.live.erase i }
  | .store i v => { g with state := Function.update g.state i v }

/-- The calls in the order in which they took the write lock. -/
def tableMachine (cfg : TableConfig) : Lib.Machine (Table × Ledger) TableOp :=
  Lib.Machine.track { init := fun s => s = .new, step := TableOp.exec cfg } .new (Ledger.next cfg)

/-- The contract of `dealloc`: the id was handed out and has not been given
back. Only its owner stores to a slot. -/
def OwnedOnly (x : Table × Ledger) : TableOp → Prop
  | .alloc _ => True
  | .dealloc i | .store i _ => i ∈ x.2.live

end TokioRcu
