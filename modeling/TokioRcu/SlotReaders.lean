import TokioRcu.Lib.RwLock
import TokioRcu.SlotTable

/-!
# Readers of the slot table, one access at a time

The calls of `thread_storage_slots.rs` cut at every lock operation, every
write of a slot and every store to the raw parts, for any number of threads
that allocate and free, and any number of read guards. A push in place
publishes a new length without the readers' lock; a push that re-allocates
takes it for writing.
-/

namespace TokioRcu

abbrev GuardId := Nat

/-- The next access of a call. `n` is the new length, `v` the encoded initial state. -/
inductive CallPc
  | idle
  -- alloc
  | allocLock (v : Nat)
  | popFree (v : Nat)
  | storeFree (v : Nat) (i : SlotId)
  | create (v : Nat)
  | lockCreate (v : Nat) (b : BufId)
  | pushInPlace (v : Nat)
  | storeLen (v n : Nat)
  | lockGrow (v : Nat)
  | pushGrow (v : Nat)
  | setPtr (v n cap : Nat) (b : BufId)
  | setLen (v n cap : Nat)
  | setCapacity (cap : Nat)
  | unlockCur
  -- dealloc
  | deallocLock (i : SlotId)
  | storeNone (i : SlotId)
  | pushFree (i : SlotId)
  -- the end of either
  | unlock
  deriving DecidableEq, Repr

structure Slots where
  table : Table
  /-- `cur_data_lock`: read guards, and the thread that writes. -/
  curDataLock : Lib.RwLock Nat
  writeLock : Option Tid
  calls : Tid → CallPc
  /-- The slice, a buffer and a length, that a read guard gave last. -/
  views : GuardId → Option (BufId × Nat)
  /-- The states of the ids that have been handed out, up to the call of
  `dealloc`. No access reads it. -/
  live : SlotId → Option Nat

def Slots.new : Slots where
  table := .new
  curDataLock := .unlocked
  writeLock := none
  calls := fun _ => .idle
  views := fun _ => none
  live := fun _ => none

inductive SlotsAct
  | alloc (t : Tid) (v : Nat)
  | dealloc (t : Tid) (i : SlotId)
  /-- The next access of the call that a thread is in. -/
  | call (t : Tid)
  | read (g : GuardId)
  | deref (g : GuardId)
  /-- The owner of slot `i` stores through a read guard. -/
  | store (g : GuardId) (i : SlotId) (v : Nat)
  | drop (g : GuardId)
  deriving DecidableEq, Repr

namespace Table

/-- A write to slot `i` of a buffer. -/
def write (s : Table) (b : BufId) (i : SlotId) (v : Nat) : Table :=
  { s with buffers := Function.update s.buffers b ((s.buffers b).map fun slots => slots.set i v) }

/-- The push of a vector with the table's raw parts that has capacity left. -/
def pushInPlace (s : Table) (v : Nat) : Table :=
  let slots := (s.buffers s.ptr).map fun slots => slots.take s.len ++ [v]
  { s with buffers := Function.update s.buffers s.ptr slots }

/-- The push of one that has none: the slots move to a new buffer. -/
def pushGrow (s : Table) (v : Nat) : Table :=
  match s.buffers s.ptr with
  | some slots => (s.freeBuffer s.ptr).allocBuffer (slots.take s.len ++ [v])
  | none => s

theorem pushGrow_frame (s : Table) (v : Nat) :
    (s.pushGrow v).freeSlots = s.freeSlots ∧ (s.pushGrow v).len = s.len := by
  unfold pushGrow
  split <;> exact ⟨rfl, rfl⟩

end Table

namespace Slots

def goto (x : Slots) (t : Tid) (pc : CallPc) : Slots :=
  { x with calls := Function.update x.calls t pc }

/-- The id becomes visible, with its state. -/
def publish (x : Slots) (i : SlotId) (v : Nat) : Slots :=
  { x with live := Function.update x.live i (some v) }

variable (cfg : TableConfig)

/-- The next access of the call of thread `t`. A call that is going to panic
has none. -/
def callStep (x : Slots) (t : Tid) : Option Slots :=
  match x.calls t with
  | .idle => none
  | .allocLock v =>
    if x.writeLock = none then some ({ x with writeLock := some t }.goto t (.popFree v)) else none
  | .popFree v =>
    match x.table.freeSlots with
    | i :: rest => some ({ x with table := { x.table with freeSlots := rest } }.goto t (.storeFree v i))
    | [] =>
      some (x.goto t (if x.table.capacity = 0 then .create v
        else if x.table.len < x.table.capacity then .pushInPlace v else .lockGrow v))
  | .storeFree v i =>
    some (({ x with table := x.table.write x.table.ptr i v }.publish i v).goto t .unlock)
  | .create v =>
    some ({ x with table := x.table.allocBuffer [v] }.goto t (.lockCreate v x.table.nextBuf))
  | .lockCreate v b =>
    (x.curDataLock.write t).map fun l => { x with curDataLock := l }.goto t
      (.setPtr v 1 (cfg.withCapacity (cfg.numCpus + 1)) b)
  | .pushInPlace v =>
    if x.table.len < cfg.maxSlots then
      some ({ x with table := x.table.pushInPlace v }.goto t (.storeLen v (x.table.len + 1)))
    else none
  | .storeLen v n =>
    some (({ x with table := { x.table with len := n } }.publish (n - 1) v).goto t .unlock)
  | .lockGrow v =>
    (x.curDataLock.write t).map fun l => { x with curDataLock := l }.goto t (.pushGrow v)
  | .pushGrow v =>
    if x.table.len < cfg.maxSlots then
      some ({ x with table := x.table.pushGrow v }.goto t
        (.setPtr v (x.table.len + 1) (cfg.grow x.table.capacity) x.table.nextBuf))
    else none
  | .setPtr v n cap b => some ({ x with table := { x.table with ptr := b } }.goto t (.setLen v n cap))
  | .setLen v n cap =>
    some (({ x with table := { x.table with len := n } }.publish (n - 1) v).goto t (.setCapacity cap))
  | .setCapacity cap =>
    some ({ x with table := { x.table with capacity := cap } }.goto t .unlockCur)
  | .unlockCur => some ({ x with curDataLock := x.curDataLock.dropWrite }.goto t .unlock)
  | .deallocLock i =>
    if x.writeLock = none then some ({ x with writeLock := some t }.goto t (.storeNone i)) else none
  | .storeNone i =>
    some ({ x with table := x.table.write x.table.ptr i ThreadState.noneEncodedValue }.goto t
      (.pushFree i))
  | .pushFree i =>
    some ({ x with table := { x.table with freeSlots := i :: x.table.freeSlots } }.goto t .unlock)
  | .unlock => some ({ x with writeLock := none }.goto t .idle)

def step (x : Slots) : SlotsAct → Option Slots
  | .alloc t v => if x.calls t = .idle then some (x.goto t (.allocLock v)) else none
  | .dealloc t i =>
    if x.calls t = .idle then
      some ({ x with live := Function.update x.live i none }.goto t (.deallocLock i))
    else none
  | .call t => x.callStep cfg t
  | .read g =>
    if g ∈ x.curDataLock.readers then none
    else (x.curDataLock.read g).map fun l => { x with curDataLock := l }
  | .deref g =>
    if g ∈ x.curDataLock.readers then
      some { x with views := Function.update x.views g (some (x.table.ptr, x.table.len)) }
    else none
  | .store g i v =>
    match x.views g with
    | some (b, n) => if i < n then some ({ x with table := x.table.write b i v }.publish i v) else none
    | none => none
  | .drop g =>
    if g ∈ x.curDataLock.readers then
      some { x with curDataLock := x.curDataLock.dropRead g
                    views := Function.update x.views g none }
    else none

/-- What a guard finds in slot `i` of its slice. -/
def guardLoad (x : Slots) (g : GuardId) (i : SlotId) : Option Nat :=
  match x.views g with
  | some (b, n) => if i < n then (x.table.buffers b).bind (·[i]?) else none
  | none => none

end Slots

def slotsMachine (cfg : TableConfig) : Lib.Machine Slots SlotsAct where
  init x := x = .new
  step := Slots.step cfg

/-- The contract of `dealloc`, and only owners store. -/
def SlotsOrder (x : Slots) : SlotsAct → Prop
  | .dealloc _ i | .store _ i _ => (x.live i).isSome = true
  | _ => True

-- ---------------------------------------------------------------------------
-- The invariant
-- ---------------------------------------------------------------------------

/-- Under the write lock. -/
def CallPc.locked : CallPc → Bool
  | .idle | .allocLock _ | .deallocLock _ => false
  | _ => true

/-- Under the lock of the current data. -/
def CallPc.writing : CallPc → Bool
  | .pushGrow _ | .setPtr _ _ _ _ | .setLen _ _ _ | .setCapacity _ | .unlockCur => true
  | _ => false

/-- The id that a call has and nobody else: on its way in, or on its way out. -/
def CallPc.holds : CallPc → Option SlotId
  | .storeFree _ i | .deallocLock i | .storeNone i | .pushFree i => some i
  | _ => none

/-- `slots` is what has been written, and where the call that holds the write
lock has it. -/
def CallPc.Backs (s : Table) (slots : List Nat) : CallPc → Prop
  | .create _ => s.capacity = 0 ∧ s.len = 0 ∧ slots = []
  | .lockCreate v b => s.capacity = 0 ∧ s.len = 0 ∧ s.buffers b = some [v] ∧ slots = []
  | .pushInPlace _ | .lockGrow _ | .pushGrow _ =>
    s.capacity ≠ 0 ∧ s.buffers s.ptr = some slots ∧ slots.length = s.len
  | .storeLen v n =>
    s.capacity ≠ 0 ∧ s.buffers s.ptr = some (slots ++ [v]) ∧ slots.length = s.len ∧ n = s.len + 1
  | .setPtr v n cap b =>
    cap ≠ 0 ∧ s.buffers b = some (slots ++ [v]) ∧ slots.length = s.len ∧ n = s.len + 1
  | .setLen v n cap =>
    cap ≠ 0 ∧ s.buffers s.ptr = some (slots ++ [v]) ∧ slots.length = s.len ∧ n = s.len + 1
  | .setCapacity cap => cap ≠ 0 ∧ s.buffers s.ptr = some slots ∧ slots.length = s.len
  | _ => slots.length = s.len ∧ (s.capacity = 0 → s.len = 0) ∧
      (s.capacity ≠ 0 → s.buffers s.ptr = some slots)

variable {cfg : TableConfig} {x x' : Slots} {t u : Tid} {pc : CallPc} {i j v : Nat}

theorem CallPc.Backs.length {s : Table} {slots : List Nat} (h : pc.Backs s slots) :
    slots.length = s.len := by
  cases pc <;> simp only [CallPc.Backs] at h
  case create => rw [h.2.1, h.2.2]; rfl
  case lockCreate => rw [h.2.1, h.2.2.2]; rfl
  case pushInPlace | lockGrow | pushGrow | setCapacity => exact h.2.2
  case storeLen | setLen | setPtr => exact h.2.2.1
  all_goals exact h.1

/-- A write to a slot below the length, while nothing moves. -/
theorem CallPc.Backs.write {s : Table} {slots : List Nat} (h : pc.Backs s slots)
    (hpc : pc.writing = false) (hi : i < s.len) :
    pc.Backs (s.write s.ptr i v) (slots.set i v) := by
  have hlen := h.length
  cases pc <;> simp only [CallPc.Backs, Table.write] at h ⊢
  case create => omega
  case lockCreate => omega
  case pushInPlace | lockGrow =>
    refine ⟨h.1, ?_, by rw [List.length_set]; exact h.2.2⟩
    simp [h.2.1]
  case storeLen =>
    refine ⟨h.1, ?_, by rw [List.length_set]; exact h.2.2.1, h.2.2.2⟩
    simp [h.2.1, List.set_append_left _ _ (by omega : i < slots.length)]
  case pushGrow | setPtr | setLen | setCapacity | unlockCur => cases hpc
  all_goals
    refine ⟨by rw [List.length_set]; exact h.1, h.2.1, fun hc => ?_⟩
    simp [h.2.2 hc]

namespace Slots

/-- Where the call that holds the write lock is. -/
def holder (x : Slots) : CallPc :=
  match x.writeLock with
  | some t => x.calls t
  | none => .idle

structure Inv (x : Slots) : Prop where
  lock : ∀ t, x.writeLock = some t ↔ (x.calls t).locked = true
  cur : x.curDataLock.HeldBy (· ∈ x.curDataLock.readers) (fun t => (x.calls t).writing = true)
  slots : ∃ slots, x.holder.Backs x.table slots ∧ ∀ i v, x.live i = some v → slots[i]? = some v
  holds : ∀ t i, (x.calls t).holds = some i →
    x.live i = none ∧ i ∉ x.table.freeSlots ∧ i < x.table.len
  unique : ∀ t u i, (x.calls t).holds = some i → (x.calls u).holds = some i → t = u
  free : ∀ i ∈ x.table.freeSlots, x.live i = none ∧ i < x.table.len
  nodup : x.table.freeSlots.Nodup
  views : ∀ g b n, x.views g = some (b, n) →
    g ∈ x.curDataLock.readers ∧ b = x.table.ptr ∧ n ≤ x.table.len

theorem Inv.holder_eq (h : x.Inv) (ht : (x.calls t).locked = true) : x.holder = x.calls t := by
  simp only [holder, (h.lock t).mpr ht]

/-- While a writer has the lock of the current data there is no guard. -/
theorem Inv.no_views (h : x.Inv) (ht : (x.calls t).writing = true) (g : GuardId) : x.views g = none := by
  cases hv : x.views g with
  | none => rfl
  | some view =>
    obtain ⟨b, n⟩ := view
    exact absurd (h.views g b n hv).1 (h.cur.exclusive t g ht)

/-- A step of the call of `t`, with or without the write lock before or after. -/
theorem Inv.update (h : x.Inv) (hcalls : x'.calls = Function.update x.calls t pc)
    (hlock : ∀ u, x'.writeLock = some u ↔ (x'.calls u).locked = true)
    (hcur : x'.curDataLock.HeldBy (· ∈ x'.curDataLock.readers) (fun u => (x'.calls u).writing = true))
    (hslots : ∃ slots, x'.holder.Backs x'.table slots ∧ ∀ i v, x'.live i = some v → slots[i]? = some v)
    (hself : ∀ i, pc.holds = some i → x'.live i = none ∧ i ∉ x'.table.freeSlots ∧
      i < x'.table.len ∧ ∀ u, u ≠ t → (x.calls u).holds ≠ some i)
    (hothers : ∀ u i, u ≠ t → (x.calls u).holds = some i → x'.live i = none ∧
      i ∉ x'.table.freeSlots ∧ i < x'.table.len)
    (hfree : ∀ i ∈ x'.table.freeSlots, x'.live i = none ∧ i < x'.table.len)
    (hnodup : x'.table.freeSlots.Nodup)
    (hviews : ∀ g b n, x'.views g = some (b, n) →
      g ∈ x'.curDataLock.readers ∧ b = x'.table.ptr ∧ n ≤ x'.table.len) : x'.Inv := by
  have hpc : x'.calls t = pc := by rw [hcalls, Function.update_self]
  have hne {u : Tid} (hu : u ≠ t) : x'.calls u = x.calls u := by
    rw [hcalls, Function.update_of_ne hu]
  refine ⟨hlock, hcur, hslots, ?_, ?_, hfree, hnodup, hviews⟩
  · intro u i hi
    by_cases hu : u = t
    · rw [hu, hpc] at hi
      exact ⟨(hself i hi).1, (hself i hi).2.1, (hself i hi).2.2.1⟩
    · rw [hne hu] at hi
      exact hothers u i hu hi
  · intro u w i hu hw
    by_cases hut : u = t
    · by_cases hwt : w = t
      · rw [hut, hwt]
      · rw [hut, hpc] at hu
        rw [hne hwt] at hw
        exact absurd hw ((hself i hu).2.2.2 w hwt)
    · by_cases hwt : w = t
      · rw [hwt, hpc] at hw
        rw [hne hut] at hu
        exact absurd hu ((hself i hw).2.2.2 u hut)
      · rw [hne hut] at hu
        rw [hne hwt] at hw
        exact h.unique u w i hu hw

-- ---------------------------------------------------------------------------
-- The locks
-- ---------------------------------------------------------------------------

/-- `lock` of the invariant, and who holds it. -/
structure LockedBy (x' : Slots) (pc : CallPc) : Prop where
  lock : ∀ u, x'.writeLock = some u ↔ (x'.calls u).locked = true
  holder : x'.holder = pc

theorem Inv.inside (h : x.Inv) (ht : (x.calls t).locked = true) (hpc : pc.locked = true)
    (hcalls : x'.calls = Function.update x.calls t pc) (hw : x'.writeLock = x.writeLock) :
    x'.LockedBy pc := by
  have hlock : x.writeLock = some t := (h.lock t).mpr ht
  refine ⟨fun u => ?_, by simp [holder, hw, hlock, hcalls]⟩
  rw [hw, hcalls]
  by_cases hu : u = t
  · subst hu
    simp [hlock, hpc]
  · rw [Function.update_of_ne hu]
    exact h.lock u

theorem Inv.lock_take (h : x.Inv) (hfree : x.writeLock = none) (hpc : pc.locked = true)
    (hcalls : x'.calls = Function.update x.calls t pc) (hw : x'.writeLock = some t) :
    x'.LockedBy pc := by
  refine ⟨fun u => ?_, by simp [holder, hw, hcalls]⟩
  rw [hw, hcalls]
  by_cases hu : u = t
  · subst hu
    simp [hpc]
  · have hunlocked : ¬ (x.calls u).locked = true := fun hl => by
      rw [(h.lock u).mpr hl] at hfree
      cases hfree
    rw [Function.update_of_ne hu]
    exact ⟨fun he => absurd (Option.some.inj he).symm hu, fun hl => absurd hl hunlocked⟩

theorem Inv.lock_drop (h : x.Inv) (ht : (x.calls t).locked = true) (hpc : pc.locked = false)
    (hcalls : x'.calls = Function.update x.calls t pc) (hw : x'.writeLock = none) :
    x'.LockedBy .idle := by
  have hlock : x.writeLock = some t := (h.lock t).mpr ht
  refine ⟨fun u => ?_, by simp [holder, hw]⟩
  rw [hw, hcalls]
  by_cases hu : u = t
  · subst hu
    simp [hpc]
  · rw [Function.update_of_ne hu]
    refine ⟨nofun, fun hl => ?_⟩
    rw [(h.lock u).mpr hl] at hlock
    exact absurd (Option.some.inj hlock) hu

theorem Inv.lock_outside (h : x.Inv) (ht : (x.calls t).locked = false) (hpc : pc.locked = false)
    (hcalls : x'.calls = Function.update x.calls t pc) (hw : x'.writeLock = x.writeLock) :
    x'.LockedBy x.holder := by
  have hne {u : Tid} (hu : x.writeLock = some u) : u ≠ t := fun he => by
    have hl := (h.lock u).mp hu
    rw [he, ht] at hl
    cases hl
  refine ⟨fun u => ?_, ?_⟩
  · rw [hw, hcalls]
    by_cases hu : u = t
    · subst hu
      rw [h.lock, ht, Function.update_self, hpc]
    · rw [Function.update_of_ne hu]
      exact h.lock u
  · unfold holder
    rw [hw, hcalls]
    cases hl : x.writeLock with
    | none => rfl
    | some u => exact Function.update_of_ne (hne hl) _ _

theorem Inv.cur_same (h : x.Inv) (hpc : pc.writing = (x.calls t).writing)
    (hcalls : x'.calls = Function.update x.calls t pc) (hl : x'.curDataLock = x.curDataLock) :
    x'.curDataLock.HeldBy (· ∈ x'.curDataLock.readers) (fun u => (x'.calls u).writing = true) := by
  rw [hl]
  refine h.cur.congr (fun u => Iff.rfl) fun u => ?_
  rw [hcalls]
  by_cases hu : u = t
  · subst hu
    rw [Function.update_self, hpc]
  · rw [Function.update_of_ne hu]

/-- A step that keeps the ids and the length, and the pointer while there are guards. -/
theorem Inv.quiet (h : x.Inv) {holder : CallPc} (hcalls : x'.calls = Function.update x.calls t pc)
    (hlock : x'.LockedBy holder)
    (hcur : x'.curDataLock.HeldBy (· ∈ x'.curDataLock.readers) (fun u => (x'.calls u).writing = true))
    (hslots : ∃ slots, holder.Backs x'.table slots ∧ ∀ i v, x.live i = some v → slots[i]? = some v)
    (hholds : pc.holds = none ∨ pc.holds = (x.calls t).holds) (hlive : x'.live = x.live)
    (hfree : x'.table.freeSlots = x.table.freeSlots) (hlen : x'.table.len = x.table.len)
    (hviews : x'.views = x.views) (hreaders : x'.curDataLock.readers = x.curDataLock.readers)
    (hptr : x'.table.ptr = x.table.ptr ∨ ∀ g, x.views g = none) : x'.Inv := by
  refine h.update hcalls hlock.lock hcur ?_ ?_ ?_ ?_ ?_ ?_
  · rw [hlock.holder, hlive]
    exact hslots
  · intro i hi
    rw [hlive, hfree, hlen]
    have ht : (x.calls t).holds = some i := by
      rcases hholds with hn | hs
      · rw [hn] at hi
        cases hi
      · rw [← hs, hi]
    obtain ⟨h₁, h₂, h₃⟩ := h.holds t i ht
    exact ⟨h₁, h₂, h₃, fun u hu hui => hu (h.unique u t i hui ht)⟩
  · intro u i _ hi
    rw [hlive, hfree, hlen]
    exact h.holds u i hi
  · rw [hlive, hfree, hlen]
    exact h.free
  · rw [hfree]
    exact h.nodup
  · intro g b n hv
    rw [hviews] at hv
    rw [hreaders, hlen]
    obtain ⟨h₁, h₂, h₃⟩ := h.views g b n hv
    rcases hptr with hp | hn
    · exact ⟨h₁, h₂.trans hp.symm, h₃⟩
    · rw [hn g] at hv
      cases hv

-- ---------------------------------------------------------------------------
-- The ids
-- ---------------------------------------------------------------------------

theorem Inv.lt_of_live (h : x.Inv) (hi : x.live i = some v) : i < x.table.len := by
  obtain ⟨slots, hb, hlive⟩ := h.slots
  rw [← hb.length]
  exact (List.getElem?_eq_some_iff.mp (hlive i v hi)).1

theorem Inv.not_held_of_live (h : x.Inv) (hi : (x.live i).isSome = true) (u : Tid) :
    (x.calls u).holds ≠ some i := fun hu => by
  rw [(h.holds u i hu).1] at hi
  cases hi

variable (x') in
/-- The lock of the current data is taken by the call of `t`. -/
theorem Inv.cur_take (h : x.Inv) {l : Lib.RwLock Nat} (hl : x.curDataLock.write t = some l)
    (hpc : pc.writing = true) (hcalls : x'.calls = Function.update x.calls t pc)
    (hcur : x'.curDataLock = l) :
    x'.curDataLock.HeldBy (· ∈ x'.curDataLock.readers) (fun u => (x'.calls u).writing = true) ∧
      x'.curDataLock.readers = x.curDataLock.readers := by
  have hreaders : l.readers = x.curDataLock.readers := by
    simp only [Lib.RwLock.write] at hl
    split at hl <;> cases hl
    rfl
  have hfree : x.curDataLock.writer = none := by
    simp only [Lib.RwLock.write] at hl
    split at hl <;> cases hl
    rename_i hn
    exact hn.1
  refine ⟨?_, hcur ▸ hreaders⟩
  rw [hcur]
  refine h.cur.write hl (fun u => by rw [hreaders]) fun u => ?_
  rw [hcalls]
  by_cases hu : u = t
  · subst hu
    simp [hpc]
  · rw [Function.update_of_ne hu]
    refine ⟨fun hw => ?_, fun he => absurd he hu⟩
    rw [(h.cur.writer u).mpr hw] at hfree
    cases hfree

/-- The first free slot is set aside. -/
theorem Inv.pop (h : x.Inv) (hpc : x.calls t = .popFree v) {rest : List SlotId}
    (hf : x.table.freeSlots = i :: rest) :
    ({ x with table := { x.table with freeSlots := rest } }.goto t (.storeFree v i)).Inv := by
  have ht : (x.calls t).locked = true := by rw [hpc]; rfl
  have hmem : i ∈ x.table.freeSlots := hf ▸ List.mem_cons_self
  have hsub {k : Nat} (hk : k ∈ rest) : k ∈ x.table.freeSlots := hf ▸ List.mem_cons_of_mem i hk
  have hnodup : (i :: rest).Nodup := hf ▸ h.nodup
  obtain ⟨slots, hb, hlive⟩ := h.slots
  rw [h.holder_eq ht, hpc] at hb
  have hl : Slots.LockedBy ({ x with table := { x.table with freeSlots := rest } }.goto t
    (.storeFree v i)) (.storeFree v i) := h.inside ht rfl rfl rfl
  refine h.update rfl hl.lock (h.cur_same (by rw [hpc]; rfl) rfl rfl) ?_ ?_ ?_ ?_ ?_ h.views
  · rw [hl.holder]
    exact ⟨slots, hb, hlive⟩
  · intro k hk
    obtain rfl : i = k := Option.some.inj hk
    obtain ⟨hnone, hlt⟩ := h.free i hmem
    exact ⟨hnone, (List.nodup_cons.mp hnodup).1, hlt, fun u _ hu => (h.holds u i hu).2.1 hmem⟩
  · intro u k _ hk
    obtain ⟨h₁, h₂, h₃⟩ := h.holds u k hk
    exact ⟨h₁, fun hr => h₂ (hsub hr), h₃⟩
  · exact fun k hk => h.free k (hsub hk)
  · exact (List.nodup_cons.mp hnodup).2

/-- The set aside slot gets its new state. -/
theorem Inv.reuse (h : x.Inv) (hpc : x.calls t = .storeFree v i) :
    (({ x with table := x.table.write x.table.ptr i v }.publish i v).goto t .unlock).Inv := by
  have ht : (x.calls t).locked = true := by rw [hpc]; rfl
  obtain ⟨hnone, hfree, hlt⟩ := h.holds t i (by rw [hpc]; rfl)
  have hothers {u : Tid} {k : Nat} (hu : u ≠ t) (hk : (x.calls u).holds = some k) : k ≠ i :=
    fun he => hu (h.unique u t i (he ▸ hk) (by rw [hpc]; rfl))
  obtain ⟨slots, hb, hlive⟩ := h.slots
  rw [h.holder_eq ht, hpc] at hb
  have hl : Slots.LockedBy (({ x with table := x.table.write x.table.ptr i v }.publish i v).goto t
    .unlock) .unlock := h.inside ht rfl rfl rfl
  refine h.update rfl hl.lock (h.cur_same (by rw [hpc]; rfl) rfl rfl) ?_ nofun ?_ ?_ h.nodup h.views
  · rw [hl.holder]
    refine ⟨slots.set i v, hb.write rfl hlt, fun k w hk => ?_⟩
    by_cases hki : k = i
    · subst hki
      have hw : v = w := by simpa [goto, publish] using hk
      rw [List.getElem?_set_self (by rw [hb.length]; exact hlt), hw]
    · rw [List.getElem?_set_ne (Ne.symm hki)]
      exact hlive k w (by simpa [goto, publish, hki] using hk)
  · intro u k hu hk
    obtain ⟨h₁, h₂, h₃⟩ := h.holds u k hk
    exact ⟨by simpa [goto, publish, hothers hu hk] using h₁, h₂, h₃⟩
  · intro k hk
    obtain ⟨h₁, h₂⟩ := h.free k hk
    have hki : k ≠ i := fun he => hfree (he ▸ hk)
    exact ⟨by simpa [goto, publish, hki] using h₁, h₂⟩

/-- The length goes up by one, to a slot that has been written. -/
theorem Inv.grow (h : x.Inv) {slots : List Nat} {n : Nat} (hlen : slots.length = x.table.len)
    (hn : n = x.table.len + 1) (hlive : ∀ i w, x.live i = some w → slots[i]? = some w)
    (hcalls : x'.calls = Function.update x.calls t pc) (hl : x'.LockedBy pc)
    (hcur : x'.curDataLock.HeldBy (· ∈ x'.curDataLock.readers) (fun u => (x'.calls u).writing = true))
    (hreaders : x'.curDataLock.readers = x.curDataLock.readers)
    (hb : pc.Backs x'.table (slots ++ [v])) (hpc : pc.holds = none)
    (hlive' : x'.live = Function.update x.live (n - 1) (some v)) (hviews : x'.views = x.views)
    (htable : x'.table = { x.table with len := n }) : x'.Inv := by
  have hnew : n - 1 = x.table.len := by omega
  have hne {k : Nat} (hk : k < x.table.len) : k ≠ n - 1 := by omega
  refine h.update hcalls hl.lock hcur ?_ ?_ ?_ ?_ ?_ ?_
  · rw [hl.holder]
    refine ⟨slots ++ [v], hb, fun k w hk => ?_⟩
    rw [hlive'] at hk
    by_cases hki : k = n - 1
    · subst hki
      rw [Function.update_self] at hk
      rw [hnew, ← hlen, List.getElem?_concat_length, hk]
    · rw [Function.update_of_ne hki] at hk
      rw [List.getElem?_append_left (by rw [hlen]; exact h.lt_of_live hk)]
      exact hlive k w hk
  · intro k hk
    rw [hpc] at hk
    cases hk
  · intro u k _ hk
    obtain ⟨h₁, h₂, h₃⟩ := h.holds u k hk
    rw [hlive', htable, Function.update_of_ne (hne h₃), hn]
    exact ⟨h₁, h₂, Nat.lt_succ_of_lt h₃⟩
  · intro k hk
    rw [htable] at hk
    obtain ⟨h₁, h₂⟩ := h.free k hk
    rw [hlive', htable, Function.update_of_ne (hne h₂), hn]
    exact ⟨h₁, Nat.lt_succ_of_lt h₂⟩
  · rw [htable]
    exact h.nodup
  · intro g b m hv
    rw [hviews] at hv
    obtain ⟨h₁, h₂, h₃⟩ := h.views g b m hv
    rw [hreaders, htable, hn]
    exact ⟨h₁, h₂, Nat.le_succ_of_le h₃⟩

/-- A slot that has been emptied becomes free. -/
theorem Inv.free_slot (h : x.Inv) (hpc : x.calls t = .pushFree i) :
    ({ x with table := { x.table with freeSlots := i :: x.table.freeSlots } }.goto t .unlock).Inv := by
  have ht : (x.calls t).locked = true := by rw [hpc]; rfl
  obtain ⟨hnone, hfree, hlt⟩ := h.holds t i (by rw [hpc]; rfl)
  obtain ⟨slots, hb, hlive⟩ := h.slots
  rw [h.holder_eq ht, hpc] at hb
  have hl : Slots.LockedBy ({ x with
      table := { x.table with freeSlots := i :: x.table.freeSlots } }.goto t .unlock) .unlock :=
    h.inside ht rfl rfl rfl
  refine h.update rfl hl.lock (h.cur_same (by rw [hpc]; rfl) rfl rfl) ?_ nofun ?_ ?_ ?_ h.views
  · rw [hl.holder]
    exact ⟨slots, hb, hlive⟩
  · intro u k hu hk
    obtain ⟨h₁, h₂, h₃⟩ := h.holds u k hk
    refine ⟨h₁, fun hm => ?_, h₃⟩
    rcases List.mem_cons.mp hm with rfl | hm
    · exact hu (h.unique u t k hk (by rw [hpc]; rfl))
    · exact h₂ hm
  · intro k hk
    rcases List.mem_cons.mp hk with rfl | hk
    · exact ⟨hnone, hlt⟩
    · exact h.free k hk
  · exact List.nodup_cons.mpr ⟨hfree, h.nodup⟩

-- ---------------------------------------------------------------------------
-- Every step
-- ---------------------------------------------------------------------------

/-- A step of the call that holds the write lock, and goes on holding it. -/
theorem Inv.go (h : x.Inv) (ht : (x.calls t).locked = true) (hpc : pc.locked = true)
    (hw : pc.writing = (x.calls t).writing) {table : Table}
    (hslots : ∀ slots, (x.calls t).Backs x.table slots →
      (∀ i v, x.live i = some v → slots[i]? = some v) →
      ∃ slots', pc.Backs table slots' ∧ ∀ i v, x.live i = some v → slots'[i]? = some v)
    (hholds : pc.holds = none ∨ pc.holds = (x.calls t).holds)
    (hfree : table.freeSlots = x.table.freeSlots) (hlen : table.len = x.table.len)
    (hptr : table.ptr = x.table.ptr ∨ ∀ g, x.views g = none) :
    ({ x with table := table }.goto t pc).Inv := by
  obtain ⟨slots, hb, hlive⟩ := h.slots
  rw [h.holder_eq ht] at hb
  exact h.quiet rfl (h.inside ht hpc rfl rfl) (h.cur_same hw rfl rfl) (hslots slots hb hlive) hholds
    rfl hfree hlen rfl rfl hptr

theorem Inv.call (h : x.Inv) (hs : x.callStep cfg t = some x') : x'.Inv := by
  cases hpc : x.calls t <;> simp only [callStep, hpc, reduceCtorEq] at hs
  case allocLock v =>
    split at hs <;> cases hs
    rename_i hfree
    obtain ⟨slots, hb, hlive⟩ := h.slots
    have hidle : x.holder = .idle := by simp [holder, hfree]
    rw [hidle] at hb
    exact h.quiet rfl (h.lock_take hfree rfl rfl rfl) (h.cur_same (by rw [hpc]; rfl) rfl rfl)
      ⟨slots, hb, hlive⟩ (.inl rfl) rfl rfl rfl rfl rfl (.inl rfl)
  case deallocLock i =>
    split at hs <;> cases hs
    rename_i hfree
    obtain ⟨slots, hb, hlive⟩ := h.slots
    have hidle : x.holder = .idle := by simp [holder, hfree]
    rw [hidle] at hb
    exact h.quiet rfl (h.lock_take hfree rfl rfl rfl) (h.cur_same (by rw [hpc]; rfl) rfl rfl)
      ⟨slots, hb, hlive⟩ (.inr (by rw [hpc]; rfl)) rfl rfl rfl rfl rfl (.inl rfl)
  case popFree v =>
    have ht : (x.calls t).locked = true := by rw [hpc]; rfl
    split at hs
    · rename_i i rest hf
      cases hs
      exact h.pop hpc hf
    · cases hs
      split
      · rename_i hcap
        refine h.go ht rfl (by rw [hpc]; rfl) (fun slots hb hlive => ?_) (.inl rfl) rfl rfl (.inl rfl)
        rw [hpc] at hb
        have hlen : x.table.len = 0 := hb.2.1 hcap
        exact ⟨slots, ⟨hcap, hlen, List.length_eq_zero_iff.mp (hb.1.trans hlen)⟩, hlive⟩
      · rename_i hcap
        split <;>
          refine h.go ht rfl (by rw [hpc]; rfl) (fun slots hb hlive => ?_) (.inl rfl) rfl rfl (.inl rfl) <;>
          rw [hpc] at hb <;>
          exact ⟨slots, ⟨hcap, hb.2.2 hcap, hb.1⟩, hlive⟩
  case storeFree v i =>
    cases hs
    exact h.reuse hpc
  case create v =>
    cases hs
    refine h.go (by rw [hpc]; rfl) rfl (by rw [hpc]; rfl) (fun slots hb hlive => ?_) (.inl rfl) rfl rfl
      (.inl rfl)
    rw [hpc] at hb
    exact ⟨slots, ⟨hb.1, hb.2.1, by simp [Table.allocBuffer], hb.2.2⟩, hlive⟩
  case lockCreate v b =>
    obtain ⟨l, hl, rfl⟩ := Option.map_eq_some_iff.mp hs
    have ht : (x.calls t).locked = true := by rw [hpc]; rfl
    obtain ⟨slots, hb, hlive⟩ := h.slots
    rw [h.holder_eq ht, hpc] at hb
    obtain ⟨hcur, hreaders⟩ := h.cur_take ({ x with curDataLock := l }.goto t
      (.setPtr v 1 (cfg.withCapacity (cfg.numCpus + 1)) b)) hl rfl rfl rfl
    have hcap := cfg.le_withCapacity (cfg.numCpus + 1)
    refine h.quiet rfl (h.inside ht rfl rfl rfl) hcur ⟨slots, ?_, hlive⟩ (.inl rfl) rfl rfl rfl rfl
      hreaders (.inl rfl)
    obtain ⟨-, hlen, hbuf, hnil⟩ := hb
    refine ⟨by omega, by rw [hnil]; exact hbuf, by rw [hnil]; exact hlen.symm, ?_⟩
    show 1 = x.table.len + 1
    rw [hlen]
  case pushInPlace v =>
    split at hs <;> cases hs
    refine h.go (by rw [hpc]; rfl) rfl (by rw [hpc]; rfl) (fun slots hb hlive => ?_) (.inl rfl) rfl rfl
      (.inl rfl)
    rw [hpc] at hb
    obtain ⟨hcap, hbuf, hlen⟩ := hb
    have htake : slots.take x.table.len = slots := List.take_of_length_le (Nat.le_of_eq hlen)
    exact ⟨slots, ⟨hcap, by simp [Table.pushInPlace, hbuf, htake], hlen, rfl⟩, hlive⟩
  case storeLen v n =>
    cases hs
    have ht : (x.calls t).locked = true := by rw [hpc]; rfl
    obtain ⟨slots, hb, hlive⟩ := h.slots
    rw [h.holder_eq ht, hpc] at hb
    obtain ⟨hcap, hbuf, hlen, hn⟩ := hb
    refine h.grow hlen hn hlive rfl (h.inside ht rfl rfl rfl) (h.cur_same (by rw [hpc]; rfl) rfl rfl)
      rfl ?_ rfl rfl rfl rfl
    refine ⟨by simp [hlen, hn, publish, goto], fun hc => absurd hc hcap, fun _ => hbuf⟩
  case lockGrow v =>
    obtain ⟨l, hl, rfl⟩ := Option.map_eq_some_iff.mp hs
    have ht : (x.calls t).locked = true := by rw [hpc]; rfl
    obtain ⟨slots, hb, hlive⟩ := h.slots
    rw [h.holder_eq ht, hpc] at hb
    obtain ⟨hcur, hreaders⟩ := h.cur_take ({ x with curDataLock := l }.goto t (.pushGrow v))
      hl rfl rfl rfl
    exact h.quiet rfl (h.inside ht rfl rfl rfl) hcur ⟨slots, hb, hlive⟩ (.inl rfl) rfl rfl rfl rfl
      hreaders (.inl rfl)
  case pushGrow v =>
    split at hs <;> cases hs
    have hviews := h.no_views (t := t) (by rw [hpc]; rfl)
    have hframe := x.table.pushGrow_frame v
    refine h.go (by rw [hpc]; rfl) rfl (by rw [hpc]; rfl) (fun slots hb hlive => ?_) (.inl rfl) hframe.1
      hframe.2 (.inr hviews)
    rw [hpc] at hb
    obtain ⟨-, hbuf, hlen⟩ := hb
    have htake : slots.take x.table.len = slots := List.take_of_length_le (Nat.le_of_eq hlen)
    have hgrow : cfg.grow x.table.capacity ≠ 0 := Nat.ne_of_gt (Nat.zero_lt_of_lt (cfg.lt_grow _))
    have hnew : (x.table.pushGrow v).buffers x.table.nextBuf = some (slots ++ [v]) := by
      simp [Table.pushGrow, hbuf, htake, Table.allocBuffer, Table.freeBuffer]
    exact ⟨slots, ⟨hgrow, hnew, hlen.trans hframe.2.symm, by rw [hframe.2]⟩, hlive⟩
  case setPtr v n cap b =>
    cases hs
    have hviews := h.no_views (t := t) (by rw [hpc]; rfl)
    refine h.go (by rw [hpc]; rfl) rfl (by rw [hpc]; rfl) (fun slots hb hlive => ?_) (.inl rfl) rfl rfl
      (.inr hviews)
    rw [hpc] at hb
    exact ⟨slots, hb, hlive⟩
  case setLen v n cap =>
    cases hs
    have ht : (x.calls t).locked = true := by rw [hpc]; rfl
    obtain ⟨slots, hb, hlive⟩ := h.slots
    rw [h.holder_eq ht, hpc] at hb
    obtain ⟨hcap, hbuf, hlen, hn⟩ := hb
    refine h.grow hlen hn hlive rfl (h.inside ht rfl rfl rfl) (h.cur_same (by rw [hpc]; rfl) rfl rfl)
      rfl ?_ rfl rfl rfl rfl
    exact ⟨hcap, hbuf, by simp [hlen, hn, publish, goto]⟩
  case setCapacity cap =>
    cases hs
    refine h.go (by rw [hpc]; rfl) rfl (by rw [hpc]; rfl) (fun slots hb hlive => ?_) (.inl rfl) rfl rfl
      (.inl rfl)
    rw [hpc] at hb
    exact ⟨slots, ⟨hb.2.2, fun hc => absurd hc hb.1, fun _ => hb.2.1⟩, hlive⟩
  case unlockCur =>
    cases hs
    have ht : (x.calls t).locked = true := by rw [hpc]; rfl
    have hwriter : (x.calls t).writing = true := by rw [hpc]; rfl
    obtain ⟨slots, hb, hlive⟩ := h.slots
    rw [h.holder_eq ht, hpc] at hb
    refine h.quiet rfl (h.inside ht rfl rfl rfl) (h.cur.dropWrite (fun _ => Iff.rfl) fun u hu => ?_)
      ⟨slots, hb, hlive⟩ (.inl rfl) rfl rfl rfl rfl rfl (.inl rfl)
    by_cases hut : u = t
    · subst hut
      simp [goto, CallPc.writing] at hu
    · have huw : (x.calls u).writing = true := by simpa [goto, Function.update_of_ne hut] using hu
      exact hut (h.cur.writer_unique huw hwriter)
  case storeNone i =>
    cases hs
    obtain ⟨hnone, -, hlt⟩ := h.holds t i (by rw [hpc]; rfl)
    refine h.go (by rw [hpc]; rfl) rfl (by rw [hpc]; rfl) (fun slots hb hlive => ?_)
      (.inr (by rw [hpc]; rfl)) rfl rfl (.inl rfl)
    rw [hpc] at hb
    refine ⟨slots.set i ThreadState.noneEncodedValue, hb.write rfl hlt, fun k w hk => ?_⟩
    have hki : i ≠ k := fun he => by
      rw [← he, hnone] at hk
      cases hk
    rw [List.getElem?_set_ne hki]
    exact hlive k w hk
  case pushFree i =>
    cases hs
    exact h.free_slot hpc
  case unlock =>
    cases hs
    have ht : (x.calls t).locked = true := by rw [hpc]; rfl
    obtain ⟨slots, hb, hlive⟩ := h.slots
    rw [h.holder_eq ht, hpc] at hb
    exact h.quiet rfl (h.lock_drop ht rfl rfl rfl) (h.cur_same (by rw [hpc]; rfl) rfl rfl)
      ⟨slots, hb, hlive⟩ (.inl rfl) rfl rfl rfl rfl rfl (.inl rfl)

theorem Inv.call_dealloc (h : x.Inv) (hidle : x.calls t = .idle) (hi : (x.live i).isSome = true) :
    ({ x with live := Function.update x.live i none }.goto t (.deallocLock i)).Inv := by
  obtain ⟨v, hv⟩ := Option.isSome_iff_exists.mp hi
  have hl : Slots.LockedBy ({ x with live := Function.update x.live i none }.goto t
    (.deallocLock i)) x.holder := h.lock_outside (by rw [hidle]; rfl) rfl rfl rfl
  have hfree : i ∉ x.table.freeSlots := fun hf => by
    rw [(h.free i hf).1] at hv
    cases hv
  have hnone {k : Nat} (hk : x.live k = none) : Function.update x.live i none k = none := by
    by_cases hki : k = i
    · subst hki
      exact Function.update_self ..
    · rw [Function.update_of_ne hki]
      exact hk
  refine h.update rfl hl.lock (h.cur_same (by rw [hidle]; rfl) rfl rfl) ?_ ?_ ?_ ?_ h.nodup h.views
  · obtain ⟨slots, hb, hlive⟩ := h.slots
    rw [hl.holder]
    refine ⟨slots, hb, fun k w hk => hlive k w ?_⟩
    by_cases hki : k = i
    · subst hki
      simp [goto] at hk
    · simpa [goto, hki] using hk
  · intro k hk
    obtain rfl : i = k := Option.some.inj hk
    exact ⟨Function.update_self .., hfree, h.lt_of_live hv, fun u _ => h.not_held_of_live hi u⟩
  · intro u k _ hk
    obtain ⟨h₁, h₂, h₃⟩ := h.holds u k hk
    exact ⟨hnone h₁, h₂, h₃⟩
  · intro k hk
    obtain ⟨h₁, h₂⟩ := h.free k hk
    exact ⟨hnone h₁, h₂⟩

/-- A guard is there, so nothing moves. -/
theorem Inv.holder_not_writing (h : x.Inv) {g : GuardId} (hg : g ∈ x.curDataLock.readers) :
    x.holder.writing = false := by
  unfold holder
  cases hl : x.writeLock with
  | none => rfl
  | some t =>
    by_contra hw
    exact h.cur.exclusive t g (Bool.eq_true_of_not_eq_false hw) hg

theorem Inv.store (h : x.Inv) {g : GuardId} {b n : Nat} (hv : x.views g = some (b, n)) (hin : i < n)
    (hi : (x.live i).isSome = true) : ({ x with table := x.table.write b i v }.publish i v).Inv := by
  obtain ⟨hg, rfl, hle⟩ := h.views g b n hv
  have hlt : i < x.table.len := Nat.lt_of_lt_of_le hin hle
  have hkeep {k : Nat} (hk : x.live k = none) : Function.update x.live i (some v) k = none := by
    rw [Function.update_of_ne]
    · exact hk
    · rintro rfl
      rw [hk] at hi
      cases hi
  obtain ⟨slots, hb, hlive⟩ := h.slots
  refine ⟨h.lock, h.cur, ?_, ?_, h.unique, ?_, h.nodup, h.views⟩
  · refine ⟨slots.set i v, hb.write (h.holder_not_writing hg) hlt, fun k w hk => ?_⟩
    by_cases hki : k = i
    · subst hki
      have hw : v = w := by simpa [publish] using hk
      rw [List.getElem?_set_self (by rw [hb.length]; exact hlt), hw]
    · rw [List.getElem?_set_ne (Ne.symm hki)]
      exact hlive k w (by simpa [publish, hki] using hk)
  · intro u k hk
    obtain ⟨h₁, h₂, h₃⟩ := h.holds u k hk
    exact ⟨hkeep h₁, h₂, h₃⟩
  · intro k hk
    obtain ⟨h₁, h₂⟩ := h.free k hk
    exact ⟨hkeep h₁, h₂⟩

theorem inv_inductive : (slotsMachine cfg).Inductive SlotsOrder Inv where
  init := by
    rintro x rfl
    refine ⟨fun t => ⟨nofun, nofun⟩, ?_, ⟨[], ⟨rfl, fun _ => rfl, fun hc => absurd rfl hc⟩, nofun⟩, nofun,
      nofun, nofun, List.nodup_nil, nofun⟩
    exact Lib.RwLock.heldBy_unlocked (fun g => by simp [new, Lib.RwLock.unlocked]) nofun
  step := by
    intro x a x' h ho hs
    cases a with
    | alloc t v =>
      simp only [slotsMachine, step] at hs
      split at hs <;> cases hs
      rename_i hidle
      exact h.quiet rfl (h.lock_outside (by rw [hidle]; rfl) rfl rfl rfl)
        (h.cur_same (by rw [hidle]; rfl) rfl rfl) h.slots (.inl rfl) rfl rfl rfl rfl rfl (.inl rfl)
    | dealloc t i =>
      simp only [slotsMachine, step] at hs
      split at hs <;> cases hs
      rename_i hidle
      exact h.call_dealloc hidle ho
    | call t => exact h.call hs
    | read g =>
      simp only [slotsMachine, step] at hs
      split at hs
      · cases hs
      · obtain ⟨l, hl, rfl⟩ := Option.map_eq_some_iff.mp hs
        have hreaders : l.readers = insert g x.curDataLock.readers := by
          simp only [Lib.RwLock.read] at hl
          split at hl <;> cases hl
          rfl
        have hin {k : Nat} (hk : k ∈ x.curDataLock.readers) : k ∈ l.readers := by
          rw [hreaders]
          exact Finset.mem_insert_of_mem hk
        refine ⟨h.lock, ?_, h.slots, h.holds, h.unique, h.free, h.nodup, fun k b n hv => ?_⟩
        · exact h.cur.read hl (fun j => by rw [hreaders]; exact Finset.mem_insert) fun _ => Iff.rfl
        · obtain ⟨h₁, h₂, h₃⟩ := h.views k b n hv
          exact ⟨hin h₁, h₂, h₃⟩
    | deref g =>
      simp only [slotsMachine, step] at hs
      split at hs <;> cases hs
      rename_i hg
      refine ⟨h.lock, h.cur, h.slots, h.holds, h.unique, h.free, h.nodup, fun k b n hv => ?_⟩
      replace hv : Function.update x.views g (some (x.table.ptr, x.table.len)) k = some (b, n) := hv
      by_cases hk : k = g
      · subst hk
        simp only [Function.update_self, Option.some.injEq, Prod.mk.injEq] at hv
        exact ⟨hg, hv.1.symm, Nat.le_of_eq hv.2.symm⟩
      · rw [Function.update_of_ne hk] at hv
        exact h.views k b n hv
    | store g i v =>
      simp only [slotsMachine, step] at hs
      split at hs
      · rename_i b n hv
        split at hs <;> cases hs
        rename_i hin
        exact h.store hv hin ho
      · cases hs
    | drop g =>
      simp only [slotsMachine, step] at hs
      split at hs <;> cases hs
      refine ⟨h.lock, ?_, h.slots, h.holds, h.unique, h.free, h.nodup, fun k b n hv => ?_⟩
      · exact h.cur.dropRead (fun j => by simp [Lib.RwLock.dropRead]) fun _ => Iff.rfl
      · replace hv : Function.update x.views g none k = some (b, n) := hv
        by_cases hk : k = g
        · subst hk
          rw [Function.update_self] at hv
          cases hv
        · rw [Function.update_of_ne hk] at hv
          obtain ⟨h₁, h₂, h₃⟩ := h.views k b n hv
          exact ⟨Finset.mem_erase.mpr ⟨hk, h₁⟩, h₂, h₃⟩

-- ---------------------------------------------------------------------------
-- What a guard gives
-- ---------------------------------------------------------------------------

/-- What a reader relies on, while it holds guard `g`. -/
structure GuardOk (x : Slots) (g : GuardId) : Prop where
  /-- The buffer that a dereference gives is allocated, and written up to the length it gives. -/
  written : x.table.len = 0 ∨
    ∃ slots, x.table.buffers x.table.ptr = some slots ∧ x.table.len ≤ slots.length
  /-- A slice that it has given is of the current buffer, and the next is no shorter. -/
  view : ∀ b n, x.views g = some (b, n) → b = x.table.ptr ∧ n ≤ x.table.len
  /-- Every id of that slice is that of a slot, with its owner's state. -/
  load : ∀ b n, x.views g = some (b, n) → ∀ i, i < n →
    ∃ v, x.guardLoad g i = some v ∧ ∀ w, x.live i = some w → v = w

structure ReadersOk (cfg : TableConfig) (x : Slots) : Prop where
  guard : ∀ g ∈ x.curDataLock.readers, x.GuardOk g
  /-- No slot is published before it is written, and the length never shrinks. -/
  published : ∀ a x', SlotsOrder x a → x.step cfg a = some x' → x.table.len ≤ x'.table.len ∧
    (x.table.len < x'.table.len →
      ∃ slots, x.table.buffers x'.table.ptr = some slots ∧ x'.table.len ≤ slots.length)

theorem CallPc.Backs.buffer {s : Table} {slots : List Nat} (h : pc.Backs s slots)
    (hpc : pc.writing = false) : s.len = 0 ∨ ∃ more, s.buffers s.ptr = some (slots ++ more) := by
  cases pc <;> simp only [CallPc.Backs] at h
  case create | lockCreate => exact .inl h.2.1
  case pushInPlace | lockGrow => exact .inr ⟨[], by rw [h.2.1, List.append_nil]⟩
  case storeLen v n => exact .inr ⟨[v], h.2.1⟩
  case pushGrow | setPtr | setLen | setCapacity | unlockCur => cases hpc
  all_goals
    by_cases hc : s.capacity = 0
    · exact .inl (h.2.1 hc)
    · exact .inr ⟨[], by rw [h.2.2 hc, List.append_nil]⟩

theorem Inv.guardOk (h : x.Inv) {g : GuardId} (hg : g ∈ x.curDataLock.readers) : x.GuardOk g := by
  obtain ⟨slots, hb, hlive⟩ := h.slots
  have hlen := hb.length
  have hbuf := CallPc.Backs.buffer hb (h.holder_not_writing hg)
  refine ⟨hbuf.imp id fun ⟨more, hm⟩ => ⟨_, hm, by simp [hlen]⟩, ?_, ?_⟩
  · intro b n hv
    exact (h.views g b n hv).2
  · intro b n hv i hi
    obtain ⟨-, rfl, hle⟩ := h.views g b n hv
    have hlt : i < slots.length := by omega
    obtain ⟨more, hm⟩ := hbuf.resolve_left (by omega)
    have hload : x.guardLoad g i = slots[i]? := by
      simp [guardLoad, hv, hi, hm, List.getElem?_append_left hlt]
    refine ⟨slots[i], by rw [hload]; exact List.getElem?_eq_getElem hlt, fun w hw => ?_⟩
    have := hlive i w hw
    rw [List.getElem?_eq_getElem hlt] at this
    exact Option.some.inj this

/-- The two stores to the length. -/
theorem callStep_len (h : x.Inv) (hs : x.callStep cfg t = some x') :
    x'.table.len = x.table.len ∨ x'.table.len = x.table.len + 1 ∧
      ∃ slots, x.table.buffers x'.table.ptr = some slots ∧ x'.table.len ≤ slots.length := by
  obtain ⟨slots, hb, -⟩ := h.slots
  cases hpc : x.calls t <;> simp only [callStep, hpc, reduceCtorEq] at hs
  case storeLen v n | setLen v n cap =>
    cases hs
    rw [h.holder_eq (by rw [hpc]; rfl), hpc] at hb
    obtain ⟨-, hbuf, hlen, hn⟩ := hb
    refine .inr ⟨hn, slots ++ [v], hbuf, ?_⟩
    show n ≤ (slots ++ [v]).length
    simp [hn, hlen]
  case popFree v =>
    split at hs <;> cases hs <;> exact .inl rfl
  case allocLock | deallocLock =>
    split at hs <;> cases hs
    exact .inl rfl
  case lockCreate | lockGrow =>
    obtain ⟨l, -, rfl⟩ := Option.map_eq_some_iff.mp hs
    exact .inl rfl
  case pushInPlace =>
    split at hs <;> cases hs
    exact .inl rfl
  case pushGrow v =>
    split at hs <;> cases hs
    exact .inl (x.table.pushGrow_frame v).2
  all_goals cases hs; exact .inl rfl

/-- Whatever the overlap of guards, calls and stores. -/
theorem readers_never_see_moved (h : (slotsMachine cfg).Reach SlotsOrder x) : x.ReadersOk cfg := by
  have hinv : x.Inv := inv_inductive.reach h
  refine ⟨fun g hg => hinv.guardOk hg, fun a x' _ hs => ?_⟩
  have same (he : x'.table.len = x.table.len) : x.table.len ≤ x'.table.len ∧
      (x.table.len < x'.table.len →
        ∃ slots, x.table.buffers x'.table.ptr = some slots ∧ x'.table.len ≤ slots.length) :=
    ⟨Nat.le_of_eq he.symm, fun hlt => absurd he (Nat.ne_of_gt hlt)⟩
  cases a with
  | call t =>
    rcases callStep_len hinv hs with he | ⟨he, hw⟩
    · exact same he
    · exact ⟨by omega, fun _ => hw⟩
  | alloc | dealloc | deref | drop =>
    simp only [step] at hs
    split at hs <;> cases hs
    exact same rfl
  | read g =>
    simp only [step] at hs
    split at hs
    · cases hs
    · obtain ⟨l, -, rfl⟩ := Option.map_eq_some_iff.mp hs
      exact same rfl
  | store g i v =>
    simp only [step] at hs
    split at hs
    · split at hs <;> cases hs
      exact same rfl
    · cases hs

end Slots

instance (x : Slots) : (a : SlotsAct) → Decidable (SlotsOrder x a)
  | .dealloc _ i | .store _ i _ => inferInstanceAs (Decidable ((x.live i).isSome = true))
  | .alloc _ _ | .call _ | .read _ | .deref _ | .drop _ => .isTrue True.intro

/-- Thread 1 pushes in place while guard 0 is held, and thread 2 waits for the
guard to grow the buffer. -/
theorem readers_never_see_moved_overlap : ∃ x : Slots, x.ReadersOk (.of 1) ∧
    x.views 0 = some (1, 2) ∧ x.calls 2 = .lockGrow 9 ∧ x.guardLoad 0 1 = some 7 := by
  obtain ⟨x, hx, hp⟩ := Lib.Machine.exists_of_runIf (M := slotsMachine (.of 1)) SlotsOrder
    (.alloc 0 5 :: List.replicate 9 (.call 0) ++ [.read 0, .deref 0, .alloc 1 7] ++
      List.replicate 5 (.call 1) ++ [.deref 0, .alloc 2 9, .call 2, .call 2])
    (fun x => x.views 0 == some (1, 2) && x.calls 2 == .lockGrow 9 && x.guardLoad 0 1 == some 7)
    (s := .new) rfl (by decide)
  simp only [Bool.and_eq_true, beq_iff_eq] at hp
  exact ⟨x, Slots.readers_never_see_moved hx, hp.1.1, hp.1.2, hp.2⟩

end TokioRcu
