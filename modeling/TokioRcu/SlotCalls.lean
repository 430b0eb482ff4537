import TokioRcu.SlotAllocator
import TokioRcu.SlotReaders

/-!
# The calls as a whole, and in steps

A call of `alloc` or `dealloc` that nobody disturbs does, access by access,
what the functions of `TokioRcu.SlotTable` do at once.
-/

namespace TokioRcu

namespace Slots

variable {cfg : TableConfig} {x : Slots} {s' : Table} {t : Tid} {i v : Nat}

/-- No lock is taken, and thread `t` is in no call. -/
structure Free (x : Slots) (t : Tid) : Prop where
  writeLock : x.writeLock = none
  curDataLock : x.curDataLock = .unlocked
  idle : x.calls t = .idle

/-- After the call: nobody else notices more than the table. -/
def returned (x : Slots) (s' : Table) (i v : Nat) : Slots :=
  { x with table := s', live := Function.update x.live i (some v) }

theorem Free.update_idle (h : x.Free t) : Function.update x.calls t .idle = x.calls := by
  rw [← h.idle, Function.update_eq_self]

variable (cfg v) in
theorem alloc_alone_reuse (h : x.Free t) (hs : x.table.Sound) {rest : List SlotId}
    (hf : x.table.freeSlots = i :: rest) (hi : i < x.table.len) :
    ∃ s', x.table.alloc cfg v = .ok (i, s') ∧ (slotsMachine cfg).run x
      (.alloc t v :: List.replicate 4 (.call t)) = some (x.returned s' i v) := by
  have hbuf := hs.buffer (Nat.lt_of_lt_of_le (Nat.zero_lt_of_lt hi) hs.len_le)
  refine ⟨_, Table.alloc_reuse_eq hs hf hi, ?_⟩
  simp [Lib.Machine.run, slotsMachine, step, callStep, goto, publish, h.idle, h.writeLock,
    h.update_idle, hf, returned, Table.write, hbuf]

variable (cfg v) in
theorem alloc_alone_first (h : x.Free t) (hs : x.table.Sound) (hf : x.table.freeSlots = [])
    (hc : x.table.capacity = 0) :
    ∃ s', x.table.alloc cfg v = .ok (x.table.len, s') ∧ (slotsMachine cfg).run x
      (.alloc t v :: List.replicate 9 (.call t)) = some (x.returned s' x.table.len v) := by
  have hlen : x.table.len = 0 := Nat.le_zero.mp (hc ▸ hs.len_le)
  refine ⟨_, Table.alloc_first_eq hs hf hc, ?_⟩
  simp [Lib.Machine.run, slotsMachine, step, callStep, goto, publish, h.idle, h.writeLock,
    h.update_idle, hf, hc, hlen, returned, Table.allocBuffer, h.curDataLock, Lib.RwLock.write,
    Lib.RwLock.unlocked, Lib.RwLock.dropWrite]

variable (cfg v) in
theorem alloc_alone_in_place (h : x.Free t) (hs : x.table.Sound) (hf : x.table.freeSlots = [])
    (hc : x.table.len < x.table.capacity) (hm : x.table.len < cfg.maxSlots) :
    ∃ s', x.table.alloc cfg v = .ok (x.table.len, s') ∧ (slotsMachine cfg).run x
      (.alloc t v :: List.replicate 5 (.call t)) = some (x.returned s' x.table.len v) := by
  have hpos := Nat.zero_lt_of_lt hc
  have hbuf := hs.buffer hpos
  have htake : x.table.slots.take x.table.len = x.table.slots :=
    List.take_of_length_le (Nat.le_of_eq hs.length)
  refine ⟨_, Table.alloc_in_place_eq hs hf hc hm, ?_⟩
  simp [Lib.Machine.run, slotsMachine, step, callStep, goto, publish, h.idle, h.writeLock,
    h.update_idle, hf, hc, hm, Nat.ne_of_gt hpos, returned, Table.pushInPlace, hbuf, htake]

variable (cfg v) in
theorem alloc_alone_re_allocating (h : x.Free t) (hs : x.table.Sound) (hf : x.table.freeSlots = [])
    (hpos : 0 < x.table.capacity) (hc : x.table.capacity ≤ x.table.len)
    (hm : x.table.len < cfg.maxSlots) :
    ∃ s', x.table.alloc cfg v = .ok (x.table.len, s') ∧ (slotsMachine cfg).run x
      (.alloc t v :: List.replicate 9 (.call t)) = some (x.returned s' x.table.len v) := by
  have hbuf := hs.buffer hpos
  have htake : x.table.slots.take x.table.len = x.table.slots :=
    List.take_of_length_le (Nat.le_of_eq hs.length)
  refine ⟨_, Table.alloc_re_allocating_eq hs hf hpos hc hm, ?_⟩
  simp [Lib.Machine.run, slotsMachine, step, callStep, goto, publish, h.idle, h.writeLock,
    h.update_idle, hf, Nat.not_lt.mpr hc, hm, Nat.ne_of_gt hpos, returned, Table.pushGrow, hbuf, htake,
    Table.allocBuffer, Table.freeBuffer, h.curDataLock, Lib.RwLock.write, Lib.RwLock.unlocked,
    Lib.RwLock.dropWrite]

/-- An undisturbed call of `alloc`, on whichever way it takes. -/
theorem alloc_alone (h : x.Free t) (hs : x.table.Sound) (hlt : ∀ i ∈ x.table.freeSlots, i < x.table.len)
    (ha : x.table.alloc cfg v = .ok (i, s')) : ∃ n, (slotsMachine cfg).run x
      (.alloc t v :: List.replicate n (.call t)) = some (x.returned s' i v) := by
  cases hf : x.table.freeSlots with
  | cons k rest =>
    obtain ⟨s₁, hk, hr⟩ := alloc_alone_reuse cfg v h hs hf
      (hlt k (hf ▸ List.mem_cons_self))
    cases ha.symm.trans hk
    exact ⟨4, hr⟩
  | nil =>
    rcases Nat.lt_or_ge x.table.len cfg.maxSlots with hm | hm
    · rcases Nat.eq_zero_or_pos x.table.capacity with hz | hpos
      · obtain ⟨s₁, hk, hr⟩ := alloc_alone_first cfg v h hs hf hz
        cases ha.symm.trans hk
        exact ⟨9, hr⟩
      · rcases Nat.lt_or_ge x.table.len x.table.capacity with hc | hc
        · obtain ⟨s₁, hk, hr⟩ := alloc_alone_in_place cfg v h hs hf hc hm
          cases ha.symm.trans hk
          exact ⟨5, hr⟩
        · obtain ⟨s₁, hk, hr⟩ := alloc_alone_re_allocating cfg v h hs hf hpos hc hm
          cases ha.symm.trans hk
          exact ⟨9, hr⟩
    · cases ha.symm.trans (Table.alloc_full hs hf hm)

/-- An undisturbed call of `dealloc`. -/
theorem dealloc_alone (h : x.Free t) (hs : x.table.Sound) (hi : i < x.table.len)
    (hd : x.table.dealloc i = .ok ((), s')) : (slotsMachine cfg).run x
      (.dealloc t i :: List.replicate 4 (.call t)) =
      some { x with table := s', live := Function.update x.live i none } := by
  have hbuf := hs.buffer (Nat.lt_of_lt_of_le (Nat.zero_lt_of_lt hi) hs.len_le)
  have hp : ¬ x.table.poisoned = true := by simp [hs.poisoned]
  rw [Table.dealloc, Table.locked, if_neg hp] at hd
  simp only [Table.storeSlot, hi, if_true, hbuf] at hd
  cases hd
  simp [Lib.Machine.run, slotsMachine, step, callStep, goto, h.idle, h.writeLock,
    h.update_idle, Table.write, hbuf]

end Slots
end TokioRcu
